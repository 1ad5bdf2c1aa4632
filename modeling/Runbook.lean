import Runbook.Lint
import Runbook.Main
import Runbook.Program
import Runbook.Proofs.Block.Keys
import Runbook.Proofs.Block.Locality
import Runbook.Proofs.Block.Parts
import Runbook.Proofs.Block.Tiling
import Runbook.Proofs.Book.Indentation
import Runbook.Proofs.Book.LineEndings
import Runbook.Proofs.Book.Live
import Runbook.Proofs.Book.Shadowing
import Runbook.Proofs.Book.Wrapping
import Runbook.Proofs.CommandLine.Shorthand
import Runbook.Proofs.DenyList.Expressions
import Runbook.Proofs.DenyList.Inheritance
import Runbook.Proofs.DenyList.Shape
import Runbook.Proofs.DenyList.Surroundings
import Runbook.Proofs.Execution.Agreement
import Runbook.Proofs.Execution.AllOrNothing
import Runbook.Proofs.Execution.Cancelling
import Runbook.Proofs.Execution.Consent
import Runbook.Proofs.Execution.Current
import Runbook.Proofs.Execution.Danger
import Runbook.Proofs.Execution.Interleaving
import Runbook.Proofs.Execution.Outcome
import Runbook.Proofs.Execution.Result
import Runbook.Proofs.FileSystem.Ways
import Runbook.Proofs.Fixture.Discovery
import Runbook.Proofs.Fixture.FrontMatter
import Runbook.Proofs.Fixture.Running
import Runbook.Proofs.Fixture.Selection
import Runbook.Proofs.Fixture.Verdict
import Runbook.Proofs.Include.Acyclic
import Runbook.Proofs.Include.Calls
import Runbook.Proofs.Include.Composition
import Runbook.Proofs.Include.Directive
import Runbook.Proofs.Include.Expansion
import Runbook.Proofs.Include.Grammar
import Runbook.Proofs.Include.Reach
import Runbook.Proofs.Include.Resolved
import Runbook.Proofs.Include.Restored
import Runbook.Proofs.Lens.EnvironmentBadge
import Runbook.Proofs.Lens.Mirror
import Runbook.Proofs.Lint.Clean
import Runbook.Proofs.Lint.Cycles
import Runbook.Proofs.Lint.Findings
import Runbook.Proofs.Lint.Places
import Runbook.Proofs.Lint.Truth
import Runbook.Proofs.Reference.Adjacent
import Runbook.Proofs.Reference.Braces
import Runbook.Proofs.Reference.Hiding
import Runbook.Proofs.Reference.Meaning
import Runbook.Proofs.Reference.Passes
import Runbook.Proofs.Reference.Pieces
import Runbook.Proofs.Reference.Plain
import Runbook.Proofs.Reference.Whole
import Runbook.Proofs.Run.ExitCode
import Runbook.Proofs.Run.Fates
import Runbook.Proofs.Session.Moments
import Runbook.Proofs.Session.Pending
import Runbook.Proofs.Status.Broadcast
import Runbook.Proofs.Status.Subscribers
import Runbook.Proofs.Text.Ends
import Runbook.Proofs.Text.LineEndings
import Runbook.Proofs.Text.Lines
import Runbook.Proofs.Text.Numbering
import Runbook.Proofs.Text.Order
import Runbook.Proofs.Text.Places
import Runbook.Proofs.Text.Replacing
import Runbook.Proofs.Text.Returns
import Runbook.Proofs.Variables.History
import Runbook.Proofs.Variables.Rendering
import Runbook.Session
