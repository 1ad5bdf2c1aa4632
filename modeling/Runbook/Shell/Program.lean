import Runbook.Config
import Runbook.Run
import Runbook.Shell.Evaluation

/-!
# The small shell

The shell that the program is run with here, on a file tree: it knows the commands and utilities of
`Runbook.Shell` and no others.  The program takes its shell as it is given to it, and nothing that
is proved of it depends on this one.
-/

namespace Runbook.Shell

/-- Where shells are started. -/
structure Site where
  tree : FileTree
  directory : Place
  /-- The environment variables. -/
  environment : List (Text × Text)

namespace Site

/-- The search path if none is set. -/
def defaultSearchPath : Text := "/bin:/usr/bin"

/-- The program that one of some paths leads to. A file that cannot be run is an error only if no
program follows. -/
def searchProgram (s : Site) : List Text → FileError → Except FileError Text
  | [], e => .error e
  | path :: rest, e =>
    match s.tree.findProgram s.directory path with
    | .ok program => .ok program
    | .error .notPermitted => searchProgram s rest .notPermitted
    | .error .nameTooLong => .error .nameTooLong
    | .error _ => searchProgram s rest e

/-- The program that a shell is, or why it does not start. -/
def findShell (s : Site) (shell : Text) : Except FileError Text :=
  if '\x00' ∈ shell then .error .holdsNul
  else if shell = [] then .error .notFound
  else if '/' ∈ shell then s.tree.findProgram s.directory shell
  else if FileTree.longestName < Text.byteLength shell then .error .nameTooLong
  else
    let searchPath := (Environment.ofProcess s.environment "PATH").getD defaultSearchPath
    let paths := (Text.separate (· = ':') searchPath).map fun directory =>
      FileTree.pathWithin directory shell
    s.searchProgram paths .notFound

/-- The names of the program that runs commands. -/
def shellNames : List Text := ["sh", "dash"]

/-- The machine behind an input, and whether it has come to its end. If that is not all of the
input, more may follow. Another program takes no commands. -/
def machineAfter (s : Site) (shell : Text) (isAll : Bool) (input : Text) : Machine × Bool :=
  let m := Machine.start shell s.tree s.directory s.environment
  let program := (s.findShell shell).toOption.getD []
  if shellNames.contains program then m.run isAll input
  else (((Utility.runProgram program (Text.toOctets shell) []).run m).2, true)

/-- The small shell of a configuration. It takes commands faster than it runs them, unless there is
a delay between them; then it may have left before. -/
def program (s : Site) (config : Config) : ShellProgram :=
  let input (sent : List Sending) : Text := Text.unlines (sent.filterMap Except.toOption)
  { start _ := ((s.findShell config.shell).map fun _ => ()).mapError FileError.message
    write sent _ :=
      let hasEnded := (s.machineAfter config.shell false (input sent)).2
      if config.executor.completionDelay ≠ 0 && !(input sent).isEmpty && hasEnded then
        .error "Broken pipe (os error 32)"
      else .ok ()
    finish sent :=
      let m := (s.machineAfter config.shell true (input sent)).1
      ⟨.exited m.status, m.out, m.err, m.tree⟩ }

end Site

end Runbook.Shell
