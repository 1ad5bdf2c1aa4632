import Runbook.Execution

/-!
# Lenses

A lens is what an editor shows above an executable block: the actions that a user can take and how
the latest execution of the block stands.
-/

namespace Runbook

/-- An action or a badge above a block. -/
inductive Affordance where
  | execute (request : ExecuteRequest)
  | getEnvVar
  | executing
  /-- The latest execution succeeded; the badge clears the record of the key. -/
  | succeeded (clear : BlockKey)
  /-- The latest execution failed; the badge clears the record of the key. -/
  | failed (clear : BlockKey)
  /-- The latest execution is recent. -/
  | age (seconds : Nat)
deriving DecidableEq

namespace Affordance

/-- What the affordance is labelled with. -/
def title : Affordance → Text
  | .execute _ => "▶ Execute"
  | .getEnvVar => "🔍 Get Env Var"
  | .executing => "⟳ Executing..."
  | .succeeded _ => "✓ Success"
  | .failed _ => "✗ Error"
  | .age seconds => "(" ++ Text.ofNat seconds ++ "s ago)"

/-- The longer explanation of a badge. -/
def tooltip? : Affordance → Option Text
  | .succeeded _ => some "Command executed successfully"
  | .failed _ => some "Command execution failed"
  | _ => none

/-- The badge of a state. -/
def ofState (key : BlockKey) : ExecutionState → Affordance
  | .pending => .executing
  | .success => .succeeded key
  | .failure => .failed key

end Affordance

/-- What is shown above one block. -/
structure Lens where
  key : BlockKey
  name : Text
  /-- The line of the header, counted from 0. -/
  line : Nat
  affordances : List Affordance
deriving DecidableEq

namespace Lens

/-- The request that the lens offers to execute. -/
def executeRequest? (l : Lens) : Option ExecuteRequest :=
  l.affordances.findSome? fun
    | .execute request => some request
    | _ => none

/-- From this age on, in seconds, the age of a record is not shown. -/
def recentSeconds : Nat := 60

/-- The badges of a record. -/
def badges (now : Instant) (key : BlockKey) (record : ExecutionRecord) : List Affordance :=
  let seconds := record.age now
  .ofState key record.state :: if seconds < recentSeconds then [.age seconds] else []

/-- The lens of a block. -/
def ofBlock (document : Document) (declared : VariableTable) (store : StatusStore) (now : Instant)
    (block : Block) : Lens :=
  let key := BlockKey.ofBlock document.uri block
  { key
    name := block.name
    line := Text.lineOf document.text block.start
    affordances :=
      [.execute ⟨block.body, key, declared⟩] ++
        (if block.referencesVariables then [.getEnvVar] else []) ++
        (store.get? key).elim [] (badges now key) }

end Lens

/-- The lenses of a document, one for each executable block, in order. -/
def Document.lenses (document : Document) (store : StatusStore) (now : Instant) : List Lens :=
  let book := document.book
  book.executableBlocks.map (Lens.ofBlock document book.declared store now)

/-- The request that the lens of the live block of a name offers. -/
def Document.request? (document : Document) (store : StatusStore) (now : Instant) (name : Text) :
    Option ExecuteRequest :=
  ((document.lenses store now).reverse.find? (·.name = name)).bind Lens.executeRequest?

end Runbook
