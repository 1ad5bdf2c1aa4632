import Runbook.Text.Replace
import Runbook.Variables

/-!
# References to variables

A command refers to a variable in one of three forms: braced, `${NAME}`; bare, `$NAME`; and from the
environment, `{process.env.NAME}`.  Expansion works in passes over the whole text:

1. each declared variable in the order of the table, first its braced and then its bare form;
2. references to the environment, in the order environment form, braced form, bare form.

So a declared variable hides the environment in the braced and the bare form.  A reference that
nothing resolves stays as it is.
-/

namespace Runbook

/-- The characters that names of bare references are made of. -/
def isIdentifierChar (c : Char) : Bool := c.isAlphanum || c = '_'

/-- The characters that a name of a bare reference may start with. -/
def isIdentifierStart (c : Char) : Bool := c.isAlpha || c = '_'

namespace Reference

/-- The braced form of a reference. -/
def braced (name : Text) : Text := "$\x7b" ++ name ++ "\x7d"

/-- The bare form of a reference. -/
def bare (name : Text) : Text := '$' :: name

/-- The environment form of a reference. -/
def processEnv (name : Text) : Text := "\x7bprocess.env." ++ name ++ "\x7d"

/-! ## Declared variables -/

/-- Recognises the bare form of one name. It is replaced only where no longer identifier stands;
else it is kept and passed over. -/
def bareOf (name value : Text) : Text.Recogniser := fun t =>
  match Text.dropFront? (bare name) t with
  | none => none
  | some rest =>
    if rest.head?.any isIdentifierChar then some (bare name, (bare name).length)
    else some (value, (bare name).length)

/-- Replaces the bare form of one name where it is not the front of a longer identifier. -/
def replaceBare (name value t : Text) : Text := Text.replaceBy (bareOf name value) t

/-- Puts in the value of one declared variable. -/
def expandDeclared (t : Text) (declaration : Text × Text) : Text :=
  replaceBare declaration.1 declaration.2 (Text.replaceAll (braced declaration.1) declaration.2 t)

/-! ## The environment -/

/-- Finds the name of a reference at the front of a text, and the length of the reference. -/
abbrev Form := Text → Option (Text × Nat)

/-- Finds a name between `opening` and a closing brace. -/
def enclosed (opening : Text) : Form := fun t =>
  match Text.dropFront? opening t with
  | none => none
  | some rest =>
    let name := rest.takeWhile (· ≠ '}')
    if name = [] ∨ rest.dropWhile (· ≠ '}') = [] then none
    else some (name, opening.length + name.length + 1)

/-- Finds the environment form. -/
def processEnvForm : Form := enclosed "\x7bprocess.env."

/-- Finds the braced form. -/
def bracedForm : Form := enclosed "$\x7b"

/-- Finds the bare form, with the longest identifier behind the dollar sign. -/
def bareForm : Form := fun t =>
  match t with
  | '$' :: rest =>
    let name := rest.takeWhile isIdentifierChar
    if name.head?.any isIdentifierStart then some (name, name.length + 1) else none
  | _ => none

/-- Recognises references of one form. A variable that is unset or empty keeps its reference. -/
def resolving (form : Form) (env : Environment) : Text.Recogniser := fun t =>
  (form t).map fun (name, count) => ((env.value? name).getD (t.take count), count)

/-- Puts in the values of the environment for references of one form. -/
def substitute (form : Form) (env : Environment) (t : Text) : Text :=
  Text.replaceBy (resolving form env) t

/-! ## All passes -/

/-- Replaces the references in a command by the values of variables. -/
def expand (command : Text) (declared : VariableTable) (env : Environment) : Text :=
  let command := declared.entries.foldl expandDeclared command
  let command := substitute processEnvForm env command
  let command := substitute bracedForm env command
  substitute bareForm env command

end Reference

end Runbook
