import Runbook.Table
import Runbook.Text.Blank
import Runbook.Text.Lines

/-!
# Variables

A runbook declares variables in lines of the form `name=value`.  The table of variables keeps them
in the order of their first declaration, because they are put into a command one after another.
A name that is declared again keeps its place and takes the new value.
-/

namespace Runbook

/-- Values by variable name, in the order of declaration. -/
abbrev VariableTable := Table Text Text

namespace VariableTable

/-- The declaration on a line. Blank lines, comments, lines without an equals sign and lines
without a name declare nothing; only the first equals sign separates. -/
def declaration? (line : Text) : Option (Text × Text) :=
  let line := Text.trim line
  if line = [] ∨ line.head? = some '#' then none
  else
    match Text.splitOnce? "=" line with
    | none => none
    | some (name, value) =>
      let name := Text.trim name
      if name = [] then none else some (name, Text.trim value)

/-- The declarations of a body, in order. -/
def declarations (body : Text) : List (Text × Text) := (Text.lines body).filterMap declaration?

/-- The variables that a body declares. -/
def parse (body : Text) : VariableTable := Table.ofList (declarations body)

/-- The lines that declare the variables of a table again. -/
def render (table : VariableTable) : Text :=
  Text.unlines (table.entries.map fun (name, value) => name ++ "=" ++ value)

end VariableTable

/-- Where the values of environment variables come from. -/
abbrev Environment := Text → Option Text

namespace Environment

/-- The environment with the given settings. Of several settings of one name the last counts. -/
def ofPairs (pairs : List (Text × Text)) : Environment := (Table.ofList pairs).get?

/-- The environment of a process, given as pairs of a name and a value. A name is looked up as what
stands before an equals sign in the joined form of a pair, so a value that holds an equals sign
answers to a longer name, too. -/
def ofProcess (pairs : List (Text × Text)) : Environment := fun name =>
  if name = [] ∨ '\x00' ∈ name then none
  else pairs.findSome? fun (n, v) => Text.dropFront? (name ++ "=") (n ++ "=" ++ v)

/-- The value of a variable that is set and not empty. -/
def value? (env : Environment) (name : Text) : Option Text :=
  match env name with
  | some value => if value = [] then none else some value
  | none => none

end Environment

end Runbook
