import Runbook.Text.Basic

/-!
# The shorthand for running blocks

The command `run` may be left out: where a file stands in place of a command, `run` is meant.  The
place is found behind the global options, of which `--config` takes a value.
-/

namespace Runbook.CommandLine

/-- The words that name a command. -/
def commandWords : List Text := ["run", "expand", "list", "vars", "env", "check", "test", "help"]

/-- The global options whose value is the next argument. -/
def optionsWithValue : List Text := ["--config"]

/-- Whether an argument is written like an option. -/
def isOption (argument : Text) : Bool := argument.head? = some '-'

/-- Arguments with `run` before the first one that is no option and no value of one, unless that
names a command. With `skip`, the first argument is the value of an option. -/
def insertRun (skip : Bool) : List Text → List Text
  | [] => []
  | argument :: rest =>
    if skip then argument :: insertRun false rest
    else if isOption argument then
      argument :: insertRun (optionsWithValue.contains argument) rest
    else if commandWords.contains argument then argument :: rest
    else "run" :: argument :: rest

/-- The arguments of a program, the first of which is its name, with the shorthand written out. -/
def withImplicitRun : List Text → List Text
  | [] => []
  | program :: arguments => program :: insertRun false arguments

end Runbook.CommandLine
