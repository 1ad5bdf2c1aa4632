import Runbook.Shell.Mkdir
import Runbook.Shell.Field

/-!
# The commands of a shell

What a shell does by itself when it is told so, and the programs that it starts.
-/

namespace Runbook.Shell.Utility

/-- Does something as a command that errors name. -/
def inName {α : Type} (name : Text) (action : Action α) : Action α := do
  let before := (← get).running
  modify fun m => { m with running := some name }
  let result ← action
  modify fun m => { m with running := before }
  return result

/-- Prints to standard output. Without room for it there is an error. -/
def print (name t : Text) : Action Unit := do
  if !(← Action.emit 1 t) then Action.complain 1 (name ++ ": I/O error")

/-- Prints arguments. -/
def runEcho (arguments : List Text) : Action Unit := do
  Action.setStatus 0
  print "echo" (echo arguments)

/-- The arguments behind the mark for the end of the options. An option is an error. -/
def withoutOptions (arguments : List Text) : Except Text (List Text) :=
  match arguments with
  | ['-', '-'] :: rest => .ok rest
  | ('-' :: c :: _) :: _ => .error ("Illegal option -" ++ [c])
  | arguments => .ok arguments

/-- Prints arguments by a format. Behind a mistake in the format it does not matter whether there
was room. -/
def runPrintf (arguments : List Text) : Action Unit := do
  match withoutOptions arguments with
  | .error message => Action.complain 2 message
  | .ok [] => Action.complain 2 "usage: printf format [arg ...]"
  | .ok (format :: rest) =>
    let p := printf format rest
    Action.setStatus 0
    p.complaints.forM (Action.complain p.status)
    if p.status = formatStatus then
      let _ ← Action.emit 1 p.text
    else print "printf" p.text

/-- The options of `cd`, and what stands behind them. -/
def directoryArguments : List Text → Except Text (List Text)
  | [] => .ok []
  | a :: rest =>
    if a = "--".toList then .ok rest
    else
      match a with
      | '-' :: c :: letters =>
        match (c :: letters).find? fun d => d ≠ 'L' && d ≠ 'P' with
        | some d => .error ("Illegal option -" ++ [d])
        | none => directoryArguments rest
      | a => .ok (a :: rest)

/-- Whether a path starts at a certain directory, so that it is looked for nowhere else. -/
def isAnchored (path : Text) : Bool :=
  let first := (FileTree.steps path).head?.getD []
  path.head? = some '/' || first = ".".toList || first = "..".toList

/-- The path that `cd` goes to, and whether it was found in a directory to look in. -/
def lookFor (m : Machine) (path : Text) : Text × Bool :=
  let directories := ((m.bound.get? "CDPATH").map (Text.separate (· = ':'))).getD []
  let isThere (directory : Text) : Bool :=
    (m.tree.directory? m.directory (Text.ofOctets (FileTree.pathWithin directory path))).isSome
  match if isAnchored path then none else directories.find? isThere with
  | none => (path, false)
  | some directory => (FileTree.pathWithin directory path, directory ≠ [])

/-- Changes the directory. Only the end of the path has to be there. -/
def runCd (arguments : List Text) : Action Unit := do
  let m ← get
  match directoryArguments arguments with
  | .error message => Action.complain 2 message
  | .ok operands =>
    let isBack := operands.head? = some "-".toList
    let path :=
      if isBack then (m.bound.get? "OLDPWD").getD []
      else (operands.head?.or (m.bound.get? "HOME")).getD []
    let (found, isElsewhere) := lookFor m path
    let place := FileTree.resolve m.directory (Text.ofOctets found)
    match m.tree.find [] ('/' :: FileTree.display place) with
    | .ok .directory =>
      let old := Machine.pathOf m.directory
      let bound := (m.bound.insert "OLDPWD" old).insert "PWD" (Machine.pathOf place)
      set { m with directory := place, bound, status := 0 }
      if isBack || isElsewhere then print "cd" (Machine.pathOf place ++ "\n")
    | _ => Action.complain 2 ("can't cd to " ++ path)

/-- The largest number that an argument can be. -/
def largestNumber : Int := 0x7fffffff

/-- An argument as a number. -/
def number? (t : Text) : Except Text Nat :=
  let s := scanDecimal t
  if s.found && s.isAll && 0 ≤ s.value && s.value ≤ largestNumber then .ok s.value.toNat
  else .error ("Illegal number: " ++ t)

/-- The first argument as a number; an error ends the shell. -/
def numberArgument (arguments : List Text) (default : Nat) : Action Nat :=
  match arguments with
  | [] => pure default
  | a :: _ =>
    match number? a with
    | .ok n => pure n
    | .error message => Action.abort message

/-- The number of different statuses. -/
def statusLimit : Nat := 256

/-- Leaves the shell. -/
def runExit (arguments : List Text) : Action Unit := do
  let status ← numberArgument arguments (← get).status
  Action.setStatus (status % statusLimit)
  Action.leave

/-- Leaves a definition. -/
def runReturn (arguments : List Text) : Action Unit := do
  let status ← numberArgument arguments (← get).status
  modify fun m => { m with status := status % statusLimit, jump := some .return }

/-- Leaves loops, or goes on with them. -/
def runJump (jump : Nat → Jump) (arguments : List Text) : Action Unit := do
  let n ← numberArgument arguments 1
  if n = 0 then Action.abort ("Illegal number: " ++ arguments.head?.getD [])
  let loops := (← get).loops
  modify fun m =>
    { m with status := 0, jump := if loops = 0 then none else some (jump (min n loops)) }

/-- Sets the variables of arguments that are assignments, and does something with all names. -/
def declareAll (each : Text → Machine → Machine) (arguments : List Text) : Action Unit := do
  Action.setStatus 0
  arguments.forM fun a => do
    let (name, value?) :=
      match Text.splitOnce? "=" a with
      | some (name, value) => (name, some value)
      | none => (a, none)
    if !isName name then Action.abort (name ++ ": bad variable name")
    if let some value := value? then Action.setVariable name value
    modify (each name)

/-- Forgets variables and definitions. -/
def runUnset (arguments : List Text) : Action Unit := do
  Action.setStatus 0
  let isDefinition := arguments.head? = some "-f".toList
  let names := arguments.filter fun a => a.head? ≠ some '-'
  names.forM fun name => do
    if isDefinition then
      modify fun m => { m with definitions := m.definitions.erase name }
    else if !isName name then Action.abort (name ++ ": bad variable name")
    else if (← get).fixed.contains name then Action.abort (name ++ ": is read only")
    else modify fun m => { m with bound := m.bound.erase name }

/-- Sets the positional parameters. -/
def runSet (arguments : List Text) : Action Unit := do
  Action.setStatus 0
  let isSwitch (a : Text) : Bool := a ≠ "--".toList && a.head?.any fun c => c = '-' || c = '+'
  match arguments.dropWhile isSwitch with
  | [] => return
  | a :: rest =>
    let operands := if a = "--".toList then rest else a :: rest
    modify fun m => { m with arguments := operands }

/-- Drops positional parameters from the front. -/
def runShift (arguments : List Text) : Action Unit := do
  let n ← numberArgument arguments 1
  if (← get).arguments.length < n then Action.abort "can't shift that many"
  modify fun m => { m with arguments := m.arguments.drop n, status := 0 }

/-- Prints the directory. -/
def runPwd : Action Unit := do
  Action.setStatus 0
  print "pwd" (Machine.pathOf (← get).directory ++ "\n")

/-- The command of a name, if the shell does it by itself. -/
def action? (name : Text) (arguments : List Text) : Option (Action Unit) :=
  match String.ofList name with
  | "echo" => some (runEcho arguments)
  | "printf" => some (runPrintf arguments)
  | "cd" | "chdir" => some (runCd arguments)
  | "true" | ":" => some (Action.setStatus 0)
  | "false" => some (Action.setStatus 1)
  | "exit" => some (runExit arguments)
  | "return" => some (runReturn arguments)
  | "break" => some (runJump .break arguments)
  | "continue" => some (runJump .continue arguments)
  | "export" => some (declareAll (fun _ m => m) arguments)
  | "readonly" =>
    some (declareAll (fun name m => { m with fixed := name :: m.fixed }) arguments)
  | "unset" => some (runUnset arguments)
  | "set" => some (runSet arguments)
  | "shift" => some (runShift arguments)
  | "pwd" => some runPwd
  | _ => none

/-! ## Programs -/

/-- The statuses of a command that is not there, and of one that cannot be run. -/
def notFoundStatus : Nat := 127

/-- The status of a command that is there but cannot be run. -/
def notRunStatus : Nat := 126

/-- Prints arguments as they are, as a program of its own. -/
def runEchoProgram (name : Text) (arguments : List Text) : Action Unit := do
  let newline := arguments.head? ≠ some "-n".toList
  let operands := if newline then arguments else arguments.tail
  let t := Text.join " " operands ++ if newline then ['\n'] else []
  Action.setStatus 0
  if !(← Action.emit 1 t) then
    Mkdir.complain name ("write error" ++ Mkdir.lossReason (← get))

/-- Runs a program, which is called by a name. -/
def runProgram (program name : Text) (arguments : List Text) : Action Unit :=
  match String.ofList program with
  | "mkdir" => Mkdir.run name arguments
  | "false" => Action.setStatus 1
  | "echo" => runEchoProgram name arguments
  | _ => Action.setStatus 0

/-- The paths that a name of a command can mean. -/
def candidates (m : Machine) (name : Text) : List Text :=
  let directories := Text.separate (· = ':') ((m.bound.get? "PATH").getD [])
  directories.map fun directory => FileTree.pathWithin directory name

/-- The name of a program that one of some paths leads to, or the error if none does. What is there
but is no program is an error of its own. -/
def findProgram (m : Machine) : List Text → FileError → Except FileError Text
  | [], e => .error e
  | path :: rest, e =>
    match m.tree.find m.directory (Text.ofOctets path) with
    | .ok (.program program) => .ok program
    | .ok _ => findProgram m rest .notPermitted
    | .error .notFound | .error .notADirectory => findProgram m rest e
    | .error other => findProgram m rest other

/-- Runs a command that the shell does not do by itself. If it is started without being looked for,
`isDirect`, it makes a difference whether it is there. -/
def runOther (isDirect : Bool) (name : Text) (arguments : List Text) : Action Unit := do
  let m ← get
  let isPath := name.any (· = '/')
  let found :=
    if isPath then m.tree.findProgram m.directory (Text.ofOctets name)
    else findProgram m (candidates m name) .notFound
  match found with
  | .ok program => runProgram program name arguments
  | .error .notPermitted =>
    let status := if isPath || isDirect then notRunStatus else notFoundStatus
    Action.complain status (name ++ ": Permission denied")
  | .error .nameTooLong => Action.complain notFoundStatus (name ++ ": File name too long")
  | .error _ => Action.complain notFoundStatus (name ++ ": not found")

end Runbook.Shell.Utility
