import Runbook.Shell.Arithmetic
import Runbook.Shell.Reader
import Runbook.Shell.Utility

/-!
# Running commands

The pieces of a word may run commands, and commands have words, so both are worked out by functions
that call each other.  A shell can run for ever; the fuel says when it is given up.

`Machine.run` runs an input command by command: what a command does happens before the next one is
read.
-/

namespace Runbook.Shell

/-! ## Parameters -/

namespace Machine

/-- The characters that separate fields. -/
def separators (m : Machine) : Text := (m.bound.get? "IFS").getD " \t\n"

/-- What stands between the arguments when they become one text. -/
def argumentSeparator (m : Machine) : Text :=
  match m.bound.get? "IFS" with
  | none => " "
  | some separators => separators.take 1

/-- The value of a parameter, if it has one. -/
def value? (m : Machine) (name : Text) : Option Text :=
  match String.ofList name with
  | "?" => some (Text.ofNat m.status)
  | "#" => some (Text.ofNat m.arguments.length)
  | "0" => some m.name
  | "-" => some "s"
  | "$" => some "1"
  | "!" => none
  | "@" | "*" => some (Text.join m.argumentSeparator m.arguments)
  | _ =>
    if name.all Char.isDigit then
      match digitsValue 10 name with
      | 0 => some m.name
      | n + 1 => m.arguments[n]?
    else m.bound.get? name

/-- The chunks of a value. -/
def chunksOf (quoted : Bool) (t : Text) : List Chunk :=
  [if quoted then .plain t true else .value t]

/-- The chunks of the value of a parameter. -/
def parameterChunks (m : Machine) (quoted : Bool) (name : Text) : List Chunk :=
  let isRow := name = "@".toList || name = "*".toList && !quoted
  if isRow then
    (m.arguments.map (chunksOf quoted)).intersperse [.border] |>.flatten
  else chunksOf quoted ((m.value? name).getD [])

/-! ## Tildes -/

/-- The home directories of some users. -/
def userHomes : List (Text × Text) :=
  [("root", "/root"), ("daemon", "/usr/sbin"), ("bin", "/bin"), ("sys", "/dev"),
    ("www-data", "/var/www"), ("nobody", "/nonexistent")]

/-- The home directory of a user; that of the variable if none is named. -/
def home? (m : Machine) (user : Text) : Option Text :=
  if user = [] then m.bound.get? "HOME" else userHomes.lookup user

/-- A part of a word that starts with a tilde, with a home directory in its place. Behind a part
that is `open`, more of the same name could follow. -/
def tildePart (m : Machine) (isOpen : Bool) (t : Text) : Word :=
  match t with
  | '~' :: behind =>
    let user := behind.takeWhile (· ≠ '/')
    let rest := behind.drop user.length
    if isOpen && rest = [] then [.text t false]
    else
      match m.home? user with
      | some home =>
        (if home = [] then [] else [.text home true]) ++
          if rest = [] then [] else [.text rest false]
      | none => [.text t false]
  | t => [.text t false]

/-- The word with home directories in place of tildes: at its front, and in an assignment behind
colons. -/
def replaceTildes (m : Machine) (isAssignment : Bool) : (atFront : Bool) → Word → Word
  | _, [] => []
  | atFront, .text t false :: rest =>
    let parts := if isAssignment then Text.separate (· = ':') t else [t]
    let count := parts.length
    let treated := parts.zipIdx.map fun (part, i) =>
      let isOpen := i + 1 = count && !rest.isEmpty
      if i = 0 && !atFront then [.text part false] else m.tildePart isOpen part
    (treated.intersperse [.text [':'] false]).flatten ++ replaceTildes m isAssignment false rest
  | _, p :: rest => p :: replaceTildes m isAssignment false rest

end Machine

/-! ## Redirections -/

/-- The error about a file that cannot be opened. -/
def openError (kind : RedirectKind) (path : Text) (e : FileError) : Text :=
  let isMissing := e = .notFound || e = .notADirectory
  if kind = .read then
    "cannot open " ++ path ++ ": " ++ (if isMissing then "No such file".toList else e.description)
  else
    "cannot create " ++ path ++ ": " ++
      (if isMissing then "Directory nonexistent".toList else e.description)

/-- Lets a descriptor lead where a redirection says; whether that was possible. If the descriptor is
put aside for later, an error about it comes when it is already closed. -/
def applyRedirect (isPutAside : Bool) (descriptor : Nat) (kind : RedirectKind) (target : Text) :
    Action Bool := do
  let m ← get
  let settle (opened : Except FileError (Stream × Machine)) : Action Bool :=
    match opened with
    | .ok (stream, m) => do
      set (m.connect descriptor (some stream))
      return true
    | .error e => do
      Action.complain 2 (openError kind target e)
      return false
  match kind with
  | .write => settle (m.openTo target true false)
  | .append => settle (m.openTo target false true)
  | .readWrite => settle (m.openTo target false false)
  | .read => settle ((m.openFrom target).map (·, m))
  | .lines =>
    set (m.connect descriptor (some .source))
    return true
  | .duplicate =>
    if target = "-".toList then
      set (m.connect descriptor none)
      return true
    else if digitsValue 10 target = descriptor then return true
    else
      match m.stream? (digitsValue 10 target) with
      | some stream =>
        set (m.connect descriptor (some stream))
        return true
      | none =>
        if isPutAside then set (m.connect descriptor none)
        Action.complain 2 (target ++ ": Bad file descriptor")
        return false

/-- Applies redirections one after another; whether all were possible. Those of the descriptors
`seen` do not put them aside, and if nothing is to be put aside `seen` is missing. -/
def applyRedirects : (seen : Option (List Nat)) → List (Nat × RedirectKind × Text) → Action Bool
  | _, [] => return true
  | seen, (descriptor, kind, target) :: rest => do
    let isPutAside := seen.any fun ds => !ds.contains descriptor
    if ← applyRedirect isPutAside descriptor kind target then
      applyRedirects (seen.map (descriptor :: ·)) rest
    else return false

/-- Lets the descriptors lead where they did. -/
def restoreDescriptors (before : Machine) : Action Unit :=
  modify fun m => { m with descriptors := before.descriptors }

/-- Gives variables the values that they had. -/
def restoreVariables (before : Machine) (names : List Text) : Action Unit :=
  modify fun m =>
    { m with bound := names.foldl (fun bound name =>
        match before.bound.get? name with
        | some value => bound.insert name value
        | none => bound.erase name) m.bound }

/-! ## Evaluation -/

/-- What a loop does behind a round of its body: it goes on or not. A jump out of this loop alone
has come to its end. -/
def goesOn : Action Bool := do
  let m ← get
  match m.jump with
  | none => return true
  | some (.break n) =>
    set { m with jump := if n ≤ 1 then none else some (.break (n - 1)) }
    return false
  | some (.continue n) =>
    set { m with jump := if n ≤ 1 then none else some (.continue (n - 1)) }
    return n ≤ 1
  | some .return => return false

/-- Does something as the body of a loop. -/
def inLoop {α : Type} (action : Action α) : Action α := do
  modify fun m => { m with loops := m.loops + 1 }
  let result ← action
  modify fun m => { m with loops := m.loops - 1 }
  return result

/-- The error about a parameter that has no value. -/
def noValue (name : Text) (emptyToo : Bool) : Text :=
  name ++ ": parameter not set" ++ (if emptyToo then " or null".toList else [])

/-- The commands whose arguments may be assignments. -/
def declaringCommands : List Text := ["export", "readonly"]

/-- The line of the command that runs. -/
def setLine (line : Nat) : Action Unit := modify fun m => { m with line }

mutual

/-- Replaces a piece of a word. A text that is not quoted falls into fields if `splits` says so. -/
def expandPiece : Nat → (splits : Bool) → Piece → Action (List Chunk)
  | 0, _, _ => return []
  | fuel + 1, splits, p => do
    match p with
    | .text t quoted => return [if splits && !quoted then .value t else .plain t quoted]
    | .parameter name use quoted => expandParameter fuel name use quoted
    | .output body quoted =>
      return Machine.chunksOf quoted (← outputOf fuel body)
    | .arithmetic expression quoted =>
      let t := (wholeOf " " (← expandWord fuel false expression)).text
      let m ← get
      let (result, bound) := Arithmetic.evaluate t m.fixed m.bound
      set { m with bound }
      match result with
      | .ok n => return Machine.chunksOf quoted (Arithmetic.written n)
      | .error mistake => Action.abort (mistake.message t)

/-- Replaces the pieces of a word. -/
def expandWord : Nat → (splits : Bool) → Word → Action (List Chunk)
  | 0, _, _ => return []
  | fuel + 1, splits, w => do return (← w.mapM (expandPiece fuel splits)).flatten

/-- Replaces the pieces of a word that is not to fall into fields. -/
def expandWhole : Nat → (isAssignment : Bool) → Word → Action Marked
  | 0, _, _ => return []
  | fuel + 1, isAssignment, w => do
    let m ← get
    let chunks ← expandWord fuel false (m.replaceTildes isAssignment true w)
    return wholeOf m.argumentSeparator chunks

/-- Replaces a parameter by what is made of its value. -/
def expandParameter : Nat → Text → Use → (quoted : Bool) → Action (List Chunk)
  | 0, _, _, _ => return []
  | fuel + 1, name, use, quoted => do
    let m ← get
    let value? := m.value? name
    let isSet (emptyToo : Bool) : Bool := value?.any fun v => !(emptyToo && v.isEmpty)
    let other (w : Word) : Action (List Chunk) :=
      expandWord fuel (!quoted) (m.replaceTildes false true w)
    match use with
    | .value => return m.parameterChunks quoted name
    | .length =>
      return Machine.chunksOf quoted (Text.ofNat ((value?.getD []).length))
    | .orElse emptyToo w =>
      if isSet emptyToo then return m.parameterChunks quoted name else other w
    | .andThen w => return m.parameterChunks quoted name ++ (← other w)
    | .ifSet emptyToo w => if isSet emptyToo then other w else return []
    | .orAssign emptyToo w =>
      if isSet emptyToo then return m.parameterChunks quoted name
      else
        let t ← expandWhole fuel false w
        if !isName name then Action.abort (name ++ ": bad variable name")
        Action.setVariable name t.text
        return Machine.chunksOf quoted t.text
    | .orFail emptyToo w =>
      if isSet emptyToo then return m.parameterChunks quoted name
      else
        let t ← expandWhole fuel false w
        Action.abort (if w.isEmpty then noValue name emptyToo else name ++ ": " ++ t.text)
    | .dropFront longest w =>
      match value? with
      | none => return []
      | some v =>
        let pattern := Pattern.ofMarked (← expandWhole fuel false w)
        return Machine.chunksOf quoted (pattern.dropFront longest v)
    | .dropBack longest w =>
      match value? with
      | none => return []
      | some v =>
        let pattern := Pattern.ofMarked (← expandWhole fuel false w)
        return Machine.chunksOf quoted (pattern.dropBack longest v)
    | .unknown => Action.abort "Bad substitution"

/-- What a command prints, without the line endings at its end. -/
def outputOf : Nat → Command → Action Text
  | 0, _ => return []
  | fuel + 1, body => do
    let m ← get
    let number := m.pipes.length
    set { m with pipes := m.pipes ++ [[]] }
    Action.inCopy do
      modify fun copy => copy.connect 1 (some (.pipe number))
      match body with
      | .nothing => Action.setStatus 0
      | body => runCommand fuel body
    let behind ← get
    set { behind with status := m.status, outputStatus := behind.status }
    let printed := (behind.pipes[number]?.getD []).filter (· ≠ '\x00')
    return Text.dropEndWhile (· = '\n') printed

/-- The fields of a word. -/
def fieldsOfWord : Nat → Word → Action (List Text)
  | 0, _ => return []
  | fuel + 1, w => do
    let chunks ← expandWord fuel false ((← get).replaceTildes false true w)
    let m ← get
    return (fieldsOf m.separators chunks).flatMap (expandPaths m.tree m.directory)

/-- The fields of words. Behind a command that declares variables, assignments are taken whole. -/
def fieldsOfWords : Nat → List Word → Action (List Text)
  | 0, _ => return []
  | fuel + 1, ws =>
    ws.foldlM (fun before w => do
      let declares := before.head?.any declaringCommands.contains
      match if declares then assignment? w else none with
      | some (name, value) =>
        let t ← expandWhole fuel true value
        return before ++ [name ++ '=' :: t.text]
      | none => return before ++ (← fieldsOfWord fuel w)) []

/-- The targets of redirections. -/
def targetsOf : Nat → List Redirect → Action (List (Nat × RedirectKind × Text))
  | 0, _ => return []
  | fuel + 1, rs =>
    rs.mapM fun
      | .mk descriptor kind w => do
        if kind = .lines then return (descriptor, kind, [])
        let t := (← expandWhole fuel false w).text
        if kind = .duplicate && t ≠ "-".toList && !(t.length = 1 && t.all Char.isDigit) then
          setLine (← get).readLine
          Action.abort "Syntax error: Bad fd number"
        return (descriptor, kind, t)

/-- Does something with redirections, unless they fail. -/
def redirected : Nat → List Redirect → Action Unit → Action Unit
  | 0, _, _ => return
  | fuel + 1, rs, action => do
    let targets ← targetsOf fuel rs
    let before ← get
    if ← applyRedirects (some []) targets then action
    restoreDescriptors before

/-- Runs a command. -/
def runCommand : Nat → Command → Action Unit
  | 0, _ => return
  | fuel + 1, command => do
    if (← get).jump.isSome then return
    match command with
    | .nothing => return
    | .simple line assignments words redirects => runSimple fuel line assignments words redirects
    | .sequence first second =>
      runCommand fuel first
      runCommand fuel second
    | .onSuccess first second =>
      runCommand fuel first
      if (← get).status = 0 then runCommand fuel second
    | .onFailure first second =>
      runCommand fuel first
      if (← get).status ≠ 0 then runCommand fuel second
    | .negation body =>
      runCommand fuel body
      let m ← get
      if m.jump.isNone then Action.setStatus (if m.status = 0 then 1 else 0)
    | .background body =>
      Action.inCopy do
        modify fun copy => copy.connect 0 (some .source)
        runCommand fuel body
      Action.setStatus 0
    | .pipeline parts => runPipeline fuel parts
    | .redirected line body redirects =>
      setLine line
      redirected fuel redirects (runCommand fuel body)
    | .subshell line body redirects =>
      setLine line
      let targets ← targetsOf fuel redirects
      Action.inCopy do
        if ← applyRedirects none targets then runCommand fuel body
    | .branch condition yes no =>
      runCommand fuel condition
      let m ← get
      if m.jump.isSome then return
      if m.status = 0 then runCommand fuel yes
      else
        match no with
        | .nothing => Action.setStatus 0
        | no => runCommand fuel no
    | .loop untilSuccess condition body => inLoop (runLoop fuel untilSuccess condition body 0)
    | .each line name words body =>
      setLine line
      let fields ← (words.mapM (fieldsOfWord fuel)).map List.flatten
      if fields = [] then Action.setStatus 0
      inLoop (runEach fuel name body fields)
    | .choice line word cases =>
      setLine line
      let t := (← expandWhole fuel false word).text
      runChoice fuel t cases
    | .definition name body =>
      modify fun m => { m with definitions := m.definitions.insert name body, status := 0 }

/-- Runs commands side by side, where the output of each goes to the next. None of them sees the
status of another. -/
def runPipeline : Nat → List Command → Action Unit
  | 0, _ => return
  | _ + 1, [] => return
  | fuel + 1, [last] => Action.inCopy do runCommand fuel last
  | fuel + 1, part :: rest => do
    let m ← get
    let number := m.pipes.length
    set { m with pipes := m.pipes ++ [[]] }
    Action.inCopy do
      modify fun copy => copy.connect 1 (some (.pipe number))
      runCommand fuel part
    Action.setStatus m.status
    runPipeline fuel rest

/-- Runs a loop. The status is that of the last round, or that of no round. -/
def runLoop : Nat → Bool → Command → Command → Nat → Action Unit
  | 0, _, _, _, _ => return
  | fuel + 1, untilSuccess, condition, body, status => do
    runCommand fuel condition
    let m ← get
    if m.jump.isSome then
      if ← goesOn then runLoop fuel untilSuccess condition body status
    else if (m.status = 0) = !untilSuccess then
      runCommand fuel body
      let behind := (← get).status
      if ← goesOn then runLoop fuel untilSuccess condition body behind
    else Action.setStatus status

/-- Runs a body for each of some values of a variable. -/
def runEach : Nat → Text → Command → List Text → Action Unit
  | 0, _, _, _ => return
  | _ + 1, _, _, [] => return
  | fuel + 1, name, body, value :: rest => do
    Action.setVariable name value
    runCommand fuel body
    if ← goesOn then runEach fuel name body rest

/-- Runs the first case with a pattern that describes a text. -/
def runChoice : Nat → Text → List (List Word × Command) → Action Unit
  | 0, _, _ => return
  | _ + 1, _, [] => Action.setStatus 0
  | fuel + 1, t, (patterns, body) :: rest => do
    if ← matchesOne fuel t patterns then
      match body with
      | .nothing => Action.setStatus 0
      | body => runCommand fuel body
    else runChoice fuel t rest

/-- Whether one of some patterns describes a text. -/
def matchesOne : Nat → Text → List Word → Action Bool
  | 0, _, _ => return false
  | _ + 1, _, [] => return false
  | fuel + 1, t, w :: rest => do
    let pattern := Pattern.ofMarked (← expandWhole fuel false w)
    if pattern.matches t then return true else matchesOne fuel t rest

/-- Sets variables. -/
def assignAll : Nat → List (Text × Word) → Action Unit
  | 0, _ => return
  | fuel + 1, assignments =>
    assignments.forM fun (name, w) => do
      Action.setVariable name (← expandWhole fuel true w).text

/-- Runs a simple command. If it cannot be redirected, it is not run; then a command that is about
the shell itself ends it. Variables that are set for one command get their values back. -/
def runSimple : Nat → Nat → List (Text × Word) → List Word → List Redirect → Action Unit
  | 0, _, _, _, _ => return
  | fuel + 1, line, assignments, words, redirects => do
    modify fun m => { m with line, outputStatus := 0 }
    let fields ← fieldsOfWords fuel words
    setLine line
    let before ← get
    let isSpecial := fields.head?.any specialCommands.contains
    let targets ← targetsOf fuel redirects
    if ← applyRedirects (some []) targets then
      match fields with
      | [] =>
        assignAll fuel assignments
        modify fun m => { m with status := m.outputStatus }
      | name :: arguments =>
        assignAll fuel assignments
        runNamed fuel name arguments
        if !isSpecial then restoreVariables before (assignments.map Prod.fst)
      let isLasting := fields = ["exec".toList]
      if !isLasting then restoreDescriptors before
    else
      restoreDescriptors before
      if isSpecial then Action.leave

/-- Runs the command of a name. -/
def runNamed : Nat → Text → List Text → Action Unit
  | 0, _, _ => return
  | fuel + 1, name, arguments => do
    let m ← get
    if name = "eval".toList then
      Utility.inName name (runText fuel (Text.join " " arguments))
    else if name = "exec".toList then
      match arguments with
      | [] => Action.setStatus 0
      | program :: rest =>
        Utility.inName name (Utility.runOther true program rest)
        Action.leave
    else
      match if specialCommands.contains name then none else m.definitions.get? name with
      | some body =>
        set { m with arguments, loops := 0 }
        runCommand fuel body
        modify fun behind =>
          { behind with
            arguments := m.arguments
            loops := m.loops
            jump := if behind.jump = some .return then none else behind.jump }
      | none =>
        match Utility.action? name arguments with
        | some action => Utility.inName name action
        | none => Utility.runOther false name arguments

/-- Runs the commands of a text. -/
def runText : Nat → Text → Action Unit
  | 0, _ => return
  | fuel + 1, t => do
    runRest fuel (.start t)

/-- Runs the commands that are left of a text. -/
def runRest : Nat → Cursor → Action Unit
  | 0, _ => return
  | fuel + 1, c => do
    match readCommand c with
    | .ok none => return
    | .ok (some r) =>
      runCommand fuel r.command
      runRest fuel r.cursor
    | .error e =>
      setLine e.line
      Action.abort ("Syntax error: " ++ e.mistake.message)

end

/-! ## Input -/

/-- How deep evaluation goes before it is given up. -/
def patience : Nat := 10000

/-- Runs the commands that are left of an input, in at most `fuel` steps; whether the shell has come
to its end. If more input may follow, a command that could go on is left alone. -/
def runInput (isAll : Bool) : Nat → Cursor → Action Unit
  | 0, _ => return
  | fuel + 1, c => do
    match readCommand c with
    | .ok none => if isAll then Action.leave else return
    | .ok (some r) =>
      if !isAll && r.cursor.ended then return
      modify fun m => { m with readLine := r.cursor.line }
      runCommand patience r.command
      if (← get).jump.isSome then Action.leave
      runInput isAll fuel r.cursor
    | .error e =>
      if !isAll && e.ended then return
      setLine e.line
      Action.abort ("Syntax error: " ++ e.mistake.message)

/-- Runs an input, whose bytes that are zero do not count; also whether the shell has come to its
end. -/
def Machine.run (m : Machine) (isAll : Bool) (input : Text) : Machine × Bool :=
  let bytes := (Text.toOctets input).filter (· ≠ '\x00')
  let (result, m) := (runInput isAll (bytes.length + 1) (.start bytes)).run m
  (m, !result.toBool)

end Runbook.Shell
