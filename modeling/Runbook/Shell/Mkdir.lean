import Runbook.Shell.Machine
import Runbook.Shell.Printing

/-!
# Making directories

The command `mkdir`: its options, how it names what it works on, and what it does to the tree.
-/

namespace Runbook.Shell.Mkdir

/-! ## Names in messages -/

/-- Whether a byte is an ASCII character that can be seen, or a blank. -/
def isPrintable (c : Char) : Bool := ' ' ≤ c && c ≤ '~'

/-- The letter that stands for a character behind a backslash. -/
def letterOf? : Char → Option Char
  | '\x07' => some 'a'
  | '\x08' => some 'b'
  | '\t' => some 't'
  | '\n' => some 'n'
  | '\x0b' => some 'v'
  | '\x0c' => some 'f'
  | '\r' => some 'r'
  | _ => none

/-- A character that cannot be seen, behind a backslash. -/
def escaped (c : Char) : Text :=
  match letterOf? c with
  | some letter => ['\\', letter]
  | none =>
    let digits := Nat.toDigits 8 c.toNat
    '\\' :: (List.replicate (3 - digits.length) '0' ++ digits)

/-- A name between single quotes, for a reader. -/
def quoted (name : Text) : Text :=
  let shown := name.flatMap fun c =>
    if c = '\'' || c = '\\' then ['\\', c] else if isPrintable c then [c] else escaped c
  '\'' :: shown ++ ['\'']

/-- Whether a character means the same between double quotes to a shell and to a reader. -/
def isPlainCharacter (first : Bool) (alone : Bool) (c : Char) : Bool :=
  if c = '#' || c = '~' then first
  else if c = '\x7b' || c = '\x7d' then alone
  else isPrintable c && !"\\!\"$&()*;<=>?[^|".toList.any (· = c) && c ≠ Char.ofNat 0x60

/-- A name with single quotes within, where what cannot be seen has quotes of its own. The flag says
whether such quotes are open. -/
def shellQuotedFrom : (inEscape : Bool) → Text → Text
  | _, [] => ['\'']
  | inEscape, c :: t =>
    let close : Text := if inEscape then "''" else []
    if c = '\'' then close ++ "'\\''" ++ shellQuotedFrom false t
    else if isPrintable c then close ++ [c] ++ shellQuotedFrom false t
    else (if inEscape then [] else "'$'") ++ escaped c ++ shellQuotedFrom true t

/-- A name in quotes, for a shell. -/
def shellQuoted (name : Text) : Text :=
  let plain := isPlainCharacter true (name.length = 1) (name.head?.getD 'a') &&
    name.tail.all (isPlainCharacter false false)
  if name.any (· = '\'') && plain then '"' :: name ++ ['"']
  else '\'' :: shellQuotedFrom false name

/-! ## Options -/

/-- What is asked for. -/
structure Request where
  /-- Whether the directories that others lie in are made, too. -/
  parents : Bool
  /-- Whether each new directory is reported. -/
  verbose : Bool
  /-- The access rights, as they are written. -/
  mode : Option Text
  operands : List Text

/-- Why the options cannot be understood. -/
inductive OptionError where
  | unknownLetter (c : Char)
  | unknown (written : Text)
  | ambiguous (written : Text) (candidates : List Text)
  | letterNeedsValue (c : Char)
  | needsValue (name : Text)
  | takesNoValue (name : Text)
deriving DecidableEq, Repr

/-- The error in words. -/
def OptionError.message : OptionError → Text
  | .unknownLetter c => "invalid option -- '" ++ [c, '\'']
  | .unknown written => "unrecognized option '" ++ written ++ "'"
  | .ambiguous written candidates =>
    "option '" ++ written ++ "' is ambiguous; possibilities:" ++
      candidates.flatMap fun name => " '--".toList ++ name ++ ['\'']
  | .letterNeedsValue c => "option requires an argument -- '" ++ [c, '\'']
  | .needsValue name => "option '--" ++ name ++ "' requires an argument"
  | .takesNoValue name => "option '--" ++ name ++ "' doesn't allow an argument"

/-- The long options, and whether they take a value. One may have a value or none. -/
def longOptions : List (Text × Option Bool) :=
  [("context", none), ("mode", some true), ("parents", some false), ("verbose", some false),
    ("help", some false), ("version", some false)]

/-- The long option that a text names: by its whole name, or by the front of one name alone. -/
def longOption? (written name : Text) : Except OptionError (Text × Option Bool) :=
  match longOptions.find? (·.1 = name) with
  | some found => .ok found
  | none =>
    match longOptions.filter fun o => Text.startsWith o.1 name with
    | [] => .error (.unknown written)
    | [found] => .ok found
    | several => .error (.ambiguous written (several.map (·.1)))

/-- Adds a long option. The flag says whether the next argument belongs to it. -/
def Request.addLong (r : Request) (written : Text) (following : List Text) :
    Except OptionError (Request × Bool) := do
  let (name, value?) :=
    match Text.splitOnce? "=" (written.drop 2) with
    | some (name, value) => (name, some value)
    | none => (written.drop 2, none)
  let shown := (written.takeWhile (· ≠ '='))
  let (name, takesValue) ← longOption? shown name
  match takesValue, value? with
  | some false, some _ => .error (.takesNoValue name)
  | some true, none =>
    match following with
    | [] => .error (.needsValue name)
    | value :: _ => return ({ r with mode := some value }, true)
  | some true, some value => return ({ r with mode := some value }, false)
  | _, _ =>
    return ({ r with
      parents := r.parents || name = "parents".toList
      verbose := r.verbose || name = "verbose".toList }, false)

/-- Adds the letters of an argument. The flag says whether the next argument belongs to them. -/
def Request.addLetters (r : Request) (following : List Text) :
    Text → Except OptionError (Request × Bool)
  | [] => .ok (r, false)
  | c :: rest =>
    if c = 'p' then addLetters { r with parents := true } following rest
    else if c = 'v' then addLetters { r with verbose := true } following rest
    else if c = 'Z' then addLetters r following rest
    else if c = 'm' then
      if rest ≠ [] then .ok ({ r with mode := some rest }, false)
      else
        match following with
        | [] => .error (.letterNeedsValue c)
        | value :: _ => .ok ({ r with mode := some value }, true)
    else .error (.unknownLetter c)

/-- Adds arguments. Options may stand behind operands, up to two hyphens that stand alone. -/
def Request.addAll (r : Request) : List Text → Except OptionError Request
  | [] => .ok r
  | a :: rest => do
    if a = "--".toList then return { r with operands := r.operands ++ rest }
    else if Text.startsWith a "--" then
      let (r, takesNext) ← r.addLong a rest
      if takesNext then skipping r rest else addAll r rest
    else if Text.startsWith a "-" && a ≠ "-".toList then
      let (r, takesNext) ← r.addLetters rest a.tail
      if takesNext then skipping r rest else addAll r rest
    else addAll { r with operands := r.operands ++ [a] } rest
where
  /-- Adds the arguments behind the first. -/
  skipping (r : Request) : List Text → Except OptionError Request
    | [] => .ok r
    | _ :: rest => addAll r rest

/-! ## Access rights -/

/-- The number of access rights in octal digits that is too large. -/
def modeLimit : Nat := 4096

/-- Whether a text is a numeral of access rights. -/
def isModeNumeral (t : Text) : Bool := t ≠ [] && t.all isOctal && digitsValue 8 t < modeLimit

/-- Whether one clause of access rights can be understood. -/
def isModeClause (t : Text) : Bool :=
  let isSign (c : Char) : Bool := c = '+' || c = '-' || c = '='
  let changes := t.dropWhile fun c => "ugoa".toList.any (· = c)
  let isChange (u : Text) : Bool :=
    u.all (fun c => "rwxXst".toList.any (· = c)) || ["u".toList, "g".toList, "o".toList].contains u
  let parts := (Text.separate isSign changes).tail
  changes.head?.any isSign &&
    (parts.all isChange || (parts.dropLast.all isChange && parts.getLast?.any isModeNumeral))

/-- Whether access rights can be understood. -/
def isMode (t : Text) : Bool :=
  if t.head?.any isOctal then isModeNumeral t else (Text.separate (· = ',') t).all isModeClause

/-! ## Work -/

/-- What there is to report. -/
inductive Report where
  /-- A new directory. -/
  | made (path : Text)
  | failed (message : Text)
deriving DecidableEq, Repr

/-- What directories are made in, and what there is to report about it. -/
structure Work where
  tree : FileTree
  reports : List Report

/-- A part of the work. -/
abbrev Task := StateM Work

/-- Adds something to report. -/
def report (r : Report) : Task Unit := modify fun w => { w with reports := w.reports ++ [r] }

/-- Reports that a directory cannot be made. -/
def cannotMake (path : Text) (reason : Text) : Task Unit :=
  report (.failed ("cannot create directory " ++ quoted path ++ ": " ++ reason))

/-- What keeps a path from becoming a directory. -/
inductive Obstacle where
  | there
  | file (e : FileError)
deriving DecidableEq, Repr

/-- The obstacle in words. -/
def Obstacle.description : Obstacle → Text
  | .there => "File exists"
  | .file e => e.description

/-- The tree with a new directory. -/
def make (tree : FileTree) (base : Place) (path : Text) : Except Obstacle FileTree :=
  let trimmed := Text.dropEndWhile (· = '/') path
  let trimmed := if trimmed = [] then path else trimmed
  match tree.locate base (Text.ofOctets trimmed) with
  | .error e => .error (.file e)
  | .ok place =>
    let last := (FileTree.steps trimmed).getLast?.getD []
    let names := last ≠ [] && last ≠ ".".toList && last ≠ "..".toList
    if (tree.entry? place).isSome || !names then .error .there
    else .ok (tree.put place .directory)

/-- The fronts of a path that end in front of a slash, each with its last step. -/
def fronts (path : Text) : List (Text × Text) :=
  let ends := (List.range path.length).filter fun i =>
    0 < i && path[i]? = some '/' && path[i - 1]? ≠ some '/' &&
      (path.drop i).any (· ≠ '/')
  ends.map fun i =>
    (path.take i, (FileTree.steps (path.take i)).getLast?.getD [])

/-- Takes over a tree with a new directory. -/
def take (tree : FileTree) (path : Text) : Task Unit := do
  modify fun w => { w with tree }
  report (.made path)

/-- Makes a directory, unless it is there. -/
def makeFront (base : Place) (path step : Text) : Task (Option Obstacle) := do
  let tree := (← get).tree
  let isPlain := step ≠ ".".toList && step ≠ "..".toList
  match if isPlain then make tree base path else .error .there with
  | .ok tree =>
    take tree path
    return none
  | .error obstacle =>
    match tree.find base (Text.ofOctets path) with
    | .ok .directory => return none
    | .ok _ => return some (.file .notADirectory)
    | .error .notFound => return some obstacle
    | .error e => return some (.file e)

/-- Makes the directories that a path leads through; the first that cannot be made is reported. -/
def makeFronts (base : Place) : List (Text × Text) → Task Bool
  | [] => return true
  | (path, step) :: rest => do
    match ← makeFront base path step with
    | none => makeFronts base rest
    | some obstacle =>
      cannotMake path obstacle.description
      return false

/-- Makes the directory of one operand. -/
def makeOperand (r : Request) (base : Place) (path : Text) : Task Unit := do
  let isReady ← if r.parents then makeFronts base (fronts path) else pure true
  if isReady then
    let tree := (← get).tree
    match make tree base path with
    | .ok tree => take tree path
    | .error obstacle =>
      let isThere := (tree.directory? base (Text.ofOctets path)).isSome
      if !(r.parents && obstacle = .there && isThere) then
        cannotMake path obstacle.description

/-! ## Printing -/

/-- Prints an error of a program, and sets the status. -/
def complain (program message : Text) : Action Unit := do
  let _ ← Action.emit 2 (program ++ ": " ++ message ++ "\n")
  Action.setStatus 1

/-- The error about output that could not be written. -/
def lossReason (m : Machine) : Text :=
  ": " ++ if m.stream? 1 = some .full then "No space left on device" else "Bad file descriptor"

/-- Prints reports. What could not be written is an error at the end; an error in between hides its
reason. -/
def printReports (program : Text) (verbose : Bool) (loss : Option Text) :
    List Report → Action Unit
  | [] =>
    match loss with
    | none => return
    | some reason => complain program ("write error" ++ reason)
  | .failed message :: rest => do
    complain program message
    printReports program verbose (loss.map fun _ => []) rest
  | .made path :: rest => do
    let t := program ++ ": created directory " ++ shellQuoted path ++ "\n"
    let isWritten ← if verbose then Action.emit 1 t else pure true
    let m ← get
    let loss := if isWritten then loss else some (lossReason m)
    printReports program verbose loss rest

/-- What is wrong with a request. -/
def Request.mistake? (r : Request) : Option Text :=
  match r.mode with
  | some mode => if isMode mode then none else some ("invalid mode " ++ quoted mode)
  | none => none

/-- Makes directories. -/
def run (program : Text) (arguments : List Text) : Action Unit := do
  Action.setStatus 0
  let hint : Text := "\nTry '" ++ program ++ " --help' for more information."
  match Request.addAll ⟨false, false, none, []⟩ arguments with
  | .error e => complain program (e.message ++ hint)
  | .ok r =>
    if r.operands = [] then complain program ("missing operand" ++ hint)
    else
      match r.mistake? with
      | some mistake => complain program mistake
      | none =>
        let m ← get
        let (_, w) := (r.operands.forM (makeOperand r m.directory)).run ⟨m.tree, []⟩
        set { m with tree := w.tree }
        printReports program r.verbose none w.reports

end Runbook.Shell.Mkdir
