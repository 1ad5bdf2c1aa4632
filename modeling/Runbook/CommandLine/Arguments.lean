import Runbook.CommandLine.Shorthand

/-!
# Arguments

What the arguments of the program ask for.  Options may stand before and behind the command they
belong to; global options belong to every command.  An argument that breaks the rules is a usage
error, wherever it stands, unless a question for the help or the version stands before it.
-/

namespace Runbook.CommandLine

/-! ## What can be asked for -/

/-- The arguments of the command that runs blocks. -/
structure RunArguments where
  file : Text
  /-- The names of the blocks, in order. -/
  blocks : List Text
  /-- Answer every question with yes. -/
  yes : Bool
  /-- Ask before every execution. -/
  confirm : Bool
  /-- The program that takes the commands. -/
  shell : Option Text
  /-- Go on behind a failure. -/
  keepGoing : Bool
deriving DecidableEq, Repr

/-- The arguments of the command that checks fixtures. -/
structure TestArguments where
  path : Text
  /-- The categories to run. All of them are run if none is named. -/
  categories : List Text
  /-- Only list the categories. -/
  listCategories : Bool
deriving DecidableEq, Repr

/-- A command of the program. -/
inductive Command where
  | run (arguments : RunArguments)
  | expand (file block : Text)
  | list (file : Text)
  | vars (file : Text)
  | env (name : Text)
  | check (file : Text)
  | test (arguments : TestArguments)
deriving DecidableEq, Repr

/-- A call of the program. -/
structure Invocation where
  noColor : Bool
  /-- The configuration file. -/
  config : Option Text
  command : Command
deriving DecidableEq, Repr

/-- Why there is nothing to do. -/
inductive Stop where
  | usage
  | help
  | version
deriving DecidableEq, Repr

/-! ## Options -/

/-- What an option does. -/
inductive Kind where
  /-- Stands alone and may be given once. -/
  | flag
  /-- Stands alone and may be given any number of times. -/
  | counter
  /-- Takes a value. A path may not be empty. -/
  | value (isPath repeatable : Bool)
  /-- Ends the reading of arguments. -/
  | stop (reason : Stop)
deriving DecidableEq, Repr

/-- An option, known by its long name. -/
structure Switch where
  long : Text
  short : Option Char
  kind : Kind
deriving DecidableEq, Repr

/-- The options that every command has. -/
def globalSwitches : List Switch :=
  [ ⟨"no-color", none, .flag⟩,
    ⟨"verbose", some 'v', .counter⟩,
    ⟨"config", none, .value true false⟩,
    ⟨"help", some 'h', .stop .help⟩ ]

/-- The options before a command. -/
def topSwitches : List Switch := globalSwitches ++ [⟨"version", some 'V', .stop .version⟩]

/-- How the arguments of a command are read. -/
structure Grammar where
  switches : List Switch
  /-- Whether the first argument that is no option is a path. -/
  startsWithPath : Bool
  /-- How many arguments that are no options there have to be. -/
  least : Nat
  /-- How many there may be, if there is a limit. -/
  most : Option Nat
deriving DecidableEq, Repr

/-- The grammar of a command without options of its own. -/
def plainGrammar (startsWithPath : Bool) (count : Nat) : Grammar :=
  ⟨globalSwitches, startsWithPath, count, some count⟩

/-- The grammar of the command that runs blocks. -/
def runGrammar : Grammar :=
  { switches := globalSwitches ++
      [ ⟨"yes", some 'y', .flag⟩, ⟨"confirm", none, .flag⟩, ⟨"shell", none, .value false false⟩,
        ⟨"keep-going", some 'k', .flag⟩ ]
    startsWithPath := true
    least := 2
    most := none }

/-- The grammar of the command that checks fixtures. -/
def testGrammar : Grammar :=
  { switches := globalSwitches ++
      [⟨"category", some 'c', .value false true⟩, ⟨"list-categories", none, .flag⟩]
    startsWithPath := true
    least := 1
    most := some 1 }

/-- The grammar before the command. -/
def topGrammar : Grammar := ⟨topSwitches, false, 0, some 0⟩

/-! ## Reading -/

/-- What has been read on one level. -/
structure Level where
  /-- The options with their values, in order. -/
  options : List (Text × Text)
  /-- The other arguments, in order. -/
  words : List Text
deriving DecidableEq, Repr

namespace Level

/-- Whether an option was given. -/
def has (l : Level) (long : Text) : Bool := l.options.any (·.1 = long)

/-- All values of an option. -/
def values (l : Level) (long : Text) : List Text :=
  (l.options.filter (·.1 = long)).map (·.2)

/-- The value of an option. -/
def value? (l : Level) (long : Text) : Option Text := (l.values long).head?

/-- The level with one more option. -/
def give (l : Level) (s : Switch) (value : Text) : Except Stop Level :=
  let given : Level := { l with options := l.options ++ [(s.long, value)] }
  match s.kind with
  | .flag => if l.has s.long then .error .usage else .ok given
  | .counter => .ok given
  | .value isPath repeatable =>
    if (isPath && value = []) || (!repeatable && l.has s.long) then .error .usage else .ok given
  | .stop reason => .error reason

/-- The level with one more argument that is no option. -/
def word (l : Level) (g : Grammar) (argument : Text) : Except Stop Level :=
  if g.most.any (· ≤ l.words.length) then .error .usage
  else if g.startsWithPath && l.words = [] && argument = [] then .error .usage
  else .ok { l with words := l.words ++ [argument] }

end Level

/-- The level behind an argument, and the option whose value is still to come. -/
abbrev Step := Except Stop (Level × Option Switch)

/-- Reads an argument with a long option, without the two hyphens. -/
def readLong (g : Grammar) (l : Level) (argument : Text) : Step := do
  let (name, attached) :=
    match Text.splitOnce? "=" argument with
    | some (name, value) => (name, some value)
    | none => (argument, none)
  match g.switches.find? (·.long = name) with
  | none => .error .usage
  | some s =>
    match s.kind, attached with
    | .value _ _, none => return (l, some s)
    | .value _ _, some value => return (← l.give s value, none)
    | _, none => return (← l.give s [], none)
    | _, some _ => .error .usage

/-- Reads an argument with short options, without the hyphen. The first of them that takes a value
takes the rest of the argument, behind an equals sign, if there is one. -/
def readShort (g : Grammar) (l : Level) : Text → Step
  | [] => .ok (l, none)
  | c :: rest =>
    match g.switches.find? (·.short = some c) with
    | none => .error .usage
    | some s =>
      match s.kind with
      | .value _ _ =>
        match rest with
        | [] => .ok (l, some s)
        | '=' :: value => (l.give s value).map (·, none)
        | value => (l.give s value).map (·, none)
      | _ => do readShort g (← l.give s []) rest

/-- Whether an argument is taken for an option where a value may stand. A hyphen alone is not. -/
def isSwitchLike (argument : Text) : Bool := isOption argument && 1 < argument.length

/-- Reads all arguments as words. -/
def readWords (g : Grammar) (l : Level) : List Text → Except Stop Level
  | [] => .ok l
  | argument :: rest => do readWords g (← l.word g argument) rest

/-- Reads the arguments of one level, up to a command, if `commands` names any. -/
def readLevel (g : Grammar) (commands : List Text) (l : Level) (pending : Option Switch) :
    List Text → Except Stop (Level × Option (Text × List Text))
  | [] => if pending.isSome then .error .usage else .ok (l, none)
  | argument :: rest =>
    match pending with
    | some s =>
      if isSwitchLike argument then .error .usage
      else do readLevel g commands (← l.give s argument) none rest
    | none =>
      if commands.contains argument then .ok (l, some (argument, rest))
      else if argument = "--".toList then (readWords g l rest).map (·, none)
      else
        match argument with
        | '-' :: '-' :: name => do
          let (l, pending) ← readLong g l name
          readLevel g commands l pending rest
        | '-' :: c :: cluster => do
          let (l, pending) ← readShort g l (c :: cluster)
          readLevel g commands l pending rest
        | _ => do readLevel g commands (← l.word g argument) none rest

/-! ## Commands -/

/-- Reads the arguments of a command. -/
def readCommand (g : Grammar) (arguments : List Text) : Except Stop Level := do
  let (l, _) ← readLevel g [] ⟨[], []⟩ none arguments
  if l.words.length < g.least then .error .usage else .ok l

/-- What the word for the help comes to: it may be followed by one command and by nothing else. -/
def helpOn : List Text → Stop
  | [] => .help
  | [word] => if commandWords.contains word then .help else .usage
  | _ => .usage

/-- The command of a word and the arguments behind it, with its options. Only the word for the help
is no command. -/
def command (word : Text) (arguments : List Text) : Except Stop (Level × Command) := do
  let first (l : Level) : Text := l.words.head?.getD []
  let plain (startsWithPath : Bool) (make : Text → Command) : Except Stop (Level × Command) := do
    let l ← readCommand (plainGrammar startsWithPath 1) arguments
    return (l, make (first l))
  match String.ofList word with
  | "run" =>
    let l ← readCommand runGrammar arguments
    return (l, .run
      { file := first l
        blocks := l.words.tail
        yes := l.has "yes"
        confirm := l.has "confirm"
        shell := l.value? "shell"
        keepGoing := l.has "keep-going" })
  | "expand" =>
    let l ← readCommand (plainGrammar true 2) arguments
    return (l, .expand (first l) (l.words.tail.head?.getD []))
  | "list" => plain true .list
  | "vars" => plain true .vars
  | "env" => plain false .env
  | "check" => plain true .check
  | "test" =>
    let l ← readCommand testGrammar arguments
    return (l, .test ⟨first l, l.values "category", l.has "list-categories"⟩)
  | _ => .error (helpOn arguments)

/-- What a call of the program asks for. The first argument is the name of the program. -/
def parse (arguments : List Text) : Except Stop Invocation := do
  let (top, found) ←
    readLevel topGrammar commandWords ⟨[], []⟩ none (withImplicitRun arguments).tail
  match found with
  | none => .error .usage
  | some (word, rest) =>
    let (l, command) ← command word rest
    return { noColor := top.has "no-color" || l.has "no-color"
             config := (l.value? "config").or (top.value? "config")
             command }

end Runbook.CommandLine
