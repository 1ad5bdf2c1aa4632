import Runbook.CommandLine.Arguments
import Runbook.Config
import Runbook.Fixture.Suite
import Runbook.Report
import Runbook.Run

/-!
# The program

The program reads a runbook and runs, expands, lists or checks its blocks.  Here it is a function of
its arguments and of what it finds around it: files, environment variables, its input, shells, and
the readers of TOML documents that it was built with.
-/

namespace Runbook

/-- What the program finds around it. -/
structure World where
  files : FileSystem
  /-- The environment variables. -/
  environment : List (Text × Text)
  /-- The standard input. -/
  input : Text
  /-- How the shell of a configuration behaves. -/
  shell : Config → ShellProgram
  /-- Reads a configuration, or says why there is none. -/
  readConfig : Text → Except Text Config
  /-- Reads the front matter of a fixture, or says why there is none. -/
  readFrontMatter : Text → Except Text Fixture.Expectations

/-- What the program leaves behind. -/
structure Exit where
  code : Nat
  /-- What was printed to standard output. -/
  out : Text
  /-- What was printed to standard error. -/
  err : Text
  /-- The files that a shell has left, if there was one. -/
  tree? : Option FileTree

namespace Program

/-- The name and the version of the program. -/
def version : Text := "termbook 0.1.0\n"

/-- The configuration file that is read if no other is named. -/
def configFile : Text := "termbook.toml"

/-- What the program says of itself. -/
def help : Text :=
  "Run named command blocks from a termbook file\n\nUsage: termbook [OPTIONS] <COMMAND>\n\n" ++
    "Commands: run, expand, list, vars, env, check, test, help\n"

end Program

namespace World

open Program

/-- A world with one file in it. There is no shell, and nothing that can be read from TOML. -/
def ofFile (file text : Text) : World :=
  { files := .ofTables [] [(.ofText file, text)]
    environment := []
    input := []
    shell _ := .missing
    readConfig _ := .error "no configuration"
    readFrontMatter _ := .error "no front matter" }

/-- An exit without a shell. -/
def exit (_ : World) (code : Nat) (out err : Text) : Exit := ⟨code, out, err, none⟩

/-- An exit with an error. -/
def fail (w : World) (message : Text) : Exit := w.exit 1 [] ("error: " ++ message ++ "\n")

/-- The environment of the program. -/
def env (w : World) : Environment := .ofProcess w.environment

/-- The text of a file, or in words why it cannot be read. -/
def read (w : World) (path : OsText) : Except Text Text :=
  if w.files.isInput path then .ok w.input else w.files.read path

/-- The world after a file was read. What is read from the standard input is gone then. -/
def afterReading (w : World) (path : OsText) : World :=
  if w.files.isInput path then { w with input := [] } else w

/-- The source of a runbook, or the exit if it cannot be read. -/
def load (w : World) (file : Text) : Except Exit Document :=
  match w.read (.ofText file) with
  | .ok text => .ok ⟨file, text⟩
  | .error e => .error (w.fail ("cannot read '" ++ file ++ "': " ++ e))

/-- The reports about some findings in a document. -/
def reports (document : Document) (diagnostics : List Diagnostic) : Text :=
  diagnostics.flatMap (Report.render document.uri document.text)

/-! ## Commands that only read -/

/-- Prints the expansion of a block. -/
def expand (w : World) (file block : Text) : Except Exit Exit := do
  let document ← w.load file
  let book := document.book
  let warnings := reports document book.warnings
  match book.get? block with
  | none => return w.exit 1 [] (warnings ++ RunSetup.unknownBlock book block)
  | some _ =>
    match book.expandBlock block with
    | .error e => return w.exit 1 [] (warnings ++ "error: " ++ e.message ++ "\n")
    | .ok command =>
      let danger : Text :=
        match DenyList.sanitize command with
        | .error d => "warning: " ++ d.message ++ "\n"
        | .ok _ => []
      return w.exit 0 (Reference.expand command book.declared w.env ++ "\n")
        (warnings ++ danger)

/-- A text, moved to the right end of four columns. -/
def alignRight (t : Text) : Text := List.replicate (4 - t.length) ' ' ++ t

/-- The line about a lens. -/
def lensLine (l : Lens) : Text :=
  alignRight (Text.ofNat (l.line + 1)) ++ "  " ++ l.name ++ "  " ++
    Text.join " | " (l.affordances.map Affordance.title) ++ "\n"

/-- Lists the blocks. -/
def list (w : World) (file : Text) : Except Exit Exit := do
  let document ← w.load file
  return w.exit 0 ((document.lenses .empty RunSetup.now).flatMap lensLine) []

/-- Prints the variables that a runbook declares. -/
def vars (w : World) (file : Text) : Except Exit Exit := do
  let document ← w.load file
  return w.exit 0 document.book.declared.render []

/-- Prints an environment variable. -/
def printEnv (w : World) (name : Text) : Exit :=
  match w.env.value? name with
  | some value => w.exit 0 (name ++ "=" ++ value ++ "\n") []
  | none => w.exit 1 [] ("warning: environment variable '" ++ name ++ "' not found\n")

/-- Prints what lint finds. -/
def check (w : World) (file : Text) : Except Exit Exit := do
  let document ← w.load file
  let diagnostics := document.book.lint
  let shown := reports document diagnostics
  if diagnostics.any (! ·.isWarning) then return w.exit 1 [] shown
  else return w.exit 0 [] (shown ++ "ok: " ++ file ++ " checked successfully\n")

/-! ## Fixtures -/

/-- The suite that a path leads to. -/
def suite (w : World) (path : Text) : Fixture.Suite := .discover w.files (.ofText path)

/-- The line about a directory without fixtures. -/
def noFixtures (path : Text) : Text := "no " ++ Fixture.suffix ++ " files found in " ++ path

/-- Lists the categories of fixtures. -/
def listCategories (w : World) (path : Text) : Exit :=
  if w.files.isFile (.ofText path) then w.exit 0 [] "(single file, no categories)\n"
  else
    match w.suite path with
    | [] => w.exit 0 [] (noFixtures path ++ "\n")
    | categories =>
      let line (entry : Text × List Fixture.Member) : Text :=
        "  " ++ Fixture.Suite.label entry.1 ++ " (" ++ Text.ofNat entry.2.length ++ " tests)"
      w.exit 0 [] (Text.unlines ("available categories:".toList :: categories.map line))

/-- Checks fixtures. -/
def test (w : World) (noColor : Bool) (arguments : CommandLine.TestArguments) : Exit :=
  let path := arguments.path
  let finish (before : List Text) (headings : Bool) (chosen : Fixture.Suite) : Exit :=
    let results := Fixture.Suite.run w.readFrontMatter w.read chosen
    w.exit (if Fixture.Suite.allPassed results then 0 else 1) []
      (Text.unlines (before ++ Fixture.Suite.reportLines noColor headings results))
  if w.files.isFile (.ofText path) then finish [] false [([], [⟨[], .ofText path⟩])]
  else
    match w.suite path with
    | [] => w.exit 1 [] (noFixtures path ++ "\n")
    | all =>
      let (chosen, unknown) := all.select arguments.categories
      let warnings := unknown.map all.unknownRequest
      if chosen.isEmpty then
        w.exit 1 [] (Text.unlines (warnings ++ ["no matching categories found".toList]))
      else finish warnings true chosen

/-! ## Running blocks -/

/-- The path of the configuration, if there is one. -/
def configPath? (w : World) (named : Option Text) : Option Text :=
  named.or (if w.files.isFile (.ofText configFile) then some configFile else none)

/-- The configuration at a path, or the exit if it cannot be read. -/
def config (w : World) (path : Text) : Except Exit Config :=
  match w.read (.ofText path) with
  | .error e => .error (w.fail ("cannot read config '" ++ path ++ "': " ++ e))
  | .ok text =>
    match w.readConfig text with
    | .ok config => .ok config
    | .error e => .error (w.fail ("invalid config '" ++ path ++ "': " ++ e))

/-- The answers in an input: one for each line. Only a clear yes is a yes. -/
def answersIn (input : Text) : Answers :=
  let yes : List Text := ["y", "yes", "execute"]
  .inOrder ((Text.pieces input).map fun line =>
    yes.contains ((Text.trim line).map Char.toLower))

/-- The line about how the shell of a session has ended. -/
def shellLine (session : Text) : ExitStatus → Text
  | .exited 0 => []
  | .exited code =>
    "session '" ++ session ++ "' exited with exit status: " ++ Text.ofNat code ++ "\n"
  | .killed description => "session '" ++ session ++ "' exited with " ++ description ++ "\n"
  | .unknown reason => "error: session '" ++ session ++ "' did not exit cleanly: " ++ reason ++ "\n"

/-- Runs blocks. -/
def run (w : World) (named : Option Text) (arguments : CommandLine.RunArguments) :
    Except Exit Exit := do
  let path? := w.configPath? named
  let config ← path?.elim (.ok .default) w.config
  let w := path?.elim w fun path => w.afterReading (.ofText path)
  let confirm := arguments.confirm || config.executor.confirmBeforeExecute
  let config : Config :=
    { executor := { config.executor with confirmBeforeExecute := confirm }
      shell := arguments.shell.getD config.shell }
  let document ← w.load arguments.file
  let w := w.afterReading (.ofText arguments.file)
  let warnings := reports document document.book.warnings
  let shell := w.shell config
  let setup : RunSetup :=
    { document
      settings := config.executor
      environment := w.env
      assumeYes := arguments.yes
      keepGoing := arguments.keepGoing
      reply := shell.send config.shell }
  let state := setup.run (answersIn w.input) arguments.blocks
  let remains? := shell.remains? state.sent
  return { code := if state.failed || remains?.any (! ·.status.isSuccess) then 1 else 0
           out := remains?.elim [] ShellEnd.out
           err := warnings ++ state.messages ++
             remains?.elim [] fun e => e.err ++ shellLine config.executor.session e.status
           tree? := remains?.map ShellEnd.tree }

/-! ## All commands -/

/-- The exit of a computation that may have exited early. -/
def ofResult : Except Exit Exit → Exit
  | .ok e => e
  | .error e => e

/-- Does what a call asks for. -/
def perform (w : World) (i : CommandLine.Invocation) : Exit :=
  match i.command with
  | .run arguments => ofResult (w.run i.config arguments)
  | .expand file block => ofResult (w.expand file block)
  | .list file => ofResult (w.list file)
  | .vars file => ofResult (w.vars file)
  | .env name => w.printEnv name
  | .check file => ofResult (w.check file)
  | .test arguments =>
    if arguments.listCategories then w.listCategories arguments.path
    else w.test i.noColor arguments

end World

/-- The program, called with arguments, the first of which is its name. -/
def Program.call (w : World) (arguments : List Text) : Exit :=
  match CommandLine.parse arguments with
  | .ok invocation => w.perform invocation
  | .error .version => w.exit 0 version []
  | .error .help => w.exit 0 help []
  | .error .usage => w.exit 2 [] ("error: invalid arguments\n\n" ++ help)

end Runbook
