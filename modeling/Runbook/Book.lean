import Runbook.Block
import Runbook.Diagnostic
import Runbook.Include
import Runbook.Variables

/-!
# Books

A book is a runbook that has been cut into blocks.  Several blocks may share a name: the last one is
the live one, which its name stands for.  Of the blocks that declare variables only the first
counts.  Every block that loses in this way is named in a warning.
-/

namespace Runbook

/-- A runbook cut into blocks. -/
structure Book where
  /-- All blocks, in the order of the source. -/
  blocks : List Block
  /-- The number of the source. -/
  fileId : Nat
deriving DecidableEq, Repr, Inhabited

namespace Book

/-- The book of a source. Every text is the source of a book. -/
def parse (source : Text) (fileId : Nat) : Book := ⟨Block.scan source, fileId⟩

/-- The blocks that hold commands. -/
def executableBlocks (book : Book) : List Block := book.blocks.filter (! ·.isVariables)

/-- The first block that declares variables. -/
def variablesBlock? (book : Book) : Option Block := book.blocks.find? (·.isVariables)

/-- The variables that the book declares. -/
def declared (book : Book) : VariableTable :=
  match book.variablesBlock? with
  | some block => VariableTable.parse block.body
  | none => Table.empty

/-- The bodies of the executable blocks by name. The last block of a name wins. -/
def blockMap (book : Book) : BlockMap :=
  Table.ofList (book.executableBlocks.map fun b => (b.name, b.body))

/-- The live block of a name: the last executable one. -/
def get? (book : Book) (name : Text) : Option Block :=
  book.executableBlocks.reverse.find? (·.name = name)

/-- The name of a live block with this command as its body; the first one in the book. A block with
the same body as the live block of its name counts as well. -/
def findByCommand? (book : Book) (command : Text) : Option Text :=
  let command := Text.trim command
  (book.executableBlocks.find? fun b =>
    b.body = command && book.blockMap.get? b.name = some b.body).map (·.name)

/-- The command of a block with everything included. -/
def expandBlock (book : Book) (name : Text) : Except IncludeError Text :=
  (Include.expandIncludes name book.blockMap []).1

/-! ## Warnings -/

/-- The warning about a second block of variables. -/
def ignoredVariables (block : Block) (fileId : Nat) : Diagnostic :=
  { severity := .warning
    message := "additional `$VARIABLES` block is ignored"
    span := block.header
    fileId
    notes := ["only the first `$VARIABLES` block declares custom variables"] }

/-- The warning about a block whose name is taken by a later one. -/
def shadowedBlock (earlier later : Block) (fileId : Nat) : Diagnostic :=
  { severity := .warning
    message := "block `" ++ earlier.name ++ "` is shadowed by a later block"
    span := earlier.header
    fileId
    notes := ["`" ++ later.name ++ "` is redefined at byte " ++ Text.ofNat later.start ++
      "; the later definition wins"] }

/-- The warning that a block gives rise to, behind the `earlier` blocks, the nearest of which is
named first. -/
def warningAt? (fileId : Nat) (earlier : List Block) (block : Block) : Option Diagnostic :=
  if block.isVariables then
    if earlier.any (·.isVariables) then some (ignoredVariables block fileId) else none
  else
    (earlier.find? (·.name = block.name)).map fun e => shadowedBlock e block fileId

/-- The warnings about the blocks behind the `earlier` ones. -/
def warningsBehind (fileId : Nat) (earlier : List Block) : List Block → List Diagnostic
  | [] => []
  | block :: rest =>
    (warningAt? fileId earlier block).toList ++ warningsBehind fileId (block :: earlier) rest

/-- The warnings about blocks that do not count. -/
def warnings (book : Book) : List Diagnostic := warningsBehind book.fileId [] book.blocks

end Book

end Runbook
