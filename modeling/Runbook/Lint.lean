import Runbook.Book

/-!
# Lint

Lint names what would make an execution fail before it reaches the shell.  It repeats the warnings
of the book, then looks at each include line for a block that does not exist, and last expands each
live block to find the cycles.
-/

namespace Runbook.Book

/-- The error of an include line whose block does not exist. -/
def missingInclude (block : Block) (target : Text) (span : Span) (fileId : Nat) : Diagnostic :=
  { severity := .error
    message := "included block does not exist: " ++ target
    span
    fileId
    notes := ["`" ++ block.name ++ "` cannot be expanded"] }

/-- The errors of the include lines in pieces of a body, the first of which starts at `offset`. -/
def missingIncludesFrom (book : Book) (block : Block) (offset : Nat) : List Text → List Diagnostic
  | [] => []
  | piece :: rest =>
    let line := Text.chomp piece
    let found :=
      match Include.target? line with
      | none => []
      | some target =>
        if book.blockMap.contains target then []
        else
          [missingInclude block target ⟨offset, offset + Text.byteLength line⟩ book.fileId]
    found ++ missingIncludesFrom book block (offset + Text.byteLength piece) rest

/-- The errors of the include lines of a block. -/
def missingIncludes (book : Book) (block : Block) : List Diagnostic :=
  missingIncludesFrom book block block.bodySpan.start (Text.pieces block.body)

/-- The error of a block whose expansion comes back to a block that is open. -/
def includeCycle (block : Block) (revisited : Text) (fileId : Nat) : Diagnostic :=
  { severity := .error
    message := "recursive #include detected for block: " ++ revisited
    span := block.header
    fileId
    notes := ["expanding `" ++ block.name ++ "` revisits `" ++ revisited ++ "`"] }

/-- Whether the block is the one that its name stands for. -/
def isLive (book : Book) (block : Block) : Bool :=
  (book.get? block.name).map Block.start = some block.start

/-- The error of a live block that cannot be expanded because of a cycle. -/
def includeCycle? (book : Book) (block : Block) : Option Diagnostic :=
  if book.isLive block then
    match book.expandBlock block.name with
    | .error (.cyclicInclude name) => some (includeCycle block name book.fileId)
    | _ => none
  else none

/-- All findings about a book: warnings, missing blocks, cycles. -/
def lint (book : Book) : List Diagnostic :=
  book.warnings ++ book.executableBlocks.flatMap book.missingIncludes ++
    book.executableBlocks.filterMap book.includeCycle?

end Runbook.Book
