import Runbook.Text.Blank
import Runbook.Text.Lines

/-!
# Blocks

A runbook is cut into blocks by its header lines.  A header line is three hash signs, a space or a
tab, and a name.  A block holds its name, the text up to the next header without the white space
around it, and the places of all three in the source.

Scanning works on the pieces of the source.  `sections` groups them behind their header lines and
loses none of them (`flatten_sections`); a block is then read off a section and its offset.
-/

namespace Runbook

/-- A named part of a runbook. -/
structure Block where
  /-- The name in the header line, trimmed. -/
  name : Text
  /-- The text between the header line and the next one, trimmed. -/
  body : Text
  /-- The place of the header line without its line ending. -/
  header : Span
  /-- The place of the trimmed body. -/
  bodySpan : Span
  /-- The place of the whole block, header line included. -/
  span : Span
deriving DecidableEq, Repr, Inhabited

/-- The name of the block that declares variables. -/
def variablesName : Text := "$VARIABLES"

namespace Block

/-- The offset of the header line. -/
def start (b : Block) : Nat := b.span.start

/-- Whether the block declares variables instead of holding a command. -/
def isVariables (b : Block) : Bool := b.name = variablesName

/-- Whether the body may mention a variable. -/
def referencesVariables (b : Block) : Bool :=
  Text.contains b.body "$" || Text.contains b.body "process.env"

/-- The same block, in a source with `offset` more bytes before it. -/
def shift (b : Block) (offset : Nat) : Block :=
  { b with
    header := b.header.shift offset
    bodySpan := b.bodySpan.shift offset
    span := b.span.shift offset }

/-! ## Header lines -/

/-- The name that a line without its line ending declares, if it is a header line. -/
def headerName? (line : Text) : Option Text :=
  match Text.dropFront? "###" line with
  | none => none
  | some rest =>
    if rest.head? = some ' ' ∨ rest.head? = some '\t' then
      let name := Text.trim rest
      if name = [] then none else some name
    else none

/-- Whether a piece of the source is a header line. -/
def isHeader (piece : Text) : Bool := (headerName? (Text.chomp piece)).isSome

/-! ## Sections -/

/-- A header line and the pieces up to the next header line. -/
structure Section where
  /-- The header line, with its line ending. -/
  head : Text
  /-- The pieces behind it. -/
  rest : List Text
deriving DecidableEq, Repr

/-- The text of a section. -/
def Section.text (s : Section) : Text := s.head ++ s.rest.flatten

/-- The pieces before the first header line, and the sections behind them. -/
def sections : List Text → List Text × List Section
  | [] => ([], [])
  | piece :: pieces =>
    let (before, found) := sections pieces
    if isHeader piece then ([], ⟨piece, before⟩ :: found) else (piece :: before, found)

/-- The sections and the pieces before them make up the whole source. -/
theorem flatten_sections (pieces : List Text) :
    (sections pieces).1.flatten ++ ((sections pieces).2.map Section.text).flatten =
      pieces.flatten := by
  induction pieces with
  | nil => rfl
  | cons piece pieces ih =>
    simp only [sections]
    split <;> simp [Section.text, ← ih]

/-- The block of a section that starts at `offset`. -/
def ofSection (offset : Nat) (s : Section) : Block :=
  let line := Text.chomp s.head
  let raw := s.rest.flatten
  let body := Text.trim raw
  let bodyArea := offset + Text.byteLength s.head
  let bodyStart := bodyArea + (Text.byteLength raw - Text.byteLength (Text.trimStart raw))
  { name := (headerName? line).getD []
    body
    header := ⟨offset, offset + Text.byteLength line⟩
    bodySpan := ⟨bodyStart, bodyStart + Text.byteLength body⟩
    span := ⟨offset, bodyArea + Text.byteLength raw⟩ }

/-- The blocks of adjacent sections, the first of which starts at `offset`. -/
def ofSections (offset : Nat) : List Section → List Block
  | [] => []
  | s :: rest => ofSection offset s :: ofSections (offset + Text.byteLength s.text) rest

/-- The blocks of a source, in order. -/
def scan (source : Text) : List Block :=
  let (before, found) := sections (Text.pieces source)
  ofSections (Text.byteLength before.flatten) found

end Block

/-! ## Keys -/

/-- Which block of which document is meant: the document and the offset of the block's header. Names
and contents play no part. -/
structure BlockKey where
  /-- What identifies the document, such as a path. -/
  document : Text
  /-- The offset of the header line. -/
  offset : Nat
deriving DecidableEq, Repr, Inhabited

namespace BlockKey

/-- The key of a block of the document. -/
def ofBlock (document : Text) (b : Block) : BlockKey := ⟨document, b.start⟩

/-- The key as it is shown: the document, an underscore and the offset. -/
def display (key : BlockKey) : Text := key.document ++ "_" ++ Text.ofNat key.offset

/-- The order of keys: by document, then by offset. -/
def le (a b : BlockKey) : Bool :=
  if a.document = b.document then a.offset ≤ b.offset else Text.le a.document b.document

end BlockKey

end Runbook
