import Runbook.Diagnostic
import Runbook.Text.Lines
import Runbook.Text.Width

/-!
# Reports

A report shows a diagnostic to a reader: the message, the place, the line of the source with carets
under the place, and the remarks.

    warning: block `a` is shadowed by a later block
      ┌─ b.term:1:1
      │
    1 │ ### a
      │ ^^^^^
      │
      = `a` is redefined at byte 8; the later definition wins

The margin is as wide as the number of the line.  The carets are as wide as the characters above
them are on a terminal.
-/

namespace Runbook.Report

/-- Spaces. -/
def spaces (n : Nat) : Text := List.replicate n ' '

/-- The line of a source that an offset lies on: its number, counted from 0, the offset of its first
byte, and its text. -/
def lineAt (source : Text) (offset : Nat) : Nat × Nat × Text :=
  let index := Text.lineOf source offset
  let pieces := Text.pieces source
  (index, Text.byteLength (pieces.take index).flatten, (pieces[index]?).getD [])

/-- The characters that are not shown at the end of a line. -/
def isHiddenAtEnd (c : Char) : Bool := c = '\n' || c = '\r' || c = '\x00'

/-- The line as it is shown: tabs are widened. -/
def shownLine (line : Text) : Text :=
  (Text.columnsFrom 0 line).flatMap fun (c, width) =>
    if c = '\t' then spaces width else [c]

/-- Whether two spans have a byte in common. -/
def overlap (a b : Span) : Bool := max a.start b.start < min a.stop b.stop

/-- The marks under characters that start at an offset of the line: carets under the span, and
spaces before it. -/
def marksFrom (span : Span) (offset : Nat) : List (Char × Nat) → Text
  | [] => []
  | (c, width) :: rest =>
    let here : Span := ⟨offset, offset + c.utf8Size⟩
    let marks :=
      if overlap span here then List.replicate width '^'
      else if offset < span.stop then spaces width
      else []
    marks ++ marksFrom span here.stop rest

/-- The marks under a line. The end of the line counts as one more column, so that a span at the end
has its caret. -/
def marks (span : Span) (line : Text) : Text :=
  marksFrom ⟨span.start, max span.stop (span.start + 1)⟩ 0
    (Text.columnsFrom 0 line ++ [('\x00', 1)])

/-- The lines of one remark. -/
def remark (margin : Text) (note : Text) : List Text :=
  match Text.lines note with
  | [] => []
  | first :: rest => (margin ++ " = " ++ first) :: rest.map fun line => margin ++ "   " ++ line

/-- The lines of a report. -/
def lines (path source : Text) (d : Diagnostic) : List Text :=
  let (index, lineStart, piece) := lineAt source d.span.start
  let line := Text.dropEndWhile isHiddenAtEnd piece
  let span : Span := ⟨d.span.start - lineStart, d.span.stop - lineStart⟩
  let number := Text.ofNat (index + 1)
  let column := (Text.takeBytes span.start piece).length + 1
  let margin := spaces number.length
  let place := path ++ ":" ++ number ++ ":" ++ Text.ofNat column
  [ d.severity.name ++ ": " ++ d.message,
    margin ++ " ┌─ " ++ place,
    margin ++ " │",
    number ++ " │ " ++ shownLine line,
    margin ++ " │ " ++ marks span line,
    margin ++ " │" ] ++
  d.notes.flatMap (remark margin) ++ [[]]

/-- A report, which ends with an empty line. -/
def render (path source : Text) (d : Diagnostic) : Text := Text.unlines (lines path source d)

end Runbook.Report
