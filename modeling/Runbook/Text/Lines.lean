import Runbook.Text.Basic

/-!
# Lines

A text falls into pieces, each of which ends with a line feed except perhaps the last.  Two readers
use the pieces in two ways: `chomp` strips every line feed and carriage return at the end of a
piece, while a line of `lines` loses one line ending only, a line feed or a carriage return and a
line feed.
-/

namespace Runbook.Text

/-- The pieces of a text: it is cut behind each line feed. -/
def pieces : Text → List Text
  | [] => []
  | c :: t =>
    if c = '\n' then [c] :: pieces t
    else
      match pieces t with
      | [] => [[c]]
      | p :: ps => (c :: p) :: ps

/-- The pieces hold the whole text, in order. -/
@[simp] theorem flatten_pieces (t : Text) : (pieces t).flatten = t := by
  induction t with
  | nil => rfl
  | cons c t ih =>
    unfold pieces
    split
    · simp [ih]
    · split <;> simp_all

/-- A piece without the line feeds and carriage returns at its end. -/
def chomp (piece : Text) : Text := dropEndWhile (fun c => c = '\n' || c = '\r') piece

/-- A piece without its line ending: a line feed, or a carriage return and a line feed. A carriage
return alone ends no line. -/
def dropLineEnd (piece : Text) : Text :=
  match dropBack? ['\n'] piece with
  | none => piece
  | some line => (dropBack? ['\r'] line).getD line

/-- The lines of a text. A line feed at the end of the text starts no further line. -/
def lines (t : Text) : List Text := (pieces t).map dropLineEnd

/-- Lines one after another, each with a line feed behind it. -/
def unlines (lines : List Text) : Text := (lines.map (· ++ ['\n'])).flatten

/-- The number of line feeds among the first `offset` bytes, which is the number, counted from 0,
of the line that the offset lies on. -/
def lineOf (t : Text) (offset : Nat) : Nat := (takeBytes offset t).count '\n'

end Runbook.Text
