/-!
# Texts

A text is the list of its characters.  Offsets into a text count the bytes of its UTF-8 form, so
that a position means the same to an editor, a diagnostic and a record of an execution.

## Contents

- `Text` and its length in bytes, `byteLength`, which is additive (`byteLength_append`);
- `Span`, a half-open range of byte offsets;
- cutting at a byte offset (`takeBytes`), at a prefix (`dropFront?`) and at the end
  (`dropEndWhile`).
-/

namespace Runbook

/-- A text is the list of its characters. -/
abbrev Text := List Char

/-- A string literal stands for the text of its characters. -/
instance : Coe String Text := ⟨String.toList⟩

/-- The order of lists by the first elements that differ. -/
def lexLe {α : Type} [DecidableEq α] (lt : α → α → Bool) : List α → List α → Bool
  | [], _ => true
  | _ :: _, [] => false
  | a :: s, b :: t => if a = b then lexLe lt s t else lt a b

/-- A half-open range of byte offsets. -/
structure Span where
  /-- The offset of the first byte. -/
  start : Nat
  /-- The offset behind the last byte. -/
  stop : Nat
deriving DecidableEq, Repr, Inhabited

namespace Span

/-- The same range, further to the right. -/
def shift (s : Span) (offset : Nat) : Span := ⟨s.start + offset, s.stop + offset⟩

end Span

namespace Text

/-- The number of bytes of the UTF-8 form. -/
def byteLength : Text → Nat
  | [] => 0
  | c :: t => c.utf8Size + byteLength t

@[simp] theorem byteLength_nil : byteLength [] = 0 := rfl

@[simp] theorem byteLength_cons (c : Char) (t : Text) :
    byteLength (c :: t) = c.utf8Size + byteLength t := rfl

@[simp] theorem byteLength_append (s t : Text) :
    byteLength (s ++ t) = byteLength s + byteLength t := by
  induction s with
  | nil => simp
  | cons c s ih => simp [ih, Nat.add_assoc]

/-- The longest front of the text that has at most `n` bytes. -/
def takeBytes : Nat → Text → Text
  | _, [] => []
  | n, c :: t => if c.utf8Size ≤ n then c :: takeBytes (n - c.utf8Size) t else []

/-- What `takeBytes` leaves. -/
def dropBytes : Nat → Text → Text
  | _, [] => []
  | n, c :: t => if c.utf8Size ≤ n then dropBytes (n - c.utf8Size) t else c :: t

/-- The text at a span. -/
def slice (t : Text) (s : Span) : Text := takeBytes (s.stop - s.start) (dropBytes s.start t)

/-- The text behind `front`, if the text starts with it. -/
def dropFront? : (front : Text) → Text → Option Text
  | [], t => some t
  | _ :: _, [] => none
  | f :: front, c :: t => if f = c then dropFront? front t else none

theorem dropFront?_eq_some_iff {front t rest : Text} :
    dropFront? front t = some rest ↔ t = front ++ rest := by
  induction front generalizing t with
  | nil => simp [dropFront?, eq_comm]
  | cons f front ih =>
    cases t with
    | nil => simp [dropFront?]
    | cons c t =>
      by_cases h : f = c
      · simp [dropFront?, h, ih]
      · simp [dropFront?, h, Ne.symm h]

/-- Whether the text starts with `front`. -/
def startsWith (t front : Text) : Bool := (dropFront? front t).isSome

/-- The text in front of `back`, if the text ends with it. -/
def dropBack? (back t : Text) : Option Text :=
  (dropFront? back.reverse t.reverse).map List.reverse

/-- The text without the longest back whose characters all satisfy `p`. -/
def dropEndWhile (p : Char → Bool) (t : Text) : Text := (t.reverse.dropWhile p).reverse

/-- Splits at the first occurrence of `needle`: what stands before it and what stands behind it. -/
def splitOnce? (needle : Text) : Text → Option (Text × Text)
  | [] => (dropFront? needle []).map fun rest => ([], rest)
  | c :: t =>
    match dropFront? needle (c :: t) with
    | some rest => some ([], rest)
    | none => (splitOnce? needle t).map fun (before, rest) => (c :: before, rest)

/-- Whether `needle` occurs in the text. -/
def contains (t needle : Text) : Bool := (splitOnce? needle t).isSome

/-- The texts one after another, `separator` between each two. -/
def join (separator : Text) : List Text → Text
  | [] => []
  | [t] => t
  | t :: u :: rest => t ++ separator ++ join separator (u :: rest)

/-- The parts of a text between the characters that satisfy `p`. -/
def separate (p : Char → Bool) : Text → List Text
  | [] => [[]]
  | c :: t =>
    if p c then [] :: separate p t
    else
      match separate p t with
      | [] => [[c]]
      | part :: rest => (c :: part) :: rest

/-- The decimal numeral of a number. -/
def ofNat (n : Nat) : Text := Nat.toDigits 10 n

/-- The order of texts by code points, which is also the order of their UTF-8 bytes. -/
def le : Text → Text → Bool := lexLe fun c d => c.toNat < d.toNat

end Text

end Runbook
