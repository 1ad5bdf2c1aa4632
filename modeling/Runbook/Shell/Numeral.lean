import Runbook.Text.Octets

/-!
# Numerals

Whole numbers of 64 bits the way shells and their commands read them: decimal, octal behind a zero,
hexadecimal behind `0x`.  A numeral is taken off the front of a text; what is left of it says
whether all of it was a number.
-/

namespace Runbook.Shell

/-- A number that was read off a text. -/
structure Scanned (α : Type) where
  value : α
  /-- What stands behind the number. -/
  rest : Text
  /-- Whether there was a number at all. -/
  found : Bool
  /-- Whether the value had to be moved to the nearest one that can be held. -/
  clamped : Bool

/-- Whether a character counts as blank in front of a number. -/
def isNumberBlank (c : Char) : Bool := c = ' ' || ('\t' ≤ c && c ≤ '\r')

/-- Whether nothing but blanks is left behind a number. -/
def Scanned.isAll {α : Type} (s : Scanned α) : Bool := s.rest.all isNumberBlank

/-- Whether a character is an octal digit. -/
def isOctal (c : Char) : Bool := '0' ≤ c && c ≤ '7'

/-- Whether a character is a hexadecimal digit. -/
def isHex (c : Char) : Bool := c.isDigit || ('a' ≤ c && c ≤ 'f') || ('A' ≤ c && c ≤ 'F')

/-- The value of a digit. -/
def digitValue (c : Char) : Nat :=
  if c.isDigit then c.toNat - '0'.toNat
  else if 'a' ≤ c then c.toNat - 'a'.toNat + 10
  else c.toNat - 'A'.toNat + 10

/-- The value of a row of digits. -/
def digitsValue (base : Nat) (digits : Text) : Nat :=
  digits.foldl (fun n c => n * base + digitValue c) 0

/-- Takes a sign off a text; whether it is a minus. -/
def takeSign : Text → Bool × Text
  | '-' :: t => (true, t)
  | '+' :: t => (false, t)
  | t => (false, t)

/-- Whether a text goes on with the mark of a hexadecimal number. -/
def hexBehind? : Text → Option Text
  | '0' :: x :: d :: t => if (x = 'x' || x = 'X') && isHex d then some (d :: t) else none
  | _ => none

/-- A number with its sign, whatever its size. -/
def scanWhole (t : Text) : Scanned (Bool × Nat) :=
  let (minus, behind) := takeSign (t.dropWhile isNumberBlank)
  let take (base : Nat) (p : Char → Bool) (digits : Text) : Scanned (Bool × Nat) :=
    { value := (minus, digitsValue base (digits.takeWhile p))
      rest := digits.dropWhile p
      found := true
      clamped := false }
  match hexBehind? behind with
  | some digits => take 16 isHex digits
  | none =>
    match behind with
    | [] => { value := (false, 0), rest := t, found := false, clamped := false }
    | c :: _ =>
      if c = '0' then take 8 isOctal behind
      else if c.isDigit then take 10 Char.isDigit behind
      else { value := (false, 0), rest := t, found := false, clamped := false }

/-- A decimal number with its sign, whatever its size. -/
def scanDecimal (t : Text) : Scanned Int :=
  let (minus, behind) := takeSign (t.dropWhile isNumberBlank)
  let digits := behind.takeWhile Char.isDigit
  let n : Int := digitsValue 10 digits
  { value := if minus then -n else n
    rest := if digits = [] then t else behind.dropWhile Char.isDigit
    found := digits ≠ []
    clamped := false }

/-- The number of values that 64 bits have. -/
def wordLimit : Nat := 0x10000000000000000

/-- The number of values of 64 bits that are not negative if one bit is for the sign. -/
def signLimit : Nat := 0x8000000000000000

/-- A number with a sign, in 64 bits. -/
def scanInteger (t : Text) : Scanned Int :=
  let s := scanWhole t
  let (minus, n) := s.value
  let bound := if minus then signLimit else signLimit - 1
  let magnitude : Int := min n bound
  { s with value := if minus then -magnitude else magnitude, clamped := bound < n }

/-- A number without a sign, in 64 bits. A minus counts down from the top. -/
def scanNatural (t : Text) : Scanned Nat :=
  let s := scanWhole t
  let (minus, n) := s.value
  if wordLimit ≤ n then { s with value := wordLimit - 1, clamped := true }
  else { s with value := if minus then (wordLimit - n) % wordLimit else n, clamped := false }

/-- The number in 64 bits, one of them for the sign, that is the same up to multiples of their
number of values. -/
def wrap (n : Int) : Int :=
  let r := n % wordLimit
  if r < signLimit then r else r - wordLimit

/-- The number in 32 bits, one of them for the sign, that has the same low bits. -/
def wrapHalf (n : Int) : Int :=
  let r := n % 0x100000000
  if r < 0x80000000 then r else r - 0x100000000

/-- The number without a sign that has the same 64 bits. -/
def toNatural (n : Int) : Nat := (n % wordLimit).toNat

end Runbook.Shell
