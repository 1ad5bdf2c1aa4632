import Runbook.Shell.Numeral

/-!
# Real numbers

Numbers of double precision, with 53 binary digits: how they are read, and how they are written with
a number of digits.  All rounding is to the nearest, and of two nearest ones to the even one.
-/

namespace Runbook.Shell

/-- A number of double precision. -/
inductive Double where
  /-- A whole number times a power of two. -/
  | finite (negative : Bool) (mantissa : Nat) (exponent : Int)
  | infinite (negative : Bool)
  | undefined (negative : Bool)
deriving DecidableEq, Repr

/-- The whole number nearest to a quotient, the even one of two. -/
def roundQuotient (num den : Nat) : Nat :=
  let q := num / den
  let r := num % den
  if 2 * r < den then q
  else if den < 2 * r then q + 1
  else if q % 2 = 0 then q
  else q + 1

/-- The quotient with one side multiplied by a power. -/
def scaleQuotient (base : Nat) (exponent : Int) (num den : Nat) : Nat × Nat :=
  match exponent with
  | .ofNat n => (num * Nat.pow base n, den)
  | .negSucc n => (num, den * Nat.pow base (n + 1))

namespace Double

/-- The smallest exponent. -/
def lowestExponent : Int := -1074

/-- The largest exponent. -/
def highestExponent : Int := 971

/-- The number of mantissas. -/
def mantissaLimit : Nat := 0x20000000000000

/-- The number nearest to a quotient, and whether it is too far from it. -/
def ofQuotient (negative : Bool) (num den : Nat) : Double × Bool :=
  if num = 0 then (.finite negative 0 0, false)
  else
    let estimate : Int := (Nat.log2 num : Int) - Nat.log2 den - 52
    let (n, d) := scaleQuotient 2 (-estimate) num den
    let exponent := if n < d * (mantissaLimit / 2) then estimate - 1 else estimate
    let exponent := max exponent lowestExponent
    let (n, d) := scaleQuotient 2 (-exponent) num den
    let m := roundQuotient n d
    let (m, exponent) := if m = mantissaLimit then (m / 2, exponent + 1) else (m, exponent)
    if highestExponent < exponent then (.infinite negative, true)
    else (.finite negative m exponent, m < mantissaLimit / 2 && n % d ≠ 0)

/-! ## Reading -/

/-- The exponent behind a letter, and the text behind it. -/
def takeExponent (letter : Char) (t : Text) : Int × Text :=
  match t with
  | [] => (0, t)
  | c :: behind =>
    let (minus, digits) := takeSign behind
    if c.toLower = letter && digits.head?.any Char.isDigit then
      let n : Int := digitsValue 10 (digits.takeWhile Char.isDigit)
      (if minus then -n else n, digits.dropWhile Char.isDigit)
    else (0, t)

/-- Digits with a point among them: all digits, the number behind the point, and the rest. -/
def takeFraction (p : Char → Bool) (t : Text) : Text × Nat × Text :=
  let front := t.takeWhile p
  match t.dropWhile p with
  | '.' :: behind =>
    let digits := behind.takeWhile p
    if front = [] && digits = [] then ([], 0, t)
    else (front ++ digits, digits.length, behind.dropWhile p)
  | rest => (front, 0, rest)

/-- The number of digits beyond which an exponent leads out of every range. -/
def farExponent : Int := 100000

/-- The number of digits in front of a power. -/
def ofDigits (negative : Bool) (base power : Nat) (digits : Text) (exponent : Int) :
    Double × Bool :=
  let n := digitsValue base digits
  if n = 0 then (.finite negative 0 0, false)
  else if farExponent < exponent then (.infinite negative, true)
  else if exponent < -farExponent - digits.length then (.finite negative 0 0, true)
  else
    let (num, den) := scaleQuotient power exponent n 1
    ofQuotient negative num den

/-- Whether a text starts with a word, in small or large letters. -/
def dropWord? (word t : Text) : Option Text :=
  if (t.take word.length).map Char.toLower = word then some (t.drop word.length) else none

/-- A hexadecimal number behind its mark. -/
def scanHex? (negative : Bool) : Text → Option (Scanned Double)
  | '0' :: x :: t =>
    let (digits, places, rest) := takeFraction isHex t
    if (x = 'x' || x = 'X') && digits ≠ [] then
      let (power, rest) := takeExponent 'p' rest
      let (value, clamped) := ofDigits negative 16 2 digits (power - 4 * places)
      some { value, rest, found := true, clamped }
    else none
  | _ => none

/-- What stands behind the word for no number, without a remark in parentheses. -/
def dropRemark (t : Text) : Text :=
  match t with
  | '(' :: rest =>
    match rest.dropWhile fun c => c.isAlphanum || c = '_' with
    | ')' :: behind => behind
    | _ => t
  | _ => t

/-- A number off the front of a text. -/
def scan (t : Text) : Scanned Double :=
  let (negative, behind) := takeSign (t.dropWhile isNumberBlank)
  let special (value : Double) (rest : Text) : Scanned Double :=
    { value, rest, found := true, clamped := false }
  match dropWord? "infinity" behind, dropWord? "inf" behind, dropWord? "nan" behind with
  | some rest, _, _ | none, some rest, _ => special (.infinite negative) rest
  | none, none, some rest => special (.undefined negative) (dropRemark rest)
  | none, none, none =>
    match scanHex? negative behind with
    | some s => s
    | none =>
      let (digits, places, rest) := takeFraction Char.isDigit behind
      if digits = [] then
        { value := .finite false 0 0, rest := t, found := false, clamped := false }
      else
        let (power, rest) := takeExponent 'e' rest
        let (value, clamped) := ofDigits negative 10 10 digits (power - places)
        { value, rest, found := true, clamped }

/-! ## Writing -/

/-- Digits with a point in front of the last `places`; without places there is a point only if it is
asked for. -/
def withPoint (point : Bool) (places : Nat) (digits : Text) : Text :=
  let digits := List.replicate (places + 1 - digits.length) '0' ++ digits
  let front := digits.take (digits.length - places)
  let back := digits.drop (digits.length - places)
  if back = [] && !point then front else front ++ '.' :: back

/-- The quotient that a mantissa and an exponent stand for. -/
def quotient (mantissa : Nat) (exponent : Int) : Nat × Nat := scaleQuotient 2 exponent mantissa 1

/-- A quotient with some places behind the point. -/
def fixed (point : Bool) (places num den : Nat) : Text :=
  withPoint point places (Text.ofNat (roundQuotient (num * Nat.pow 10 places) den))

/-- The digits of a quotient, one more than `places`, and the power of ten of the first. -/
def leadingDigits (places num den : Nat) : Text × Int :=
  if num = 0 then (List.replicate (places + 1) '0', 0)
  else
    let estimate : Int := ((Text.ofNat num).length : Int) - (Text.ofNat den).length
    let (n, d) := scaleQuotient 10 (-estimate) num den
    let power := if n < d then estimate - 1 else estimate
    let (n, d) := scaleQuotient 10 (places - power) num den
    let digits := Text.ofNat (roundQuotient n d)
    if places + 1 < digits.length then (digits.take (places + 1), power + 1) else (digits, power)

/-- The sign and at least `least` digits of an exponent. -/
def exponentText (least : Nat) (n : Int) : Text :=
  let digits := Text.ofNat n.natAbs
  (if n < 0 then '-' else '+') :: (List.replicate (least - digits.length) '0' ++ digits)

/-- A quotient as digits and a power of ten. -/
def scientific (point : Bool) (places num den : Nat) : Text :=
  let (digits, power) := leadingDigits places num den
  withPoint point places digits ++ 'e' :: exponentText 2 power

/-- A number without zeros behind its point, and without a point that has nothing behind it. -/
def dropZeros (t : Text) : Text :=
  if '.' ∈ t then Text.dropEndWhile (· = '.') (Text.dropEndWhile (· = '0') t) else t

/-- A quotient with some digits, in the shorter of the two ways. -/
def general (point : Bool) (digits num den : Nat) : Text :=
  let digits := max digits 1
  let (found, power) := leadingDigits (digits - 1) num den
  let shorten (t : Text) : Text := if point then t else dropZeros t
  if power < -4 || (digits : Int) ≤ power then
    shorten (withPoint point (digits - 1) found) ++ 'e' :: exponentText 2 power
  else shorten (fixed point (digits - 1 - power).toNat num den)

/-- The number of hexadecimal digits behind the point. -/
def hexPlaces : Nat := 13

/-- A number in hexadecimal digits, with as many places as it needs or with `places?` of them. -/
def hexadecimal (point : Bool) (places? : Option Nat) (mantissa : Nat) (exponent : Int) : Text :=
  let isSmall := mantissa < mantissaLimit / 2
  let power := if mantissa = 0 then 0 else exponent + 52
  let places := min (places?.getD hexPlaces) hexPlaces
  let kept := roundQuotient mantissa (Nat.pow 16 (hexPlaces - places))
  let digits := Nat.toDigits 16 kept
  let digits :=
    if isSmall then List.replicate (places + 1 - digits.length) '0' ++ digits else digits
  let extra := List.replicate (places?.getD 0 - hexPlaces) '0'
  let body := withPoint point (places + extra.length) (digits ++ extra)
  let body := if places?.isNone then dropZeros body else body
  let body := if places?.isNone && point && !body.any (· = '.') then body ++ ['.'] else body
  "0x" ++ body ++ 'p' :: exponentText 1 power

end Double

end Runbook.Shell
