import Runbook.Toml.Value

/-!
# The smallest parts of a TOML document

Blanks, line endings, comments, strings, numbers, dates and times.  A reader takes its part off the
front of a text; where it fails, nothing has been taken.
-/

namespace Runbook.Toml

/-- Takes something off the front of a text, or fails. -/
abbrev Reader := StateT Text Option

namespace Reader

/-- Takes one character that satisfies `p`. -/
def one (p : Char → Bool) : Reader Char := fun t =>
  match t with
  | c :: rest => if p c then some (c, rest) else none
  | [] => none

/-- Takes all characters up to the first that does not satisfy `p`. -/
def many (p : Char → Bool) : Reader Text := fun t => some (t.takeWhile p, t.dropWhile p)

/-- Takes characters that satisfy `p`, at least one. -/
def some1 (p : Char → Bool) : Reader Text := fun t =>
  match t.takeWhile p with
  | [] => none
  | front => some (front, t.dropWhile p)

/-- Takes exactly `n` characters, all of which satisfy `p`. -/
def exactly (n : Nat) (p : Char → Bool) : Reader Text := fun t =>
  let front := t.take n
  if front.length = n ∧ front.all p then some (front, t.drop n) else none

/-- Takes a fixed text. -/
def literal (front : Text) : Reader Unit := fun t =>
  (Text.dropFront? front t).map fun rest => ((), rest)

/-- Succeeds at the end of the text. -/
def atEnd : Reader Unit := fun t => if t = [] then some ((), t) else none

/-- The next character, which stays where it is. -/
def peek : Reader Char := fun t => t.head?.map fun c => (c, t)

/-- Takes something if it is there. -/
def maybe {α : Type} (r : Reader α) : Reader (Option α) := fun t =>
  match r t with
  | some (a, rest) => some (some a, rest)
  | none => some (none, t)

/-- Takes something and checks it. -/
def checked {α : Type} (r : Reader α) (p : α → Bool) : Reader α := do
  let a ← r
  if p a then return a else failure

/-- Takes something, and the text that it was written with. -/
def written {α : Type} (r : Reader α) : Reader Text := fun t =>
  (r t).map fun (_, rest) => (t.take (t.length - rest.length), rest)

end Reader

open Reader

/-! ## Blanks, line endings, comments -/

/-- Whether a character separates words on a line. -/
def isLineBlank (c : Char) : Bool := c = ' ' || c = '\t'

/-- The characters outside ASCII, all of which may stand in strings and comments. -/
def isBeyondAscii (c : Char) : Bool := 0x80 ≤ c.toNat

/-- The characters of comments: all but control characters other than the tab. -/
def isInComment (c : Char) : Bool :=
  c = '\t' || (0x20 ≤ c.toNat && c.toNat ≤ 0x7E) || isBeyondAscii c

/-- Spaces and tabs. -/
def lineBlanks : Reader Text := many isLineBlank

/-- A line ending. -/
def newline : Reader Unit := literal "\n" <|> literal "\r\n"

/-- A line ending or the end of the text. -/
def lineEnd : Reader Unit := newline <|> atEnd

/-- A comment, up to the end of its line. -/
def comment : Reader Unit := do
  literal "#"
  let _ ← many isInComment

/-- What may stand behind an expression on its line, and the end of the line. -/
def lineRest : Reader Unit := do
  let _ ← lineBlanks
  let _ ← maybe comment
  lineEnd

/-- Blanks, line endings and comments, in a text of at most `fuel` characters. -/
def spaceWithin : Nat → Reader Unit
  | 0 => pure ()
  | fuel + 1 => do
    let _ ← lineBlanks
    let more ← maybe (newline <|> do comment; newline)
    if more.isSome then spaceWithin fuel else pure ()

/-- Blanks, line endings and comments. -/
def space : Reader Unit := fun t => spaceWithin (t.length + 1) t

/-! ## Strings -/

/-- The characters that stand for themselves between double quotes. -/
def isPlainInBasic (c : Char) : Bool :=
  isInComment c && c ≠ '"' && c ≠ '\\'

/-- The characters that stand for themselves between single quotes. -/
def isPlainInLiteral (c : Char) : Bool := isInComment c && c ≠ '\''

/-- Whether a character is a hexadecimal digit. -/
def isHexDigit (c : Char) : Bool :=
  c.isDigit || ('a' ≤ c && c ≤ 'f') || ('A' ≤ c && c ≤ 'F')

/-- The value of a digit of any base up to 16. -/
def digitValue (c : Char) : Nat :=
  if c.isDigit then c.toNat - '0'.toNat
  else if 'a' ≤ c && c ≤ 'f' then c.toNat - 'a'.toNat + 10
  else c.toNat - 'A'.toNat + 10

/-- The value of a numeral. -/
def numeralValue (base : Nat) (digits : Text) : Nat :=
  digits.foldl (fun n c => n * base + digitValue c) 0

/-- A character given by its code point in `n` hexadecimal digits. -/
def codePoint (n : Nat) : Reader Char := do
  let value := numeralValue 16 (← exactly n isHexDigit)
  if value.isValidChar then return Char.ofNat value else failure

/-- A character written behind a backslash. -/
def escaped : Reader Char := do
  literal "\\"
  match ← one fun _ => true with
  | 'b' => return '\x08'
  | 't' => return '\t'
  | 'n' => return '\n'
  | 'f' => return '\x0c'
  | 'r' => return '\r'
  | '"' => return '"'
  | '\\' => return '\\'
  | 'u' => codePoint 4
  | 'U' => codePoint 8
  | _ => failure

/-- A string between double quotes. -/
def basicBody : Nat → Reader Text
  | 0 => failure
  | fuel + 1 => do
    let plain ← many isPlainInBasic
    if (← peek) = '"' then
      literal "\""
      return plain
    else
      let c ← escaped
      return plain ++ c :: (← basicBody fuel)

/-- A string between double quotes, on one line. -/
def basicString : Reader Text := do
  literal "\""
  fun t => basicBody (t.length + 1) t

/-- A string between single quotes, on one line. -/
def literalString : Reader Text := do
  literal "'"
  let body ← many isPlainInLiteral
  literal "'"
  return body

/-- A backslash at the end of a line, and all blanks and line endings behind it. -/
def foldedLine : Reader Unit := do
  literal "\\"
  let _ ← lineBlanks
  newline
  fun t => (foldBlanks (t.length + 1)) t
where
  /-- Blanks and line endings. -/
  foldBlanks : Nat → Reader Unit
    | 0 => pure ()
    | fuel + 1 => do
      let _ ← lineBlanks
      if (← maybe newline).isSome then foldBlanks fuel else pure ()

/-- The end of a string of several lines: three quotes, behind at most two that belong to the
string. -/
def tripleEnd (quote : Char) : Reader Text := do
  let quotes ← many (· = quote)
  if 3 ≤ quotes.length ∧ quotes.length ≤ 5 then return quotes.drop 3 else failure

/-- One or two quotes inside a string of several lines. -/
def innerQuotes (quote : Char) : Reader Text := do
  let quotes ← some1 (· = quote)
  if quotes.length ≤ 2 then return quotes else failure

/-- The body of a string of several lines. `plain` characters stand for themselves. -/
def tripleBody (quote : Char) (special : Reader Text) (plain : Char → Bool) : Nat → Reader Text
  | 0 => failure
  | fuel + 1 => do
    match ← maybe (tripleEnd quote) with
    | some quotes => return quotes
    | none =>
      let piece ←
        innerQuotes quote <|> some1 plain <|> special <|> do newline; return ['\n']
      return piece ++ (← tripleBody quote special plain fuel)

/-- A string of several lines. A line ending right behind the opening quotes is left out. -/
def tripleString (quote : Char) (special : Reader Text) (plain : Char → Bool) : Reader Text := do
  literal [quote, quote, quote]
  let _ ← maybe newline
  fun t => tripleBody quote special plain (t.length + 1) t

/-- What may stand behind a backslash in a string of several lines. -/
def tripleEscape : Reader Text :=
  (do foldedLine; return []) <|> do return [← escaped]

/-- Any string. -/
def string : Reader Text :=
  tripleString '"' tripleEscape isPlainInBasic <|> basicString <|>
    tripleString '\'' failure isPlainInLiteral <|> literalString

/-! ## Numbers -/

/-- Digits, with single underscores between them. -/
def digitsWithin (p : Char → Bool) : Nat → Reader Text
  | 0 => failure
  | fuel + 1 => do
    let front ← some1 p
    match ← maybe (literal "_") with
    | none => return front
    | some () => return front ++ (← digitsWithin p fuel)

/-- Digits, with single underscores between them; gives the digits alone. -/
def digits (p : Char → Bool) : Reader Text := fun t => digitsWithin p (t.length + 1) t

/-- A sign, if there is one; whether it is a minus. -/
def sign : Reader Bool := do
  let s ← maybe (one fun c => c = '+' || c = '-')
  return s = some '-'

/-- A decimal numeral without zeros in front. -/
def decimal : Reader Text :=
  checked (digits Char.isDigit) fun ds => ds.length = 1 || ds.head? ≠ some '0'

/-- Whether a number fits into 64 bits, one of them for the sign. -/
def isInRange (n : Int) : Bool := -0x8000000000000000 ≤ n && n < 0x8000000000000000

/-- A whole number of some base other than ten. -/
def based (front : Text) (base : Nat) (p : Char → Bool) : Reader Int := do
  literal front
  let ds ← digits p
  return numeralValue base ds

/-- A whole number. -/
def whole : Reader Int :=
  checked
    (based "0x" 16 isHexDigit <|> based "0o" 8 (fun c => '0' ≤ c && c ≤ '7') <|>
      based "0b" 2 (fun c => c = '0' || c = '1') <|> do
        let minus ← sign
        let n : Int := numeralValue 10 (← decimal)
        return if minus then -n else n)
    isInRange

/-- The smallest whole number that is too large for a binary number of double precision. -/
def realBound : Nat := Nat.pow 2 1024 - Nat.pow 2 970

/-- Whether a positive decimal number, its point `scale` digits from the right, is out of range. -/
def isTooLarge (digits : Text) (exponent scale : Int) : Bool :=
  let ds := digits.dropWhile (· = '0')
  let power := exponent - scale
  if ds = [] then false
  else if 400 < ds.length + power then true
  else if ds.length + power < 300 then false
  else
    let n := numeralValue 10 ds
    match power with
    | .ofNat p => realBound ≤ n * Nat.pow 10 p
    | .negSucc p => realBound * Nat.pow 10 (p + 1) ≤ n

/-- The exponent of a real number. -/
def exponent : Reader Int := do
  let _ ← one fun c => c = 'e' || c = 'E'
  let minus ← sign
  let n : Int := numeralValue 10 (← digits Char.isDigit)
  return if minus then -n else n

/-- The digits behind the point of a real number. -/
def fraction : Reader Text := do
  literal "."
  digits Char.isDigit

/-- A real number. Positive numbers beyond the range are refused. -/
def real : Reader Unit := (do
    let minus ← sign
    let front ← decimal
    let behind ← maybe fraction
    let power ← maybe exponent
    if behind.isNone && power.isNone then failure
    let ds := front ++ behind.getD []
    if !minus && isTooLarge ds (power.getD 0) (behind.getD []).length then failure)
  <|> do
    let _ ← sign
    literal "inf" <|> literal "nan"

/-! ## Dates and times -/

/-- A number of exactly `n` digits between two bounds. -/
def field (n low high : Nat) : Reader Nat := do
  let value := numeralValue 10 (← exactly n Char.isDigit)
  if low ≤ value && value ≤ high then return value else failure

/-- The number of days of a month. -/
def daysOf (year month : Nat) : Nat :=
  if month = 2 then
    if year % 4 = 0 && (year % 100 ≠ 0 || year % 400 = 0) then 29 else 28
  else if month = 4 || month = 6 || month = 9 || month = 11 then 30
  else 31

/-- A date. -/
def date : Reader Unit := do
  let year ← field 4 0 9999
  literal "-"
  let month ← field 2 1 12
  literal "-"
  let _ ← field 2 1 (daysOf year month)

/-- The way the fraction of a second is written: nine digits at most, and no zeros at its end. -/
def fractionOf (digits : Text) : Text :=
  match Text.dropEndWhile (· = '0') (digits.take 9) with
  | [] => []
  | kept => '.' :: kept

/-- A time of day. -/
def time : Reader Text := do
  let clock ← written do
    let _ ← field 2 0 23
    literal ":"
    let _ ← field 2 0 59
    literal ":"
    field 2 0 60
  let behind ← maybe do
    literal "."
    some1 Char.isDigit
  return clock ++ fractionOf (behind.getD [])

/-- The distance of a time from universal time. A distance of nothing has a plus. -/
def zone : Reader Text := (do
    let _ ← one fun c => c = 'Z' || c = 'z'
    return "Z")
  <|> do
    let distance ← written do
      let _ ← one fun c => c = '+' || c = '-'
      let _ ← field 2 0 23
      literal ":"
      field 2 0 59
    return if distance = "-00:00".toList then "+00:00" else distance

/-- A date, a time or both, in the standard way to write them. -/
def moment : Reader Text := (do
    let day ← written date
    let clock ← maybe do
      let _ ← one fun c => c = 'T' || c = 't' || c = ' '
      let clock ← time
      return 'T' :: clock ++ (← maybe zone).getD []
    return day ++ clock.getD [])
  <|> time

end Runbook.Toml
