import Runbook.Shell.Double

/-!
# Printing in a shell

What the commands `echo` and `printf` print for their arguments.  All texts are given by their
bytes, so widths and precisions count bytes.
-/

namespace Runbook.Shell

/-! ## Escapes -/

/-- The character that a letter behind a backslash stands for. -/
def escapedChar? : Char → Option Char
  | 'a' => some '\x07'
  | 'b' => some '\x08'
  | 'e' => some '\x1b'
  | 'f' => some '\x0c'
  | 'n' => some '\n'
  | 'r' => some '\r'
  | 't' => some '\t'
  | 'v' => some '\x0b'
  | '\\' => some '\\'
  | _ => none

/-- The octal digits at the front of a text, at most three of them. -/
def octalFront (t : Text) : Text := (t.take 3).takeWhile isOctal

/-- What a backslash stands for in front of a text, and how much of the text belongs to it. A
backslash that means nothing stands for itself. -/
def escape (t : Text) : Char × Nat :=
  let digits := octalFront t
  if digits ≠ [] then (Text.octet (digitsValue 8 digits), digits.length)
  else
    match t.head?.bind escapedChar? with
    | some c => (c, 1)
    | none => ('\\', 0)

/-- Replaces escapes. Octal numerals may have one more zero in front. Behind the escape for the end
nothing is printed; the flag says whether it was found. The number is that of characters in front
that are done with. -/
def unescapeFrom : Nat → Text → Text × Bool
  | _, [] => ([], false)
  | skip + 1, _ :: t => unescapeFrom skip t
  | 0, c :: t =>
    if c ≠ '\\' then
      let (rest, stopped) := unescapeFrom 0 t
      (c :: rest, stopped)
    else if t.head? = some 'c' then ([], true)
    else
      let zeros := if t.head? = some '0' && t.tail.head?.any isOctal then 1 else 0
      let (d, taken) := escape (t.drop zeros)
      let (rest, stopped) := unescapeFrom (zeros + taken) t
      (d :: rest, stopped)

/-- What `echo` prints. -/
def echo (arguments : List Text) : Text :=
  let (newline, arguments) :=
    match arguments with
    | ['-', 'n'] :: rest => (false, rest)
    | arguments => (true, arguments)
  let (t, stopped) := unescapeFrom 0 (Text.join " " arguments)
  if newline && !stopped then t ++ "\n" else t

/-! ## Directives -/

/-- The way an argument is printed. -/
structure Directive where
  leftAligned : Bool
  zeroPadded : Bool
  /-- Whether a number that is not negative has a plus. -/
  plus : Bool
  /-- Whether a number that is not negative has a blank. -/
  blank : Bool
  /-- Whether the base of a number or its point are always shown. -/
  alternate : Bool
  width : Nat
  precision : Option Nat

/-- Fills a text up to the width. -/
def Directive.pad (d : Directive) (t : Text) : Text :=
  let fill := List.replicate (d.width - t.length) ' '
  if d.leftAligned then t ++ fill else fill ++ t

/-- The sign of a number. -/
def Directive.sign (d : Directive) (negative : Bool) : Text :=
  if negative then ['-'] else if d.plus then ['+'] else if d.blank then [' '] else []

/-- Fills a number up to the width, behind its sign and its mark if it is with zeros. -/
def Directive.padNumber (d : Directive) (zeros : Bool) (front digits : Text) : Text :=
  if zeros && d.zeroPadded && !d.leftAligned then
    front ++ List.replicate (d.width - front.length - digits.length) '0' ++ digits
  else d.pad (front ++ digits)

/-- The digits of a whole number, at least as many as the precision says. -/
def Directive.digits (d : Directive) (base n : Nat) : Text :=
  let digits := if n = 0 && d.precision = some 0 then [] else Nat.toDigits base n
  List.replicate (d.precision.getD 1 - digits.length) '0' ++ digits

/-- A whole number that may be negative. -/
def Directive.integer (d : Directive) (n : Int) : Text :=
  d.padNumber d.precision.isNone (d.sign (n < 0)) (d.digits 10 n.natAbs)

/-- A whole number without a sign. -/
def Directive.natural (d : Directive) (conversion : Char) (n : Nat) : Text :=
  let zeros := d.precision.isNone
  match conversion with
  | 'o' =>
    let digits := d.digits 8 n
    let digits := if d.alternate && digits.head? ≠ some '0' then '0' :: digits else digits
    d.padNumber zeros [] digits
  | 'x' => d.padNumber zeros (if d.alternate && n ≠ 0 then "0x" else []) (d.digits 16 n)
  | 'X' =>
    d.padNumber zeros (if d.alternate && n ≠ 0 then "0X" else [])
      ((d.digits 16 n).map Char.toUpper)
  | _ => d.padNumber zeros [] (d.digits 10 n)

/-- A real number. -/
def Directive.real (d : Directive) (conversion : Char) (x : Double) : Text :=
  let inCase (t : Text) : Text := if conversion.isUpper then t.map Char.toUpper else t
  match x with
  | .infinite negative => d.pad (d.sign negative ++ inCase "inf")
  | .undefined negative => d.pad (d.sign negative ++ inCase "nan")
  | .finite negative mantissa exponent =>
    let (num, den) := Double.quotient mantissa exponent
    let places := d.precision.getD 6
    let digits :=
      match conversion.toLower with
      | 'e' => Double.scientific d.alternate places num den
      | 'g' => Double.general d.alternate places num den
      | 'a' => Double.hexadecimal d.alternate d.precision mantissa exponent
      | _ => Double.fixed d.alternate places num den
    let isHex := conversion.toLower = 'a'
    let mark := if isHex then digits.take 2 else []
    d.padNumber true (d.sign negative ++ inCase mark)
      (inCase (if isHex then digits.drop 2 else digits))

/-! ## Formats -/

/-- The status behind a mistake in a format. -/
def formatStatus : Nat := 2

/-- What is printed so far. -/
structure Printed where
  text : Text
  complaints : List Text
  arguments : List Text
  /-- Whether an argument was taken. -/
  used : Bool
  /-- Whether printing has come to its end. -/
  stopped : Bool
  /-- The status behind printing: 1 if an argument is wrong, and another if the format is. -/
  status : Nat

namespace Printed

/-- Adds a complaint about an argument. -/
def complain (p : Printed) (complaint : Text) : Printed :=
  { p with complaints := p.complaints ++ [complaint], status := 1 }

/-- Ends printing with a complaint about the format. -/
def refuse (p : Printed) (complaint : Text) : Printed :=
  { p.complain complaint with stopped := true, status := formatStatus }

/-- Adds to the text. -/
def add (p : Printed) (t : Text) : Printed := { p with text := p.text ++ t }

/-- Takes the next argument, if there is one. -/
def next (p : Printed) : Option Text × Printed :=
  (p.arguments.head?, { p with arguments := p.arguments.tail, used := true })

/-- Checks that all of an argument was a number. -/
def check {α : Type} (p : Printed) (argument : Text) (s : Scanned α) : Printed :=
  if s.rest ≠ [] then
    p.complain (argument ++
      (if s.found then ": not completely converted" else ": expected numeric value"))
  else if s.clamped then p.complain (argument ++ ": Numerical result out of range")
  else p

/-- Takes the next argument as a number. Behind a quotation mark stands a character, which counts by
its number. A missing argument is nothing. -/
def number {α : Type} (p : Printed) (ofNat : Nat → α) (scan : Text → Scanned α) : α × Printed :=
  match p.next with
  | (none, p) => (ofNat 0, p)
  | (some argument, p) =>
    if argument.head? = some '\'' || argument.head? = some '"' then
      (ofNat (argument.tail.head?.elim 0 Char.toNat), p)
    else
      let s := scan argument
      (s.value, p.check argument s)

/-- Takes the next argument as a whole number. -/
def integer (p : Printed) : Int × Printed := p.number Int.ofNat scanInteger

/-- Prints the next argument by a directive; nothing if there is no such conversion. -/
def convert? (p : Printed) (d : Directive) (conversion : Char) : Option Printed :=
  match conversion with
  | 's' =>
    let (argument, p) := p.next
    let t := argument.getD []
    some (p.add (d.pad (t.take (d.precision.getD t.length))))
  | 'c' =>
    let (argument, p) := p.next
    some (p.add (d.pad [(argument.bind List.head?).getD '\x00']))
  | 'b' =>
    let (argument, p) := p.next
    let (t, stopped) := unescapeFrom 0 (argument.getD [])
    some { p.add (d.pad (t.take (d.precision.getD t.length))) with stopped }
  | 'd' | 'i' =>
    let (n, p) := p.integer
    some (p.add (d.integer n))
  | 'o' | 'u' | 'x' | 'X' =>
    let (n, p) := p.number id scanNatural
    some (p.add (d.natural conversion n))
  | 'a' | 'A' | 'e' | 'E' | 'f' | 'F' | 'g' | 'G' =>
    let (x, p) := p.number (fun n => (Double.ofQuotient false n 1).1) Double.scan
    some (p.add (d.real conversion x))
  | _ => none

end Printed

/-- Whether a character is a flag of a directive. -/
def isFlag (c : Char) : Bool := c = '#' || c = '-' || c = '+' || c = ' ' || c = '0'

/-- A width or a precision in a format: a number or the next argument. Gives also how much of the
format it takes. -/
def readSize (p : Printed) (t : Text) : Int × Nat × Printed :=
  match t with
  | '*' :: _ =>
    let (n, p) := p.integer
    (wrapHalf n, 1, p)
  | t =>
    let written := t.takeWhile fun c => c.isDigit || c = '*'
    (digitsValue 10 (written.takeWhile Char.isDigit), written.length, p)

/-- Prints an argument by the directive behind a percent sign. Gives also how much of the format the
directive takes. -/
def printDirective (p : Printed) (t : Text) : Nat × Printed :=
  let flags := t.takeWhile isFlag
  let (width, widthLength, p) := readSize p (t.drop flags.length)
  let behindWidth := t.drop (flags.length + widthLength)
  let hasPrecision := behindWidth.head? = some '.'
  let (precision, precisionLength, p) :=
    if hasPrecision then readSize p behindWidth.tail else (-1, 0, p)
  let length := flags.length + widthLength +
    (if hasPrecision then 1 + precisionLength else 0)
  let d : Directive :=
    { leftAligned := flags.contains '-' || width < 0
      zeroPadded := flags.contains '0'
      plus := flags.contains '+'
      blank := flags.contains ' '
      alternate := flags.contains '#'
      width := width.natAbs
      precision := if precision < 0 then none else some precision.toNat }
  match (t.drop length).head? with
  | none => (length, p.refuse "missing format character")
  | some conversion =>
    match p.convert? d conversion with
    | some p => (length + 1, p)
    | none => (length, p.refuse ('%' :: t.take (length + 1) ++ ": invalid directive"))

/-- Prints by a format once. The first `skip` characters are done with. -/
def printFrom : Nat → Text → Printed → Printed
  | _, [], p => p
  | skip + 1, _ :: t, p => printFrom skip t p
  | 0, c :: t, p =>
    if c = '\\' then
      let (d, taken) := escape t
      printFrom taken t (p.add [d])
    else if c ≠ '%' then printFrom 0 t (p.add [c])
    else if t.head? = some '%' then printFrom 1 t (p.add ['%'])
    else
      let (length, p) := printDirective p t
      if p.stopped then p else printFrom length t p

/-- Prints by a format again and again, as long as arguments are left. -/
def printAll (format : Text) : Nat → Printed → Printed
  | 0, p => p
  | fuel + 1, p =>
    let p := printFrom 0 format { p with used := false }
    if p.stopped || !p.used || p.arguments = [] then p else printAll format fuel p

/-- What `printf` prints, and what it complains about. -/
def printf (format : Text) (arguments : List Text) : Printed :=
  printAll format (arguments.length + 1)
    { text := []
      complaints := []
      arguments
      used := false
      stopped := false
      status := 0 }

end Runbook.Shell
