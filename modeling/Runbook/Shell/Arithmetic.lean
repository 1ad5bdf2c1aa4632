import Runbook.Shell.Numeral
import Runbook.Shell.Syntax
import Runbook.Table

/-!
# Arithmetic expressions

Expressions with whole numbers of 64 bits and variables.  An expression is worked out while it is
read, from left to right, so the first of several mistakes is found.  Operands that do not matter
are read but not worked out.
-/

namespace Runbook.Shell.Arithmetic

/-- The smallest part of an expression. -/
inductive Token where
  | number (n : Int)
  | name (t : Text)
  /-- A sign, by the way it is written. -/
  | sign (written : Text)
  | unknown
  | stop
deriving DecidableEq, Repr

/-- The signs, longer ones before those that they start with. -/
def signs : List Text :=
  let written : List String :=
    ["<<=", ">>=", "<<", ">>", "<=", ">=", "==", "!=", "&&", "||", "+=", "-=", "*=", "/=", "%=",
      "&=", "^=", "|=", "+", "-", "*", "/", "%", "<", ">", "=", "!", "~", "&", "^", "|", "?", ":",
      "(", ")"]
  written.map String.toList

/-- The tokens of an expression. -/
def tokensWithin : Nat → Text → List Token
  | 0, _ => []
  | _, [] => []
  | fuel + 1, c :: t =>
    if c = ' ' || c = '\t' || c = '\n' then tokensWithin fuel t
    else if c.isDigit then
      let s := scanInteger (c :: t)
      .number s.value :: tokensWithin fuel s.rest
    else if isNameStart c then
      .name ((c :: t).takeWhile isNameChar) :: tokensWithin fuel (t.dropWhile isNameChar)
    else
      match signs.find? (Text.startsWith (c :: t)) with
      | some written => .sign written :: tokensWithin fuel ((c :: t).drop written.length)
      | none => [.unknown]

/-- The tokens of an expression. -/
def tokens (t : Text) : List Token := tokensWithin (t.length + 1) t

/-- What is wrong with an expression. -/
inductive Mistake where
  | expected (what : Text)
  | divisionByZero
  /-- The value of a variable is no number. -/
  | notANumber (value : Text)
  /-- A variable is to keep its value. -/
  | isFixed (name : Text)
deriving DecidableEq, Repr

/-- The mistake in words. -/
def Mistake.message (expression : Text) : Mistake → Text
  | .expected what =>
    "arithmetic expression: expecting " ++ what ++ ": \"" ++ expression ++ "\""
  | .divisionByZero => "arithmetic expression: division by zero: \"" ++ expression ++ "\""
  | .notANumber value => "Illegal number: " ++ value
  | .isFixed name => name ++ ": is read only"

/-- How far an expression is read, and the variables. -/
structure State where
  rest : List Token
  bound : Table Text Text
  /-- The variables that keep their values. -/
  fixed : List Text

/-- Works out a part of an expression. A mistake leaves the variables as they are then. -/
abbrev Work := ExceptT Mistake (StateM State)

/-- The next token, which stays where it is. -/
def peek : Work Token := return (← get).rest.head?.getD .stop

/-- Passes over the next token. -/
def advance : Work Unit := modify fun s => { s with rest := s.rest.tail }

/-- Takes the next token if it is a certain sign; whether it was. -/
def skip (written : Text) : Work Bool := do
  if (← peek) = .sign written then
    advance
    return true
  else return false

/-- The number of a variable. -/
def valueOf (name : Text) : Work Int := do
  let written := ((← get).bound.get? name).getD []
  let s := scanInteger written
  if s.isAll && !s.clamped then return s.value else throw (.notANumber written)

/-- The numeral of a number. -/
def written (n : Int) : Text := if n < 0 then '-' :: Text.ofNat n.natAbs else Text.ofNat n.natAbs

/-- Sets a variable, unless it is to keep its value. -/
def assign (name : Text) (n : Int) : Work Unit := do
  if (← get).fixed.contains name then throw (.isFixed name)
  modify fun s => { s with bound := s.bound.insert name (written n) }

/-- The truth of a number as a number. -/
def ofBool (b : Bool) : Int := if b then 1 else 0

/-- The places of the highest bits that shifts look at. -/
def shiftLimit : Int := 64

/-- Combines the bits of two numbers. -/
def bitwise (f : Nat → Nat → Nat) (a b : Int) : Int := wrap (f (toNatural a) (toNatural b))

/-- The value of an operation with two operands. -/
def operate (operator : Text) (a b : Int) : Work Int := do
  let shift := (b % shiftLimit).toNat
  match String.ofList operator with
  | "*" => return wrap (a * b)
  | "/" => if b = 0 then throw .divisionByZero else return wrap (a.tdiv b)
  | "%" => if b = 0 then throw .divisionByZero else return wrap (a.tmod b)
  | "+" => return wrap (a + b)
  | "-" => return wrap (a - b)
  | "<<" => return wrap (a * Nat.pow 2 shift)
  | ">>" => return a.fdiv (Nat.pow 2 shift)
  | "<" => return ofBool (a < b)
  | ">" => return ofBool (b < a)
  | "<=" => return ofBool (a ≤ b)
  | ">=" => return ofBool (b ≤ a)
  | "==" => return ofBool (a = b)
  | "!=" => return ofBool (a ≠ b)
  | "&" => return bitwise Nat.land a b
  | "^" => return bitwise Nat.xor a b
  | _ => return bitwise Nat.lor a b

/-- How tightly an operator binds, from 1 on; nothing for other signs. -/
def strength? (t : Token) : Option (Nat × Text) :=
  match t with
  | .sign written =>
    let strength : Nat :=
      match String.ofList written with
      | "*" | "/" | "%" => 8
      | "+" | "-" => 7
      | "<<" | ">>" => 6
      | "<" | ">" | "<=" | ">=" => 5
      | "==" | "!=" => 4
      | "&" => 3
      | "^" => 2
      | "|" => 1
      | _ => 0
    if strength = 0 then none else some (strength, written)
  | _ => none

/-- The operator of an assignment, which is empty for a plain one. -/
def assignmentOperator? (t : Token) : Option Text :=
  match t with
  | .sign written =>
    let combined : List String := ["*=", "/=", "%=", "+=", "-=", "<<=", ">>=", "&=", "^=", "|="]
    if written = "=".toList then some []
    else if combined.contains (String.ofList written) then some written.dropLast
    else none
  | _ => none

mutual

/-- A number, a variable, an expression in parentheses, or one of these behind signs. -/
def primary : Nat → Bool → Work Int
  | 0, _ => throw (.expected "primary")
  | fuel + 1, wanted => do
    match ← peek with
    | .number n =>
      advance
      return n
    | .name name =>
      advance
      if wanted then valueOf name else return 0
    | .sign written =>
      match String.ofList written with
      | "(" =>
        advance
        let n ← assignment fuel wanted
        if ← skip ")" then return n else throw (.expected "')'")
      | "+" =>
        advance
        primary fuel wanted
      | "-" =>
        advance
        return wrap (-(← primary fuel wanted))
      | "!" =>
        advance
        return ofBool ((← primary fuel wanted) = 0)
      | "~" =>
        advance
        return wrap (-(← primary fuel wanted) - 1)
      | _ => throw (.expected "primary")
    | _ => throw (.expected "primary")

/-- Operations that bind at least as tightly as some strength, behind their first operand. -/
def operations : Nat → Nat → Bool → Int → Work Int
  | 0, _, _, first => return first
  | fuel + 1, least, wanted, first => do
    match strength? (← peek) with
    | none => return first
    | some (strength, operator) =>
      if strength < least then return first
      else
        advance
        let second ← operations fuel (strength + 1) wanted (← primary fuel wanted)
        let value ← if wanted then operate operator first second else pure second
        operations fuel least wanted value

/-- Operations, both of which have to be true. -/
def conjunction : Nat → Bool → Work Int
  | 0, _ => throw (.expected "primary")
  | fuel + 1, wanted => do
    let first ← operations fuel 1 wanted (← primary fuel wanted)
    if ← skip "&&" then
      let second ← conjunction fuel (wanted && first ≠ 0)
      return ofBool (first ≠ 0 && second ≠ 0)
    else return first

/-- Conjunctions, one of which has to be true. -/
def disjunction : Nat → Bool → Work Int
  | 0, _ => throw (.expected "primary")
  | fuel + 1, wanted => do
    let first ← conjunction fuel wanted
    if ← skip "||" then
      let second ← disjunction fuel (wanted && first = 0)
      return ofBool (first ≠ 0 || second ≠ 0)
    else return first

/-- A choice between two values. -/
def choice : Nat → Bool → Work Int
  | 0, _ => throw (.expected "primary")
  | fuel + 1, wanted => do
    let condition ← disjunction fuel wanted
    if ← skip "?" then
      let yes ← assignment fuel (wanted && condition ≠ 0)
      if !(← skip ":") then throw (.expected "':'")
      let no ← choice fuel (wanted && condition = 0)
      return if condition ≠ 0 then yes else no
    else return condition

/-- An assignment, or an expression without one. -/
def assignment : Nat → Bool → Work Int
  | 0, _ => throw (.expected "primary")
  | fuel + 1, wanted => do
    match (← get).rest with
    | .name name :: sign :: rest =>
      match assignmentOperator? sign with
      | none => choice fuel wanted
      | some operator =>
        set { ← get with rest }
        let n ← assignment fuel wanted
        if !wanted then return n
        let value ← if operator = [] then pure n else operate operator (← valueOf name) n
        assign name value
        return value
    | _ => choice fuel wanted

end

/-- All of an expression. -/
def whole (fuel : Nat) : Work Int := do
  let n ← assignment fuel true
  if (← peek) = .stop then return n else throw (.expected "EOF")

/-- The value of an expression, and the variables behind it. -/
def evaluate (t : Text) (fixed : List Text) (bound : Table Text Text) :
    Except Mistake Int × Table Text Text :=
  let ts := tokens t
  let (result, s) := (whole (8 * ts.length + 8)).run { rest := ts, bound, fixed }
  (result, s.bound)

end Runbook.Shell.Arithmetic
