import Runbook.Text.Octets

/-!
# Patterns

A pattern describes texts: a star stands for any characters, a question mark for one, and brackets
for one out of a set.  A quoted character stands for itself.

`Pattern.matches` decides whether a pattern describes all of a text.
-/

namespace Runbook.Shell

/-- A text that remembers which of its characters are quoted. -/
abbrev Marked := List (Char × Bool)

/-- The text without the marks. -/
def Marked.text (t : Marked) : Text := List.map Prod.fst t

/-- A text with all characters quoted, or none. -/
def mark (quoted : Bool) (t : Text) : Marked := t.map (·, quoted)

/-- What the set of a bracket holds. -/
inductive SetMember where
  | range (low high : Char)
  /-- The characters of a class that has a name. -/
  | named (name : Text)
deriving DecidableEq, Repr

/-- A part of a pattern. -/
inductive PatternItem where
  | char (c : Char)
  | one
  | any
  | set (negated : Bool) (members : List SetMember)
deriving DecidableEq, Repr

/-- A pattern. -/
abbrev Pattern := List PatternItem

/-! ## Classes -/

/-- The classes of ASCII characters that have names. -/
def namedClass? (name : Text) : Option (Char → Bool) :=
  let isVisible (c : Char) : Bool := '!' ≤ c && c ≤ '~'
  match String.ofList name with
  | "alnum" => some Char.isAlphanum
  | "alpha" => some Char.isAlpha
  | "blank" => some fun c => c = ' ' || c = '\t'
  | "cntrl" => some fun c => c.toNat < 32 || c.toNat = 127
  | "digit" => some Char.isDigit
  | "graph" => some isVisible
  | "lower" => some Char.isLower
  | "print" => some fun c => c = ' ' || isVisible c
  | "punct" => some fun c => isVisible c && !c.isAlphanum
  | "space" => some fun c => c = ' ' || ('\t' ≤ c && c ≤ '\r')
  | "upper" => some Char.isUpper
  | "xdigit" => some fun c => c.isDigit || ('a' ≤ c && c ≤ 'f') || ('A' ≤ c && c ≤ 'F')
  | _ => none

/-- Whether a character belongs to a part of a set. -/
def SetMember.holds (m : SetMember) (c : Char) : Bool :=
  match m with
  | .range low high => low ≤ c && c ≤ high
  | .named name => (namedClass? name).any (· c)

/-! ## Reading a pattern -/

/-- Applies backslashes that are not quoted: each quotes the character behind it. -/
def applyBackslashes : Marked → Marked
  | ('\\', false) :: (c, _) :: t => (c, true) :: applyBackslashes t
  | e :: t => e :: applyBackslashes t
  | [] => []

/-- A class by its name, behind the bracket in front of it. -/
def takeClass? (t : Marked) : Option (Text × Marked) :=
  match t with
  | (':', false) :: rest =>
    let name := (rest.takeWhile fun e => e.1.isAlpha && !e.2).map Prod.fst
    match rest.drop name.length with
    | (':', false) :: (']', false) :: behind =>
      if (namedClass? name).isSome then some (name, behind) else none
    | _ => none
  | _ => none

/-- The members of a set and what stands behind its bracket; nothing if it is not closed. A bracket
in front closes nothing. -/
def takeMembers? : Nat → (first : Bool) → Marked → Option (List SetMember × Marked)
  | 0, _, _ => none
  | _, _, [] => none
  | fuel + 1, first, (c, quoted) :: t =>
    if c = ']' && !quoted && !first then some ([], t)
    else
      match if c = '[' && !quoted then takeClass? t else none with
      | some (name, behind) =>
        (takeMembers? fuel false behind).map fun (ms, rest) => (.named name :: ms, rest)
      | none =>
        match t with
        | ('-', false) :: (d, dQuoted) :: behind =>
          if d = ']' && !dQuoted then
            (takeMembers? fuel false t).map fun (ms, rest) => (.range c c :: ms, rest)
          else
            (takeMembers? fuel false behind).map fun (ms, rest) => (.range c d :: ms, rest)
        | t => (takeMembers? fuel false t).map fun (ms, rest) => (.range c c :: ms, rest)

/-- A set behind its bracket. -/
def takeSet? (t : Marked) : Option (PatternItem × Marked) :=
  match t with
  | ('!', false) :: rest =>
    (takeMembers? (rest.length + 1) true rest).map fun (ms, rest) => (.set true ms, rest)
  | t => (takeMembers? (t.length + 1) true t).map fun (ms, rest) => (.set false ms, rest)

/-- The items of a pattern. -/
def Pattern.itemsOf : Nat → Marked → Pattern
  | 0, _ => []
  | _, [] => []
  | fuel + 1, (c, quoted) :: t =>
    if quoted then .char c :: itemsOf fuel t
    else if c = '*' then .any :: itemsOf fuel t
    else if c = '?' then .one :: itemsOf fuel t
    else if c = '[' then
      match takeSet? t with
      | some (item, rest) => item :: itemsOf fuel rest
      | none => .char c :: itemsOf fuel t
    else .char c :: itemsOf fuel t

/-- The pattern that a text describes. -/
def Pattern.ofMarked (t : Marked) : Pattern :=
  let t := applyBackslashes t
  Pattern.itemsOf (t.length + 1) t

/-! ## Matching -/

/-- Whether a function accepts the text or one of its backs. -/
def anyBack (accepts : Text → Bool) : Text → Bool
  | [] => accepts []
  | c :: t => accepts (c :: t) || anyBack accepts t

/-- Whether a pattern describes a text. -/
def Pattern.matches : Pattern → Text → Bool
  | [], t => t.isEmpty
  | .any :: p, t => anyBack (Pattern.matches p) t
  | .one :: p, t =>
    match t with
    | [] => false
    | _ :: rest => Pattern.matches p rest
  | .char c :: p, t =>
    match t with
    | [] => false
    | d :: rest => c = d && Pattern.matches p rest
  | .set negated members :: p, t =>
    match t with
    | [] => false
    | d :: rest => members.any (·.holds d) != negated && Pattern.matches p rest

/-- The lengths from 0 on, upwards or downwards. -/
def lengths (downwards : Bool) (n : Nat) : List Nat :=
  if downwards then (List.range (n + 1)).reverse else List.range (n + 1)

/-- The text without its shortest or longest front that a pattern describes. -/
def Pattern.dropFront (p : Pattern) (longest : Bool) (t : Text) : Text :=
  match (lengths longest t.length).find? fun n => p.matches (t.take n) with
  | some n => t.drop n
  | none => t

/-- The text without its shortest or longest back that a pattern describes. -/
def Pattern.dropBack (p : Pattern) (longest : Bool) (t : Text) : Text :=
  match (lengths (!longest) t.length).find? fun n => p.matches (t.drop n) with
  | some n => t.take n
  | none => t

end Runbook.Shell
