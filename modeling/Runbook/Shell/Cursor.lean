import Runbook.Shell.Syntax

/-!
# Reading the input of a shell

A reader takes its part off the front of the input and counts the lines that it passes.  A backslash
in front of a line ending joins two lines; a reader that looks for the next character passes over
both, unless it stands between single quotes.

A cursor remembers whether a reader has looked behind the end of the input: if so, more input could
have led to something else.
-/

namespace Runbook.Shell

/-- The smallest part of a command that means something. -/
inductive Token where
  | word (w : Word)
  | redirect (descriptor : Nat) (kind : RedirectKind) (tabsDropped : Bool)
  /-- A sign that is no word, by the way it is written. -/
  | operator (written : Text)
  | newline
  | stop

/-- A text in the input that goes to a line of its own. -/
structure Delimiter where
  text : Text
  /-- Whether tabs in front of a line do not count. -/
  tabsDropped : Bool
deriving DecidableEq, Repr

/-- How far the input is read. -/
structure Cursor where
  rest : Text
  /-- The number of the line, counted from 1. -/
  line : Nat
  /-- A token that was read too early. -/
  held : Option Token
  /-- The ends of the texts that start behind the next line ending. -/
  delimiters : List Delimiter
  /-- Whether the end of the input was looked at. -/
  ended : Bool

/-- The cursor at the front of a text. -/
def Cursor.start (t : Text) : Cursor :=
  { rest := t
    line := 1
    held := none
    delimiters := []
    ended := false }

/-- Why a text is no command. -/
structure SyntaxError where
  mistake : Mistake
  /-- The line where the mistake was found. -/
  line : Nat
  /-- Whether the end of the input was looked at. -/
  ended : Bool
deriving DecidableEq, Repr

/-- A reader of something. -/
abbrev Reader := StateT Cursor (Except SyntaxError)

namespace Reader

/-- Gives up because of a mistake. -/
def fail {α : Type} (mistake : Mistake) : Reader α := fun c => .error ⟨mistake, c.line, c.ended⟩

/-- A text without the joined line endings in front, and their number. -/
def dropJoins : Text → Text × Nat
  | '\\' :: '\n' :: t =>
    let (rest, n) := dropJoins t
    (rest, n + 1)
  | t => (t, 0)

/-- The next character, which stays where it is. -/
def peekRaw : Reader (Option Char) := fun c =>
  match c.rest with
  | [] => .ok (none, { c with ended := true })
  | d :: _ => .ok (some d, c)

/-- The next character behind joined line endings. It stays where it is. -/
def peek : Reader (Option Char) := do
  modify fun c =>
    let (rest, n) := dropJoins c.rest
    { c with rest, line := c.line + n }
  peekRaw

/-- Passes over the next character. -/
def advance : Reader Unit :=
  modify fun c =>
    match c.rest with
    | [] => c
    | d :: rest => { c with rest, line := if d = '\n' then c.line + 1 else c.line }

/-- Passes over the next character, whose line ending does not count. -/
def advanceInLine : Reader Unit := modify fun c => { c with rest := c.rest.tail }

/-- Takes the next character if it is a certain one; whether it was. -/
def skip (d : Char) : Reader Bool := do
  if (← peek) = some d then
    advance
    return true
  else return false

/-- Takes characters as long as they satisfy `p`, joined lines being one. -/
def takeWithin (p : Char → Bool) : Nat → Reader Text
  | 0 => return []
  | fuel + 1 => do
    match ← peek with
    | none => return []
    | some d =>
      if p d then
        advance
        return d :: (← takeWithin p fuel)
      else return []

/-- Takes characters as long as they satisfy `p`, joined lines being one. -/
def takeWhile (p : Char → Bool) : Reader Text := do
  takeWithin p ((← get).rest.length + 1)

/-- Takes all characters in front of a certain one, and passes over it. -/
def takeUpTo (stop : Char) (mistake : Mistake) : Reader Text := do
  let c ← get
  let taken := c.rest.takeWhile (· ≠ stop)
  let line := c.line + taken.count '\n'
  match c.rest.dropWhile (· ≠ stop) with
  | [] =>
    set { c with rest := [], line, ended := true }
    fail mistake
  | _ :: rest =>
    set { c with rest, line }
    return taken

/-- Passes over blanks, joined lines and a comment. -/
def skipBlanks : Nat → Reader Unit
  | 0 => return
  | fuel + 1 => do
    match ← peek with
    | some ' ' | some '\t' =>
      advance
      skipBlanks fuel
    | some '#' => modify fun c => { c with rest := c.rest.dropWhile (· ≠ '\n') }
    | _ => return

/-- Passes over the lines up to a delimiter. -/
def skipDocument (delimiter : Delimiter) : Nat → Reader Unit
  | 0 => return
  | fuel + 1 => do
    match ← peekRaw with
    | none => return
    | some _ =>
      let c ← get
      let written := c.rest.takeWhile (· ≠ '\n')
      set { c with rest := (c.rest.dropWhile (· ≠ '\n')).tail, line := c.line + 1 }
      let shown := if delimiter.tabsDropped then written.dropWhile (· = '\t') else written
      if shown = delimiter.text then return else skipDocument delimiter fuel

/-- Passes over the texts that start behind a line ending. -/
def skipDocuments : Reader Unit := do
  let c ← get
  set { c with delimiters := [] }
  c.delimiters.forM fun d => skipDocument d (c.rest.length + 1)

/-- Gives a token back. -/
def unread (t : Token) : Reader Unit := modify fun c => { c with held := some t }

end Reader

namespace Token

/-- Whether a token is a certain word with a meaning of its own. -/
def isReserved (written : Text) : Token → Bool
  | .word w => plainText? w = some written && reservedWords.contains written
  | _ => false

/-- Whether a token is a certain sign. -/
def isOperator (written : Text) : Token → Bool
  | .operator o => o = written
  | _ => false

/-- Whether a token ends a list of commands. -/
def endsList : Token → Bool
  | .word w => (plainText? w).any endingWords.contains
  | .operator o => o = ")".toList || o = ";;".toList
  | _ => false

/-- A text between double quotes. -/
def inQuotes (t : Text) : Text := "\"" ++ t ++ "\""

/-- The way a token is shown in an error, where reserved words may mean something or not. -/
def display (reserved : Bool) : Token → Text
  | .newline => "newline"
  | .stop => "end of file"
  | .operator written => inQuotes written
  | .redirect _ _ _ => "redirection"
  | .word w =>
    match plainText? w with
    | some t => if reserved && reservedWords.contains t then inQuotes t else "word"
    | none => "word"

end Token

end Runbook.Shell
