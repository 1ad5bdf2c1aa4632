import Runbook.Text.Blank

/-!
# The deny-list

Some commands destroy data or weaken the system: recursive deletes, formatting, raw writes to
devices, writes into `/etc`, permissions for everyone.  The deny-list knows them by their shapes.
It slows a user down and is no security boundary.

A pattern is a row of atoms, and a command matches it where a part of the command has this shape.
`matchRow` finds out for every position of a command at once, from the right, whether the rest of
the pattern matches there, so that long runs of blanks cost no more than other text.
-/

namespace Runbook

/-- A part of the shape of a command. -/
inductive Atom where
  /-- This character, in either case. -/
  | char (c : Char)
  /-- At least one character of white space. -/
  | blanks
  /-- Any number of characters of white space. -/
  | optionalBlanks
  /-- Any number of characters other than a line feed. -/
  | anything
deriving DecidableEq, Repr

/-- The shape of a dangerous part of a command. -/
abbrev Pattern := List Atom

namespace Pattern

/-- The characters of a word, one after another. -/
def word (w : Text) : Pattern := w.map .char

/-- The usual way to write an atom in a regular expression. -/
def displayAtom : Atom → Text
  | .char c => [c]
  | .blanks => "\\s+"
  | .optionalBlanks => "\\s*"
  | .anything => ".*"

/-- The pattern written as a regular expression. -/
def display (p : Pattern) : Text := p.flatMap displayAtom

/-- Upper and lower case made one, by simple case folding: of the characters that fold to an ASCII
letter, two lie outside ASCII, the Kelvin sign and the long s. -/
def foldCase (c : Char) : Char :=
  if c.toNat = 0x212A then 'k' else if c.toNat = 0x17F then 's' else c.toLower

/-- Whether two characters differ in case at most. -/
def sameLetter (a b : Char) : Bool := foldCase a = foldCase b

/-- Whether any character but a line feed. -/
def isInline (c : Char) : Bool := c ≠ '\n'

/-- For each position of a text, its end included, whether a character that satisfies `p` stands
there and `next` holds at the position behind it. -/
def rowOne (p : Char → Bool) : Text → List Bool → List Bool
  | c :: t, _ :: next => (p c && next.head?.getD false) :: rowOne p t next
  | _, _ => [false]

/-- For each position of a text, its end included, whether `next` holds there or behind a run of
characters that satisfy `p`. -/
def rowRun (p : Char → Bool) : Text → List Bool → List Bool
  | c :: t, here :: next =>
    let later := rowRun p t next
    (here || (p c && later.head?.getD false)) :: later
  | _, next => next

/-- For each position of a text, its end included, whether the pattern matches from there on. -/
def matchRow (p : Pattern) (t : Text) : List Bool :=
  match p with
  | [] => List.replicate (t.length + 1) true
  | .char c :: rest => rowOne (sameLetter c) t (matchRow rest t)
  | .blanks :: rest => rowOne isBlank t (rowRun isBlank t (matchRow rest t))
  | .optionalBlanks :: rest => rowRun isBlank t (matchRow rest t)
  | .anything :: rest => rowRun isInline t (matchRow rest t)

/-- Whether some part of the text has the shape of the pattern. -/
def occursIn (p : Pattern) (t : Text) : Bool := (matchRow p t).any id

end Pattern

namespace DenyList

open Pattern

/-- The shapes of dangerous commands, in the order in which they are tried. -/
def patterns : List Pattern :=
  [ word "rm" ++ [.blanks] ++ word "-rf",
    word "rmdir",
    word "format",
    word "mkfs",
    word "dd" ++ [.blanks] ++ word "if",
    word ">" ++ [.optionalBlanks] ++ word "/dev/",
    word ">" ++ [.optionalBlanks] ++ word "/etc/",
    word "chmod" ++ [.blanks] ++ word "777",
    word "chmod" ++ [.blanks] ++ word "-R",
    word "mv" ++ [.blanks, .anything, .blanks] ++ word "/etc/",
    word "rm" ++ [.blanks, .anything, .blanks] ++ word "/etc/" ]

/-- The first pattern of the deny-list that a command matches. -/
def dangerousPattern? (command : Text) : Option Pattern :=
  patterns.find? fun p => p.occursIn command

/-- A command that is on the deny-list. -/
structure Danger where
  /-- The command as it was given. -/
  command : Text
  /-- The first pattern that it matches. -/
  pattern : Pattern
deriving DecidableEq, Repr

/-- The danger in words. -/
def Danger.message (d : Danger) : Text :=
  "Potentially dangerous command detected: " ++ d.command

/-- The trimmed command, unless it is on the deny-list. -/
def sanitize (command : Text) : Except Danger Text :=
  let trimmed := Text.trim command
  match dangerousPattern? trimmed with
  | some pattern => .error ⟨command, pattern⟩
  | none => .ok trimmed

end DenyList

end Runbook
