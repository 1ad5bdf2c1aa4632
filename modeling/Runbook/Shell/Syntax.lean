import Runbook.Text.Octets

/-!
# The syntax of a shell

A command is a simple command, or several commands put together.  A simple command is made of
assignments, words and redirections; a word is a row of pieces, some of which are replaced when the
command is run.

All texts are given by their bytes.
-/

namespace Runbook.Shell

/-- Where a redirection leads. -/
inductive RedirectKind where
  /-- To a file that is emptied. -/
  | write
  /-- To the end of a file. -/
  | append
  /-- From a file. -/
  | read
  /-- From and to a file. -/
  | readWrite
  /-- From or to where another descriptor leads. -/
  | duplicate
  /-- From lines of the input. -/
  | lines
deriving DecidableEq, Repr

mutual

/-- A part of a word. -/
inductive Piece where
  | text (value : Text) (quoted : Bool)
  /-- What is made of the value of a parameter. -/
  | parameter (name : Text) (use : Use) (quoted : Bool)
  /-- What a command prints. -/
  | output (body : Command) (quoted : Bool)
  /-- The value of an expression with whole numbers. -/
  | arithmetic (expression : List Piece) (quoted : Bool)

/-- What is made of the value of a parameter. -/
inductive Use where
  | value
  | length
  /-- The value, or a word if there is none. -/
  | orElse (emptyToo : Bool) (word : List Piece)
  /-- The value, or a word that becomes the value if there is none. -/
  | orAssign (emptyToo : Bool) (word : List Piece)
  /-- The value, or an error if there is none. -/
  | orFail (emptyToo : Bool) (word : List Piece)
  /-- The value, and a word behind it. -/
  | andThen (word : List Piece)
  /-- A word if there is a value. -/
  | ifSet (emptyToo : Bool) (word : List Piece)
  /-- The value without a front that matches. -/
  | dropFront (longest : Bool) (pattern : List Piece)
  /-- The value without a back that matches. -/
  | dropBack (longest : Bool) (pattern : List Piece)
  /-- Something that the shell does not know. -/
  | unknown

/-- A redirection of a descriptor. -/
inductive Redirect where
  | mk (descriptor : Nat) (kind : RedirectKind) (target : List Piece)

/-- A command. The numbers are those of the lines where commands start. -/
inductive Command where
  | nothing
  | simple (line : Nat) (assignments : List (Text × List Piece)) (words : List (List Piece))
      (redirects : List Redirect)
  | sequence (first second : Command)
  /-- The second if the first succeeds. -/
  | onSuccess (first second : Command)
  /-- The second if the first fails. -/
  | onFailure (first second : Command)
  | negation (body : Command)
  | background (body : Command)
  | pipeline (parts : List Command)
  | redirected (line : Nat) (body : Command) (redirects : List Redirect)
  | subshell (line : Nat) (body : Command) (redirects : List Redirect)
  | branch (condition yes no : Command)
  /-- The body again and again, while the condition succeeds or until it does. -/
  | loop (untilSuccess : Bool) (condition body : Command)
  /-- The body once for each word. -/
  | each (line : Nat) (name : Text) (words : List (List Piece)) (body : Command)
  /-- The first case with a pattern that matches. -/
  | choice (line : Nat) (word : List Piece) (cases : List (List (List Piece) × Command))
  /-- A command that gets a name. -/
  | definition (name : Text) (body : Command)

end

instance : Inhabited Command := ⟨.nothing⟩

/-- A word, before its pieces are replaced. -/
abbrev Word := List Piece

/-! ## Characters -/

/-- Whether a character separates words. -/
def isSeparator (c : Char) : Bool := c = ' ' || c = '\t'

/-- Whether a character ends a word that is not quoted. -/
def isMeta (c : Char) : Bool :=
  isSeparator c || c = '\n' || c = ';' || c = '&' || c = '|' || c = '<' || c = '>' || c = '(' ||
    c = ')'

/-- Whether a character may start a name. -/
def isNameStart (c : Char) : Bool := c.isAlpha || c = '_'

/-- Whether a character may stand in a name. -/
def isNameChar (c : Char) : Bool := c.isAlphanum || c = '_'

/-- Whether a text is a name. -/
def isName (t : Text) : Bool := t.head?.any isNameStart && t.all isNameChar

/-- Whether a character that is no letter names a parameter. -/
def isSpecial (c : Char) : Bool :=
  c.isDigit || c = '?' || c = '#' || c = '$' || c = '@' || c = '*' || c = '!' || c = '-'

/-- The character that quotes commands whose output is wanted. -/
def backquote : Char := Char.ofNat 0x60

/-! ## Words -/

/-- Adds a piece in front of a word; adjacent texts become one. -/
def addPiece (p : Piece) (w : Word) : Word :=
  match p, w with
  | .text a false, .text b false :: rest => .text (a ++ b) false :: rest
  | p, w => p :: w

/-- The text of a word that has nothing quoted and nothing to replace. -/
def plainText? : Word → Option Text
  | [] => some []
  | [.text t false] => some t
  | _ => none

/-- The name and the value of a word that is an assignment. -/
def assignment? : Word → Option (Text × Word)
  | .text t false :: rest =>
    match Text.splitOnce? "=" t with
    | some (name, value) =>
      if isName name then some (name, if value = [] then rest else .text value false :: rest)
      else none
    | none => none
  | _ => none

/-! ## Reserved words -/

/-- The words that put commands together, where a command could start. -/
def reservedWords : List Text :=
  ["!", "\x7b", "\x7d", "case", "do", "done", "elif", "else", "esac", "fi", "for", "if", "in",
    "then", "until", "while"]

/-- The reserved words that end a list of commands. -/
def endingWords : List Text := ["\x7d", "do", "done", "elif", "else", "esac", "fi", "then"]

/-! ## Mistakes -/

/-- What is wrong with a text that is no command. -/
inductive Mistake where
  | unterminatedQuote
  | unterminatedSubstitution
  | unterminatedArithmetic
  | unterminatedBackquote
  | badLoopName
  | badFunctionName
  /-- A token that cannot stand where it stands, and the one that should. -/
  | unexpected (token : Text) (expected : Option Text)
deriving DecidableEq, Repr

/-- The mistake in words. -/
def Mistake.message : Mistake → Text
  | .unterminatedQuote => "Unterminated quoted string"
  | .unterminatedSubstitution => "Missing '\x7d'"
  | .unterminatedArithmetic => "Missing '))'"
  | .unterminatedBackquote => "EOF in backquote substitution"
  | .badLoopName => "Bad for loop variable"
  | .badFunctionName => "Bad function name"
  | .unexpected token none => token ++ " unexpected"
  | .unexpected token (some expected) => token ++ " unexpected (expecting " ++ expected ++ ")"

end Runbook.Shell
