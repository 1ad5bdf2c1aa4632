import Runbook.FileTree
import Runbook.Shell.Pattern

/-!
# Fields

When its pieces are replaced, a word falls into fields.  Only the values of parameters and commands
that are not quoted are taken apart, at the separators that the shell is told; what is written
between quotes makes a field even if there is nothing in it.

A field that is a pattern stands for the paths that it describes, in order.
-/

namespace Runbook.Shell

/-- A part of a word whose pieces are replaced. -/
inductive Chunk where
  | plain (t : Text) (quoted : Bool)
  /-- A value that may fall into fields. -/
  | value (t : Text)
  /-- The border between two arguments. -/
  | border
deriving DecidableEq, Repr

/-! ## Falling into fields -/

/-- Fields so far, and the field that is still open. -/
structure Splitting where
  done : List Marked
  current : Marked
  /-- Whether the open field counts even if it is empty. -/
  counts : Bool

namespace Splitting

/-- No fields. -/
def start : Splitting := ⟨[], [], false⟩

/-- Whether nothing belongs to the open field yet. -/
def isBlank (s : Splitting) : Bool := s.current.isEmpty && !s.counts

/-- Closes the open field, whatever it holds. -/
def close (s : Splitting) : Splitting := ⟨s.done ++ [s.current], [], false⟩

/-- Closes the open field if there is something to it. -/
def finish (s : Splitting) : Splitting := if s.isBlank then s else s.close

/-- Whether a character is a separator that does not count in rows. -/
def isSoft (c : Char) : Bool := c = ' ' || c = '\t' || c = '\n'

/-- Adds a value. Behind a separator, soft ones are passed over, and with them one other if the
first was soft; the flags say so. -/
def addValue (separators : Text) : (passing hardToo : Bool) → Splitting → Text → Splitting
  | _, _, s, [] => s
  | passing, hardToo, s, c :: t =>
    let isSeparator := separators.any (· = c)
    if passing && isSeparator && isSoft c then addValue separators true hardToo s t
    else if passing && isSeparator && hardToo then addValue separators true false s t
    else if !isSeparator then
      addValue separators false false { s with current := s.current ++ [(c, false)] } t
    else if isSoft c && s.isBlank then addValue separators false false s t
    else addValue separators true (isSoft c) s.close t

/-- Adds a part of a word. -/
def addChunk (separators : Text) (s : Splitting) : Chunk → Splitting
  | .plain t quoted =>
    { s with current := s.current ++ mark quoted t, counts := s.counts || quoted }
  | .value t => addValue separators false false s t
  | .border => s.finish

end Splitting

/-- The fields of a word. -/
def fieldsOf (separators : Text) (chunks : List Chunk) : List Marked :=
  (chunks.foldl (Splitting.addChunk separators) .start).finish.done

/-- The word as one text, where arguments are separated by `separator`. -/
def wholeOf (separator : Text) (chunks : List Chunk) : Marked :=
  chunks.flatMap fun
    | .plain t quoted => mark quoted t
    | .value t => mark false t
    | .border => mark false separator

/-! ## Paths -/

/-- Whether a part of a path describes more than one name. A bracket counts only if it is closed. -/
def isWild (t : Marked) : Bool :=
  (Pattern.ofMarked t).any fun
    | .char _ => false
    | _ => true

/-- The steps of a path that is a pattern. -/
def stepsOf : Marked → List Marked
  | [] => [[]]
  | e :: t =>
    if e.1 = '/' then [] :: stepsOf t
    else
      match stepsOf t with
      | [] => [[e]]
      | s :: rest => (e :: s) :: rest

/-- The names in a directory that a pattern describes. A name that starts with a dot has to be asked
for. -/
def namesMatching (tree : FileTree) (place : Place) (t : Marked) : List Text :=
  let pattern := Pattern.ofMarked t
  let asksForDot := (applyBackslashes t).head?.any (·.1 = '.')
  let names : List Text := [".".toList, "..".toList] ++ (tree.namesIn place).map Text.toOctets
  names.filter fun name => (asksForDot || name.head? ≠ some '.') && pattern.matches name

/-- The paths behind a front that steps describe. -/
def pathsBehind (tree : FileTree) (base : Place) : Text → List Marked → List Text
  | front, [] => [front]
  | front, step :: rest =>
    let separator : Text := if rest = [] then [] else "/"
    if isWild step then
      let path : Text := if front = [] then "." else front
      match tree.directory? base (Text.ofOctets path) with
      | none => []
      | some place =>
        (namesMatching tree place step).flatMap fun name =>
          pathsBehind tree base (front ++ name ++ separator) rest
    else
      let path := front ++ (applyBackslashes step).text ++ separator
      if rest = [] then
        if (tree.find base (Text.ofOctets path)).toBool then [path] else []
      else pathsBehind tree base path rest

/-- The paths that a field stands for: those that it describes, or else itself. -/
def expandPaths (tree : FileTree) (base : Place) (t : Marked) : List Text :=
  if isWild t then
    match pathsBehind tree base [] (stepsOf t) with
    | [] => [t.text]
    | paths => paths.mergeSort Text.le
  else [t.text]

end Runbook.Shell
