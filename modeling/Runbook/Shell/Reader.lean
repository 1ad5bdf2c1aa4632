import Runbook.Shell.Cursor

/-!
# Reading commands

The words of a shell hold commands whose output is wanted, so words and commands are read by
functions that call each other.  Each takes an amount of fuel that bounds how deep the calls go.

`readCommand` takes the next command off an input: what stands on one line, or on more lines if the
first does not complete it.
-/

namespace Runbook.Shell

open Reader

/-- What pieces of a word stand in. -/
inductive Context where
  | word
  | braces
  | quotes
  /-- Braces within double quotes. -/
  | quotedBraces
  /-- Double quotes within braces within double quotes. -/
  | innerQuotes
  /-- An arithmetic expression, within some more parentheses. -/
  | arithmetic (depth : Nat)
deriving DecidableEq, Repr

namespace Context

/-- Whether what stands here is quoted. -/
def isQuoted : Context → Bool
  | .word | .braces => false
  | _ => true

/-- The context between the braces of a parameter that stands here. -/
def within (c : Context) (isPattern : Bool) : Context :=
  if isPattern || !c.isQuoted then .braces else .quotedBraces

/-- What is missing if the input ends here, unless a word may end here. -/
def mistake? : Context → Option Mistake
  | .word => none
  | .braces => some .unterminatedSubstitution
  | .arithmetic _ => some .unterminatedArithmetic
  | _ => some .unterminatedQuote

/-- Whether a character behind a backslash stands for itself, without the backslash. -/
def escapes (c : Context) (d : Char) : Bool :=
  !c.isQuoted || d = '\\' || d = backquote || d = '$' || d = '"' ||
    (d = '\x7d' && c = .quotedBraces)

end Context

/-- The pieces between double quotes, which count as a text even if there is nothing in them. All
arguments together stand alone. -/
def closeQuotes : Word → Word
  | [.parameter name .value quoted] =>
    if name = "@".toList then [.parameter name .value quoted]
    else [.text [] true, .parameter name .value quoted]
  | w => .text [] true :: w

/-- The name of a parameter between braces, and whether its length is asked for; no name if it is
none. -/
def readParameterName : Reader (Text × Bool) := do
  match ← peek with
  | none => return ([], false)
  | some c =>
    if isNameStart c then return (← takeWhile isNameChar, false)
    else if c.isDigit then return (← takeWhile Char.isDigit, false)
    else if c = '\x7d' then return ([], false)
    else
      advanceInLine
      if c ≠ '#' then return (if isSpecial c then [c] else [], false)
      else
        match ← peek with
        | none => return (['#'], false)
        | some d =>
          if isNameStart d then return (← takeWhile isNameChar, true)
          else if d.isDigit then return (← takeWhile Char.isDigit, true)
          else if d = '\x7d' then return (['#'], false)
          else
            let before ← get
            advance
            if (← peek) = some '\x7d' then return (if isSpecial d then [d] else [], true)
            else
              set before
              return (['#'], false)

/-- What is done with a parameter, given by the sign behind its name. -/
inductive UseSign where
  | none
  | operation (sign : Char) (emptyToo : Bool)
  | pattern (sign : Char) (longest : Bool)
  | unknown
deriving DecidableEq, Repr

/-- The sign behind the name of a parameter. -/
def readUseSign : Reader UseSign := do
  match ← peek with
  | none => return .unknown
  | some '\x7d' =>
    advance
    return .none
  | some '%' =>
    advance
    return .pattern '%' (← skip '%')
  | some '#' =>
    advance
    return .pattern '#' (← skip '#')
  | some c =>
    advanceInLine
    let emptyToo := c = ':'
    let sign ← if emptyToo then peek else pure (some c)
    if emptyToo then advanceInLine
    match sign with
    | some d =>
      let isKnown := d = '-' || d = '+' || d = '?' || d = '=' || d = '\x7d'
      return if isKnown then .operation d emptyToo else .unknown
    | Option.none => return .unknown

/-- The use that a sign and the pieces behind it ask for. -/
def UseSign.use (s : UseSign) (w : Word) : Use :=
  match s with
  | .none => .value
  | .unknown => .unknown
  | .pattern sign longest => if sign = '#' then .dropFront longest w else .dropBack longest w
  | .operation sign emptyToo =>
    if sign = '-' then .orElse emptyToo w
    else if sign = '=' then .orAssign emptyToo w
    else if sign = '?' then .orFail emptyToo w
    else if sign = '\x7d' then .andThen w
    else .ifSet emptyToo w

/-- The text between backquotes, without the backslashes that protect it. -/
def readBackquotedText (quoted : Bool) : Nat → Reader Text
  | 0 => fail .unterminatedBackquote
  | fuel + 1 => do
    match ← peek with
    | none => fail .unterminatedBackquote
    | some c =>
      advance
      if c = backquote then return []
      else if c = '\\' then
        match ← peekRaw with
        | none => fail .unterminatedBackquote
        | some d =>
          advance
          let plain := d = '\\' || d = backquote || d = '$' || (quoted && d = '"')
          let t ← readBackquotedText quoted fuel
          return if plain then d :: t else '\\' :: d :: t
      else return c :: (← readBackquotedText quoted fuel)

/-- A redirection at a sign for it, of a descriptor if one is named. -/
def readRedirect (descriptor : Option Nat) (sign : Char) : Reader Token := do
  advance
  let next ← peek
  if sign = '>' then
    let descriptor := descriptor.getD 1
    match next with
    | some '>' => advance; return .redirect descriptor .append false
    | some '|' => advance; return .redirect descriptor .write false
    | some '&' => advance; return .redirect descriptor .duplicate false
    | _ => return .redirect descriptor .write false
  else
    let descriptor := descriptor.getD 0
    match next with
    | some '<' => advance; return .redirect descriptor .lines (← skip '-')
    | some '&' => advance; return .redirect descriptor .duplicate false
    | some '>' => advance; return .redirect descriptor .readWrite false
    | _ => return .redirect descriptor .read false

/-- A sign that may be written twice. -/
def readOperator (c : Char) : Reader Token := do
  advance
  let isTwice ← if c = '(' || c = ')' then pure false else skip c
  return .operator (if isTwice then [c, c] else [c])

/-- The text of a delimiter. -/
def delimiterText (w : Word) : Text :=
  w.flatMap fun
    | .text t _ => t
    | .parameter name _ _ => '$' :: name
    | _ => []

/-- Whether a list of commands has to be complete on its line, has to hold a command, or may be
empty. -/
inductive ListKind where
  | line
  | commands
  | maybeEmpty
deriving DecidableEq, Repr

/-- Two commands one after the other. -/
def Command.append (first second : Command) : Command :=
  match first with
  | .nothing => second
  | first => .sequence first second

/-- The commands that run the shell itself, whose names no definition may take. -/
def specialCommands : List Text :=
  [":", ".", "break", "continue", "eval", "exec", "exit", "export", "readonly", "return", "set",
    "shift", "times", "trap", "unset"]

mutual

/-- The pieces of a word in a context, up to its end. -/
def readPieces : Nat → Context → Reader Word
  | 0, _ => fail .unterminatedQuote
  | fuel + 1, context => do
    match ← peek with
    | none =>
      match context.mistake? with
      | none => return []
      | some mistake => fail mistake
    | some c =>
      let plain : Reader Word := do
        advance
        return addPiece (.text [c] context.isQuoted) (← readPieces fuel context)
      if c = '\\' then
        advance
        match ← peekRaw with
        | none => return addPiece (.text ['\\'] true) (← readPieces fuel context)
        | some d =>
          advance
          let t : Text := if context.escapes d then [d] else ['\\', d]
          return addPiece (.text t true) (← readPieces fuel context)
      else if c = '$' then
        advance
        let p ← readDollar fuel context
        return addPiece p (← readPieces fuel context)
      else if c = backquote then
        advance
        let body ← readBackquoted fuel context
        return .output body context.isQuoted :: (← readPieces fuel context)
      else
        match context with
        | .word | .braces =>
          if c = '\'' then
            advance
            let t ← takeUpTo '\'' .unterminatedQuote
            return addPiece (.text t true) (← readPieces fuel context)
          else if c = '"' then
            advance
            let inner ← readPieces fuel .quotes
            return closeQuotes inner ++ (← readPieces fuel context)
          else if context = .word && isMeta c then return []
          else if context = .braces && c = '\x7d' then
            advance
            return []
          else plain
        | .quotes | .innerQuotes =>
          if c = '"' then
            advance
            return []
          else plain
        | .quotedBraces =>
          if c = '"' then
            advance
            let inner ← readPieces fuel .innerQuotes
            return .text [] true :: inner ++ (← readPieces fuel context)
          else if c = '\x7d' then
            advance
            return []
          else plain
        | .arithmetic depth =>
          let go (depth : Nat) : Reader Word := do
            return addPiece (.text [c] true) (← readPieces fuel (.arithmetic depth))
          if c = '(' then
            advance
            go (depth + 1)
          else if c = ')' then
            advance
            if 0 < depth then go (depth - 1)
            else if ← skip ')' then return []
            else go 0
          else plain

/-- What stands behind a dollar sign. -/
def readDollar : Nat → Context → Reader Piece
  | 0, _ => fail .unterminatedSubstitution
  | fuel + 1, context => do
    match ← peek with
    | some '(' =>
      advance
      if ← skip '(' then return .arithmetic (← readPieces fuel (.arithmetic 0)) context.isQuoted
      else
        let before ← get
        set { before with delimiters := [] }
        let body ← readList fuel .maybeEmpty .nothing
        let t ← readToken fuel
        if !t.isOperator ")" then
          fail (.unexpected (t.display true) (some (Token.inQuotes ")")))
        modify fun c => { c with delimiters := before.delimiters }
        return .output body context.isQuoted
    | some '\x7b' =>
      advance
      let (name, length) ← readParameterName
      let sign ← if name = [] || length then pure .unknown else readUseSign
      if sign = .none then return .parameter name .value context.isQuoted
      else
        let isPattern :=
          match sign with
          | .pattern _ _ => true
          | _ => false
        let isClosed := (← peek) = some '\x7d'
        let w ← readPieces fuel (context.within isPattern)
        let use : Use := if length && name ≠ [] && isClosed then .length else sign.use w
        return .parameter name use context.isQuoted
    | some c =>
      if isNameStart c then
        return .parameter (← takeWhile isNameChar) .value context.isQuoted
      else if isSpecial c then
        advance
        return .parameter [c] .value context.isQuoted
      else return .text ['$'] context.isQuoted
    | none => return .text ['$'] context.isQuoted

/-- The command between backquotes. Its lines are counted from 1. -/
def readBackquoted : Nat → Context → Reader Command
  | 0, _ => fail .unterminatedBackquote
  | fuel + 1, context => do
    let t ← readBackquotedText context.isQuoted ((← get).rest.length + 1)
    match readList fuel .maybeEmpty .nothing (.start t) with
    | .ok (body, _) => return body
    | .error e => throw { e with ended := (← get).ended }

/-- The next token. -/
def readToken : Nat → Reader Token
  | 0 => return .stop
  | fuel + 1 => do
    let c ← get
    if let some t := c.held then
      set { c with held := none }
      return t
    skipBlanks (c.rest.length + 1)
    match ← peek with
    | none => return .stop
    | some '\n' =>
      advance
      skipDocuments
      return .newline
    | some c =>
      if c = ';' || c = '&' || c = '|' || c = '(' || c = ')' then readOperator c
      else if c = '<' || c = '>' then readRedirect none c
      else
        let w ← readPieces fuel .word
        match ← peek, (plainText? w).getD [] with
        | some sign, [d] =>
          if d.isDigit && (sign = '<' || sign = '>') then
            readRedirect (some (d.toNat - '0'.toNat)) sign
          else return .word w
        | _, _ => return .word w

/-- Passes over line endings. -/
def skipNewlines : Nat → Reader Unit
  | 0 => return
  | fuel + 1 => do
    match ← readToken fuel with
    | .newline => skipNewlines fuel
    | t => unread t

/-- Takes a token that has to be there. -/
def expectToken : Nat → Text → Reader Unit
  | 0, _ => return
  | fuel + 1, written => do
    let t ← readToken fuel
    if !t.isReserved written && !t.isOperator written then
      fail (.unexpected (t.display true) (some (Token.inQuotes written)))

/-- A list of commands behind those that were read. -/
def readList : Nat → ListKind → Command → Reader Command
  | 0, _, before => return before
  | fuel + 1, kind, before => do
    if kind ≠ .line then skipNewlines fuel
    match ← readToken fuel with
    | .newline => return before
    | .stop =>
      unread .stop
      return before
    | t =>
      unread t
      if kind = .maybeEmpty && t.endsList then return before
      let next ← readAndOr fuel
      let separator ← readToken fuel
      let isBackground := separator.isOperator "&"
      let all := before.append (if isBackground then .background next else next)
      let kind := if kind = .commands then .maybeEmpty else kind
      match separator with
      | .newline | .stop =>
        unread separator
        readList fuel kind all
      | other =>
        if isBackground || other.isOperator ";" then readList fuel kind all
        else if kind = .line then fail (.unexpected (other.display false) none)
        else
          unread other
          return all

/-- Pipelines that depend on each other. -/
def readAndOr : Nat → Reader Command
  | 0 => return .nothing
  | fuel + 1 => do
    let first ← readPipeline fuel
    readAndOrBehind fuel first

/-- What depends on a command. -/
def readAndOrBehind : Nat → Command → Reader Command
  | 0, before => return before
  | fuel + 1, before => do
    let t ← readToken fuel
    if t.isOperator "&&" then
      skipNewlines fuel
      readAndOrBehind fuel (.onSuccess before (← readPipeline fuel))
    else if t.isOperator "||" then
      skipNewlines fuel
      readAndOrBehind fuel (.onFailure before (← readPipeline fuel))
    else
      unread t
      return before

/-- Commands that are joined by pipes. -/
def readPipeline : Nat → Reader Command
  | 0 => return .nothing
  | fuel + 1 => do
    let t ← readToken fuel
    if t.isReserved "!" then return .negation (← readPipes fuel)
    else
      unread t
      readPipes fuel

/-- A command, with those that its output goes to. -/
def readPipes : Nat → Reader Command
  | 0 => return .nothing
  | fuel + 1 => do
    let first ← readCompound fuel
    let others ← readPipesBehind fuel
    return if others.isEmpty then first else .pipeline (first :: others)

/-- The commands behind pipes. -/
def readPipesBehind : Nat → Reader (List Command)
  | 0 => return []
  | fuel + 1 => do
    let t ← readToken fuel
    if t.isOperator "|" then
      skipNewlines fuel
      let next ← readCompound fuel
      return next :: (← readPipesBehind fuel)
    else
      unread t
      return []

/-- A command of any kind. -/
def readCompound : Nat → Reader Command
  | 0 => return .nothing
  | fuel + 1 => do
    let line := (← get).line
    let t ← readToken fuel
    let finish (body : Command) : Reader Command := do
      match ← readRedirects fuel with
      | [] => return body
      | redirects => return .redirected line body redirects
    if t.isOperator "(" then
      let body ← readList fuel .commands .nothing
      expectToken fuel ")"
      return .subshell line body (← readRedirects fuel)
    else if t.isReserved "\x7b" then
      let body ← readList fuel .commands .nothing
      expectToken fuel "\x7d"
      finish body
    else if t.isReserved "if" then finish (← readBranch fuel)
    else if t.isReserved "while" || t.isReserved "until" then
      let condition ← readList fuel .commands .nothing
      expectToken fuel "do"
      let body ← readList fuel .commands .nothing
      expectToken fuel "done"
      finish (.loop (t.isReserved "until") condition body)
    else if t.isReserved "for" then finish (← readEach fuel line)
    else if t.isReserved "case" then
      match ← readToken fuel with
      | .word w =>
        skipNewlines fuel
        expectToken fuel "in"
        finish (.choice line w (← readCases fuel))
      | other => fail (.unexpected (other.display false) (some "word"))
    else
      match t with
      | .word w =>
        if (plainText? w).any reservedWords.contains then fail (.unexpected (t.display true) none)
        else
          unread t
          readSimple fuel (← get).line [] [] []
      | .redirect _ _ _ =>
        unread t
        readSimple fuel (← get).line [] [] []
      | other => fail (.unexpected (other.display true) none)

/-- The rest of a branch. -/
def readBranch : Nat → Reader Command
  | 0 => return .nothing
  | fuel + 1 => do
    let condition ← readList fuel .commands .nothing
    expectToken fuel "then"
    let yes ← readList fuel .commands .nothing
    let t ← readToken fuel
    if t.isReserved "elif" then return .branch condition yes (← readBranch fuel)
    else if t.isReserved "else" then
      let no ← readList fuel .commands .nothing
      expectToken fuel "fi"
      return .branch condition yes no
    else
      unread t
      expectToken fuel "fi"
      return .branch condition yes .nothing

/-- The rest of a loop over words. Without words it is over all arguments. -/
def readEach : Nat → Nat → Reader Command
  | 0, _ => return .nothing
  | fuel + 1, line => do
    let name? :=
      match ← readToken fuel with
      | .word w => (plainText? w).filter isName
      | _ => none
    match name? with
    | none => fail .badLoopName
    | some name =>
      skipNewlines fuel
      let t ← readToken fuel
      let words ←
        if t.isReserved "in" then do
          let words ← readWords fuel
          let t ← readToken fuel
          match t with
          | .newline => pure words
          | t =>
            if t.isOperator ";" then pure words
            else fail (.unexpected (t.display false) none)
        else do
          if !t.isOperator ";" then unread t
          pure [[.parameter "@" .value true]]
      skipNewlines fuel
      expectToken fuel "do"
      let body ← readList fuel .commands .nothing
      expectToken fuel "done"
      return .each line name words body

/-- Words, as long as there are some. -/
def readWords : Nat → Reader (List Word)
  | 0 => return []
  | fuel + 1 => do
    match ← readToken fuel with
    | .word w => return w :: (← readWords fuel)
    | t =>
      unread t
      return []

/-- The cases of a choice, up to its end. -/
def readCases : Nat → Reader (List (List Word × Command))
  | 0 => return []
  | fuel + 1 => do
    skipNewlines fuel
    let t ← readToken fuel
    if t.isReserved "esac" then return []
    else
      if !t.isOperator "(" then unread t
      let patterns ← readPatterns fuel
      let t ← readToken fuel
      if !t.isOperator ")" then
        fail (.unexpected (t.display false) (some (Token.inQuotes ")")))
      let body ← readList fuel .maybeEmpty .nothing
      skipNewlines fuel
      let t ← readToken fuel
      if t.isReserved "esac" then return [(patterns, body)]
      else
        unread t
        expectToken fuel ";;"
        return (patterns, body) :: (← readCases fuel)

/-- The patterns of a case. Anything can stand for a pattern, but only words are patterns. -/
def readPatterns : Nat → Reader (List Word)
  | 0 => return []
  | fuel + 1 => do
    let patterns : List Word :=
      match ← readToken fuel with
      | .word w => [w]
      | _ => []
    let t ← readToken fuel
    if t.isOperator "|" then return patterns ++ (← readPatterns fuel)
    else
      unread t
      return patterns

/-- The target of a redirection. -/
def readTarget : Nat → Nat → RedirectKind → Bool → Reader Redirect
  | 0, descriptor, kind, _ => return .mk descriptor kind []
  | fuel + 1, descriptor, kind, tabsDropped => do
    match ← readToken fuel with
    | .word w =>
      if kind = .lines then
        modify fun c => { c with delimiters := c.delimiters ++ [⟨delimiterText w, tabsDropped⟩] }
      return .mk descriptor kind w
    | other => fail (.unexpected (other.display false) none)

/-- Redirections, as long as there are some. -/
def readRedirects : Nat → Reader (List Redirect)
  | 0 => return []
  | fuel + 1 => do
    match ← readToken fuel with
    | .redirect descriptor kind tabsDropped =>
      let r ← readTarget fuel descriptor kind tabsDropped
      return r :: (← readRedirects fuel)
    | t =>
      unread t
      return []

/-- The rest of a simple command, or the definition of a command. -/
def readSimple : Nat → Nat → List (Text × Word) → List Word → List Redirect → Reader Command
  | 0, line, assignments, words, redirects => return .simple line assignments words redirects
  | fuel + 1, line, assignments, words, redirects => do
    match ← readToken fuel with
    | .word w =>
      match words, assignment? w with
      | [], some a => readSimple fuel line (assignments ++ [a]) words redirects
      | _, _ => readSimple fuel line assignments (words ++ [w]) redirects
    | .redirect descriptor kind tabsDropped =>
      let r ← readTarget fuel descriptor kind tabsDropped
      readSimple fuel line assignments words (redirects ++ [r])
    | t =>
      match t.isOperator "(", assignments, words, redirects with
      | true, [], [w], [] =>
        expectToken fuel ")"
        match plainText? w with
        | none => fail .badFunctionName
        | some name =>
          if !isName name || specialCommands.contains name then fail .badFunctionName
          else
            skipNewlines fuel
            return .definition name (← readCompound fuel)
      | _, _, _, _ =>
        unread t
        return .simple line assignments words redirects

end

/-- A command that was read, and where the reader is then. -/
structure Reading where
  command : Command
  cursor : Cursor

/-- How deep the calls go that read a text. -/
def readingDepth (t : Text) : Nat := 16 * (t.length + 4)

/-- The next command of an input; nothing at its end. -/
def readCommand (c : Cursor) : Except SyntaxError (Option Reading) :=
  let fuel := readingDepth c.rest
  let reader : Reader (Option Command) := do
    match ← readToken fuel with
    | .stop => return none
    | t =>
      unread t
      return some (← readList fuel .line .nothing)
  match reader { c with held := none, delimiters := [] } with
  | .ok (some command, cursor) => .ok (some ⟨command, cursor⟩)
  | .ok (none, _) => .ok none
  | .error e => .error e

end Runbook.Shell
