import Runbook.Toml.Lexeme

/-!
# Lines of a TOML document

A line assigns a value to a key or opens a table.  Keys are paths, whose last step is the key
proper.  A table in braces collects its own assignments by the same rule as the document does, which
is why `Node` is defined here.
-/

namespace Runbook.Toml

/-! ## Trees under construction -/

/-- A part of a document while its lines are being read. -/
inductive Node where
  /-- A value that is complete. -/
  | leaf (value : Value)
  /-- A table. It is `implied` if only paths through it have been seen, and `dotted` if the path of
  an assignment made it. -/
  | table (implied dotted : Bool) (entries : List (Text × Node))
  /-- A row of tables, the last of which is the one that paths lead through. -/
  | tables (items : List Node)
deriving Inhabited

namespace Node

mutual

/-- The value of a finished node. -/
def toValue : Node → Value
  | .leaf v => v
  | .table _ _ entries => .table (entryValues entries)
  | .tables items => .array (itemValues items)

/-- The values of finished entries. -/
def entryValues : List (Text × Node) → List (Text × Value)
  | [] => []
  | (key, node) :: rest => (key, node.toValue) :: entryValues rest

/-- The values of a finished row of tables. -/
def itemValues : List Node → List Value
  | [] => []
  | node :: rest => node.toValue :: itemValues rest

end

/-- The node that entries give a key. -/
def find? (key : Text) : List (Text × Node) → Option Node
  | [] => none
  | (k, n) :: rest => if k = key then some n else find? key rest

/-- The entries with another node at a key. -/
def put (key : Text) (node : Node) : List (Text × Node) → List (Text × Node)
  | [] => [(key, node)]
  | (k, n) :: rest => if k = key then (k, node) :: rest else (k, n) :: put key node rest

/-- Changes the table at the end of a path. Tables that are missing on the way are made. The path of
an assignment (`dotted`) may not lead through a table that was opened or assigned. -/
def descend (dotted : Bool) : List Text → (Node → Option Node) → Node → Option Node
  | [], f, node => f node
  | key :: path, f, .table implied d entries => do
    let child ←
      match find? key entries with
      | none => descend dotted path f (.table true dotted [])
      | some (.leaf _) => none
      | some (.table implied d entries) =>
        if dotted && !implied then none else descend dotted path f (.table implied d entries)
      | some (.tables items) =>
        match items.getLast? with
        | none => none
        | some last => (descend dotted path f last).map fun n => .tables (items.dropLast ++ [n])
    return .table implied d (put key child entries)
  | _ :: _, _, _ => none

/-- Assigns a value. A path of several steps has to end in a table that such a path made, and a key
is assigned once. -/
def assign (path : List Text) (value : Value) (node : Node) : Option Node := do
  let key ← path.getLast?
  let parents := path.dropLast
  descend true parents (fun
    | .table implied dotted entries =>
      if dotted = parents.isEmpty then none
      else if (find? key entries).isSome then none
      else some (.table implied dotted (put key (.leaf value) entries))
    | _ => none) node

/-- Opens a table. It may have been implied before, but not opened, assigned or made by the path of
an assignment. -/
def openTable (path : List Text) (node : Node) : Option Node := do
  let key ← path.getLast?
  descend false path.dropLast (fun
    | .table implied dotted entries =>
      match find? key entries with
      | none => some (.table implied dotted (put key (.table false false []) entries))
      | some (.table true false inner) =>
        some (.table implied dotted (put key (.table false false inner) entries))
      | some _ => none
    | _ => none) node

/-- Opens one more table of a row of tables. -/
def openRow (path : List Text) (node : Node) : Option Node := do
  let key ← path.getLast?
  descend false path.dropLast (fun
    | .table implied dotted entries =>
      match find? key entries with
      | none =>
        some (.table implied dotted (put key (.tables [.table false false []]) entries))
      | some (.tables items) =>
        some (.table implied dotted
          (put key (.tables (items ++ [.table false false []])) entries))
      | some _ => none
    | _ => none) node

end Node

/-! ## Keys and values -/

open Reader

/-- From this many levels on, values and keys are refused. -/
def depthLimit : Nat := 80

/-- The characters of keys without quotes. -/
def isBareKeyChar (c : Char) : Bool := c.isAlphanum || c = '_' || c = '-'

/-- One step of a key. -/
def simpleKey : Reader Text := basicString <|> literalString <|> some1 isBareKeyChar

/-- The steps of a key, in a text of at most `fuel` characters. -/
def keyWithin : Nat → Reader (List Text)
  | 0 => failure
  | fuel + 1 => do
    let _ ← lineBlanks
    let step ← simpleKey
    let _ ← lineBlanks
    match ← maybe (literal ".") with
    | none => return [step]
    | some () => return step :: (← keyWithin fuel)

/-- A key: steps with points between them. -/
def key : Reader (List Text) :=
  checked (fun t => keyWithin (t.length + 1) t) fun path => path.length < depthLimit

/-- A value on its own. -/
def scalar : Reader Value :=
  (do return .text (← string)) <|> (do return .moment (← moment)) <|>
    (do real; return .real) <|> (do return .whole (← whole)) <|>
    (do literal "true"; return .boolean true) <|> (do literal "false"; return .boolean false)

mutual

/-- A value that lies inside `depth` others. -/
def valueWithin (depth : Nat) : Nat → Reader Value
  | 0 => failure
  | fuel + 1 => do
    match ← peek with
    | '[' =>
      literal "["
      if depthLimit ≤ depth + 1 then failure
      return .array (← itemsWithin (depth + 1) fuel)
    | '\x7b' =>
      literal "\x7b"
      if depthLimit ≤ depth + 1 then failure
      let _ ← lineBlanks
      if (← maybe (literal "\x7d")).isSome then return .table []
      else return (← pairsWithin (depth + 1) fuel (.table false false [])).toValue
    | _ => scalar

/-- The items of an array, up to its closing bracket. -/
def itemsWithin (depth : Nat) : Nat → Reader (List Value)
  | 0 => failure
  | fuel + 1 => do
    space
    if (← maybe (literal "]")).isSome then return []
    let item ← valueWithin depth fuel
    space
    match ← one fun c => c = ',' || c = ']' with
    | ',' => return item :: (← itemsWithin depth fuel)
    | _ => return [item]

/-- The assignments of a table in braces, up to its closing brace. -/
def pairsWithin (depth : Nat) : Nat → Node → Reader Node
  | 0, _ => failure
  | fuel + 1, node => do
    let path ← key
    literal "="
    let _ ← lineBlanks
    let value ← valueWithin depth fuel
    let _ ← lineBlanks
    match node.assign path value with
    | none => failure
    | some node =>
      match ← one fun c => c = ',' || c = '\x7d' with
      | ',' => pairsWithin depth fuel node
      | _ => return node

end

/-- A value. -/
def value : Reader Value := fun t => valueWithin 0 (2 * t.length + 2) t

/-! ## Lines -/

/-- A line of a document. -/
inductive Line where
  | blank
  | assignment (path : List Text) (value : Value)
  | table (path : List Text)
  | row (path : List Text)

/-- One line, with its ending. -/
def line : Reader Line := do
  let _ ← lineBlanks
  match ← peek with
  | '#' =>
    comment
    lineEnd
    return .blank
  | '\n' | '\r' =>
    newline
    return .blank
  | '[' =>
    literal "["
    match ← maybe (literal "[") with
    | some () =>
      let path ← key
      literal "]]"
      lineRest
      return .row path
    | none =>
      let path ← key
      literal "]"
      lineRest
      return .table path
  | _ =>
    let path ← key
    literal "="
    let _ ← lineBlanks
    let v ← value
    lineRest
    return .assignment path v

end Runbook.Toml
