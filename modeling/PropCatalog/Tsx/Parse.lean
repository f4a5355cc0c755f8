import PropCatalog.Tsx.Node
import PropCatalog.Tsx.Code

/-!
# Reading nodes from a position

A reader consumes lexemes from a position of the text and yields a value, usually a node. A reader
that fails gives the position back, so that an alternative starts where the failed one started;
what has been learnt about the text on the way is kept.

- `Cursor`    : the position, the furthest position reached, and the parentheses known to open no
  parameter list
- `Parse`     : readers
- `Goal`      : the rules of the grammar that refer to each other
- `Rules`     : a reader for every goal; each rule is written over an arbitrary `Rules`, so that
  no rule is recursive by itself
-/

namespace PropCatalog
namespace Tsx

/-! ## Readers -/

structure Cursor where
  pos : Nat := 0
  furthest : Nat := 0
  notParameters : List Nat := []

/-- A failed reader gives its position back and keeps the rest of the cursor. -/
instance : EStateM.Backtrackable Nat Cursor where
  save cursor := cursor.pos
  restore cursor pos := { cursor with pos }

abbrev Parse := ReaderT Code (EStateM Unit Cursor)

namespace Parse

/-- Fails, noting how far the text has been read. -/
def fail {α : Type} : Parse α := do
  modify fun cursor => { cursor with furthest := max cursor.furthest cursor.pos }
  throw ()

def check (condition : Bool) : Parse Unit :=
  if condition then pure () else fail

/-- The result of a reader, or nothing if it fails. -/
def attempt {α : Type} (p : Parse α) : Parse (Option α) :=
  tryCatch (some <$> p) fun _ => pure none

/-- The first reader that succeeds. -/
def firstOf {α : Type} : List (Parse α) → Parse α
  | [] => fail
  | [p] => p
  | p :: rest => tryCatch p fun _ => firstOf rest

/-- Whether a reader would succeed here; nothing is consumed. -/
def looksAt {α : Type} (p : Parse α) : Parse Bool := do
  let pos := (← get).pos
  let found ← attempt p
  modify fun cursor => { cursor with pos }
  return found.isSome

/-- A list of nodes from an optional part. -/
def optional (p : Parse Node) : Parse (List Node) := do
  return (← attempt p).toList

/-- Collects results until a reader yields nothing; at most `bound` of them. -/
def gather {α : Type} (p : Parse (Option α)) : Nat → Parse (List α)
  | 0 => return []
  | bound + 1 => do
    match ← p with
    | some a => return a :: (← gather p bound)
    | none => return []

/-- Results of a reader for as long as it succeeds. -/
def many {α : Type} (p : Parse α) : Parse (List α) := do
  gather (attempt p) ((← read).size + 1)

/-! ## Lexemes -/

/-- The position just after the last lexeme. -/
def position : Parse Nat := return (← get).pos

/-- The position of the next lexeme, after blanks and comments. -/
def start : Parse Nat := return (← read).skipTrivia (← position)

/-- A node without children from one position to another. -/
def leafAt (kind : String) (named : Bool) (start stop : Nat) : Parse Node := do
  let code ← read
  return .node { kind, named, start := code.offset start, stop := code.offset stop } []

/-- Consumes the text from `start` to `stop` as one lexeme. -/
def lexeme (kind : String) (named : Bool) (start stop : Nat) : Parse Node := do
  modify fun cursor => { cursor with pos := stop }
  leafAt kind named start stop

def atEnd : Parse Bool := return (← read).size ≤ (← start)

/-- The operator or punctuation mark that comes next. -/
def nextOperator : Parse String := return (← read).operatorAt (← start)

/-- The word that comes next, and the empty text if there is none. -/
def nextWord : Parse String := do
  let code ← read
  let i ← start
  return code.text i (code.wordEnd i)

/-- Exactly the given operator or punctuation mark. -/
def symbol (op : String) : Parse Node := do
  let i ← start
  check ((← read).operatorAt i == op)
  lexeme op false i (i + op.length)

/-- The given mark even where it begins a longer operator. -/
def mark (op : String) : Parse Node := do
  let i ← start
  check ((← read).startsWith i op)
  lexeme op false i (i + op.length)

/-- Exactly the given word. -/
def keyword (word : String) : Parse Node := do
  let i ← start
  check ((← nextWord) == word)
  lexeme word false i (i + word.length)

/-- The lexeme that a scanner finds, as a node of the given kind. -/
def scanned (kind : String) (scan? : Code → Nat → Option Nat) : Parse Node := do
  let i ← start
  match scan? (← read) i with
  | some stop => lexeme kind true i stop
  | none => fail

/-- Any word, as a node of the given kind. -/
def word (kind : String) : Parse Node :=
  scanned kind fun code i => if i < code.wordEnd i then some (code.wordEnd i) else none

def string : Parse Node := scanned "string" Code.stringEnd?

def number : Parse Node := scanned "number" Code.numberEnd?

/-- Whether the next lexeme is one of the given operators or punctuation marks. -/
def nextIs (ops : List String) : Parse Bool := return ops.contains (← nextOperator)

/-! ## Nodes -/

/-- A node that covers its children from the first to the last. -/
def cover (kind : String) (children : List Node) : Node :=
  let start := (children.head?.map Node.start).getD 0
  let stop := (children.getLast?.map Node.stop).getD start
  .node { kind, start, stop } children

/-- A node whose inside is of no further interest. -/
def sealed (kind : String) (children : List Node) : Node :=
  .node (cover kind children).label []

/-- One or more items with commas between them; a comma may follow the last one. The commas are
kept. -/
def commaSeparated1 (item : Parse Node) : Parse (List Node) := do
  let first ← item
  let rest ← many do
    let comma ← symbol ","
    return [comma, ← item]
  return first :: rest.flatten ++ (← optional (symbol ","))

/-- Items between commas up to a closing mark, which is not consumed; an item may be left out. -/
def sparseItems (closing : String) (item : Parse Node) : Parse (List Node) := do
  let rounds ← gather (do
      if (← nextOperator) == closing then return none
      let node ← optional item
      if (← nextOperator) == closing then
        check !node.isEmpty
        return some node
      return some (node ++ [← symbol ","]))
    ((← read).size + 1)
  return rounds.flatten

/-- Like `commaSeparated1`, or nothing. -/
def commaSeparated (item : Parse Node) : Parse (List Node) := do
  return (← attempt (commaSeparated1 item)).getD []

/-! ## Ends of statements -/

/-- The end of a statement where no semicolon is written, as a hidden node. -/
def autoSemicolon (inType : Bool) : Parse Node := do
  match (← read).autoSemicolon? inType (← position) with
  | some stop =>
    modify fun cursor => { cursor with pos := stop }
    leafAt "" false stop stop
  | none => fail

/-- A semicolon, or the end of a statement without one. -/
def semicolon (inType : Bool) : Parse Node := do
  match ← attempt (symbol ";") with
  | some node => return node
  | none => autoSemicolon inType

/-- Whether a statement that stands in a `place` where semicolons may be left out ends here. -/
def endsHere (mayEnd inType : Bool) : Parse Bool := do
  if mayEnd then return ((← read).autoSemicolon? inType (← position)).isSome else return false

/-- Whether one of the given marks comes next and does not begin a new item of a list of members. -/
def nextIsHere (mayEnd : Bool) (ops : List String) : Parse Bool := do
  if ← endsHere mayEnd true then return false else nextIs ops

end Parse

/-! ## Rules -/

/-- Where an expression or a type stands. -/
structure Place where
  /-- A statement may end after it at a line end. -/
  mayEnd : Bool := false
  /-- The word `in` belongs to an enclosing loop head. -/
  loopHead : Bool := false
  /-- A colon belongs to an enclosing condition, not to the result of an arrow function. -/
  beforeColon : Bool := false

/-- The rules that refer to each other. -/
inductive Goal where
  | type (place : Place)
  | operandType (place : Place)
  | expression (place : Place)
  | unary (place : Place)
  | pattern
  | block
  | statement
  | markup

abbrev Rules := Goal → Parse Node

end Tsx
end PropCatalog
