import PropCatalog.Text.Search
import PropCatalog.Text.Utf8

/-!
# Concrete trees of a module

A tree labels every piece of a source text with the grammar rule or token it belongs to:

- `Label`   : rule, field under its parent, and the range of bytes it covers
- `Node`    : a label with the nodes below it, in source order, comments among them
- `Source`  : the bytes a tree refers to, with the rows and columns of its offsets
- `firstFault?` : the leftmost node, parents first, that marks a fault of the text
-/

namespace PropCatalog
namespace Tsx

/-! ## Nodes -/

structure Label where
  kind : String
  named : Bool := true
  field : Option String := none
  start : Nat
  stop : Nat
  missing : Bool := false
  deriving DecidableEq, Repr, Inhabited

inductive Node where
  | node (label : Label) (children : List Node)
  deriving Repr, Inhabited

namespace Node

def label : Node → Label
  | node label _ => label

def children : Node → List Node
  | node _ children => children

def kind (n : Node) : String := n.label.kind
def start (n : Node) : Nat := n.label.start
def stop (n : Node) : Nat := n.label.stop

def isComment (n : Node) : Bool := n.kind == "comment"

/-- A node that marks a position while a text is read and is not kept in the finished tree. -/
def isHidden (n : Node) : Bool := n.kind == ""

/-- The children that stand for grammar rules, not for single tokens. -/
def namedChildren (n : Node) : List Node :=
  n.children.filter (·.label.named)

/-- The named children other than comments. -/
def parts (n : Node) : List Node :=
  n.namedChildren.filter (!·.isComment)

/-- The first child in the given field. -/
def child? (n : Node) (field : String) : Option Node :=
  n.children.find? (·.label.field == some field)

/-- Whether some child has the given kind. -/
def hasChild (n : Node) (kind : String) : Bool :=
  n.children.any (·.kind == kind)

/-- The node placed in a field of its parent. -/
def inField (n : Node) (field : String) : Node :=
  match n with
  | node label children => node { label with field := some field } children

/-- A child is smaller than its parent. -/
theorem sizeOf_lt_of_mem {child n : Node} (h : child ∈ n.children) : sizeOf child < sizeOf n := by
  cases n with
  | node label children =>
    have := List.sizeOf_lt_of_mem (show child ∈ children from h)
    simp only [node.sizeOf_spec]
    omega

theorem mem_children_of_mem_parts {child n : Node} (h : child ∈ n.parts) :
    child ∈ n.children :=
  (List.mem_filter.1 (List.mem_filter.1 h).1).1

theorem mem_children_of_child? {child n : Node} {field : String} (h : n.child? field = some child) :
    child ∈ n.children :=
  List.mem_of_find?_eq_some h

/-- A node that stands for a fault: an unreadable piece, or a token that is not there. -/
def isFault (n : Node) : Bool :=
  n.kind == "ERROR" || n.label.missing

end Node

/-! ## Sources -/

/-- The bytes of a source text. -/
structure Source where
  bytes : ByteArray

namespace Source

def ofString (text : String) : Source :=
  ⟨text.toUTF8⟩

/-- The text between two offsets; a character cut in the middle shows as `U+FFFD`. -/
def slice (src : Source) (start stop : Nat) : List Char :=
  Text.decodeLossy (src.bytes.extract start stop).toList

/-- The text a node covers. -/
def text (src : Source) (n : Node) : List Char :=
  src.slice n.start n.stop

/-- The bytes before an offset. -/
def before (src : Source) (offset : Nat) : List UInt8 :=
  (src.bytes.extract 0 offset).toList

/-- The number of line feeds before an offset. -/
def row (src : Source) (offset : Nat) : Nat :=
  (src.before offset).count 10

/-- The number of bytes between the last line feed before an offset and the offset. -/
def column (src : Source) (offset : Nat) : Nat :=
  ((src.before offset).reverse.takeWhile (· != 10)).length

end Source

/-! ## Faults -/

/-- The first fault of a forest whose trees are visited from left to right, each node before its
children. The forest is the list of trees still to be visited. -/
def firstFault? (forest : List Node) : Option Node :=
  match forest with
  | [] => none
  | n :: rest => if n.isFault then some n else firstFault? (n.children ++ rest)
termination_by sizeOf forest
decreasing_by
  cases n with
  | node label children =>
    have happ : ∀ xs ys : List Node, sizeOf (xs ++ ys) < sizeOf xs + sizeOf ys := by
      intro xs ys
      induction xs with
      | nil => simp
      | cons x xs ih => simp only [List.cons_append, List.cons.sizeOf_spec]; omega
    have := happ children rest
    simp only [Node.children, List.cons.sizeOf_spec, Node.node.sizeOf_spec]
    omega

/-- Where the first fault of a tree begins, counting rows and columns from one. -/
def faultLocation (src : Source) (root : Node) : String :=
  match firstFault? [root] with
  | some n =>
    "line " ++ Text.number (src.row n.start + 1) ++ ", column " ++
      Text.number (src.column n.start + 1)
  | none => "unknown location"

end Tsx
end PropCatalog
