import PropCatalog.Tsx.Statements

/-!
# Reading a whole module

- `rulesUpTo`   : the grammar, with rules nested at most so deep
- `withComments`: a tree with the comments of the text placed in it; a comment is a child of the
  smallest node that covers text on both sides of it
- `parse`       : the tree of a text; a malformed text yields a tree with one fault
-/

namespace PropCatalog
namespace Tsx

open Parse

/-! ## Tying the rules together -/

/-- One step of the grammar: the rule for a goal, over the rules for nested goals. -/
def rule (rules : Rules) : Rules
  | .type place => Grammar.type rules place
  | .operandType place => Grammar.operandType rules place
  | .expression place => Grammar.expression rules place
  | .unary place => Grammar.unary rules place
  | .pattern => Grammar.pattern rules
  | .block => Grammar.block rules
  | .statement => Grammar.statement rules
  | .markup => Grammar.markup rules

/-- The grammar with at most `depth` rules inside each other. -/
def rulesUpTo : Nat → Rules
  | 0 => fun _ => fail
  | depth + 1 => fun goal => rule (rulesUpTo depth) goal

/-- A depth that no text of the given length exceeds, since nested rules consume characters and
only a few rules start at the same one. -/
def depthFor (size : Nat) : Nat := 8 * (size + 2)

/-! ## Comments -/

/-- The index of the character at a byte offset. -/
def Code.indexOf (code : Code) (offset : Nat) : Nat :=
  search 0 code.offsets.size
where
  search (lo hi : Nat) : Nat :=
    if lo < hi then
      let mid := (lo + hi) / 2
      if code.offsets.getD mid 0 < offset then search (mid + 1) hi else search lo mid
    else lo
  termination_by hi - lo
  decreasing_by all_goals omega

/-- The comments between two byte offsets, as nodes. -/
def Code.commentNodes (code : Code) (start stop : Nat) : List Node :=
  (code.comments (code.indexOf start) (code.indexOf stop)).map fun (i, j) =>
    .node { kind := "comment", start := code.offset i, stop := code.offset j } []

/-- Siblings with the comments between them; hidden nodes have done their duty and go. -/
def interleave (code : Code) : List Node → List Node
  | [] => []
  | [n] => if n.isHidden then [] else [n]
  | n :: m :: rest =>
    (if n.isHidden then [] else [n]) ++ code.commentNodes n.stop m.start ++
      interleave code (m :: rest)

/-- The tree with all comments of the text in place. The inside of template text is no code. -/
def withComments (code : Code) : Node → Node
  | .node label children =>
    let below := children.attach.map fun ⟨child, _⟩ => withComments code child
    .node label (if label.kind == "template_string" then below else interleave code below)
termination_by n => sizeOf n

/-! ## Modules -/

/-- An interpreter line at the very start of a text. -/
def interpreterLine : Parse (List Node) := do
  let code ← read
  if code.startsWith 0 "#!" then
    return [← lexeme "hash_bang_line" true 0 (code.skipWhile (!Code.isLineFeed ·) 0)]
  else return []

def program (rules : Rules) : Parse (List Node) := do
  let line ← interpreterLine
  let statements ← gather (do
      if ← atEnd then return none
      return some (← rules .statement))
    ((← read).size + 1)
  return line ++ statements

/-- The tree of a text. -/
def parse (text : String) : Node :=
  let code := Code.ofString text
  let size := code.offset code.size
  let edge (offset : Nat) : Node := .node { kind := "", start := offset, stop := offset } []
  match (program (rulesUpTo (depthFor code.size))).run code |>.run {} with
  | .ok children _ =>
    let start := code.offset (code.skipWhile Code.isSpace 0)
    .node { kind := "program", start, stop := size }
      (interleave code
        ([edge 0] ++ children.map (withComments code) ++ [edge size]))
  | .error _ cursor =>
    let offset := code.offset (code.skipTrivia cursor.furthest)
    .node { kind := "program", start := 0, stop := size }
      [.node { kind := "ERROR", start := offset, stop := size } []]

end Tsx
end PropCatalog
