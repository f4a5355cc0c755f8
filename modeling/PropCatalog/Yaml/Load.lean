import PropCatalog.Yaml.Node
import PropCatalog.Yaml.Scalar

/-!
# Documents as data

The datum that a document denotes. Aliases are replaced by what they stand for, however long the way
is. Only where a collection contains itself the way goes back, `turnLimit` times at most, and the
rest is cut.

- `Document.follow?`       : the node that an alias stands for, and what can be followed from there
- `Document.mergedEntries` : the entries of a mapping, with those of the mappings it merges in front
- `load`                   : the datum of a text; an empty text denotes nothing
-/

namespace PropCatalog
namespace Yaml

/-- How often a path may go back into a collection that contains itself. -/
def turnLimit : Nat := 8

/-- What can be followed from where a node is read. -/
structure Reach where
  /-- The anchors that were complete before, the last one first. -/
  anchors : List (String × Node)
  /-- So many aliases of other anchors. -/
  turns : Nat

namespace Document

/-- The node that an alias stands for. -/
def follow? (doc : Document) (reach : Reach) (name : String) : Option (Reach × Node) :=
  match reach.anchors.dropWhile (·.1 != name) with
  | (_, node) :: anchors => some ({ reach with anchors }, node)
  | [] =>
    -- The anchor was not complete, so a collection contains itself here.
    match reach.turns, doc.anchors.dropWhile (·.1 != name) with
    | turns + 1, (_, node) :: anchors => some ({ anchors, turns }, node)
    | _, _ => none

/-- A node itself, or what it stands for. -/
def enter? (doc : Document) (reach : Reach) : Node → Option (Reach × Node)
  | .alias name => doc.follow? reach name
  | node => some (reach, node)

/-- The node that a node stands for. -/
def target (doc : Document) : Node → Node
  | .alias name => ((doc.anchors.find? (·.1 == name)).map (·.2)).getD Node.empty
  | node => node

/-- The tag of a scalar key. -/
def keyTag? (doc : Document) (key : Node) : Option Tag :=
  match doc.target key with
  | .scalar tag _ => some tag
  | .list tag _ => some tag
  | .map tag _ => some tag
  | .alias _ => none

/-- The entries of a mapping: those of the mappings that its merge keys name, then its own. Of a
list of mappings the first one comes last, and so wins. Every entry comes with what can be followed
from it; `fuel` bounds how often mappings merge mappings. -/
def mergedEntries (doc : Document) :
    Nat → Reach → List (Node × Node) → Except Error (List (Reach × Node × Node))
  | 0, _, _ => .ok []
  | fuel + 1, reach, entries => do
    let isMerge (e : Node × Node) : Bool := doc.keyTag? e.1 == some .merge
    let merged ← (entries.filter isMerge).mapM fun (_, value) =>
      match doc.enter? reach value with
      | some (reach, .map _ inner) => mergedEntries doc fuel reach inner
      | some (reach, .list _ items) => do
        let parts ← items.mapM fun item =>
          match doc.enter? reach item with
          | some (reach, .map _ inner) => mergedEntries doc fuel reach inner
          | some _ => .error (.malformed .badMerge)
          | none => .ok []
        return parts.reverse.flatten
      | some _ => .error (.malformed .badMerge)
      | none => .ok []
    return merged.flatten ++ (entries.filter (!isMerge ·)).map (reach, ·)

/-- The text that a node has as a scalar; a mapping may name it with an equals sign. -/
def scalarText? (doc : Document) : Nat → Node → Option String
  | 0, _ => none
  | fuel + 1, node =>
    match doc.target node with
    | .scalar _ text => some text
    | .map _ entries =>
      (entries.find? fun e => doc.keyTag? e.1 == some .value).bind fun e =>
        scalarText? doc fuel e.2
    | _ => none

/-- A key; an equals sign is a text here. -/
def keyDatum (read : Node → Except Error Datum) (doc : Document) (key : Node) :
    Except Error Datum := do
  let datum ←
    match doc.target key with
    | .scalar .value text => pure (.text text)
    | _ => read key
  if datum.isKey then return datum else throw (.malformed .collectionAsKey)

/-- The entries of a mapping as data. -/
def entryData (read : Reach → Node → Except Error Datum) (doc : Document) (fuel : Nat)
    (reach : Reach) (entries : List (Node × Node)) : Except Error (List (Datum × Datum)) := do
  let entries ← doc.mergedEntries fuel reach entries
  entries.mapM fun (reach, key, value) => do
    let key ← keyDatum (read reach) doc key
    return (key, ← read reach value)

/-- The pairs of a list whose items are mappings with one entry each. -/
def pairData (read : Reach → Node → Except Error Datum) (doc : Document) (reach : Reach)
    (items : List Node) : Except Error Datum := do
  let pairs ← items.mapM fun item =>
    match doc.enter? reach item with
    | some (reach, .map _ [(key, value)]) => do
      let key ← read reach key
      return Datum.list [key, ← read reach value]
    | some _ => throw (.malformed .wrongKind)
    | none => return .cut
  return .list pairs

/-- The datum of a list or mapping with a tag for scalars. -/
def asScalar (doc : Document) (fuel : Nat) (tag : Tag) (node : Node) : Except Error Datum :=
  match tag with
  | .other => .error (.malformed .unknownTag)
  | .merge => .error (.malformed .unknownTag)
  | .value => .error (.malformed .unknownTag)
  | _ =>
    match doc.scalarText? fuel node with
    | some text => readScalar tag text.toList
    | none => .error (.malformed .wrongKind)

/-! ## Data -/

/-- The datum of a node; `fuel` bounds the length of a path. -/
def datum (doc : Document) : Nat → Reach → Node → Except Error Datum
  | 0, _, _ => .ok .cut
  | fuel + 1, reach, node =>
    match node with
    | .alias name =>
      match doc.follow? reach name with
      | some (reach, node) => datum doc fuel reach node
      | none => .ok .cut
    | .scalar tag text => readScalar tag text.toList
    | .list .seq items => return .list (← items.mapM (datum doc fuel reach))
    | .list .omap items => pairData (datum doc fuel) doc reach items
    | .list .pairs items => pairData (datum doc fuel) doc reach items
    | .list tag _ => doc.asScalar fuel tag node
    | .map .map entries => return .map (← entryData (datum doc fuel) doc fuel reach entries)
    | .map .set entries =>
      return .set ((← entryData (datum doc fuel) doc fuel reach entries).map (·.1))
    | .map tag _ => doc.asScalar fuel tag node

end Document

/-- The datum of a text. -/
def load (text : String) : Except Error Datum := do
  let cs := text.toList
  match ← Document.ofChars cs with
  | none => return .null
  | some doc =>
    -- An alias leads to an earlier anchor or takes a turn, and between two aliases a path goes down
    -- a tree that is no deeper than the text is long.
    let segments := (turnLimit + 1) * (doc.anchors.length + 1)
    doc.datum (segments * (cs.length + 2)) { anchors := doc.anchors, turns := turnLimit } doc.root

end Yaml
end PropCatalog
