import PropCatalog.Assoc
import PropCatalog.Value.Basic

/-!
# Components and their props

What the catalog records of a component: its props in order, with their types, closed sets of
values, defaults and documentation tags. The entries that a record leaves out when nothing is known
are exactly the optional ones.
-/

namespace PropCatalog

/-- One prop of a component. -/
structure PropSpec where
  type : String
  optional : Bool := false
  /-- The members of a closed union of literals. -/
  values : Option (List String) := none
  /-- The text of the default in the implementation. -/
  default : Option String := none
  description : String := ""
  renderVariants : Bool := false
  displayTemplate : Option String := none
  hidden : Bool := false
  /-- The text of an example value. -/
  sample : Option String := none
  /-- Names of props that are not varied together with this one. -/
  excludedWith : List String := []
  deriving DecidableEq, Repr

structure Component where
  name : String
  description : String := ""
  filePath : String := ""
  props : List (String × PropSpec) := []
  styleFiles : List String := []
  deriving DecidableEq, Repr

/-! ## Records -/

/-- An entry that is there only if its value is. -/
def optionalEntry (key : String) (value : Option Value) : List (String × Value) :=
  (value.map fun v => (key, v)).toList

def textList (items : List String) : Value :=
  .list (items.map .text)

def PropSpec.toValue (p : PropSpec) : Value :=
  .map <|
    [("type", .text p.type), ("optional", .bool p.optional)] ++
      optionalEntry "values" (p.values.map textList) ++
      optionalEntry "default" (p.default.map .text) ++
      [("description", .text p.description), ("renderVariants", .bool p.renderVariants)] ++
      optionalEntry "displayTemplate" (p.displayTemplate.map .text) ++
      [("hideInDocs", .bool p.hidden)] ++
      optionalEntry "example" (p.sample.map .text) ++
      [("excludedWith", textList p.excludedWith)]

def Component.toValue (c : Component) : Value :=
  .map [
    ("name", .text c.name),
    ("description", .text c.description),
    ("filePath", .text c.filePath),
    ("props", .map (c.props.map fun (name, prop) => (name, prop.toValue))),
    ("styleFiles", textList c.styleFiles)]

end PropCatalog
