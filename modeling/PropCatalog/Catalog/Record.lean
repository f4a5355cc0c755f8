import PropCatalog.Style.Variables
import PropCatalog.Usage.Variants

/-!
# Records of a catalog

What is written about each component, and the totals of a catalog.
-/

namespace PropCatalog

def StyleVariable.toValue (v : StyleVariable) : Value :=
  .map <|
    [("name", .text v.name), ("description", .text v.description)] ++
      optionalEntry "default" (v.default.map .text)

/-- The record of a component. -/
structure Documentation where
  component : Component
  variants : List Usage
  styleVariables : List StyleVariable := []
  deriving Repr

def Documentation.toValue (d : Documentation) : Value :=
  .map [
    ("component", d.component.toValue),
    ("variants", .list (d.variants.map Usage.toValue)),
    ("cssVariables", .list (d.styleVariables.map StyleVariable.toValue))]

/-- How much a catalog holds. -/
structure Totals where
  components : Nat := 0
  variants : Nat := 0
  styleVariables : Nat := 0
  deriving DecidableEq, Repr

namespace Totals

/-- The totals with one more component. -/
def add (t : Totals) (variants styleVariables : Nat) : Totals :=
  { components := t.components + 1
    variants := t.variants + variants
    styleVariables := t.styleVariables + styleVariables }

def ofRecords (records : List Documentation) : Totals :=
  records.foldl (fun t d => t.add d.variants.length d.styleVariables.length) {}

def toValue (t : Totals) : Value :=
  .map [
    ("componentCount", .int t.components),
    ("variantCount", .int t.variants),
    ("cssVariableCount", .int t.styleVariables)]

/-- The totals in words. -/
def summary (t : Totals) : String :=
  "Documented " ++ Text.number t.components ++ " components (" ++ Text.number t.variants ++
    " variants, " ++ Text.number t.styleVariables ++ " CSS variables)"

end Totals
end PropCatalog
