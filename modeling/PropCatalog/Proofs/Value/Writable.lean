import PropCatalog.Component.Basic
import PropCatalog.Proofs.Number.Decimal
import PropCatalog.Value.Json

/-!
# Writable values — what can be written

A value can be written if no integer in it is too long. What is built of values that can be written
can be written as well, and so can every number that was read.

- `entriesWritable_iff`, `areWritable_iff` : maps and lists, entry by entry
- `isWritable_valueOf`                     : integers that were read
- `prettyText_eq_ok_iff`                   : the values that have a text
- `Component.isWritable_toValue`           : a component has no integers
-/

namespace PropCatalog
namespace Value

/-! ## Lists and maps -/

theorem areWritable_iff {items : List Value} :
    areWritable items = true ↔ ∀ v ∈ items, v.isWritable = true := by
  induction items with
  | nil => simp [areWritable]
  | cons item items ih => simp [areWritable, ih]

theorem entriesWritable_iff {entries : List (String × Value)} :
    entriesWritable entries = true ↔ ∀ e ∈ entries, e.2.isWritable = true := by
  induction entries with
  | nil => simp [entriesWritable]
  | cons entry entries ih => simp [entriesWritable, ih]

theorem isWritable_list_iff {items : List Value} :
    (list items).isWritable = true ↔ ∀ v ∈ items, v.isWritable = true := by
  rw [isWritable, areWritable_iff]

theorem isWritable_map_iff {entries : List (String × Value)} :
    (map entries).isWritable = true ↔ ∀ e ∈ entries, e.2.isWritable = true := by
  rw [isWritable, entriesWritable_iff]

/-! ## Integers -/

theorem isWritableInt_iff {n : Int} :
    isWritableInt n = true ↔ (Text.decimal n.natAbs).length ≤ Number.digitLimit := by
  rw [isWritableInt, decide_eq_true_eq]

/-- An integer that was read off few enough digits can be written again. -/
theorem isWritable_valueOf (negative : Bool) {digits : List Char}
    (h : digits.length ≤ Number.digitLimit) :
    (int (Number.signed negative (Number.valueOf digits))).isWritable = true := by
  have habs : (Number.signed negative (Number.valueOf digits)).natAbs = Number.valueOf digits := by
    cases negative <;> simp [Number.signed]
  have hlimit : 1 ≤ Number.digitLimit := by decide
  rw [isWritable, isWritableInt_iff, habs]
  exact (Number.length_decimal_valueOf_le digits).trans (max_le hlimit h)

/-! ## Texts -/

theorem prettyText_eq_ok_iff {v : Value} {text : String} :
    v.prettyText = .ok text ↔ v.isWritable = true ∧ v.pretty = text := by
  unfold prettyText
  split
  · rename_i h
    simp [h]
  · rename_i h
    simp [h]

end Value

/-! ## Components -/

open Value

theorem isWritable_textList (items : List String) : (textList items).isWritable = true := by
  refine isWritable_list_iff.2 fun v hv => ?_
  rcases List.mem_map.1 hv with ⟨s, -, rfl⟩
  rfl

theorem isWritable_optionalEntry {key : String} {value : Option Value}
    (h : ∀ v ∈ value, v.isWritable = true) :
    ∀ e ∈ optionalEntry key value, e.2.isWritable = true := by
  intro e he
  cases value with
  | none => cases he
  | some v =>
    rw [List.mem_singleton.1 he]
    exact h v rfl

theorem isWritable_map_text (text : Option String) :
    ∀ v ∈ text.map Value.text, v.isWritable = true := by
  intro v hv
  rcases Option.map_eq_some_iff.1 hv with ⟨s, -, rfl⟩
  rfl

theorem PropSpec.isWritable_toValue (p : PropSpec) : p.toValue.isWritable = true := by
  have hvalues : ∀ v ∈ p.values.map textList, v.isWritable = true := by
    intro v hv
    rcases Option.map_eq_some_iff.1 hv with ⟨items, -, rfl⟩
    exact isWritable_textList items
  refine isWritable_map_iff.2 ?_
  simp only [List.forall_mem_append, List.forall_mem_cons, List.not_mem_nil, IsEmpty.forall_iff,
    implies_true, and_true]
  exact ⟨⟨⟨⟨⟨⟨⟨⟨rfl, rfl⟩, isWritable_optionalEntry hvalues⟩,
    isWritable_optionalEntry (isWritable_map_text _)⟩, rfl, rfl⟩,
    isWritable_optionalEntry (isWritable_map_text _)⟩, rfl⟩,
    isWritable_optionalEntry (isWritable_map_text _)⟩, isWritable_textList _⟩

theorem Component.isWritable_toValue (c : Component) : c.toValue.isWritable = true := by
  have hprops : (Value.map (c.props.map fun e => (e.1, e.2.toValue))).isWritable = true := by
    refine isWritable_map_iff.2 fun e he => ?_
    rcases List.mem_map.1 he with ⟨⟨name, prop⟩, -, rfl⟩
    exact prop.isWritable_toValue
  refine isWritable_map_iff.2 ?_
  simp only [List.forall_mem_cons, List.not_mem_nil, IsEmpty.forall_iff, implies_true, and_true]
  exact ⟨rfl, rfl, rfl, hprops, isWritable_textList _⟩

end PropCatalog
