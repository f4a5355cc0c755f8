import Mathlib.Algebra.BigOperators.Ring.Finset
import PropCatalog.Proofs.Catalog.Agreement

/-!
# Accounting — every component file is skipped or listed

A build goes through the files it has found. Each of them ends up among the skipped files or in the
index, once and in the order of the files, and the totals of a build are those of the index.

- `Totals.ofRecords_eq` : the totals of records as sums
- `entriesOf`, `listed` : what an index lists
- `FileRun.perm`        : the skipped and the documented files are all files
- `Accounted`           : how files, index and result of a build fit together
-/

namespace PropCatalog

/-! ## Reading values -/

namespace Value

/-- What a map says under a key. -/
def field (key : String) : Value → Value
  | map entries => (entries.lookup key).getD null
  | _ => null

def asList : Value → List Value
  | list items => items
  | _ => []

def asInt : Value → Int
  | int n => n
  | _ => 0

def asText : Value → String
  | text s => s
  | _ => ""

end Value

/-! ## Totals -/

namespace Totals

/-- The totals count the records one by one. -/
theorem foldl_add_eq (t : Totals) (records : List Documentation) :
    records.foldl (fun t d => t.add d.variants.length d.styleVariables.length) t =
      { components := t.components + records.length
        variants := t.variants + (records.map fun d => d.variants.length).sum
        styleVariables :=
          t.styleVariables + (records.map fun d => d.styleVariables.length).sum } := by
  induction records generalizing t with
  | nil => rfl
  | cons d records ih =>
    rw [List.foldl_cons, ih]
    simp only [add, List.length_cons, List.map_cons, List.sum_cons, mk.injEq]
    omega

theorem ofRecords_eq (records : List Documentation) :
    ofRecords records =
      { components := records.length
        variants := (records.map fun d => d.variants.length).sum
        styleVariables := (records.map fun d => d.styleVariables.length).sum } := by
  rw [ofRecords, foldl_add_eq]
  simp

end Totals

namespace Build

open Session Run

/-! ## The index -/

/-- The entries of an index, one for each component. -/
def entriesOf (index : Value) : List Value :=
  (index.field "components").asList

/-- The files that an index lists. -/
def listed (index : Value) : List String :=
  (entriesOf index).map fun entry => (entry.field "filePath").asText

@[simp] theorem entriesOf_index (s : Settings) (records : List Documentation) :
    entriesOf (index s records) = records.map indexEntry := by
  simp [entriesOf, index, Value.field, Value.asList, List.lookup_cons]

@[simp] theorem field_filePath_indexEntry (d : Documentation) :
    (indexEntry d).field "filePath" = .text d.component.filePath := by
  simp [indexEntry, Value.field, List.lookup_cons]

theorem field_stats_index (s : Settings) (records : List Documentation) :
    (index s records).field "stats" = (Totals.ofRecords records).toValue := by
  simp [index, Value.field, List.lookup_cons]

theorem listed_index (s : Settings) (records : List Documentation) :
    listed (index s records) = records.map fun d => d.component.filePath := by
  simp [listed, Value.asText]

/-! ## The files of a run -/

section FileRun

variable {s : Settings} {directory : Path} {σ σ' : Session} {files : List Path}
  {records : List Documentation} {skipped : List String}

/-- Every file is skipped or documented. -/
theorem FileRun.perm (h : FileRun s directory σ files records skipped σ') :
    (skipped ++ records.map fun d => d.component.filePath).Perm
      (files.map (relativePath s.root)) := by
  induction h with
  | done => exact List.Perm.refl _
  | skip _ _ ih => exact ih.cons _
  | save hsome _ _ _ ih =>
    rw [List.map_cons, List.map_cons, filePath_documentFile hsome]
    exact List.perm_middle.trans (ih.cons _)

theorem FileRun.skipped_sublist (h : FileRun s directory σ files records skipped σ') :
    skipped.Sublist (files.map (relativePath s.root)) := by
  induction h with
  | done => exact List.Sublist.slnil
  | skip _ _ ih => exact ih.cons_cons _
  | save _ _ _ _ ih => exact ih.cons _

end FileRun

/-! ## The whole build -/

/-- How the files that a build has found, its index and its result fit together. -/
structure Accounted (s : Settings) (files : List Path) (index : Value) (r : BuildResult) :
    Prop where
  /-- Every file is either skipped or listed, and once. -/
  once : ∀ p ∈ files, (r.skipped ++ listed index).count (relativePath s.root p) = 1
  skipped : r.skipped.Sublist (files.map (relativePath s.root))
  listed : (listed index).Sublist (files.map (relativePath s.root))
  components : r.totals.components = (entriesOf index).length
  variants : r.totals.variants =
    ((entriesOf index).map fun entry => (entry.field "variantCount").asInt).sum
  styleVariables : r.totals.styleVariables =
    ((entriesOf index).map fun entry => (entry.field "cssVariableCount").asInt).sum
  stats : index.field "stats" = r.totals.toValue

theorem accounted_of_fileRun {s : Settings} {directory : Path} {σ σ' : Session}
    {files : List Path} {records : List Documentation} {skipped : List String}
    (h : FileRun s directory σ files records skipped σ')
    (hnodup : (files.map (relativePath s.root)).Nodup) :
    Accounted s files (index s records) ⟨Totals.ofRecords records, skipped⟩ := by
  refine ⟨?_, h.skipped_sublist, ?_, ?_, ?_, ?_, field_stats_index s records⟩
  · intro p hp
    rw [listed_index, h.perm.count_eq]
    exact List.count_eq_one_of_mem hnodup (List.mem_map_of_mem hp)
  · rw [listed_index]
    exact h.filePaths_sublist
  · simp [Totals.ofRecords_eq]
  -- Both counts of an entry are lengths of lists of its record.
  · simp [Totals.ofRecords_eq, Nat.cast_list_sum, indexEntry, Value.field, List.lookup_cons,
      Value.asInt, Function.comp_def]
  · simp [Totals.ofRecords_eq, Nat.cast_list_sum, indexEntry, Value.field, List.lookup_cons,
      Value.asInt, Function.comp_def]

end Build
end PropCatalog
