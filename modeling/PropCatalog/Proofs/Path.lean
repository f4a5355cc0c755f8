import PropCatalog.Path

/-!
# Paths as texts

The text of a path is what stands before its first part, and its parts with slashes between them.

- `slashed`               : names with slashes between them
- `Path.toList_toString`  : the text of a path
- `Path.toList_toString_child` : a step down makes the text longer
-/

namespace PropCatalog

/-! ## Slashes -/

/-- Names with slashes between them. -/
def slashed (names : List String) : List Char :=
  ['/'].intercalate (names.map String.toList)

@[simp] theorem slashed_singleton (name : String) : slashed [name] = name.toList := by
  simp [slashed]

theorem slashed_cons (name : String) {names : List String} (h : names ≠ []) :
    slashed (name :: names) = name.toList ++ '/' :: slashed names := by
  cases names with
  | nil => exact absurd rfl h
  | cons next names => simp [slashed]

theorem slashed_append {names names' : List String} (h : names ≠ []) (h' : names' ≠ []) :
    slashed (names ++ names') = slashed names ++ '/' :: slashed names' := by
  induction names with
  | nil => exact absurd rfl h
  | cons name names ih =>
    by_cases hrest : names = []
    · rw [hrest, List.singleton_append, slashed_cons name h', slashed_singleton]
    · rw [List.cons_append, slashed_cons name (by simp [h']), ih hrest, slashed_cons name hrest,
        List.append_assoc]
      rfl

theorem slashed_ne_nil {names : List String} (h : names ≠ [])
    (hnames : ∀ name ∈ names, name.toList ≠ []) : slashed names ≠ [] := by
  cases names with
  | nil => exact absurd rfl h
  | cons name names =>
    have hname := hnames name List.mem_cons_self
    by_cases hrest : names = []
    · rwa [hrest, slashed_singleton]
    · simp [slashed_cons name hrest]

/-! ## Texts of paths -/

/-- The text of a path, which is a dot if there is nothing to write. -/
theorem Path.toList_toString (p : Path) :
    p.toString.toList =
      if p.root.toList ++ slashed p.parts = [] then ['.']
      else p.root.toList ++ slashed p.parts := by
  have htext : ("/".intercalate p.parts).toList = slashed p.parts := String.toList_intercalate
  rw [Path.toString]
  simp only [beq_iff_eq, ← String.toList_inj, String.toList_append, htext, String.toList_empty]
  split <;> simp_all

theorem Path.toList_toString_child (p : Path) {name : String} (h : name ≠ "") :
    ∃ more, more ≠ [] ∧
      (p.child name).toString.toList = p.root.toList ++ slashed p.parts ++ more := by
  have hname : name.toList ≠ [] := mt String.toList_eq_nil_iff.1 h
  have hmore : ∃ more, more ≠ [] ∧ slashed (p.parts ++ [name]) = slashed p.parts ++ more := by
    by_cases hparts : p.parts = []
    · exact ⟨name.toList, hname, by simp [hparts, slashed]⟩
    · refine ⟨'/' :: name.toList, List.cons_ne_nil _ _, ?_⟩
      rw [slashed_append hparts (List.cons_ne_nil name []), slashed_singleton]
  rcases hmore with ⟨more, hsome, hslashed⟩
  refine ⟨more, hsome, ?_⟩
  rw [toList_toString, show (p.child name).root = p.root from rfl,
    show (p.child name).parts = p.parts ++ [name] from rfl, hslashed, if_neg (by simp [hsome]),
    List.append_assoc]

end PropCatalog
