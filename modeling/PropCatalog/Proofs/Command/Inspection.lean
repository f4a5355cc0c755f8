import PropCatalog.Proofs.Catalog.WrittenRecords
import PropCatalog.Proofs.Command.Handling
import PropCatalog.Proofs.Usage.Counts

/-!
# Inspections — how many examples are printed

An inspection prints the component of a file and as many of its examples as the command line asks
for. The settings of a build have to name a positive number of examples. Nothing checks the one of a
command line, which may be any integer; a negative one leaves out so many examples at the end.

- `inspected?`, `inspection` : the component that is inspected, and what is printed for it
- `inspectTask_of_none`, `inspectTask_of_some` : an inspection in a session
- `prettyText_inspection` : what is printed can be written
- `length_variants_of_documentFile` : a build keeps to the number of its settings
- `inspections_counted` : the number of printed examples, and when it is at most the number that
  was asked for
-/

namespace PropCatalog
namespace Command

open Run

/-- The component that is inspected: the one in the file, if the file is there and has one. -/
def inspected? (σ : Session) (file : String) : Option Component :=
  match σ.disk.isFile σ.cwd (Path.ofString file) with
  | .ok true => (componentIn σ.disk σ.cwd (Path.ofString file) defaultStyleExtensions).1
  | _ => none

/-- What is printed for a component and its examples. -/
def inspection (c : Component) (usages : List Usage) : String :=
  (Value.map [
    ("component", c.toValue), ("variants", .list (usages.map Usage.toValue))]).pretty ++ "\n"

/-- There is a component to inspect only in a file that is there. -/
theorem inspected?_eq_some {σ : Session} {file : String} {c : Component}
    (h : inspected? σ file = some c) :
    σ.disk.isFile σ.cwd (Path.ofString file) = .ok true ∧
      (componentIn σ.disk σ.cwd (Path.ofString file) defaultStyleExtensions).1 = some c := by
  unfold inspected? at h
  split at h
  · rename_i hfile
    exact ⟨hfile, h⟩
  · cases h

theorem nodup_props_of_inspected? {σ : Session} {file : String} {c : Component}
    (h : inspected? σ file = some c) : (c.props.map (·.1)).Nodup :=
  Build.nodup_props_of_componentIn (inspected?_eq_some h).2

/-- Without a component the file is refused, if it can be told whether it is there. -/
theorem inspectTask_of_none {σ : Session} {file : String} (h : inspected? σ file = none) (n : Int)
    {isThere : Bool} (htold : σ.disk.isFile σ.cwd (Path.ofString file) = .ok isThere) :
    ∃ refusal σ', inspectTask file n σ = .ok (failed refusal) σ' := by
  unfold inspected? at h
  rw [htold] at h
  have hasked : (ofExcept ((σ.disk.isFile σ.cwd (Path.ofString file)).mapError Failure.disk) :
      Run Bool) σ = .ok isThere σ :=
    run_ofExcept_eq_ok_iff.2 ⟨mapError_eq_ok_iff.2 htold, rfl⟩
  -- The file is there without a component, or it is not there.
  cases isThere with
  | false =>
    exact ⟨_, σ, run_bind_eq_ok_iff.2 ⟨σ, σ, rfl, run_bind_eq_ok_iff.2 ⟨false, σ, hasked, rfl⟩⟩⟩
  | true =>
    rcases exists_readComponent_eq_ok (Path.ofString file) defaultStyleExtensions σ with ⟨σ', hread⟩
    rw [show (componentIn σ.disk σ.cwd (Path.ofString file) defaultStyleExtensions).1 = none from h]
      at hread
    exact ⟨_, σ', run_bind_eq_ok_iff.2 ⟨σ, σ, rfl, run_bind_eq_ok_iff.2 ⟨true, σ, hasked,
      run_bind_eq_ok_iff.2 ⟨none, σ', hread, rfl⟩⟩⟩⟩

/-- What is printed can be written, since the examples can. -/
theorem prettyText_inspection {options : VariantOptions} {c : Component} {usages : List Usage}
    {notes : List LogRecord} (h : variants options c = .ok (usages, notes)) :
    (Value.map [
      ("component", c.toValue), ("variants", .list (usages.map Usage.toValue))]).prettyText =
      .ok (Value.map [
        ("component", c.toValue), ("variants", .list (usages.map Usage.toValue))]).pretty := by
  refine Value.prettyText_eq_ok_iff.2 ⟨Value.isWritable_map_iff.2 ?_, rfl⟩
  simp only [List.forall_mem_cons, List.not_mem_nil, IsEmpty.forall_iff, implies_true, and_true]
  refine ⟨c.isWritable_toValue, Value.isWritable_list_iff.2 fun v hv => ?_⟩
  rcases List.mem_map.1 hv with ⟨u, hu, rfl⟩
  exact isWritable_of_mem_variants h hu

/-- With a component its examples are printed, or making them fails. -/
theorem inspectTask_of_some {σ : Session} {file : String} {c : Component}
    (h : inspected? σ file = some c) (n : Int) :
    (∀ e, variants { maxPermutations := n } c = .error e →
      ∃ σ', inspectTask file n σ = .error (.literal e) σ') ∧
    ∀ usages notes, variants { maxPermutations := n } c = .ok (usages, notes) →
      ∃ σ', inspectTask file n σ = .ok { stdout := inspection c usages } σ' := by
  rcases inspected?_eq_some h with ⟨hfile, hcomponent⟩
  have hasked : (ofExcept ((σ.disk.isFile σ.cwd (Path.ofString file)).mapError Failure.disk) :
      Run Bool) σ = .ok true σ :=
    run_ofExcept_eq_ok_iff.2 ⟨mapError_eq_ok_iff.2 hfile, rfl⟩
  rcases exists_readComponent_eq_ok (Path.ofString file) defaultStyleExtensions σ with ⟨σ₁, hread⟩
  rw [hcomponent] at hread
  constructor
  · intro e hvariants
    refine ⟨σ₁, run_bind_eq_error_iff.2 (.inr ⟨σ, σ, rfl, run_bind_eq_error_iff.2
      (.inr ⟨true, σ, hasked, run_bind_eq_error_iff.2 (.inr ⟨some c, σ₁, hread, ?_⟩)⟩)⟩)⟩
    simp only [hvariants]
    rfl
  · intro usages notes hvariants
    rcases exists_reportAll_eq_ok notes σ₁ with ⟨σ', hreport⟩
    refine ⟨σ', run_bind_eq_ok_iff.2 ⟨σ, σ, rfl, run_bind_eq_ok_iff.2
      ⟨true, σ, hasked, run_bind_eq_ok_iff.2 ⟨some c, σ₁, hread, ?_⟩⟩⟩⟩
    simp only [hvariants, prettyText_inspection hvariants]
    exact run_bind_eq_ok_iff.2 ⟨(), σ', hreport, rfl⟩

end Command

/-- A build keeps to the number of its settings, which have to name a positive one. -/
theorem length_variants_of_documentFile {s : Settings} (hs : 1 ≤ s.maxPermutations) {path : Path}
    {σ σ' : Session} {record : Documentation}
    (h : Build.documentFile s path σ = .ok (some record) σ') :
    (record.variants.length : Int) ≤ s.maxPermutations := by
  rcases Build.usages_of_documentFile h with ⟨hkeys, notes, husages⟩
  unfold Build.usages at husages
  dsimp only at husages
  split at husages
  · have hcapped := (shownCount_le_iff record.component s.maxPermutations).2 (Or.inl hs)
    rw [← length_variants hkeys husages] at hcapped
    omega
  · -- Without examples of their own, components are shown by the default one.
    generalize defaultUsage _ record.component = made at husages
    cases made with
    | error e => cases husages
    | ok usage =>
      simp only [Except.map, Except.ok.injEq, Prod.mk.injEq] at husages
      simpa [← husages.1] using hs

open Command in
/-- What an inspection prints, for every command line that asks for one. The run fails if it cannot
be told whether the file is there. Otherwise a file without a component is refused, and an example
that cannot be made ends the run. In all other cases the component is printed with as many examples
as `shownCount` says. These are at most as many as were asked for, and none if that is a negative
number, exactly if a positive number was asked for, if there are no props, or if there are axes and
none was asked for or no example is left. -/
theorem inspections_counted {env : Environment} {arguments : List String} {disk : Disk}
    {i : Invocation} {σ : Session} {file : String} {n : Int}
    (hargs : Invocation.ofArguments arguments = .ok i) (htask : i.task = .inspect file n)
    (hopen : Opened env i disk σ) :
    (disk.Unknowable env.cwd (Path.ofString file) →
      ∃ e, (execute env arguments disk).1 = .error (.disk e)) ∧
    (¬ disk.Unknowable env.cwd (Path.ofString file) → inspected? σ file = none →
      ∃ stderr, (execute env arguments disk).1 = .ok { exit := 1, stderr }) ∧
    ∀ c, inspected? σ file = some c →
      (∀ e, variants { maxPermutations := n } c = .error e →
        (execute env arguments disk).1 = .error (.literal e)) ∧
      ∀ usages notes, variants { maxPermutations := n } c = .ok (usages, notes) →
        (∃ stderr, (execute env arguments disk).1 =
          .ok { stdout := inspection c usages, stderr }) ∧
        usages.length = shownCount c n ∧
        ((usages.length : Int) ≤ max n 0 ↔ 1 ≤ n ∨ c.props = [] ∨
          axisEntries c ≠ [] ∧ (n = 0 ∨ exampleCount c ≤ n.natAbs)) := by
  have hexecute := execute_of_opened hargs hopen
  rw [htask] at hexecute
  refine ⟨?_, ?_, ?_⟩
  · intro hunknowable
    exact (execute_eq_disk_iff hargs disk).2 (.inr (htask ▸ .inspect hunknowable))
  · intro hknown hnone
    -- What is known of the disk is known with the log file open.
    rw [← Disk.unknowable_congr hopen.prepared.directories, ← hopen.prepared.cwd,
      ← Disk.exists_lookup_eq_error_iff] at hknown
    cases htold : σ.disk.isFile σ.cwd (Path.ofString file) with
    | error fault => exact absurd ⟨fault, htold⟩ hknown
    | ok isThere =>
      rcases inspectTask_of_none hnone n htold with ⟨refusal, σ', hrun⟩
      exact ⟨_, by rw [hexecute, runTask, hrun]; rfl⟩
  · intro c hc
    rcases inspectTask_of_some hc n with ⟨herror, hok⟩
    refine ⟨?_, ?_⟩
    · intro e hvariants
      rcases herror e hvariants with ⟨σ', hrun⟩
      rw [hexecute, runTask, hrun]
    · intro usages notes hvariants
      rcases hok usages notes hvariants with ⟨σ', hrun⟩
      have hcount : usages.length = shownCount c n :=
        length_variants (nodup_props_of_inspected? hc) hvariants
      refine ⟨⟨_, by rw [hexecute, runTask, hrun]⟩, hcount, ?_⟩
      rw [hcount]
      exact shownCount_le_iff c n

/-- A project with a component that has an axis, and one that has none. -/
def chipProject : Disk where
  entries := [
    (["Chip.tsx"], .file (Text.encode
      "interface ChipProps\x7b/** @renderVariants true */a:'x'|'y'\x7d".toList)),
    (["Dot.tsx"], .file (Text.encode "interface DotProps\x7ba:T\x7d".toList))]

open Command in
/-- Whether inspecting a file of the project prints more examples than `n`, and any at all. -/
def printsMore (file : String) (n : Int) : Bool :=
  match inspected? { disk := chipProject } file with
  | some c =>
    match variants { maxPermutations := n } c with
    | .ok (usages, _) => decide (max n 0 < usages.length)
    | .error _ => false
  | none => false

open Command in
theorem inspections_counted_chip :
    (∃ c usages stderr, (execute { cwd := [], home := "/" }
        ["inspect", "Chip.tsx", "--max-permutations", "-1"] chipProject).1 =
          .ok { stdout := inspection c usages, stderr } ∧ max (-1) 0 < (usages.length : Int)) ∧
      ∃ c usages stderr, (execute { cwd := [], home := "/" }
        ["inspect", "Dot.tsx", "--max-permutations", "0"] chipProject).1 =
          .ok { stdout := inspection c usages, stderr } ∧ max 0 0 < (usages.length : Int) := by
  have hprints : ∀ arguments file n,
      Invocation.ofArguments arguments = .ok { task := .inspect file n } →
      printsMore file n = true →
      ∃ c usages stderr, (execute { cwd := [], home := "/" } arguments chipProject).1 =
        .ok { stdout := inspection c usages, stderr } ∧ max n 0 < (usages.length : Int) := by
    intro arguments file n hargs hmore
    -- The reports on the way are not counted, so what they say is left open.
    unfold printsMore at hmore
    split at hmore
    · rename_i c hc
      split at hmore
      · rename_i usages notes hvariants
        have hopen : Opened { cwd := [], home := "/" } { task := .inspect file n } chipProject
            { disk := chipProject } := rfl
        rcases ((inspections_counted hargs rfl hopen).2.2 c hc).2 usages notes hvariants with
          ⟨⟨stderr, hstdout⟩, -, -⟩
        exact ⟨c, usages, stderr, hstdout, of_decide_eq_true hmore⟩
      · cases hmore
    · cases hmore
  exact ⟨hprints _ "Chip.tsx" (-1) (by decide +kernel) (by decide +kernel),
    hprints _ "Dot.tsx" 0 (by decide +kernel) (by decide +kernel)⟩

end PropCatalog
