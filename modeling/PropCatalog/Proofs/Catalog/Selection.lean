import PropCatalog.Proofs.Catalog.SharedPatterns

/-!
# Selected files — which files are found and in which order

The include patterns are gone through one after the other, and what each of them finds is sorted.
A file is taken where it comes up first, unless it is excluded. Here finding is any way of getting
paths below the root from a pattern.

- `Path.Holds`, `relativePath_injective` : paths below a directory are told apart by their texts
- `candidates_of_found`  : what the patterns find, one after the other
- `pairwise_firsts`      : the order of what comes up first
- `Selected`, `files_selected` : the files that are returned, and that the order of the include
  patterns and their repetitions do not change which files they are
-/

namespace PropCatalog

/-! ## Paths below a directory -/

/-- A path below a directory: its further parts are names, none empty, a dot or with a slash. -/
def Path.Holds (root p : Path) : Prop :=
  ∃ names, p = root.below names ∧ ∀ name ∈ names, name ≠ "" ∧ name ≠ "." ∧ '/' ∉ name.toList

theorem slashed_injective {names names' : List String}
    (h : ∀ name ∈ names, name ≠ "" ∧ '/' ∉ name.toList)
    (h' : ∀ name ∈ names', name ≠ "" ∧ '/' ∉ name.toList) (heq : slashed names = slashed names') :
    names = names' := by
  induction names generalizing names' with
  | nil =>
    cases names' with
    | nil => rfl
    | cons name' names' =>
      have hsome := slashed_ne_nil (List.cons_ne_nil name' names')
        fun name hname => by simpa using (h' name hname).1
      exact absurd heq.symm hsome
  | cons name names ih =>
    have hname := h name List.mem_cons_self
    cases names' with
    | nil =>
      have hsome := slashed_ne_nil (List.cons_ne_nil name names)
        fun name hname => by simpa using (h name hname).1
      exact absurd heq hsome
    | cons name' names' =>
      have hname' := h' name' List.mem_cons_self
      by_cases hlast' : names' = []
      · -- Behind a single name stands no slash, so the other one is single as well.
        subst hlast'
        have hlast : names = [] := by
          by_contra hmore
          rw [slashed_cons name hmore] at heq
          exact (first_of_slashed hname'.2 hname.2 heq.symm).2.1 rfl
        rw [hlast, slashed_singleton, slashed_singleton, String.toList_inj] at heq
        rw [hlast, heq]
      · rw [slashed_cons name' hlast'] at heq
        rcases first_of_slashed hname.2 hname'.2 heq with ⟨hsame, -, hrest⟩
        rw [String.toList_inj.1 hsame, ih (fun n hn => h n (List.mem_cons_of_mem _ hn))
          (fun n hn => h' n (List.mem_cons_of_mem _ hn)) hrest]

/-- Paths below a directory are the same if they are shown in the same way. -/
theorem relativePath_injective {root p q : Path} (hp : root.Holds p) (hq : root.Holds q)
    (heq : relativePath root p = relativePath root q) : p = q := by
  rcases hp with ⟨names, rfl, hnames⟩
  rcases hq with ⟨names', rfl, hnames'⟩
  have hproper := fun name hname => And.intro (hnames name hname).1 (hnames name hname).2.2
  have hproper' := fun name hname => And.intro (hnames' name hname).1 (hnames' name hname).2.2
  -- The directory itself is shown by a dot, which is no name.
  have hdot : ∀ names : List String, (∀ name ∈ names, name ≠ "" ∧ name ≠ "." ∧
      '/' ∉ name.toList) → slashed names ≠ ['.'] := by
    intro names hnames hshown
    have hsingle : slashed names = slashed ["."] := hshown.trans (by decide)
    have hone := slashed_injective
      (fun name hname => And.intro (hnames name hname).1 (hnames name hname).2.2)
      (by decide) hsingle
    exact (hnames "." (hone ▸ List.mem_singleton_self _)).2.1 rfl
  have htext := String.toList_inj.2 heq
  rw [toList_relativePath, toList_relativePath] at htext
  have hslashed : slashed names = slashed names' := by
    split at htext <;> split at htext
    · simp_all
    · exact absurd htext.symm (hdot names' hnames')
    · exact absurd htext (hdot names hnames)
    · exact htext
  rw [slashed_injective hproper hproper' hslashed]

/-! ## What the patterns find -/

section Found

variable {ε : Type} {find : String → Except ε (List Path)} {test : Path → Except ε Bool}
  {found : String → List Path} {isFile : Path → Bool} {patterns : List String}

theorem filesAmong_of_told {ps : List Path} (htest : ∀ p ∈ ps, test p = .ok (isFile p)) :
    filesAmong test ps = .ok (ps.filter isFile) := by
  induction ps with
  | nil => rfl
  | cons p rest ih =>
    have hrest := ih fun q hq => htest q (List.mem_cons_of_mem p hq)
    rw [filesAmong, htest p List.mem_cons_self, hrest, List.filter_cons]
    rfl

theorem candidates_of_found (hfind : ∀ pattern ∈ patterns, find pattern = .ok (found pattern))
    (htest : ∀ pattern ∈ patterns, ∀ p ∈ found pattern, test p = .ok (isFile p)) :
    candidates find test patterns =
      .ok ((patterns.flatMap fun pattern => (found pattern).mergeSort Path.le).filter isFile) := by
  refine candidates_eq_ok_iff.2
    ⟨patterns.map fun pattern => ((found pattern).mergeSort Path.le).filter isFile, ?_, ?_⟩
  · rw [List.forall₂_map_right_iff, List.forall₂_same]
    intro pattern hpattern
    refine ⟨found pattern, hfind pattern hpattern, filesAmong_of_told fun p hp => ?_⟩
    exact htest pattern hpattern p (List.mem_mergeSort.1 hp)
  · rw [List.filter_flatMap, List.flatMap_def]

end Found

/-- The position of the first pattern that finds a path. -/
def firstFinder (found : String → List Path) (patterns : List String) (p : Path) : Nat :=
  patterns.findIdx fun pattern => decide (p ∈ found pattern)

/-- One path comes before another: a pattern further in front finds it, or the same pattern finds
both first and its parts come first. -/
def Precedes (found : String → List Path) (patterns : List String) (p q : Path) : Prop :=
  firstFinder found patterns p < firstFinder found patterns q ∨
    firstFinder found patterns p = firstFinder found patterns q ∧ p.parts < q.parts

theorem firstFinder_of_mem {found : String → List Path} {pattern : String} {p : Path}
    (h : p ∈ found pattern) (patterns : List String) :
    firstFinder found (pattern :: patterns) p = 0 := by
  simp [firstFinder, List.findIdx_cons, h]

theorem firstFinder_of_not_mem {found : String → List Path} {pattern : String} {p : Path}
    (h : p ∉ found pattern) (patterns : List String) :
    firstFinder found (pattern :: patterns) p = firstFinder found patterns p + 1 := by
  simp [firstFinder, List.findIdx_cons, h]

/-- What one pattern finds is in order of the parts, each path once. -/
theorem pairwise_firsts_sorted {root : Path} {ps : List Path}
    (hroot : ∀ p ∈ ps, p.root = root.root) (keep : Path → Bool) :
    (Assoc.firsts (relativePath root) ((ps.mergeSort Path.le).filter keep)).Pairwise
      fun p q => p.parts < q.parts := by
  have hsublist := (Assoc.firsts_sublist (relativePath root) _).trans
    (List.filter_sublist (p := keep) (l := ps.mergeSort Path.le))
  have hsorted := (pairwise_mergeSort_paths ps).sublist hsublist
  have hdistinct := List.pairwise_map.1
    (Assoc.nodup_map_firsts (relativePath root) ((ps.mergeSort Path.le).filter keep))
  refine (hsorted.and hdistinct).imp_of_mem ?_
  rintro p q hp hq ⟨hle, hne⟩
  refine lt_of_le_of_ne ((Path.le_iff p q).1 hle) fun hparts => hne ?_
  have hp := hroot p (List.mem_mergeSort.1 (hsublist.subset hp))
  have hq := hroot q (List.mem_mergeSort.1 (hsublist.subset hq))
  -- Below one root, paths with the same parts are the same, and no path comes twice.
  have hsame : p = q := by
    cases p
    cases q
    simp_all
  rw [hsame]

/-- What comes up first in the findings of the patterns, each of them sorted, is in order. -/
theorem pairwise_firsts {found : String → List Path} {root : Path} (patterns : List String)
    (hbelow : ∀ pattern ∈ patterns, ∀ p ∈ found pattern, p.root = root.root) (keep : Path → Bool) :
    (Assoc.firsts (relativePath root) ((patterns.flatMap fun pattern =>
      (found pattern).mergeSort Path.le).filter keep)).Pairwise (Precedes found patterns) := by
  induction patterns generalizing keep with
  | nil => simp
  | cons pattern patterns ih =>
    -- Of what the later patterns find, only what this one does not find is kept, so the induction
    -- is for any condition on the paths.
    have hrest := ih fun pattern' hpattern' => hbelow pattern' (List.mem_cons_of_mem _ hpattern')
    rw [List.flatMap_cons, List.filter_append, Assoc.firsts_append, List.filter_filter,
      List.pairwise_append]
    have hfound : ∀ p ∈ Assoc.firsts (relativePath root)
        (((found pattern).mergeSort Path.le).filter keep), p ∈ found pattern := fun p hp =>
      List.mem_mergeSort.1 (List.mem_of_mem_filter ((Assoc.firsts_sublist _ _).subset hp))
    have hlater : ∀ p ∈ Assoc.firsts (relativePath root) ((patterns.flatMap fun pattern =>
        (found pattern).mergeSort Path.le).filter fun p =>
          decide (relativePath root p ∉ (((found pattern).mergeSort Path.le).filter keep).map
            (relativePath root)) && keep p), p ∉ found pattern := by
      intro p hp hmem
      have hkept := List.of_mem_filter ((Assoc.firsts_sublist _ _).subset hp)
      rw [Bool.and_eq_true, decide_eq_true_eq] at hkept
      exact hkept.1 (List.mem_map_of_mem
        (List.mem_filter.2 ⟨List.mem_mergeSort.2 hmem, hkept.2⟩))
    refine ⟨?_, ?_, ?_⟩
    · refine (pairwise_firsts_sorted (hbelow pattern List.mem_cons_self) keep).imp_of_mem ?_
      intro p q hp hq hlt
      rw [Precedes, firstFinder_of_mem (hfound p hp), firstFinder_of_mem (hfound q hq)]
      exact Or.inr ⟨rfl, hlt⟩
    · refine (hrest _).imp_of_mem ?_
      intro p q hp hq hprecedes
      rw [Precedes, firstFinder_of_not_mem (hlater p hp), firstFinder_of_not_mem (hlater q hq)]
      exact hprecedes.imp Nat.succ_lt_succ fun h => ⟨congrArg Nat.succ h.1, h.2⟩
    · intro p hp q hq
      rw [Precedes, firstFinder_of_mem (hfound p hp), firstFinder_of_not_mem (hlater q hq)]
      exact Or.inl (Nat.succ_pos _)

/-! ## The files of a catalog -/

/-- The files are selected: they are what the include patterns find and nothing excludes, no two are
shown in the same way, and each precedes those behind it. -/
structure Selected (found : String → List Path) (isFile : Path → Bool) (s : Settings)
    (files : List Path) : Prop where
  mem_iff : ∀ p, p ∈ files ↔ isFile p = true ∧
    (∃ P ∈ s.includes, ∃ E ∈ Pattern.expandBraces P, p ∈ found (withoutDot E)) ∧
    ∀ X ∈ s.excludes, ∀ E ∈ Pattern.expandBraces X,
      Pattern.excludes (relativePath s.root p) E = false
  nodup : (files.map (relativePath s.root)).Nodup
  ordered : files.Pairwise (Precedes found (includePatterns s.includes))

section Selection

variable {ε : Type} {find : String → Except ε (List Path)} {test : Path → Except ε Bool}
  {found : String → List Path} {isFile : Path → Bool} {s : Settings}

theorem mem_findings_iff {includes : List String} {p : Path} :
    p ∈ (includePatterns includes).flatMap (fun pattern => (found pattern).mergeSort Path.le) ↔
      ∃ P ∈ includes, ∃ E ∈ Pattern.expandBraces P, p ∈ found (withoutDot E) := by
  rw [List.mem_flatMap]
  constructor
  · rintro ⟨pattern, hpattern, hp⟩
    rcases mem_includePatterns.1 hpattern with ⟨P, hP, E, hE, rfl⟩
    exact ⟨P, hP, E, hE, List.mem_mergeSort.1 hp⟩
  · rintro ⟨P, hP, E, hE, hp⟩
    exact ⟨withoutDot E, mem_includePatterns.2 ⟨P, hP, E, hE, rfl⟩, List.mem_mergeSort.2 hp⟩

theorem isExcluded_eq_false_iff {excludes : List String} {text : String} :
    Pattern.isExcluded text (excludes.flatMap Pattern.expandBraces) = false ↔
      ∀ X ∈ excludes, ∀ E ∈ Pattern.expandBraces X, Pattern.excludes text E = false := by
  simp only [Pattern.isExcluded, List.any_eq_false, List.mem_flatMap, Bool.not_eq_true]
  constructor
  · exact fun h X hX E hE => h E ⟨X, hX, hE⟩
  · rintro h E ⟨X, hX, hE⟩
    exact h X hX E hE

/-- If every pattern finds paths below the root and it can be told which of them are files, then
discovery selects files. -/
theorem discoverWith_selected
    (hfind : ∀ pattern ∈ includePatterns s.includes, find pattern = .ok (found pattern))
    (htest : ∀ pattern ∈ includePatterns s.includes, ∀ p ∈ found pattern, test p = .ok (isFile p))
    (hbelow : ∀ pattern ∈ includePatterns s.includes, ∀ p ∈ found pattern, s.root.Holds p) :
    ∃ files, discoverWith find test s = .ok files ∧ Selected found isFile s files := by
  have hroot : ∀ pattern ∈ includePatterns s.includes, ∀ p ∈ found pattern,
      p.root = s.root.root := by
    intro pattern hpattern p hp
    rcases hbelow pattern hpattern p hp with ⟨names, rfl, -⟩
    rfl
  have hdiscovers : discoverWith find test s = .ok (chooseFiles s.root
      (s.excludes.flatMap Pattern.expandBraces) (((includePatterns s.includes).flatMap
        fun pattern => (found pattern).mergeSort Path.le).filter isFile)) := by
    rw [discoverWith, candidates_of_found hfind htest]
    rfl
  -- Among what is found, files that are not excluded are kept.
  have hchosen : chooseFiles s.root (s.excludes.flatMap Pattern.expandBraces)
      (((includePatterns s.includes).flatMap fun pattern =>
        (found pattern).mergeSort Path.le).filter isFile) =
      Assoc.firsts (relativePath s.root) (((includePatterns s.includes).flatMap fun pattern =>
        (found pattern).mergeSort Path.le).filter fun p =>
          !Pattern.isExcluded (relativePath s.root p) (s.excludes.flatMap Pattern.expandBraces) &&
            isFile p) := by
    rw [← List.filter_filter]
    rfl
  refine ⟨_, hdiscovers, ?_, Assoc.nodup_map_firsts _ _, hchosen ▸ pairwise_firsts _ hroot _⟩
  intro p
  -- Below the root, a path is the only one with its text, so each path is the first of its text.
  have hheld : ∀ p ∈ (includePatterns s.includes).flatMap
      (fun pattern => (found pattern).mergeSort Path.le), s.root.Holds p := by
    intro p hp
    rcases List.mem_flatMap.1 hp with ⟨pattern, hpattern, hmem⟩
    exact hbelow pattern hpattern p (List.mem_mergeSort.1 hmem)
  rw [hchosen]
  refine (Assoc.mem_firsts_of_injective (relativePath s.root) ?_ p).trans ?_
  · exact fun p hp q hq => relativePath_injective (hheld p (List.mem_of_mem_filter hp))
      (hheld q (List.mem_of_mem_filter hq))
  rw [List.mem_filter, mem_findings_iff, Bool.and_eq_true, Bool.not_eq_true',
    isExcluded_eq_false_iff, and_comm (b := isFile p = true)]
  exact and_left_comm

/-- For every way of finding paths below the root of which it can be told whether they are files,
and for all includes and excludes, discovery returns the files that an include pattern finds and no
exclude pattern excludes. Each is returned once, in the order of the patterns that find it first,
and of the paths. Which files they are does not depend on the order and on repetitions of the
include patterns. -/
theorem files_selected
    (hfind : ∀ pattern ∈ includePatterns s.includes, find pattern = .ok (found pattern))
    (htest : ∀ pattern ∈ includePatterns s.includes, ∀ p ∈ found pattern, test p = .ok (isFile p))
    (hbelow : ∀ pattern ∈ includePatterns s.includes, ∀ p ∈ found pattern, s.root.Holds p) :
    ∃ files, discoverWith find test s = .ok files ∧ Selected found isFile s files ∧
      ∀ includes, (∀ P, P ∈ includes ↔ P ∈ s.includes) →
        ∃ files', discoverWith find test { s with includes } = .ok files' ∧
          ∀ p, p ∈ files' ↔ p ∈ files := by
  rcases discoverWith_selected hfind htest hbelow with ⟨files, hfiles, hselected⟩
  refine ⟨files, hfiles, hselected, ?_⟩
  intro includes hsame
  have hpatterns : ∀ pattern ∈ includePatterns includes, pattern ∈ includePatterns s.includes := by
    intro pattern hpattern
    rcases mem_includePatterns.1 hpattern with ⟨P, hP, hE⟩
    exact mem_includePatterns.2 ⟨P, (hsame P).1 hP, hE⟩
  rcases discoverWith_selected (s := { s with includes })
    (fun pattern hpattern => hfind pattern (hpatterns pattern hpattern))
    (fun pattern hpattern => htest pattern (hpatterns pattern hpattern))
    (fun pattern hpattern => hbelow pattern (hpatterns pattern hpattern)) with
    ⟨files', hfiles', hselected'⟩
  refine ⟨files', hfiles', ?_⟩
  intro p
  rw [hselected'.mem_iff, hselected.mem_iff]
  simp only [hsame]

end Selection

/-- Settings with two patterns that find a file of the nested project both. -/
def repeatedSettings : Settings where
  root := { root := "/" }
  includes := ["src/ui/*.tsx", "./src/**/*.\x7btsx,jsx\x7d"]
  excludes := ["**/*.test.tsx"]

/-- What a pattern finds in the nested project. -/
def nestedFindings (pattern : String) : List Path :=
  (findOn nestedProject repeatedSettings.root pattern).toOption.getD []

/-- Whether a path leads to a file of the nested project. -/
def isNestedFile (p : Path) : Bool :=
  nestedProject.isFile [] p == .ok true

theorem files_selected_nested :
    ∃ files, discover nestedProject repeatedSettings = .ok files ∧
      Selected nestedFindings isNestedFile repeatedSettings files ∧
      ∃ files', discover nestedProject { repeatedSettings with
          includes := repeatedSettings.includes.reverse } = .ok files' ∧
        ∀ p, p ∈ files' ↔ p ∈ files := by
  have hpatterns : includePatterns repeatedSettings.includes =
      ["src/ui/*.tsx", "src/**/*.tsx", "src/**/*.jsx"] := by decide +kernel
  have hfindings : ["src/ui/*.tsx", "src/**/*.tsx", "src/**/*.jsx"].flatMap nestedFindings =
      [⟨"/", ["src", "ui", "Box.tsx"]⟩, ⟨"/", ["src", "App.tsx"]⟩,
        ⟨"/", ["src", "ui", "Box.tsx"]⟩] := by decide +kernel
  have hheld : ∀ p ∈ [Path.mk "/" ["src", "ui", "Box.tsx"], ⟨"/", ["src", "App.tsx"]⟩,
      ⟨"/", ["src", "ui", "Box.tsx"]⟩], repeatedSettings.root.Holds p := by
    intro p hp
    refine ⟨p.parts, ?_, ?_⟩ <;> revert p <;> decide
  have hfind : ∀ pattern ∈ includePatterns repeatedSettings.includes,
      findOn nestedProject repeatedSettings.root pattern = .ok (nestedFindings pattern) := by
    rw [hpatterns]
    decide +kernel
  have htest : ∀ pattern ∈ includePatterns repeatedSettings.includes,
      ∀ p ∈ nestedFindings pattern,
        (nestedProject.isFile [] p).mapError Failure.disk = .ok (isNestedFile p) := by
    rw [hpatterns]
    decide +kernel
  have hbelow : ∀ pattern ∈ includePatterns repeatedSettings.includes,
      ∀ p ∈ nestedFindings pattern, repeatedSettings.root.Holds p := by
    intro pattern hpattern p hp
    rw [hpatterns] at hpattern
    exact hheld p (hfindings ▸ List.mem_flatMap.2 ⟨pattern, hpattern, hp⟩)
  rcases files_selected hfind htest hbelow with ⟨files, hfiles, hselected, hsame⟩
  exact ⟨files, hfiles, hselected, hsame _ fun P => List.mem_reverse⟩

end PropCatalog
