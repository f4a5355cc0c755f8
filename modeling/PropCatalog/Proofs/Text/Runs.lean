import Mathlib.Data.List.TakeWhile
import PropCatalog.Text.Blank

/-!
# Runs of characters — the words of a text, whatever separates them

A text is taken apart at the characters of a class. The pieces are the maximal runs of characters
outside the class:

- `runsOutside_cons_cons` and its neighbours : one equation for each way a text can begin
- `runsOutside_of_not`   : the first run of a text that begins with one
- `IsRun`, `IsRunBehind` : a stretch of a text that cannot be made longer at either end, and where
  it stands
- `placedRuns`           : the pieces with what the text has before each of them
- `mem_placedRuns_iff`, `mem_runsOutside_iff` : the pieces are these stretches
- `RunsFirst`            : one stretch comes up in a text before another one does
- `runsOutside_append`   : a text that is put together from two
- `JoinedBy`, `runsOutside_of_joined` : pieces with separators between them are found again
- `filter_splitOnP`      : the pieces between single separators, those that are not empty
-/

namespace PropCatalog
namespace Text

variable {p : Char → Bool}

/-! ## How a text begins -/

theorem runsOutside_cons {c : Char} (h : p c = true) (rest : List Char) :
    runsOutside p (c :: rest) = runsOutside p rest := by
  rw [runsOutside.eq_def]
  simp [h]

theorem runsOutside_singleton {c : Char} (h : p c = false) : runsOutside p [c] = [[c]] := by
  simp [runsOutside, h]

theorem runsOutside_cons_separator {c d : Char} (hc : p c = false) (hd : p d = true)
    (rest : List Char) : runsOutside p (c :: d :: rest) = [c] :: runsOutside p rest := by
  rw [← runsOutside_cons hd rest, runsOutside.eq_def]
  simp [hc, hd]

theorem runsOutside_cons_cons {c d : Char} (hc : p c = false) (hd : p d = false)
    (rest : List Char) :
    runsOutside p (c :: d :: rest) = consLine c (runsOutside p (d :: rest)) := by
  rw [runsOutside.eq_def]
  simp only [hc, hd, Bool.false_eq_true, if_false]
  unfold consLine
  rfl

/-- A text that begins with a run is cut behind it. -/
theorem runsOutside_of_not {c : Char} (h : p c = false) (rest : List Char) :
    runsOutside p (c :: rest) =
      (c :: rest.takeWhile (!p ·)) :: runsOutside p (rest.dropWhile (!p ·)) := by
  induction rest generalizing c with
  | nil => exact runsOutside_singleton h
  | cons d rest ih =>
    cases hd : p d with
    | true => simp [runsOutside_cons_separator h hd, hd, runsOutside_cons hd]
    | false => simp [runsOutside_cons_cons h hd, ih hd, hd, consLine]

/-! ## Runs as stretches of a text -/

/-- A stretch of a text outside a class of characters, with the end of the text or a character of
the class on either side. -/
def IsRun (p : Char → Bool) (cs run : List Char) : Prop :=
  ∃ before after, cs = before ++ (run ++ after) ∧ run ≠ [] ∧ (∀ c ∈ run, p c = false) ∧
    (∀ c ∈ before.getLast?, p c = true) ∧ ∀ c ∈ after.head?, p c = true

/-- Such a stretch behind a given beginning of the text. -/
def IsRunBehind (p : Char → Bool) (cs before run : List Char) : Prop :=
  ∃ after, cs = before ++ (run ++ after) ∧ run ≠ [] ∧ (∀ c ∈ run, p c = false) ∧
    (∀ c ∈ before.getLast?, p c = true) ∧ ∀ c ∈ after.head?, p c = true

theorem isRun_iff {cs run : List Char} :
    IsRun p cs run ↔ ∃ before, IsRunBehind p cs before run :=
  Iff.rfl

theorem not_isRunBehind_nil (before run : List Char) : ¬ IsRunBehind p [] before run := by
  rintro ⟨after, heq, hne, -⟩
  simp at heq
  exact hne heq.2.1

/-- A separator in front of a text moves its stretches by one place. -/
theorem isRunBehind_cons_iff {c : Char} (h : p c = true) {cs before run : List Char} :
    IsRunBehind p (c :: cs) before run ↔
      ∃ front, before = c :: front ∧ IsRunBehind p cs front run := by
  constructor
  · rintro ⟨after, heq, hne, hrun, hbefore, hafter⟩
    cases before with
    | nil =>
      -- The run cannot begin with the separator.
      cases run with
      | nil => exact absurd rfl hne
      | cons d run =>
        have hd := hrun d List.mem_cons_self
        rw [← (List.cons.inj heq).1, h] at hd
        cases hd
    | cons d before =>
      rcases List.cons.inj heq with ⟨rfl, hcs⟩
      refine ⟨before, rfl, after, hcs, hne, hrun, fun e he => ?_, hafter⟩
      cases before with
      | nil => cases he
      | cons e' before => exact hbefore e (by rwa [List.getLast?_cons_cons])
  · rintro ⟨front, rfl, after, rfl, hne, hrun, hbefore, hafter⟩
    refine ⟨after, rfl, hne, hrun, fun e he => ?_, hafter⟩
    cases front with
    | nil =>
      obtain rfl : c = e := by simpa using he
      exact h
    | cons e' front => exact hbefore e (by rwa [List.getLast?_cons_cons] at he)

/-- What is left behind the first run begins with a separator. -/
theorem separator_of_head?_dropWhile {cs : List Char} {d : Char}
    (h : d ∈ (cs.dropWhile (!p ·)).head?) : p d = true := by
  have hstop := List.head?_dropWhile_not (!p ·) cs
  rw [Option.mem_def.1 h] at hstop
  simpa using hstop

theorem isRunBehind_takeWhile {c : Char} (h : p c = false) (rest : List Char) :
    IsRunBehind p (c :: rest) [] (c :: rest.takeWhile (!p ·)) := by
  refine ⟨rest.dropWhile (!p ·), ?_, List.cons_ne_nil _ _, ?_, by simp,
    fun d hd => separator_of_head?_dropWhile hd⟩
  · rw [List.nil_append, List.cons_append, List.takeWhile_append_dropWhile]
  · intro d hd
    rcases List.mem_cons.1 hd with rfl | hd
    · exact h
    · simpa using List.mem_takeWhile_imp hd

/-- A stretch of what is left behind the first run is one of the whole text. -/
theorem IsRunBehind.of_dropWhile {cs front run : List Char}
    (h : IsRunBehind p (cs.dropWhile (!p ·)) front run) :
    IsRunBehind p cs (cs.takeWhile (!p ·) ++ front) run := by
  rcases h with ⟨after, heq, hne, hrun, hfront, hafter⟩
  have hsome : front ≠ [] := by
    rintro rfl
    -- The rest begins with a separator, and a run does not.
    cases run with
    | nil => exact hne rfl
    | cons d run =>
      have hhead : d ∈ (cs.dropWhile (!p ·)).head? := by
        rw [heq]
        rfl
      have hsep : p d = true := separator_of_head?_dropWhile hhead
      rw [hrun d List.mem_cons_self] at hsep
      cases hsep
  refine ⟨after, ?_, hne, hrun, fun e he => ?_, hafter⟩
  · rw [List.append_assoc, ← heq, List.takeWhile_append_dropWhile]
  · rw [List.getLast?_append, List.getLast?_eq_some_getLast hsome] at he
    exact hfront e (by rwa [List.getLast?_eq_some_getLast hsome])

/-- Any other stretch than the first run is found behind it. -/
theorem IsRunBehind.eq_or_dropWhile {cs before run : List Char} (h : IsRunBehind p cs before run) :
    (before = [] ∧ run = cs.takeWhile (!p ·)) ∨
      ∃ front, before = cs.takeWhile (!p ·) ++ front ∧
        IsRunBehind p (cs.dropWhile (!p ·)) front run := by
  rcases h with ⟨after, rfl, hne, hrun, hbefore, hafter⟩
  cases hfront : before.dropWhile (!p ·) with
  | nil =>
    -- The text begins with the run, since what comes before one ends with a separator.
    obtain rfl : before = [] := by
      rw [List.dropWhile_eq_nil_iff] at hfront
      by_contra hsome
      have hsep := hbefore _ (List.getLast?_eq_some_getLast hsome)
      simpa [hsep] using hfront _ (List.getLast_mem hsome)
    have hstop : after.takeWhile (!p ·) = [] := by
      cases after with
      | nil => rfl
      | cons d after => simp [hafter d rfl]
    refine Or.inl ⟨rfl, ?_⟩
    rw [List.nil_append, List.takeWhile_append_of_pos (by simpa using hrun), hstop,
      List.append_nil]
  | cons d front =>
    have hsplit : before.takeWhile (!p ·) ++ d :: front = before := by
      rw [← hfront, List.takeWhile_append_dropWhile]
    have hsep : p d = true := separator_of_head?_dropWhile (by rw [hfront]; rfl)
    have hall : ∀ e ∈ before.takeWhile (!p ·), (!p e) = true := fun e he => by
      simpa using List.mem_takeWhile_imp he
    refine Or.inr ⟨d :: front, ?_, after, ?_, hne, hrun, fun e he => ?_, hafter⟩
    · rw [← hsplit, List.append_assoc, List.takeWhile_append_of_pos hall, List.cons_append,
        List.takeWhile_cons_of_neg (by simp [hsep]), List.append_nil]
    · rw [← hsplit, List.append_assoc, List.dropWhile_append_of_pos hall, List.cons_append,
        List.dropWhile_cons_of_neg (by simp [hsep])]
    · refine hbefore e ?_
      rw [← hsplit, List.getLast?_append, he]
      rfl

/-- The stretches of a text that begins with a run are this run, and those of what comes after. -/
theorem isRunBehind_cons_of_not {c : Char} (h : p c = false) {rest before run : List Char} :
    IsRunBehind p (c :: rest) before run ↔
      (before = [] ∧ run = c :: rest.takeWhile (!p ·)) ∨
        ∃ front, before = c :: rest.takeWhile (!p ·) ++ front ∧
          IsRunBehind p (rest.dropWhile (!p ·)) front run := by
  constructor
  · intro hrun
    simpa [h] using hrun.eq_or_dropWhile
  · rintro (⟨rfl, rfl⟩ | ⟨front, rfl, hrun⟩)
    · exact isRunBehind_takeWhile h rest
    · have hwhole : IsRunBehind p ((c :: rest).dropWhile (!p ·)) front run := by
        simpa [h] using hrun
      simpa [h] using hwhole.of_dropWhile

/-! ## The runs in their places -/

/-- The runs of a text, each with what the text has before it. -/
def placedRuns (p : Char → Bool) : List Char → List (List Char × List Char)
  | [] => []
  | c :: rest =>
    if p c then (placedRuns p rest).map fun placed => (c :: placed.1, placed.2)
    else
      -- Behind the run that the text begins with, the places are counted anew.
      ([], c :: rest.takeWhile (!p ·)) :: (placedRuns p (rest.dropWhile (!p ·))).map fun placed =>
        (c :: rest.takeWhile (!p ·) ++ placed.1, placed.2)
termination_by cs => cs.length
decreasing_by
  · exact Nat.lt_succ_self _
  · exact Nat.lt_succ_of_le (List.dropWhile_sublist _).length_le

theorem map_snd_placedRuns (cs : List Char) :
    (placedRuns p cs).map (·.2) = runsOutside p cs := by
  fun_induction placedRuns p cs with
  | case1 => rfl
  | case2 c rest hc ih => rw [runsOutside_cons hc, ← ih, List.map_map]; rfl
  | case3 c rest hc ih =>
    rw [runsOutside_of_not (by simpa using hc), ← ih, List.map_cons, List.map_map]
    rfl

theorem mem_placedRuns_iff {cs before run : List Char} :
    (before, run) ∈ placedRuns p cs ↔ IsRunBehind p cs before run := by
  fun_induction placedRuns p cs generalizing before with
  | case1 => simp [not_isRunBehind_nil]
  | case2 c rest hc ih =>
    rw [isRunBehind_cons_iff hc, List.mem_map]
    constructor
    · rintro ⟨⟨front, next⟩, hmem, ⟨⟩⟩
      exact ⟨front, rfl, ih.1 hmem⟩
    · rintro ⟨front, rfl, hrun⟩
      exact ⟨(front, run), ih.2 hrun, rfl⟩
  | case3 c rest hc ih =>
    rw [isRunBehind_cons_of_not (by simpa using hc), List.mem_cons, List.mem_map, Prod.mk.injEq]
    refine or_congr_right ⟨?_, ?_⟩
    · rintro ⟨⟨front, next⟩, hmem, ⟨⟩⟩
      exact ⟨front, rfl, ih.1 hmem⟩
    · rintro ⟨front, rfl, hrun⟩
      exact ⟨(front, run), ih.2 hrun, rfl⟩

/-- The runs come in the order in which they stand in the text. -/
theorem pairwise_placedRuns (cs : List Char) :
    (placedRuns p cs).Pairwise fun x y => x.1.length < y.1.length := by
  fun_induction placedRuns p cs with
  | case1 => exact List.Pairwise.nil
  | case2 c rest hc ih =>
    rw [List.pairwise_map]
    exact ih.imp Nat.succ_lt_succ
  | case3 c rest hc ih =>
    rw [List.pairwise_cons, List.pairwise_map]
    constructor
    · -- The first run has nothing before it, every other one has at least this run.
      intro y hy
      rcases List.mem_map.1 hy with ⟨placed, -, rfl⟩
      simp
    · refine ih.imp fun hlt => ?_
      rw [List.length_append, List.length_append]
      exact Nat.add_lt_add_left hlt _

/-- The pieces of a text are its stretches outside the class. -/
theorem mem_runsOutside_iff {cs run : List Char} :
    run ∈ runsOutside p cs ↔ IsRun p cs run := by
  rw [isRun_iff, ← map_snd_placedRuns, List.mem_map]
  constructor
  · rintro ⟨⟨before, next⟩, hmem, rfl⟩
    exact ⟨before, mem_placedRuns_iff.1 hmem⟩
  · rintro ⟨before, hrun⟩
    exact ⟨(before, run), mem_placedRuns_iff.2 hrun, rfl⟩

/-- The first stretch that reads `a` stands before all that read `b`. -/
def RunsFirst (p : Char → Bool) (cs a b : List Char) : Prop :=
  ∃ before, IsRunBehind p cs before a ∧
    ∀ before', IsRunBehind p cs before' b → before.length < before'.length

theorem RunsFirst.asymm {cs a b : List Char} (h : RunsFirst p cs a b) : ¬ RunsFirst p cs b a := by
  rcases h with ⟨before, ha, hb⟩
  rintro ⟨before', hb', ha'⟩
  exact Nat.lt_asymm (hb before' hb') (ha' before ha)

/-! ## Texts that are put together -/

/-- Two texts one after the other have the runs of both, if a separator keeps them apart. -/
theorem runsOutside_append (cs : List Char) {after : List Char}
    (h : ∀ c ∈ after.head?, p c = true) :
    runsOutside p (cs ++ after) = runsOutside p cs ++ runsOutside p after := by
  -- Whether a character ends a run is told by the one behind it, so the cases go two deep.
  induction cs with
  | nil => rfl
  | cons c cs ih =>
    cases hc : p c with
    | true => rw [List.cons_append, runsOutside_cons hc, runsOutside_cons hc, ih]
    | false =>
      cases cs with
      | nil =>
        cases after with
        | nil => rw [List.append_nil, runsOutside, List.append_nil]
        | cons d after =>
          have hd : p d = true := h d rfl
          rw [List.singleton_append, runsOutside_cons_separator hc hd, runsOutside_singleton hc,
            runsOutside_cons hd, List.singleton_append]
      | cons d cs =>
        rw [List.cons_append, List.cons_append]
        rw [List.cons_append] at ih
        cases hd : p d with
        | true =>
          rw [runsOutside_cons hd, runsOutside_cons hd] at ih
          rw [runsOutside_cons_separator hc hd, runsOutside_cons_separator hc hd, ih,
            List.cons_append]
        | false =>
          -- The first run of the rest takes the character, on both sides.
          rw [runsOutside_cons_cons hc hd, runsOutside_cons_cons hc hd, ih, runsOutside_of_not hd]
          rfl

theorem runsOutside_separators_append {cs : List Char} (h : ∀ c ∈ cs, p c = true)
    (after : List Char) : runsOutside p (cs ++ after) = runsOutside p after := by
  induction cs with
  | nil => rfl
  | cons c cs ih =>
    rw [List.cons_append, runsOutside_cons (h c List.mem_cons_self),
      ih fun d hd => h d (List.mem_cons_of_mem _ hd)]

theorem runsOutside_separators {cs : List Char} (h : ∀ c ∈ cs, p c = true) :
    runsOutside p cs = [] := by
  simpa [runsOutside] using runsOutside_separators_append h []

/-- A text without separators is one run. -/
theorem runsOutside_self {cs : List Char} (hne : cs ≠ []) (h : ∀ c ∈ cs, p c = false) :
    runsOutside p cs = [cs] := by
  cases cs with
  | nil => exact absurd rfl hne
  | cons c rest =>
    have hrest : ∀ d ∈ rest, (!p d) = true := fun d hd => by
      simp [h d (List.mem_cons_of_mem _ hd)]
    rw [runsOutside_of_not (h c List.mem_cons_self), List.takeWhile_eq_self_iff.2 hrest,
      List.dropWhile_eq_nil_iff.2 hrest]
    rfl

/-- Pieces one after the other, with a text of separators between neighbours that is not empty. -/
inductive JoinedBy (p : Char → Bool) : List (List Char) → List Char → Prop where
  | nil : JoinedBy p [] []
  | single (piece : List Char) : JoinedBy p [piece] piece
  | cons (piece : List Char) {sep : List Char} {pieces : List (List Char)} {cs : List Char}
      (hne : sep ≠ []) (hsep : ∀ c ∈ sep, p c = true) (hsome : pieces ≠ [])
      (h : JoinedBy p pieces cs) : JoinedBy p (piece :: pieces) (piece ++ (sep ++ cs))

/-- Joined runs are found again, whatever separators stand between them. -/
theorem runsOutside_of_joined {pieces : List (List Char)} {cs : List Char}
    (h : JoinedBy p pieces cs)
    (hpieces : ∀ piece ∈ pieces, piece ≠ [] ∧ ∀ c ∈ piece, p c = false) :
    runsOutside p cs = pieces := by
  induction h with
  | nil => rfl
  | single piece =>
    rcases hpieces piece List.mem_cons_self with ⟨hsome, hpiece⟩
    exact runsOutside_self hsome hpiece
  | @cons piece sep pieces cs hne hsep _ _ ih =>
    rcases hpieces piece List.mem_cons_self with ⟨hsome, hpiece⟩
    have hhead : ∀ c ∈ (sep ++ cs).head?, p c = true := by
      intro c hc
      obtain ⟨d, sep', rfl⟩ := List.exists_cons_of_ne_nil hne
      obtain rfl : d = c := by simpa using hc
      exact hsep d List.mem_cons_self
    rw [runsOutside_append piece hhead, runsOutside_self hsome hpiece,
      runsOutside_separators_append hsep,
      ih fun piece' hpiece' => hpieces piece' (List.mem_cons_of_mem _ hpiece')]
    rfl

/-- Cut at every separator, a text falls into its runs and empty pieces. -/
theorem filter_splitOnP (cs : List Char) :
    (cs.splitOnP p).filter (!·.isEmpty) = runsOutside p cs := by
  -- Behind a run the text goes on with the separator that ends it, so the induction is on lengths.
  induction hlength : cs.length using Nat.strong_induction_on generalizing cs with
  | _ n ih =>
    cases cs with
    | nil => rfl
    | cons c rest =>
      cases hc : p c with
      | true =>
        have hrest := ih rest.length (by simp [← hlength]) rest rfl
        rw [runsOutside_cons hc, List.splitOnP_cons_eq_if_modifyHead, if_pos hc, ← hrest]
        rfl
      | false =>
        have hrun : ∀ d ∈ c :: rest.takeWhile (!p ·), p d = false := by
          intro d hd
          rcases List.mem_cons.1 hd with rfl | hd
          · exact hc
          · simpa using List.mem_takeWhile_imp hd
        have hsplit : c :: rest.takeWhile (!p ·) ++ rest.dropWhile (!p ·) = c :: rest := by
          rw [List.cons_append, List.takeWhile_append_dropWhile]
        rw [runsOutside_of_not hc, ← hsplit]
        cases hbehind : rest.dropWhile (!p ·) with
        | nil => rw [List.append_nil, List.splitOnP_eq_singleton hrun]; rfl
        | cons d after =>
          have hd : p d = true := separator_of_head?_dropWhile (by rw [hbehind]; rfl)
          have hshorter : after.length < n := by
            have := (List.dropWhile_sublist (l := rest) (!p ·)).length_le
            rw [hbehind, List.length_cons] at this
            rw [← hlength, List.length_cons]
            omega
          rw [List.splitOnP_append_cons_of_forall_mem hrun d hd, runsOutside_cons hd,
            ← ih _ hshorter after rfl]
          rfl

end Text
end PropCatalog
