import Mathlib.Data.List.Basic
import Mathlib.Data.List.Induction
import PropCatalog.Component.Describe
import PropCatalog.Proofs.Text.Runs

/-!
# Candidates — which variable describes a component in the end

A component that is described nowhere takes the description of another variable of its module. The
variables that look like components and are documented are scored, and the first one of the highest
score is taken:

- `IsPascalName`, `NamesWrapper`, `DocumentedBy` : what makes a variable count
- `Offers`      : the candidate of a variable that counts
- `IsFirstBest` : a candidate that no earlier one equals and no later one exceeds
- `Padded`      : a list with further elements of a kind anywhere in it
- `best_candidate_first` : the candidate that is taken, and what further variables change
-/

namespace PropCatalog

/-! ## Variables that count -/

/-- An ASCII capital, ASCII letters and digits behind it, and perhaps a line feed at the end. -/
def IsPascalName (name : String) : Prop :=
  ∃ c rest ending, name.toList = c :: (rest ++ ending) ∧ c.isUpper = true ∧
    (∀ d ∈ rest, d.isAlphanum = true) ∧ (ending = [] ∨ ending = ['\n'])

/-- One of the wrapper types stands in a type as a word of its own. -/
def NamesWrapper (declaredType : String) : Prop :=
  ∃ wrapper ∈ wrapperTypes, Text.IsRun (!Text.isWordChar ·) declaredType.toList wrapper.toList

theorem isPascalCase_iff {name : String} : isPascalCase name = true ↔ IsPascalName name := by
  unfold isPascalCase IsPascalName
  cases name.toList with
  | nil => simp
  | cons c cs =>
    simp only [Bool.and_eq_true, List.all_eq_true, List.cons.injEq]
    constructor
    · rintro ⟨hc, hrest⟩
      by_cases hfeed : cs.getLast? = some '\n'
      · refine ⟨c, cs.dropLast, ['\n'], ⟨rfl, ?_⟩, hc, by simpa [hfeed] using hrest, Or.inr rfl⟩
        exact (List.dropLast_append_getLast? '\n' hfeed).symm
      · exact ⟨c, cs, [], ⟨rfl, by simp⟩, hc, by simpa [hfeed] using hrest, Or.inl rfl⟩
    · rintro ⟨_, rest, ending, ⟨rfl, rfl⟩, hc, hrest, rfl | rfl⟩
      · -- A line feed is neither a letter nor a digit, so that nothing is dropped.
        have hfeed : ¬ rest.getLast? = some '\n' := fun hlast =>
          absurd (hrest _ (List.mem_of_getLast? hlast)) (by decide)
        exact ⟨hc, by simpa [hfeed] using hrest⟩
      · exact ⟨hc, by simpa using hrest⟩

theorem isWrapperType_iff {declaredType : String} :
    isWrapperType declaredType = true ↔ NamesWrapper declaredType := by
  simp only [isWrapperType, NamesWrapper, List.any_eq_true, Text.mem_runsOutside_iff,
    List.contains_iff_mem]
  constructor
  · rintro ⟨word, hrun, hmem⟩
    exact ⟨String.ofList word, hmem, by rwa [String.toList_ofList]⟩
  · rintro ⟨wrapper, hmem, hrun⟩
    exact ⟨wrapper.toList, hrun, by rwa [String.ofList_toList]⟩

/-- A variable looks like a component by its name or by its type. -/
def LooksLikeComponent (v : Variable) : Prop :=
  IsPascalName v.name ∨ ∃ declaredType ∈ v.declaredType, NamesWrapper declaredType

theorem looksLikeComponent_iff {v : Variable} :
    looksLikeComponent v = true ↔ LooksLikeComponent v := by
  have hnone : isWrapperType "" = false := by decide +kernel
  rw [looksLikeComponent, LooksLikeComponent, Bool.or_eq_true, isPascalCase_iff]
  cases htype : v.declaredType with
  | none => simp [hnone]
  | some declaredType => simp [isWrapperType_iff]

/-- The text a variable is documented by: what the comments on its statement say, or else those on
itself. -/
def DocumentedBy (v : Variable) (text : String) : Prop :=
  text ≠ "" ∧ (description v.statementComments = text ∨
    description v.statementComments = "" ∧ description v.declaratorComments = text)

theorem documentedBy_iff {v : Variable} {text : String} :
    DocumentedBy v text ↔ text ≠ "" ∧ v.ownDescription = text := by
  unfold DocumentedBy Variable.ownDescription
  refine and_congr_right fun hne => ?_
  by_cases hstatement : description v.statementComments = ""
  · simp [hstatement, hne.symm]
  · simp [hstatement]

/-- A variable that counts looks like a component and is documented. -/
def Counts (v : Variable) : Prop :=
  LooksLikeComponent v ∧ ∃ text, DocumentedBy v text

/-- The candidate of a variable that counts. -/
structure Offers (componentName : String) (v : Variable) (c : Candidate) : Prop where
  looks : LooksLikeComponent v
  documented : DocumentedBy v c.description
  name_eq : c.name = v.name
  score_eq : c.score = candidateScore v c.description componentName

section Offered

variable {componentName : String} {v : Variable} {c : Candidate}

theorem candidate?_eq_some_iff :
    candidate? componentName v = some c ↔ Offers componentName v c := by
  unfold candidate?
  constructor
  · intro h
    split at h
    · rename_i hcounts
      rw [Bool.and_eq_true, bne_iff_ne] at hcounts
      obtain rfl := Option.some.inj h
      exact ⟨looksLikeComponent_iff.1 hcounts.1, documentedBy_iff.2 ⟨hcounts.2, rfl⟩, rfl, rfl⟩
    · cases h
  · rintro ⟨hlooks, hdocumented, hname, hscore⟩
    rcases documentedBy_iff.1 hdocumented with ⟨hne, hown⟩
    have hcounts : (looksLikeComponent v && v.ownDescription != "") = true := by
      rw [Bool.and_eq_true, bne_iff_ne, hown]
      exact ⟨looksLikeComponent_iff.2 hlooks, hne⟩
    rw [if_pos hcounts, hown, ← hname, ← hscore]

theorem exists_offers_iff : (∃ c, Offers componentName v c) ↔ Counts v := by
  constructor
  · rintro ⟨c, hc⟩
    exact ⟨hc.looks, c.description, hc.documented⟩
  · rintro ⟨hlooks, text, htext⟩
    exact ⟨⟨v.name, text, candidateScore v text componentName⟩, hlooks, htext, rfl, rfl⟩

theorem candidate?_eq_none_iff : candidate? componentName v = none ↔ ¬ Counts v := by
  rw [Option.eq_none_iff_forall_ne_some]
  simp only [ne_eq, candidate?_eq_some_iff]
  rw [← not_exists, exists_offers_iff]

theorem Offers.unique {d : Candidate} (hc : Offers componentName v c)
    (hd : Offers componentName v d) : c = d :=
  Option.some.inj ((candidate?_eq_some_iff.2 hc).symm.trans (candidate?_eq_some_iff.2 hd))

end Offered

/-! ## The first of the best -/

/-- A candidate of one of the variables, with a score that no candidate before it reaches and no
candidate behind it exceeds. -/
def IsFirstBest (componentName : String) (vars : List Variable) (c : Candidate) : Prop :=
  ∃ before v after, vars = before ++ v :: after ∧ Offers componentName v c ∧
    (∀ w ∈ before, ∀ d, Offers componentName w d → d.score < c.score) ∧
    ∀ w ∈ after, ∀ d, Offers componentName w d → d.score ≤ c.score

/-- The candidate that is taken from some variables. -/
def bestOf (componentName : String) (vars : List Variable) : Option Candidate :=
  (vars.filterMap (candidate? componentName)).foldl better none

section Best

variable {componentName : String} {vars : List Variable} {v : Variable} {b c : Candidate}

theorem bestOf_concat_of_none (h : candidate? componentName v = none) :
    bestOf componentName (vars ++ [v]) = bestOf componentName vars := by
  simp [bestOf, h]

theorem bestOf_concat (h : candidate? componentName v = some c) :
    bestOf componentName (vars ++ [v]) = better (bestOf componentName vars) c := by
  simp [bestOf, h]

theorem IsFirstBest.score_le (h : IsFirstBest componentName vars b) {w : Variable} (hw : w ∈ vars)
    (hc : Offers componentName w c) : c.score ≤ b.score := by
  rcases h with ⟨before, v, after, rfl, hv, hbefore, hafter⟩
  rcases List.mem_append.1 hw with hw | hw
  · exact (hbefore w hw c hc).le
  · rcases List.mem_cons.1 hw with rfl | hw
    · rw [hc.unique hv]
    · exact hafter w hw c hc

/-- A later variable is passed over if what it offers is no better. -/
theorem IsFirstBest.concat (h : IsFirstBest componentName vars b)
    (hv : ∀ c, Offers componentName v c → c.score ≤ b.score) :
    IsFirstBest componentName (vars ++ [v]) b := by
  rcases h with ⟨before, w, after, rfl, hw, hbefore, hafter⟩
  refine ⟨before, w, after ++ [v], by simp, hw, hbefore, fun u hu d hd => ?_⟩
  rcases List.mem_append.1 hu with hu | hu
  · exact hafter u hu d hd
  · rw [List.mem_singleton.1 hu] at hd
    exact hv d hd

/-- A later variable is taken if it offers more than all before it. -/
theorem isFirstBest_concat (hc : Offers componentName v c)
    (h : ∀ w ∈ vars, ∀ d, Offers componentName w d → d.score < c.score) :
    IsFirstBest componentName (vars ++ [v]) c :=
  ⟨vars, v, [], rfl, hc, h, by simp⟩

/-- What is taken is the first of the best, and nothing is taken only if no variable counts. The
induction goes along the loop, which comes to the last variable last. -/
theorem bestOf_cases (componentName : String) (vars : List Variable) :
    (bestOf componentName vars = none ∧ ∀ v ∈ vars, ¬ Counts v) ∨
      ∃ b, bestOf componentName vars = some b ∧ IsFirstBest componentName vars b := by
  induction vars using List.reverseRecOn with
  | nil => exact Or.inl ⟨rfl, by simp⟩
  | append_singleton vars v ih =>
    cases hoffer : candidate? componentName v with
    | none =>
      have hnot : ¬ Counts v := candidate?_eq_none_iff.1 hoffer
      rw [bestOf_concat_of_none hoffer]
      rcases ih with ⟨hnone, hcounts⟩ | ⟨b, hb, hfirst⟩
      · refine Or.inl ⟨hnone, fun w hw => ?_⟩
        rcases List.mem_append.1 hw with hw | hw
        · exact hcounts w hw
        · rwa [List.mem_singleton.1 hw]
      · exact Or.inr ⟨b, hb, hfirst.concat fun c hc => absurd (exists_offers_iff.1 ⟨c, hc⟩) hnot⟩
    | some c =>
      have hc : Offers componentName v c := candidate?_eq_some_iff.1 hoffer
      right
      rw [bestOf_concat hoffer]
      rcases ih with ⟨hnone, hcounts⟩ | ⟨b, hb, hfirst⟩
      · rw [hnone]
        exact ⟨c, rfl, isFirstBest_concat hc fun w hw d hd =>
          absurd (exists_offers_iff.1 ⟨d, hd⟩) (hcounts w hw)⟩
      · rw [hb, better]
        by_cases hless : b.score < c.score
        · rw [if_pos hless]
          exact ⟨c, rfl, isFirstBest_concat hc fun w hw d hd =>
            (hfirst.score_le hw hd).trans_lt hless⟩
        · rw [if_neg hless]
          refine ⟨b, rfl, hfirst.concat fun d hd => ?_⟩
          rw [hd.unique hc]
          omega

/-- There is one first of the best only. -/
theorem IsFirstBest.unique (hb : IsFirstBest componentName vars b)
    (hc : IsFirstBest componentName vars c) : b = c := by
  rcases hb with ⟨before, v, after, rfl, hv, hbefore, hafter⟩
  rcases hc with ⟨before', w, after', heq, hw, hbefore', hafter'⟩
  -- If one of them comes before the other, it would have to score both more and less.
  rcases List.append_eq_append_iff.1 heq with ⟨middle, rfl, hrest⟩ | ⟨middle, rfl, hrest⟩
  · cases middle with
    | nil =>
      obtain rfl : v = w := (List.cons.inj hrest).1
      exact hv.unique hw
    | cons u middle =>
      rcases List.cons.inj hrest with ⟨rfl, rfl⟩
      have hless := hbefore' v (by simp) b hv
      have hle := hafter w (by simp) c hw
      omega
  · cases middle with
    | nil =>
      obtain rfl : w = v := (List.cons.inj hrest).1
      exact hv.unique hw
    | cons u middle =>
      rcases List.cons.inj hrest with ⟨rfl, rfl⟩
      have hless := hbefore w (by simp) c hw
      have hle := hafter' v (by simp) b hv
      omega

theorem bestOf_eq_none_iff : bestOf componentName vars = none ↔ ∀ v ∈ vars, ¬ Counts v := by
  rcases bestOf_cases componentName vars with ⟨hnone, hcounts⟩ | ⟨b, hb, hfirst⟩
  · simp only [hnone, true_iff]
    exact hcounts
  · rw [hb]
    refine iff_of_false (Option.some_ne_none b) fun hcounts => ?_
    rcases hfirst with ⟨before, v, after, rfl, hv, -, -⟩
    exact hcounts v (by simp) (exists_offers_iff.1 ⟨b, hv⟩)

theorem bestOf_eq_some_iff :
    bestOf componentName vars = some c ↔ IsFirstBest componentName vars c := by
  rcases bestOf_cases componentName vars with ⟨hnone, hcounts⟩ | ⟨b, hb, hfirst⟩
  · rw [hnone]
    refine iff_of_false (Option.some_ne_none c).symm ?_
    rintro ⟨before, v, after, rfl, hv, -, -⟩
    exact hcounts v (by simp) (exists_offers_iff.1 ⟨c, hv⟩)
  · rw [hb, Option.some.injEq]
    constructor
    · rintro rfl
      exact hfirst
    · exact hfirst.unique

end Best

/-! ## Further variables -/

/-- A list with further elements of a kind, anywhere in it. -/
inductive Padded {α : Type} (kind : α → Prop) : List α → List α → Prop where
  | nil : Padded kind [] []
  | keep (x : α) {xs ys : List α} (h : Padded kind xs ys) : Padded kind (x :: xs) (x :: ys)
  | insert {x : α} (hx : kind x) {xs ys : List α} (h : Padded kind xs ys) :
      Padded kind xs (x :: ys)

/-- What does not count leaves the candidates as they are. -/
theorem Padded.filterMap_candidate? {vars more : List Variable}
    (h : Padded (fun v => ¬ Counts v) vars more) (componentName : String) :
    more.filterMap (candidate? componentName) = vars.filterMap (candidate? componentName) := by
  induction h with
  | nil => rfl
  | keep v _ ih => rw [List.filterMap_cons, List.filterMap_cons, ih]
  | insert hv _ ih => rw [List.filterMap_cons_none (candidate?_eq_none_iff.2 hv), ih]

/-- The candidate a description is taken from. There is none exactly if no variable looks like a
component and is documented; otherwise it is the first one of the highest score. Variables that do
not count change nothing wherever they stand, and a variable behind all others changes the candidate
exactly if it counts and scores higher. -/
theorem best_candidate_first (o : Outline) (componentName : String) :
    (bestCandidate o componentName = none ↔ ∀ v ∈ o.vars, ¬ Counts v) ∧
      (∀ c, bestCandidate o componentName = some c ↔ IsFirstBest componentName o.vars c) ∧
      (∀ vars, Padded (fun v => ¬ Counts v) o.vars vars →
        bestCandidate { o with vars } componentName = bestCandidate o componentName) ∧
      ∀ b v, bestCandidate o componentName = some b →
        (bestCandidate { o with vars := o.vars ++ [v] } componentName ≠ some b ↔
          ∃ c, Offers componentName v c ∧ b.score < c.score) := by
  refine ⟨bestOf_eq_none_iff, fun c => bestOf_eq_some_iff, fun vars hpadded => ?_,
    fun b v hb => ?_⟩
  · exact congrArg (List.foldl better none) (hpadded.filterMap_candidate? componentName)
  · change bestOf componentName o.vars = some b at hb
    change bestOf componentName (o.vars ++ [v]) ≠ some b ↔ _
    cases hoffer : candidate? componentName v with
    | none =>
      have hnot : ¬ Counts v := candidate?_eq_none_iff.1 hoffer
      rw [bestOf_concat_of_none hoffer, hb]
      exact iff_of_false (fun hne => hne rfl) fun ⟨c, hc, _⟩ => hnot (exists_offers_iff.1 ⟨c, hc⟩)
    | some c =>
      have hc : Offers componentName v c := candidate?_eq_some_iff.1 hoffer
      rw [bestOf_concat hoffer, hb, better]
      by_cases hless : b.score < c.score
      · rw [if_pos hless]
        refine iff_of_true ?_ ⟨c, hc, hless⟩
        rintro ⟨⟩
        exact absurd hless (lt_irrefl _)
      · rw [if_neg hless]
        refine iff_of_false (fun hne => hne rfl) ?_
        rintro ⟨d, hd, hscore⟩
        rw [hd.unique hc] at hscore
        exact hless hscore

/-- A module with a documented helper that is no component, two components of the same score, and
one without documentation. -/
def badges : Outline where
  path := "Badge.tsx"
  vars := [
    { name := "helper", statementComments := [⟨"/** Not shown at all. */"⟩] },
    { name := "One", declaratorComments := [⟨"/** First one */"⟩] },
    { name := "Two", statementComments := [⟨"/** Other one */"⟩] },
    { name := "Three" }]

/-- A further component of the same score. -/
def lastBadge : Variable where
  name := "Last"
  statementComments := [⟨"/** Last one! */"⟩]

theorem best_candidate_first_badges :
    bestCandidate badges "Badge" = some ⟨"One", "First one", 19⟩ ∧
      (∀ declaredType, bestCandidate { badges with
        vars := { name := "Plain", declaredType } :: badges.vars } "Badge" =
          some ⟨"One", "First one", 19⟩) ∧
      bestCandidate { badges with vars := badges.vars ++ [lastBadge] } "Badge" =
        some ⟨"One", "First one", 19⟩ := by
  have hbest : bestCandidate badges "Badge" = some ⟨"One", "First one", 19⟩ := by decide +kernel
  have hlast : candidate? "Badge" lastBadge = some ⟨"Last", "Last one!", 19⟩ := by decide +kernel
  rcases best_candidate_first badges "Badge" with ⟨-, -, hpadded, hmore⟩
  refine ⟨hbest, fun declaredType => ?_, ?_⟩
  · have hplain : ¬ Counts { name := "Plain", declaredType } := by
      rintro ⟨-, text, hne, hstatement | ⟨-, hdeclarator⟩⟩
      · exact hne hstatement.symm
      · exact hne hdeclarator.symm
    have hinserted : Padded (fun v => ¬ Counts v) badges.vars
        ({ name := "Plain", declaredType } :: badges.vars) := by
      refine .insert ?_ (.keep _ (.keep _ (.keep _ (.keep _ .nil))))
      exact hplain
    exact (hpadded _ hinserted).trans hbest
  · by_contra hchanged
    rcases (hmore _ lastBadge hbest).1 hchanged with ⟨c, hc, hless⟩
    obtain rfl := Option.some.inj (hlast.symm.trans (candidate?_eq_some_iff.2 hc))
    exact absurd hless (lt_irrefl 19)

end PropCatalog
