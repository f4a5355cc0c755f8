import Mathlib.Data.List.Chain
import Mathlib.Logic.Relation
import PropCatalog.Pattern.Braces
import PropCatalog.Proofs.Usage.Combinations

/-!
# Brace alternatives — what a pattern stands for

A pattern whose braces match is made of characters and groups, and so is the inside of a group,
where the commas separate the alternatives. Expansion works on the text: it replaces the leftmost
group without a brace inside, wherever this group stands, and begins again. This file compares the
two readings.

- `Replaced`, `mem_expand_iff_replaced` : single replacements, and the runs of them
- `Braced`, `wellNested_iff`            : the patterns whose braces match
- `Braced.Denotes`                      : what they stand for
- `Braced.covers_replacements`          : a replacement in any group keeps what they stand for
- `expand_flat`                         : patterns without a group in a group
- `expansions_denoted`                  : all of this for the expansions of a pattern
-/

namespace PropCatalog
namespace Pattern

/-! ## Single replacements -/

/-- A group without a brace inside stands somewhere in the text. -/
def HasGroup (cs : List Char) : Prop :=
  ∃ before body after, cs = before ++ openBrace :: (body ++ closeBrace :: after) ∧
    ∀ c ∈ body, isBrace c = false

/-- An alternative was put in the place of the first group. -/
def Replaced (cs cs' : List Char) : Prop :=
  ∃ g, firstGroup? cs = some g ∧
    ∃ option ∈ Text.splitAt ',' g.body, cs' = g.before ++ option ++ g.after

theorem firstGroup?_cons_of_ne {c : Char} (h : c ≠ openBrace) (rest : List Char) :
    firstGroup? (c :: rest) =
      (firstGroup? rest).map fun g => { g with before := c :: g.before } := by
  rw [firstGroup?, if_neg (by simpa using h)]

theorem firstGroup?_of_closed {body : List Char} (h : ∀ c ∈ body, isBrace c = false)
    (after : List Char) :
    firstGroup? (openBrace :: (body ++ closeBrace :: after)) = some ⟨[], body, after⟩ := by
  have hplain : ∀ c ∈ body, (!isBrace c) = true := fun c hc => by simp [h c hc]
  have hclose : isBrace closeBrace = true := by decide
  rw [firstGroup?, if_pos (by simp), List.dropWhile_append_of_pos hplain,
    List.takeWhile_append_of_pos hplain]
  simp [hclose]

/-- A brace that is opened before another one is not closed first. -/
theorem firstGroup?_of_opened {rest after : List Char}
    (h : rest.dropWhile (!isBrace ·) = openBrace :: after) :
    firstGroup? (openBrace :: rest) =
      (firstGroup? rest).map fun g => { g with before := openBrace :: g.before } := by
  rw [firstGroup?, if_pos (by simp), h]
  rfl

theorem firstGroup?_eq_none_iff {cs : List Char} : firstGroup? cs = none ↔ ¬ HasGroup cs := by
  constructor
  · rintro hnone ⟨before, body, after, rfl, hbody⟩
    induction before with
    | nil => simp [firstGroup?_of_closed hbody] at hnone
    | cons c before ih =>
      -- What is found further on is found from here too, if nothing is found here.
      rw [List.cons_append, firstGroup?] at hnone
      split at hnone
      · split at hnone
        · split at hnone
          · cases hnone
          · exact ih (Option.map_eq_none_iff.1 hnone)
        · exact ih (Option.map_eq_none_iff.1 hnone)
      · exact ih (Option.map_eq_none_iff.1 hnone)
  · intro hnone
    cases hfirst : firstGroup? cs with
    | none => rfl
    | some g =>
      rcases firstGroup?_eq_some hfirst with ⟨heq, hbody⟩
      exact absurd ⟨g.before, g.body, g.after, heq, hbody⟩ hnone

theorem expand_of_none {cs : List Char} (h : firstGroup? cs = none) : expand cs = [cs] := by
  rw [expand]
  split
  · rfl
  · simp_all

theorem expand_of_some {cs : List Char} {g : Group} (h : firstGroup? cs = some g) :
    expand cs =
      (Text.splitAt ',' g.body).flatMap fun option => expand (g.before ++ option ++ g.after) := by
  rw [expand]
  split
  · simp_all
  · rename_i g' h'
    rw [h] at h'
    cases h'
    conv_rhs => rw [← List.attach_map_subtype_val (Text.splitAt ',' g.body)]
    rw [List.flatMap_map]

theorem expand_of_not_hasGroup {cs : List Char} (h : ¬ HasGroup cs) : expand cs = [cs] :=
  expand_of_none (firstGroup?_eq_none_iff.2 h)

theorem Replaced.count_lt {cs cs' : List Char} (h : Replaced cs cs') :
    cs'.count openBrace < cs.count openBrace := by
  rcases h with ⟨g, hg, option, hoption, rfl⟩
  exact count_replaceGroup_lt hg hoption

/-- Every replacement removes an opening brace, so there are no more replacements in a row than
opening braces. -/
theorem length_le_of_replaced {cs : List Char} {calls : List (List Char)}
    (h : (cs :: calls).IsChain Replaced) : calls.length ≤ cs.count openBrace := by
  induction calls generalizing cs with
  | nil => exact Nat.zero_le _
  | cons call calls ih =>
    rw [List.isChain_cons_cons] at h
    have hlt := h.1.count_lt
    have hle := ih h.2
    rw [List.length_cons]
    omega

/-- An expansion is what a run of replacements ends in. -/
theorem mem_expand_iff_replaced {cs e : List Char} :
    e ∈ expand cs ↔ Relation.ReflTransGen Replaced cs e ∧ ¬ HasGroup e := by
  -- The induction is on the opening braces, of which every replacement removes one.
  induction hn : cs.count openBrace using Nat.strongRecOn generalizing cs with
  | _ n ih =>
    subst hn
    cases hfirst : firstGroup? cs with
    | none =>
      have hnone := firstGroup?_eq_none_iff.1 hfirst
      rw [expand_of_none hfirst, List.mem_singleton]
      constructor
      · rintro rfl
        exact ⟨.refl, hnone⟩
      · rintro ⟨hrun, -⟩
        rcases Relation.ReflTransGen.cases_head hrun with rfl | ⟨cs', ⟨g, hg, -⟩, -⟩
        · rfl
        · rw [hfirst] at hg
          cases hg
    | some g =>
      have hstep : ∀ option ∈ Text.splitAt ',' g.body,
          Replaced cs (g.before ++ option ++ g.after) :=
        fun option hoption => ⟨g, hfirst, option, hoption, rfl⟩
      rw [expand_of_some hfirst, List.mem_flatMap]
      constructor
      · rintro ⟨option, hoption, he⟩
        rcases (ih _ (hstep option hoption).count_lt rfl).1 he with ⟨hrun, hnone⟩
        exact ⟨.head (hstep option hoption) hrun, hnone⟩
      · rintro ⟨hrun, hnone⟩
        rcases Relation.ReflTransGen.cases_head hrun with rfl | ⟨cs', hreplaced, hrun⟩
        · rw [firstGroup?_eq_none_iff.2 hnone] at hfirst
          cases hfirst
        · have hlt := hreplaced.count_lt
          rcases hreplaced with ⟨g', hg', option, hoption, rfl⟩
          rw [hfirst] at hg'
          cases hg'
          exact ⟨option, hoption, (ih _ hlt rfl).2 ⟨hrun, hnone⟩⟩

/-! ## Patterns whose braces match -/

/-- Whether braces match: no beginning of the text closes more of them than it opens, and the whole
closes as many as it opens. -/
structure WellNested (cs : List Char) : Prop where
  closed_le : ∀ before, before <+: cs → before.count closeBrace ≤ before.count openBrace
  count_eq : cs.count openBrace = cs.count closeBrace

/-- A pattern whose braces match: characters and groups, one after the other. -/
inductive Braced where
  | nil
  | char (c : Char) (plain : isBrace c = false) (rest : Braced)
  | group (inside rest : Braced)

namespace Braced

def text : Braced → List Char
  | nil => []
  | char c _ rest => c :: rest.text
  | group inside rest => openBrace :: (inside.text ++ closeBrace :: rest.text)

/-- What stands before the first comma that is in no group. -/
def first : Braced → Braced
  | nil => nil
  | char c plain rest => if c = ',' then nil else char c plain rest.first
  | group inside rest => group inside rest.first

/-- What stands behind the commas that are in no group, up to the next one of them. -/
def others : Braced → List Braced
  | nil => []
  | char c _ rest => if c = ',' then rest.first :: rest.others else rest.others
  | group _ rest => rest.others

/-- The alternatives of a group with this inside. -/
def alternatives (inside : Braced) : List Braced :=
  inside.first :: inside.others

/-- The texts that a pattern stands for: a character for itself, and a group for what one of its
alternatives stands for. -/
inductive Denotes : Braced → List Char → Prop where
  | nil : Denotes nil []
  | char {c : Char} {plain : isBrace c = false} {rest : Braced} {cs : List Char} :
      Denotes rest cs → Denotes (char c plain rest) (c :: cs)
  | group {inside rest alternative : Braced} {cs ds : List Char} :
      alternative ∈ inside.alternatives → Denotes alternative cs → Denotes rest ds →
        Denotes (group inside rest) (cs ++ ds)

/-- There is no group. -/
def IsPlain : Braced → Prop
  | nil => True
  | char _ _ rest => rest.IsPlain
  | group _ _ => False

/-- There is no group in a group. -/
def Flat : Braced → Prop
  | nil => True
  | char _ _ rest => rest.Flat
  | group inside rest => inside.IsPlain ∧ rest.Flat

/-- What may stand at each place of a pattern without a group in a group. -/
def places : Braced → List (List (List Char))
  | nil => []
  | char c _ rest => [[c]] :: rest.places
  | group inside rest => inside.alternatives.map text :: rest.places

def append : Braced → Braced → Braced
  | nil, more => more
  | char c plain rest, more => char c plain (rest.append more)
  | group inside rest, more => group inside (rest.append more)

/-- The patterns that one replacement leads to. -/
def replacements : Braced → List Braced
  | nil => []
  | char c plain rest => rest.replacements.map (char c plain)
  | group inside rest =>
    match inside.replacements with
    | [] => inside.alternatives.map fun alternative => alternative.append rest
    | insides => insides.map fun inside => group inside rest

end Braced

/-- A text that closes so many braces more than it opens falls into patterns between them. -/
theorem exists_braced_of_closing (depth : Nat) {cs : List Char}
    (hle : ∀ before, before <+: cs → before.count closeBrace ≤ before.count openBrace + depth)
    (heq : cs.count closeBrace = cs.count openBrace + depth) :
    ∃ (t : Braced) (ts : List Braced), ts.length = depth ∧
      cs = t.text ++ ts.flatMap fun t => closeBrace :: t.text := by
  have hne : openBrace ≠ closeBrace := by decide
  induction cs generalizing depth with
  | nil =>
    have hdepth : depth = 0 := by simpa using heq.symm
    exact ⟨.nil, [], hdepth.symm, rfl⟩
  | cons c cs ih =>
    have hhead : ∀ before, before <+: cs →
        (c :: before).count closeBrace ≤ (c :: before).count openBrace + depth :=
      fun before hbefore => hle (c :: before) (List.prefix_cons_inj c |>.2 hbefore)
    by_cases hopen : c = openBrace
    · subst hopen
      simp only [List.count_cons_self, List.count_cons_of_ne hne] at hhead heq
      rcases ih (depth + 1) (fun before hbefore => by have := hhead before hbefore; omega)
        (by omega) with ⟨inside, ts, hlength, rfl⟩
      cases ts with
      | nil => simp at hlength
      | cons rest ts =>
        refine ⟨.group inside rest, ts, by simpa using hlength, ?_⟩
        simp [Braced.text]
    · by_cases hclose : c = closeBrace
      · subst hclose
        simp only [List.count_cons_self, List.count_cons_of_ne hne.symm] at hhead heq
        cases depth with
        | zero =>
          have hfirst := hhead [] List.nil_prefix
          simp at hfirst
        | succ depth =>
          rcases ih depth (fun before hbefore => by have := hhead before hbefore; omega)
            (by omega) with ⟨t, ts, hlength, rfl⟩
          exact ⟨.nil, t :: ts, by simp [hlength], rfl⟩
      · simp only [List.count_cons_of_ne hopen, List.count_cons_of_ne hclose] at hhead heq
        rcases ih depth hhead heq with ⟨t, ts, hlength, rfl⟩
        exact ⟨.char c (by simp [isBrace, hopen, hclose]) t, ts, hlength, rfl⟩

theorem Braced.wellNested (t : Braced) : WellNested t.text := by
  have hne : openBrace ≠ closeBrace := by decide
  induction t with
  | nil => exact ⟨fun before hbefore => by simp [List.prefix_nil.1 hbefore], rfl⟩
  | char c plain rest ih =>
    have hc : c ≠ openBrace ∧ c ≠ closeBrace := by simpa [isBrace] using plain
    refine ⟨fun before hbefore => ?_, ?_⟩
    · rcases List.prefix_cons_iff.1 hbefore with rfl | ⟨start, rfl, hstart⟩
      · exact Nat.le_refl _
      · simpa [List.count_cons_of_ne hc.1, List.count_cons_of_ne hc.2] using
          ih.closed_le start hstart
    · simpa [text, List.count_cons_of_ne hc.1, List.count_cons_of_ne hc.2] using ih.count_eq
  | group inside rest ihInside ihRest =>
    have hinside := ihInside.count_eq
    refine ⟨fun before hbefore => ?_, ?_⟩
    · -- A beginning ends within the group, or it holds the whole group.
      rcases List.prefix_cons_iff.1 hbefore with rfl | ⟨start, rfl, hstart⟩
      · exact Nat.le_refl _
      · rw [List.count_cons_self, List.count_cons_of_ne hne]
        rcases List.prefix_or_prefix_of_prefix hstart (List.prefix_append _ _) with
          hwithin | ⟨after, rfl⟩
        · exact Nat.le_succ_of_le (ihInside.closed_le start hwithin)
        · rcases List.prefix_cons_iff.1 ((List.prefix_append_right_inj _).1 hstart) with
            rfl | ⟨after, rfl, hafter⟩
          · simp [hinside]
          · have hle := ihRest.closed_le after hafter
            simp only [List.count_append, List.count_cons_self, List.count_cons_of_ne hne.symm]
            omega
    · have hrest := ihRest.count_eq
      simp only [text, List.count_append, List.count_cons_self, List.count_cons_of_ne hne,
        List.count_cons_of_ne hne.symm]
      omega

/-- The patterns whose braces match are the texts of trees. -/
theorem wellNested_iff {cs : List Char} : WellNested cs ↔ ∃ t : Braced, t.text = cs := by
  constructor
  · intro h
    rcases exists_braced_of_closing 0 h.closed_le h.count_eq.symm with ⟨t, ts, hlength, hcs⟩
    rw [List.length_eq_zero_iff.1 hlength] at hcs
    exact ⟨t, by simpa using hcs.symm⟩
  · rintro ⟨t, rfl⟩
    exact t.wellNested

/-! ## One replacement -/

namespace Braced

theorem denotes_char_iff {c : Char} {plain : isBrace c = false} {rest : Braced} {e : List Char} :
    (char c plain rest).Denotes e ↔ ∃ cs, e = c :: cs ∧ rest.Denotes cs := by
  constructor
  · intro h
    cases h with
    | char hrest => exact ⟨_, rfl, hrest⟩
  · rintro ⟨cs, rfl, hrest⟩
    exact .char hrest

theorem denotes_group_iff {inside rest : Braced} {e : List Char} :
    (group inside rest).Denotes e ↔
      ∃ cs ds, e = cs ++ ds ∧ (∃ a ∈ inside.alternatives, a.Denotes cs) ∧ rest.Denotes ds := by
  constructor
  · intro h
    cases h with
    | group halternative hcs hds => exact ⟨_, _, rfl, ⟨_, halternative, hcs⟩, hds⟩
  · rintro ⟨cs, ds, rfl, ⟨alternative, halternative, hcs⟩, hds⟩
    exact .group halternative hcs hds

theorem denotes_append_iff {t more : Braced} {e : List Char} :
    (t.append more).Denotes e ↔ ∃ cs ds, e = cs ++ ds ∧ t.Denotes cs ∧ more.Denotes ds := by
  induction t generalizing e with
  | nil =>
    constructor
    · exact fun h => ⟨[], e, rfl, .nil, h⟩
    · rintro ⟨cs, ds, rfl, hcs, hds⟩
      cases hcs
      exact hds
  | char c plain rest ih =>
    rw [append, denotes_char_iff]
    constructor
    · rintro ⟨es, rfl, hes⟩
      rcases ih.1 hes with ⟨cs, ds, rfl, hcs, hds⟩
      exact ⟨c :: cs, ds, rfl, .char hcs, hds⟩
    · rintro ⟨_, ds, rfl, hes, hds⟩
      rcases denotes_char_iff.1 hes with ⟨cs, rfl, hcs⟩
      exact ⟨cs ++ ds, rfl, ih.2 ⟨cs, ds, rfl, hcs, hds⟩⟩
  | group inside rest _ ih =>
    rw [append, denotes_group_iff]
    constructor
    · rintro ⟨bs, es, rfl, hbs, hes⟩
      rcases ih.1 hes with ⟨cs, ds, rfl, hcs, hds⟩
      exact ⟨bs ++ cs, ds, by simp, denotes_group_iff.2 ⟨bs, cs, rfl, hbs, hcs⟩, hds⟩
    · rintro ⟨_, ds, rfl, hes, hds⟩
      rcases denotes_group_iff.1 hes with ⟨as, bs, rfl, has, hbs⟩
      exact ⟨as, bs ++ ds, by simp, has, ih.2 ⟨bs, ds, rfl, hbs, hds⟩⟩

theorem IsPlain.denotes_iff {t : Braced} (h : t.IsPlain) {e : List Char} :
    t.Denotes e ↔ e = t.text := by
  induction t generalizing e with
  | nil =>
    constructor
    · intro he
      cases he
      rfl
    · rintro rfl
      exact .nil
  | char c plain rest ih =>
    rw [denotes_char_iff, text]
    simp only [ih h, exists_eq_right]
  | group inside rest => exact absurd h id

theorem text_append (t more : Braced) : (t.append more).text = t.text ++ more.text := by
  induction t with
  | nil => rfl
  | char c plain rest ih => simp [append, text, ih]
  | group inside rest _ ih => simp [append, text, ih]

theorem IsPlain.not_isBrace {t : Braced} (h : t.IsPlain) : ∀ c ∈ t.text, isBrace c = false := by
  induction t with
  | nil => simp [text]
  | char c plain rest ih => simpa [text, plain] using ih h
  | group inside rest => exact absurd h id

/-- Without groups the alternatives are cut in the text. -/
theorem IsPlain.text_alternatives {t : Braced} (h : t.IsPlain) :
    t.alternatives.map text = Text.splitAt ',' t.text := by
  induction t with
  | nil => rfl
  | char c plain rest ih =>
    have hrest := ih h
    by_cases hc : c = ','
    · simp [alternatives, first, others, text, Text.splitAt, hc, ← hrest]
    · simp [alternatives, first, others, text, Text.splitAt, hc, ← hrest, Text.consLine]
  | group inside rest => exact absurd h id

theorem replacements_eq_nil_iff {t : Braced} : t.replacements = [] ↔ t.IsPlain := by
  induction t with
  | nil => simp [replacements, IsPlain]
  | char c plain rest ih => simp [replacements, IsPlain, ih]
  | group inside rest ih _ =>
    rw [replacements]
    split <;> simp_all [IsPlain, alternatives]

theorem replacements_group_of_plain {inside : Braced} (h : inside.IsPlain) (rest : Braced) :
    (group inside rest).replacements =
      inside.alternatives.map fun alternative => alternative.append rest := by
  rw [replacements, replacements_eq_nil_iff.2 h]

theorem replacements_group {inside : Braced} (h : ¬ inside.IsPlain) (rest : Braced) :
    (group inside rest).replacements = inside.replacements.map fun inside => group inside rest := by
  rw [replacements]
  split
  · rename_i hnil
    exact absurd (replacements_eq_nil_iff.1 hnil) h
  · rfl

/-- The first brace of a pattern with groups opens one. -/
theorem exists_dropWhile {t : Braced} (h : ¬ t.IsPlain) (more : List Char) :
    ∃ after, (t.text ++ more).dropWhile (!isBrace ·) = openBrace :: after := by
  induction t with
  | nil => exact absurd trivial h
  | char c plain rest ih => simpa [text, plain] using ih h
  | group inside rest =>
    have hopen : isBrace openBrace = true := by decide
    exact ⟨_, by rw [text, List.cons_append, List.dropWhile_cons_of_neg (by simp [hopen])]⟩

/-- The replacements of a pattern are those of its text. -/
theorem exists_group {t : Braced} (h : ¬ t.IsPlain) :
    ∃ before body after,
      (∀ more, firstGroup? (t.text ++ more) = some ⟨before, body, after ++ more⟩) ∧
        t.replacements.map text =
          (Text.splitAt ',' body).map fun option => before ++ option ++ after := by
  induction t with
  | nil => exact absurd trivial h
  | char c plain rest ih =>
    rcases ih h with ⟨before, body, after, hfirst, htexts⟩
    have hc : c ≠ openBrace := by
      rintro rfl
      simp [Pattern.isBrace] at plain
    refine ⟨c :: before, body, after, fun more => ?_, ?_⟩
    · rw [text, List.cons_append, firstGroup?_cons_of_ne hc, hfirst]
      rfl
    · rw [replacements, List.map_map]
      have hcons := congrArg (List.map (c :: ·)) htexts
      simpa [Function.comp_def, text] using hcons
  | group inside rest ih _ =>
    by_cases hinside : inside.IsPlain
    · refine ⟨[], inside.text, rest.text, fun more => ?_, ?_⟩
      · rw [text, List.cons_append, List.append_assoc, List.cons_append]
        exact firstGroup?_of_closed hinside.not_isBrace _
      · rw [replacements_group_of_plain hinside, ← hinside.text_alternatives]
        simp [Function.comp_def, text_append]
    · rcases ih hinside with ⟨before, body, after, hfirst, htexts⟩
      refine ⟨openBrace :: before, body, after ++ closeBrace :: rest.text, fun more => ?_, ?_⟩
      · rcases exists_dropWhile hinside (closeBrace :: rest.text ++ more) with ⟨_, hdrop⟩
        rw [text, List.cons_append, List.append_assoc, firstGroup?_of_opened hdrop, hfirst]
        simp
      · rw [replacements_group hinside, List.map_map]
        have hgroup := congrArg (List.map fun cs => openBrace :: (cs ++ closeBrace :: rest.text))
          htexts
        simpa [Function.comp_def, text] using hgroup

/-! ## What a replacement keeps -/

theorem replacements_ne_nil {t : Braced} (h : ¬ t.IsPlain) : t.replacements ≠ [] :=
  fun hnil => h (replacements_eq_nil_iff.1 hnil)

/-- Alternatives have no commas between them left. -/
theorem IsPlain.append_of_mem_alternatives {inside alternative : Braced} (h : inside.IsPlain)
    (hmem : alternative ∈ inside.alternatives) (more : Braced) :
    (alternative.append more).first = alternative.append more.first ∧
      (alternative.append more).others = more.others := by
  induction inside generalizing alternative with
  | nil =>
    rcases List.mem_singleton.1 hmem with rfl
    exact ⟨rfl, rfl⟩
  | char c plain rest ih =>
    by_cases hc : c = ','
    · simp only [alternatives, first, others, hc, if_true, List.mem_cons] at hmem
      rcases hmem with rfl | hmem
      · exact ⟨rfl, rfl⟩
      · exact ih h (List.mem_cons.2 hmem)
    · simp only [alternatives, first, others, hc, if_false, List.mem_cons] at hmem
      rcases hmem with rfl | hmem
      · have hfirst := ih h List.mem_cons_self
        exact ⟨by simp [append, first, hc, hfirst.1], by simp [append, others, hc, hfirst.2]⟩
      · exact ih h (List.mem_cons_of_mem _ hmem)
  | group inside rest => exact absurd h id

/-- Some patterns stand together for what one pattern stands for. -/
def Together (ts : List Braced) (t : Braced) : Prop :=
  ∀ e, t.Denotes e ↔ ∃ t' ∈ ts, t'.Denotes e

theorem together_of_all_eq {ts : List Braced} (h : ts ≠ []) {t : Braced}
    (hall : ∀ t' ∈ ts, t' = t) : Together ts t := by
  rcases List.exists_mem_of_ne_nil ts h with ⟨t', ht'⟩
  refine fun e => ⟨fun he => ⟨t', ht', by rwa [hall t' ht']⟩, ?_⟩
  rintro ⟨t'', ht'', he⟩
  rwa [hall t'' ht''] at he

theorem Together.char {ts : List Braced} {t : Braced} (h : Together ts t) (c : Char)
    (plain : Pattern.isBrace c = false) : Together (ts.map (char c plain)) (char c plain t) := by
  unfold Together at h ⊢
  intro e
  simp only [List.mem_map, exists_exists_and_eq_and, denotes_char_iff, h]
  constructor
  · rintro ⟨cs, rfl, t', ht', hcs⟩
    exact ⟨t', ht', cs, rfl, hcs⟩
  · rintro ⟨t', ht', cs, rfl, hcs⟩
    exact ⟨cs, rfl, t', ht', hcs⟩

theorem together_group {insides : List Braced} {inside : Braced}
    (h : ∀ e, (∃ a ∈ inside.alternatives, a.Denotes e) ↔
      ∃ i ∈ insides, ∃ a ∈ i.alternatives, a.Denotes e) (rest : Braced) :
    Together (insides.map fun i => group i rest) (group inside rest) := by
  intro e
  simp only [List.mem_map, exists_exists_and_eq_and, denotes_group_iff, h]
  constructor
  · rintro ⟨cs, ds, rfl, ⟨i, hi, hcs⟩, hds⟩
    exact ⟨i, hi, cs, ds, rfl, hcs, hds⟩
  · rintro ⟨i, hi, cs, ds, rfl, hcs, hds⟩
    exact ⟨cs, ds, rfl, ⟨i, hi, hcs⟩, hds⟩

theorem together_alternatives (inside rest : Braced) :
    Together (inside.alternatives.map fun a => a.append rest) (group inside rest) := by
  intro e
  simp only [List.mem_map, exists_exists_and_eq_and, denotes_group_iff, denotes_append_iff]
  constructor
  · rintro ⟨cs, ds, rfl, ⟨a, ha, hcs⟩, hds⟩
    exact ⟨a, ha, cs, ds, rfl, hcs, hds⟩
  · rintro ⟨a, ha, cs, ds, rfl, hcs, hds⟩
    exact ⟨cs, ds, rfl, ⟨a, ha, hcs⟩, hds⟩

/-- Some patterns stand together for one pattern, and so they do as the insides of groups. -/
structure Covers (ts : List Braced) (t : Braced) : Prop where
  whole : Together ts t
  first : Together (ts.map first) t.first
  others : ∀ e, (∃ a ∈ t.others, a.Denotes e) ↔ ∃ t' ∈ ts, ∃ a ∈ t'.others, a.Denotes e

theorem Covers.alternatives {ts : List Braced} {t : Braced} (h : Covers ts t) (e : List Char) :
    (∃ a ∈ t.alternatives, a.Denotes e) ↔ ∃ t' ∈ ts, ∃ a ∈ t'.alternatives, a.Denotes e := by
  have hfirst := h.first e
  simp only [List.mem_map, exists_exists_and_eq_and] at hfirst
  simp only [Braced.alternatives, List.exists_mem_cons_iff, hfirst, h.others e, ← exists_or,
    ← and_or_left]

theorem Covers.char {ts : List Braced} {t : Braced} (h : Covers ts t) (hts : ts ≠ []) (c : Char)
    (plain : Pattern.isBrace c = false) : Covers (ts.map (char c plain)) (char c plain t) := by
  refine ⟨h.whole.char c plain, ?_, fun e => ?_⟩
  · by_cases hc : c = ','
    · refine together_of_all_eq (by simpa using hts) ?_
      simp [Braced.first, hc]
    · simpa [Braced.first, hc, Function.comp_def] using h.first.char c plain
  · simp only [List.mem_map, exists_exists_and_eq_and]
    by_cases hc : c = ','
    · simpa only [Braced.others, Braced.alternatives, hc, if_true] using h.alternatives e
    · simpa only [Braced.others, hc, if_false] using h.others e

theorem Covers.group {insides : List Braced} {inside : Braced} (h : Covers insides inside)
    (hinsides : insides ≠ []) (rest : Braced) :
    Covers (insides.map fun i => group i rest) (group inside rest) := by
  refine ⟨together_group h.alternatives rest, ?_, fun e => ?_⟩
  · simpa [Braced.first, Function.comp_def] using together_group h.alternatives rest.first
  · rcases List.exists_mem_of_ne_nil insides hinsides with ⟨i, hi⟩
    simp only [List.mem_map, exists_exists_and_eq_and]
    exact ⟨fun hrest => ⟨i, hi, hrest⟩, fun ⟨_, _, hrest⟩ => hrest⟩

theorem covers_alternatives {inside : Braced} (h : inside.IsPlain) (rest : Braced) :
    Covers (inside.alternatives.map fun a => a.append rest) (group inside rest) := by
  refine ⟨together_alternatives inside rest, ?_, fun e => ?_⟩
  · have hfirst : (inside.alternatives.map fun a => a.append rest).map Braced.first =
        inside.alternatives.map fun a => a.append rest.first := by
      rw [List.map_map]
      exact List.map_congr_left fun a ha => (h.append_of_mem_alternatives ha rest).1
    rw [hfirst]
    exact together_alternatives inside rest.first
  · simp only [List.mem_map, exists_exists_and_eq_and]
    constructor
    · rintro ⟨a, ha, he⟩
      have hothers := (h.append_of_mem_alternatives List.mem_cons_self rest).2
      exact ⟨inside.first, List.mem_cons_self, a, hothers ▸ ha, he⟩
    · rintro ⟨a, ha, b, hb, he⟩
      exact ⟨b, (h.append_of_mem_alternatives ha rest).2 ▸ hb, he⟩

/-- A replacement keeps what a pattern stands for, wherever the group stands. -/
theorem covers_replacements {t : Braced} (h : ¬ t.IsPlain) : Covers t.replacements t := by
  induction t with
  | nil => exact absurd trivial h
  | char c plain rest ih => exact (ih h).char (replacements_ne_nil h) c plain
  | group inside rest ih _ =>
    by_cases hinside : inside.IsPlain
    · rw [replacements_group_of_plain hinside]
      exact covers_alternatives hinside rest
    · rw [replacements_group hinside]
      exact (ih hinside).group (replacements_ne_nil hinside) rest

end Braced

/-! ## Expansions -/

theorem Braced.IsPlain.not_hasGroup {t : Braced} (h : t.IsPlain) : ¬ HasGroup t.text := by
  rintro ⟨before, body, after, heq, -⟩
  have hopen := h.not_isBrace openBrace (by simp [heq])
  exact absurd hopen (by decide)

/-- The expansions of a pattern whose braces match are the texts that it stands for. -/
theorem mem_expand_iff_denotes (t : Braced) (e : List Char) : e ∈ expand t.text ↔ t.Denotes e := by
  -- A replacement keeps what the pattern stands for; in the end no group is left.
  induction hn : t.text.count openBrace using Nat.strongRecOn generalizing t with
  | _ n ih =>
    subst hn
    by_cases hplain : t.IsPlain
    · rw [expand_of_not_hasGroup hplain.not_hasGroup, List.mem_singleton, hplain.denotes_iff]
    · rcases t.exists_group hplain with ⟨before, body, after, hfirst, htexts⟩
      have hfirst : firstGroup? t.text = some ⟨before, body, after⟩ := by simpa using hfirst []
      have hexpand : expand t.text = t.replacements.flatMap fun t' => expand t'.text := by
        rw [expand_of_some hfirst, ← List.flatMap_map, ← htexts, List.flatMap_map]
      rw [hexpand, List.mem_flatMap, (Braced.covers_replacements hplain).whole e]
      refine exists_congr fun t' => and_congr_right fun ht' => ih _ ?_ t' rfl
      have hmem := htexts ▸ List.mem_map_of_mem ht'
      rcases List.mem_map.1 hmem with ⟨option, hoption, heq⟩
      rw [← heq]
      exact count_replaceGroup_lt hfirst hoption

/-- A character that is no brace stays in front. -/
theorem expand_cons {c : Char} (h : isBrace c = false) (cs : List Char) :
    expand (c :: cs) = (expand cs).map (c :: ·) := by
  have hc : c ≠ openBrace := by
    rintro rfl
    simp [isBrace] at h
  induction hn : cs.count openBrace using Nat.strongRecOn generalizing cs with
  | _ n ih =>
    subst hn
    have hcons := firstGroup?_cons_of_ne hc cs
    cases hfirst : firstGroup? cs with
    | none =>
      rw [hfirst] at hcons
      rw [expand_of_none hfirst, expand_of_none hcons]
      rfl
    | some g =>
      rw [hfirst] at hcons
      rw [expand_of_some hfirst, expand_of_some hcons, List.map_flatMap]
      refine List.flatMap_congr fun option hoption => ?_
      exact ih _ (count_replaceGroup_lt hfirst hoption) _ rfl

theorem expand_append {cs : List Char} (h : ∀ c ∈ cs, isBrace c = false) (more : List Char) :
    expand (cs ++ more) = (expand more).map (cs ++ ·) := by
  induction cs with
  | nil => simp
  | cons c cs ih =>
    rw [List.cons_append, expand_cons (h c List.mem_cons_self),
      ih fun c' hc' => h c' (List.mem_cons_of_mem c hc'), List.map_map]
    rfl

/-- Without a group in a group, the expansions are the choices of what may stand at each place. -/
theorem expand_flat {t : Braced} (h : t.Flat) :
    expand t.text = (choices t.places).map List.flatten := by
  induction t with
  | nil =>
    have hnone : ¬ HasGroup [] := by
      rintro ⟨before, body, after, heq, -⟩
      simp at heq
    exact expand_of_not_hasGroup hnone
  | char c plain rest ih =>
    rw [Braced.text, expand_cons plain, ih h, Braced.places, choices]
    simp
  | group inside rest _ ih =>
    rcases h with ⟨hinside, hrest⟩
    rw [Braced.text, expand_of_some (firstGroup?_of_closed hinside.not_isBrace _), Braced.places,
      choices, hinside.text_alternatives, List.map_flatMap]
    refine List.flatMap_congr fun option hoption => ?_
    have hplain : ∀ c ∈ option, isBrace c = false :=
      fun c hc => hinside.not_isBrace c (mem_of_mem_splitAt hoption hc)
    simp only [List.nil_append, expand_append hplain, ih hrest, List.map_map]
    rfl

/-- Positions of one alternative for each place. -/
def Chosen (places : List (List (List Char))) (positions : List Nat) : Prop :=
  List.Forall₂ (fun place i => i < place.length) places positions

/-- What stands at the positions, one place after the other. -/
def chosenText (places : List (List (List Char))) (positions : List Nat) : List Char :=
  (places.zipWith (fun place i => place.getD i []) positions).flatten

/-- All choices of positions, the first place varying slowest. -/
theorem exists_positions (places : List (List (List Char))) :
    ∃ all : List (List Nat), all.Pairwise (· < ·) ∧
      (∀ positions, positions ∈ all ↔ Chosen places positions) ∧
      (choices places).map List.flatten = all.map (chosenText places) := by
  refine ⟨choices (places.map fun place => List.range place.length), ?_, ?_, ?_⟩
  · refine pairwise_choices ?_
    intro xs hxs
    rcases List.mem_map.1 hxs with ⟨place, -, rfl⟩
    exact List.pairwise_lt_range
  · intro positions
    rw [mem_choices_iff, List.forall₂_map_right_iff]
    simp only [List.mem_range]
    exact ⟨List.Forall₂.flip, List.Forall₂.flip⟩
  · have hpositions := choices_eq_map_positions id ([] : List Char) places
    rw [List.map_id] at hpositions
    rw [hpositions, List.map_map]
    rfl

end Pattern

open Pattern in
/-- The expansions of any pattern are the ends of its runs of replacements: such a run has at most
as many steps as the pattern has opening braces, and in its end no group is left. If the braces of a
pattern match, its expansions are the texts that it stands for. If moreover no group stands in a
group, they come in the order of the chosen positions, the first group varying slowest. -/
theorem expansions_denoted (pattern : String) :
    (∀ calls, (pattern.toList :: calls).IsChain Replaced →
        calls.length ≤ pattern.toList.count openBrace) ∧
      (∀ e, e ∈ expandBraces pattern ↔
        Relation.ReflTransGen Replaced pattern.toList e.toList ∧ ¬ HasGroup e.toList) ∧
      (WellNested pattern.toList ↔ ∃ t : Braced, t.text = pattern.toList) ∧
      ∀ t : Braced, t.text = pattern.toList →
        (∀ e, e ∈ expandBraces pattern ↔ t.Denotes e.toList) ∧
        (t.Flat → ∃ all : List (List Nat), all.Pairwise (· < ·) ∧
          (∀ positions, positions ∈ all ↔ Chosen t.places positions) ∧
          expandBraces pattern = all.map fun positions =>
            String.ofList (chosenText t.places positions)) := by
  have hmem : ∀ e, e ∈ expandBraces pattern ↔ e.toList ∈ expand pattern.toList := by
    intro e
    rw [expandBraces, List.mem_map]
    exact ⟨fun ⟨cs, hcs, heq⟩ => by rwa [← heq, String.toList_ofList],
      fun he => ⟨e.toList, he, String.ofList_toList⟩⟩
  refine ⟨fun calls => length_le_of_replaced, fun e => ?_, wellNested_iff, fun t ht => ⟨?_, ?_⟩⟩
  · rw [hmem, mem_expand_iff_replaced]
  · intro e
    rw [hmem, ← ht, mem_expand_iff_denotes]
  · intro hflat
    rcases exists_positions t.places with ⟨all, hsorted, hall, heq⟩
    refine ⟨all, hsorted, hall, ?_⟩
    rw [expandBraces, ← ht, expand_flat hflat, heq, List.map_map]
    rfl

namespace Pattern

/-- A group with a group in its second alternative. -/
def nestedBraces : Braced :=
  .group (.char 'a' rfl (.char ',' rfl (.char 'b' rfl
    (.group (.char 'c' rfl (.char ',' rfl .nil)) .nil)))) .nil

/-- Two groups, one behind the other. -/
def flatBraces : Braced :=
  .group (.char 'a' rfl (.char ',' rfl (.char 'b' rfl .nil)))
    (.char '.' rfl (.group (.char 'c' rfl (.char ',' rfl (.char 'd' rfl .nil))) .nil))

end Pattern

open Pattern in
theorem expansions_denoted_nested :
    WellNested "\x7ba,b\x7bc,\x7d\x7d".toList ∧
      (∀ e, e ∈ expandBraces "\x7ba,b\x7bc,\x7d\x7d" ↔ nestedBraces.Denotes e.toList) ∧
      flatBraces.Flat ∧
      ∃ all : List (List Nat), all.Pairwise (· < ·) ∧
        (∀ positions, positions ∈ all ↔ Chosen flatBraces.places positions) ∧
        expandBraces "\x7ba,b\x7d.\x7bc,d\x7d" = all.map fun positions =>
          String.ofList (chosenText flatBraces.places positions) := by
  have hnested := expansions_denoted "\x7ba,b\x7bc,\x7d\x7d"
  have hflat := expansions_denoted "\x7ba,b\x7d.\x7bc,d\x7d"
  have hplaces : flatBraces.Flat := ⟨trivial, trivial, trivial⟩
  exact ⟨hnested.2.2.1.2 ⟨nestedBraces, by decide⟩,
    (hnested.2.2.2 nestedBraces (by decide)).1, hplaces,
    (hflat.2.2.2 flatBraces (by decide)).2 hplaces⟩

example : Pattern.expandBraces "\x7ba,b\x7bc,\x7d\x7d" = ["a", "bc", "a", "b"] := by
  decide +kernel

end PropCatalog
