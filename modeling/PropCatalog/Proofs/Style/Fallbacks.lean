import PropCatalog.Proofs.Style.DocBlocks

/-!
# Fallbacks — uses within uses

The fallback of a use may call functions and use other properties, so that it goes up to the
parenthesis that closes the use. The scan of a stylesheet takes it to end at the first closing
parenthesis, and goes on behind that one: of a fallback with parentheses it takes a part only, and
the uses in this part it does not see.

- `Balanced`, `untilClosed?_eq_some_iff` : where a use is closed
- `everyUse`, `seenUses`  : all uses of a stylesheet with their whole fallbacks, and those that the
  scan comes to
- `uses_eq_seenUses`      : what the scan takes
- `whole_fallbacks_reported` : which names are reported with the right default
-/

namespace PropCatalog
namespace Style

open Text (trim trimLeft Blanks)

/-! ## Parentheses -/

/-- A text whose parentheses match. -/
inductive Balanced : List Char → Prop where
  | nil : Balanced []
  | cons (c : Char) (hopen : c ≠ '(') (hclose : c ≠ ')') (cs : List Char) (h : Balanced cs) :
      Balanced (c :: cs)
  | group (inside rest : List Char) (hinside : Balanced inside) (hrest : Balanced rest) :
      Balanced ('(' :: (inside ++ ')' :: rest))

/-- The text up to the parenthesis that closes, where so many more are open. -/
def untilClosed? : Nat → List Char → Option (List Char)
  | _, [] => none
  | depth, c :: rest =>
    if c = '(' then (untilClosed? (depth + 1) rest).map (c :: ·)
    else if c = ')' then
      match depth with
      | 0 => some []
      | depth + 1 => (untilClosed? depth rest).map (c :: ·)
    else (untilClosed? depth rest).map (c :: ·)

theorem untilClosed?_open (depth : Nat) (rest : List Char) :
    untilClosed? depth ('(' :: rest) = (untilClosed? (depth + 1) rest).map ('(' :: ·) := by
  cases depth <;> rfl

theorem untilClosed?_close (depth : Nat) (rest : List Char) :
    untilClosed? (depth + 1) (')' :: rest) = (untilClosed? depth rest).map (')' :: ·) := rfl

theorem untilClosed?_cons {c : Char} (hopen : c ≠ '(') (hclose : c ≠ ')') (depth : Nat)
    (rest : List Char) :
    untilClosed? depth (c :: rest) = (untilClosed? depth rest).map (c :: ·) := by
  cases depth <;> simp [untilClosed?, hopen, hclose]

/-- A text that closes so many parentheses more than it opens. -/
def Closes : Nat → List Char → Prop
  | 0, cs => Balanced cs
  | depth + 1, cs =>
    ∃ before after, cs = before ++ ')' :: after ∧ Balanced before ∧ Closes depth after

theorem Closes.cons {c : Char} (hopen : c ≠ '(') (hclose : c ≠ ')') {depth : Nat} {cs : List Char}
    (h : Closes depth cs) : Closes depth (c :: cs) := by
  cases depth with
  | zero => exact Balanced.cons c hopen hclose cs h
  | succ depth =>
    rcases h with ⟨before, after, rfl, hbefore, hafter⟩
    exact ⟨c :: before, after, rfl, .cons c hopen hclose before hbefore, hafter⟩

theorem Closes.group {inside rest : List Char} (hinside : Balanced inside) {depth : Nat}
    (h : Closes depth rest) : Closes depth ('(' :: (inside ++ ')' :: rest)) := by
  cases depth with
  | zero => exact Balanced.group inside rest hinside h
  | succ depth =>
    rcases h with ⟨before, after, rfl, hbefore, hafter⟩
    refine ⟨'(' :: (inside ++ ')' :: before), after, by simp, ?_, hafter⟩
    exact .group inside before hinside hbefore

theorem closes_of_untilClosed? {depth : Nat} {cs inside : List Char}
    (h : untilClosed? depth cs = some inside) :
    Closes depth inside ∧ ∃ rest, cs = inside ++ ')' :: rest := by
  induction cs generalizing depth inside with
  | nil =>
    cases depth <;> cases h
  | cons c cs ih =>
    by_cases hopen : c = '('
    · subst hopen
      rw [untilClosed?_open] at h
      rcases Option.map_eq_some_iff.1 h with ⟨more, hmore, rfl⟩
      rcases ih hmore with ⟨⟨before, after, rfl, hbefore, hafter⟩, rest, rfl⟩
      exact ⟨hafter.group hbefore, rest, rfl⟩
    by_cases hclose : c = ')'
    · subst hclose
      cases depth with
      | zero =>
        cases h
        exact ⟨Balanced.nil, cs, rfl⟩
      | succ depth =>
        rw [untilClosed?_close] at h
        rcases Option.map_eq_some_iff.1 h with ⟨more, hmore, rfl⟩
        rcases ih hmore with ⟨hcloses, rest, rfl⟩
        exact ⟨⟨[], more, rfl, Balanced.nil, hcloses⟩, rest, rfl⟩
    · rw [untilClosed?_cons hopen hclose] at h
      rcases Option.map_eq_some_iff.1 h with ⟨more, hmore, rfl⟩
      rcases ih hmore with ⟨hcloses, rest, rfl⟩
      exact ⟨hcloses.cons hopen hclose, rest, rfl⟩

theorem untilClosed?_append {inside : List Char} (h : Balanced inside) (depth : Nat)
    (rest : List Char) :
    untilClosed? depth (inside ++ rest) = (untilClosed? depth rest).map (inside ++ ·) := by
  induction h generalizing depth rest with
  | nil => simp
  | cons c hopen hclose cs _ ih =>
    rw [List.cons_append, untilClosed?_cons hopen hclose, ih, Option.map_map]
    rfl
  | group inside more _ _ hinside hmore =>
    rw [List.cons_append, List.append_assoc, untilClosed?_open, hinside, List.cons_append,
      untilClosed?_close, hmore, Option.map_map, Option.map_map, Option.map_map]
    congr 1
    funext cs
    simp

/-- A use is closed by the first parenthesis behind a text whose parentheses match. -/
theorem untilClosed?_eq_some_iff {cs inside : List Char} :
    untilClosed? 0 cs = some inside ↔ Balanced inside ∧ ∃ rest, cs = inside ++ ')' :: rest := by
  constructor
  · exact fun h => closes_of_untilClosed? h
  · rintro ⟨hinside, rest, rfl⟩
    rw [untilClosed?_append hinside]
    simp [untilClosed?]

theorem Balanced.count_eq {cs : List Char} (h : Balanced cs) : cs.count '(' = cs.count ')' := by
  induction h with
  | nil => rfl
  | cons c hopen hclose cs _ ih => simpa [List.count_cons, hopen, hclose] using ih
  | group inside rest _ _ hinside hrest =>
    simp only [List.count_cons, List.count_append, hinside, hrest]
    simp
    omega

/-- The part of a fallback up to its first closing parenthesis. -/
def cut (cs : List Char) : List Char :=
  cs.takeWhile (· != ')')

theorem not_mem_cut (cs : List Char) : ')' ∉ cut cs := by
  intro hmem
  simpa using List.mem_takeWhile_imp hmem

theorem cut_cons {c : Char} (h : c ≠ ')') (cs : List Char) : cut (c :: cs) = c :: cut cs :=
  List.takeWhile_cons_of_pos (bne_iff_ne.2 h)

/-- Before a parenthesis closes, one is opened. -/
theorem Balanced.cut_eq {cs : List Char} (h : Balanced cs) (hcut : '(' ∉ cut cs) : cut cs = cs := by
  induction h with
  | nil => rfl
  | cons c hopen hclose cs _ ih =>
    rw [cut_cons hclose] at hcut ⊢
    rw [ih fun hmem => hcut (List.mem_cons_of_mem c hmem)]
  | group inside rest _ _ _ _ => exact absurd List.mem_cons_self hcut

/-- What is cut at its first closing parenthesis stays whole if it has no parentheses. -/
theorem Balanced.cut_eq_iff {cs : List Char} (h : Balanced cs) : cut cs = cs ↔ '(' ∉ cs := by
  constructor
  · intro hcut hopen
    have hclose : ')' ∈ cs := by
      rw [← List.count_pos_iff, ← h.count_eq, List.count_pos_iff]
      exact hopen
    rw [← hcut] at hclose
    exact not_mem_cut cs hclose
  · exact fun hopen => h.cut_eq fun hmem => hopen (List.takeWhile_subset _ hmem)

theorem exists_cut (cs rest : List Char) : ∃ after, cs ++ ')' :: rest = cut cs ++ ')' :: after := by
  induction cs with
  | nil => exact ⟨rest, rfl⟩
  | cons c cs ih =>
    by_cases hc : c = ')'
    · subst hc
      exact ⟨cs ++ ')' :: rest, rfl⟩
    · rcases ih with ⟨after, hafter⟩
      exact ⟨after, by rw [cut_cons hc, List.cons_append, List.cons_append, hafter]⟩

theorem Balanced.cut_ne_nil {cs : List Char} (h : Balanced cs) (hne : cs ≠ []) : cut cs ≠ [] := by
  cases h with
  | nil => exact absurd rfl hne
  | cons c hopen hclose cs _ =>
    rw [cut_cons hclose]
    exact List.cons_ne_nil c _
  | group inside rest _ _ =>
    rw [cut_cons (by decide)]
    exact List.cons_ne_nil '(' _

/-! ## Uses and their whole fallbacks -/

/-- The name of a use at the start of a text, and what stands behind it. -/
def opening? (cs : List Char) : Option (List Char × List Char) :=
  match Text.stripPrefix? "var(".toList cs with
  | some rest => (name? (trimLeft rest)).map fun (name, rest) => (name, trimLeft rest)
  | none => none

/-- A use at the start of a text, with its whole fallback. -/
def wholeUse? (cs : List Char) : Option (List Char × List Char) :=
  match opening? cs with
  | some (name, ')' :: _) => some (name, [])
  | some (name, ',' :: rest) => (untilClosed? 0 rest).map (name, ·)
  | _ => none

/-- All uses of a stylesheet, in the order in which they begin. -/
def everyUse (cs : List Char) : List (List Char × List Char) :=
  cs.tails.filterMap wholeUse?

/-- In a stylesheet every use with a fallback is closed. -/
def Parenthesised (cs : List Char) : Prop :=
  ∀ s name rest, s <:+ cs → opening? s = some (name, ',' :: rest) →
    ∃ fallback more, Balanced fallback ∧ rest = fallback ++ ')' :: more

/-- A text does not begin with a use whose fallback is not closed. -/
def isClosedAt (s : List Char) : Bool :=
  match opening? s with
  | some (_, ',' :: rest) => (untilClosed? 0 rest).isSome
  | _ => true

theorem parenthesised_iff {cs : List Char} :
    Parenthesised cs ↔ ∀ s ∈ cs.tails, isClosedAt s = true := by
  constructor
  · intro h s hs
    unfold isClosedAt
    split
    · rename_i name rest hopening
      rcases h s name rest ((List.mem_tails s cs).1 hs) hopening with ⟨fallback, more, hf, hrest⟩
      rw [untilClosed?_eq_some_iff.2 ⟨hf, more, hrest⟩]
      rfl
    · rfl
  · intro h s name rest hs hopening
    have hclosed := h s ((List.mem_tails s cs).2 hs)
    rw [isClosedAt, hopening] at hclosed
    rcases Option.isSome_iff_exists.1 hclosed with ⟨fallback, hfallback⟩
    rcases untilClosed?_eq_some_iff.1 hfallback with ⟨hf, more, hrest⟩
    exact ⟨fallback, more, hf, hrest⟩

instance (cs : List Char) : Decidable (Parenthesised cs) :=
  decidable_of_iff _ parenthesised_iff.symm

/-- A text begins with a use whose fallback has no character. -/
def hasEmptyFallback (s : List Char) : Bool :=
  match opening? s with
  | some (_, ',' :: ')' :: _) => true
  | _ => false

/-- The text `s` stands in the fallback of a use at the start of `u`, and no parenthesis is closed
before it. -/
def covers (u s : List Char) : Bool :=
  match opening? u with
  | some (_, ',' :: rest) => s.isSuffixOf rest && (rest.dropWhile (· != ')')).isSuffixOf s
  | _ => false

/-- A use that the scan does not see: its fallback is empty, or it stands in another one. -/
def isMissed (cs s : List Char) : Bool :=
  hasEmptyFallback s || cs.tails.any (covers · s)

/-- The uses of a part of a stylesheet that the scan sees. -/
def seenIn (all cs : List Char) : List (List Char × List Char) :=
  (cs.tails.filter fun s => !isMissed all s).filterMap wholeUse?

def seenUses (cs : List Char) : List (List Char × List Char) :=
  seenIn cs cs

/-- A use with the part of its fallback that the scan takes. -/
def cutUse (e : List Char × List Char) : List Char × List Char :=
  (e.1, cut e.2)

/-! ## What opens a use -/

/-- Between the parenthesis of a use and what stands behind its name there are blanks and
characters of names only. -/
theorem exists_of_opening? {cs name rest : List Char} (h : opening? cs = some (name, rest)) :
    ∃ inside, cs = "var(".toList ++ inside ++ rest ∧
      ∀ c ∈ inside, Text.isBlank c = true ∨ isNamePart c = true := by
  unfold opening? at h
  split at h
  · rename_i tail htail
    rw [Text.stripPrefix?_eq_some_iff] at htail
    rcases Option.map_eq_some_iff.1 h with ⟨⟨found, behind⟩, hname, heq⟩
    rcases Prod.mk.inj heq with ⟨rfl, rfl⟩
    rcases of_name?_eq_some hname with ⟨hisName, htrim, -⟩
    have hleft : tail.takeWhile Text.isBlank ++ trimLeft tail = tail :=
      List.takeWhile_append_dropWhile
    have hbehind : behind.takeWhile Text.isBlank ++ trimLeft behind = behind :=
      List.takeWhile_append_dropWhile
    refine ⟨tail.takeWhile Text.isBlank ++ (found ++ behind.takeWhile Text.isBlank), ?_, ?_⟩
    · rw [htail, List.append_assoc, List.append_assoc, List.append_assoc, hbehind, ← htrim, hleft]
    · intro c hmem
      simp only [List.mem_append] at hmem
      rcases hmem with hmem | hmem | hmem
      · exact Or.inl (List.mem_takeWhile_imp hmem)
      · exact Or.inr (hisName.isNamePart_of_mem hmem)
      · exact Or.inl (List.mem_takeWhile_imp hmem)
  · cases h

theorem opening?_eq_none {cs : List Char} (h : ¬ "var(".toList <+: cs) : opening? cs = none := by
  rw [opening?, Text.stripPrefix?_eq_none h]

/-- Nothing else opens between the beginning of a use and the comma or the parenthesis behind its
name. -/
theorem exists_head {cs name rest : List Char} {d : Char}
    (h : opening? cs = some (name, d :: rest)) (hd : d ∉ "var(".toList) :
    ∃ head, cs = 'v' :: (head ++ d :: rest) ∧ ')' ∉ head ∧
      ∀ s, s ≠ [] → s <:+ head → ¬ "var(".toList <+: s ++ d :: rest := by
  rcases exists_of_opening? h with ⟨inside, hcs, hinside⟩
  have hnot : ∀ c, Text.isBlank c = false → isNamePart c = false → c ∉ inside := by
    intro c hblank hpart hmem
    rcases hinside c hmem with hc | hc
    · rw [hc] at hblank
      cases hblank
    · rw [hc] at hpart
      cases hpart
  have hopen : '(' ∉ inside := hnot '(' rfl (by decide)
  have hclose : ')' ∉ inside := hnot ')' rfl (by decide)
  refine ⟨"ar(".toList ++ inside, by rw [hcs]; simp, ?_, ?_⟩
  · simpa using hclose
  · intro s hne hs hpre
    have hoccurs : "var(".toList <:+: "ar(".toList ++ inside :=
      (Text.prefix_of_prefix_append_cons hd hpre).isInfix.trans hs.isInfix
    rcases List.infix_append_iff.1 hoccurs with hleft | hright | ⟨left, right, heq, hleft, hright⟩
    · exact absurd hleft (by decide)
    · exact hopen (hright.subset (by decide))
    · -- The parenthesis is the last character, so that it would stand in what follows.
      cases hlast : right.getLast? with
      | none =>
        rw [List.getLast?_eq_none_iff.1 hlast, List.append_nil] at heq
        rw [← heq] at hleft
        exact absurd hleft.length_le (by decide)
      | some c =>
        have hc : c = '(' := by
          have hboth := congrArg List.getLast? heq
          rw [List.getLast?_append, hlast] at hboth
          simpa using hboth.symm
        exact hopen (hright.subset (hc ▸ List.mem_of_getLast? hlast))

theorem suffix_of_opening? {cs name rest : List Char} {d : Char}
    (h : opening? cs = some (name, d :: rest)) (hd : d ∉ "var(".toList) : d :: rest <:+ cs := by
  rcases exists_head h hd with ⟨head, rfl, -, -⟩
  exact List.suffix_append ('v' :: head) _

/-! ## One use -/

/-- The scan looks at the same beginnings of uses. -/
theorem use?_eq (cs : List Char) :
    use? cs =
      match opening? cs with
      | some (name, ')' :: rest) => some ((name, []), rest)
      | some (name, ',' :: rest) =>
        match rest.dropWhile (· != ')') with
        | _ :: after => if (cut rest).isEmpty then none else some ((name, cut rest), after)
        | [] => none
      | _ => none := by
  unfold use? opening?
  cases Text.stripPrefix? "var(".toList cs with
  | none => rfl
  | some rest =>
    dsimp only
    cases name? (trimLeft rest) with
    | none => rfl
    | some found =>
      rcases found with ⟨name, behind⟩
      dsimp only [Option.map_some]
      cases trimLeft behind with
      | nil => rfl
      | cons c more =>
        by_cases hclose : c = ')'
        · subst hclose
          rfl
        by_cases hcomma : c = ','
        · subst hcomma
          rfl
        · simp [hclose, hcomma]

theorem use?_bare {cs name rest : List Char} (h : opening? cs = some (name, ')' :: rest)) :
    use? cs = some ((name, []), rest) := by
  rw [use?_eq, h]
  rfl

theorem use?_fallback {cs name inside rest : List Char}
    (h : opening? cs = some (name, ',' :: (inside ++ ')' :: rest))) (hinside : ')' ∉ inside) :
    use? cs = if inside.isEmpty then none else some ((name, inside), rest) := by
  rw [use?_eq, h]
  simp only [cut, Text.takeWhile_ne_append hinside, Text.dropWhile_ne_append hinside]

theorem wholeUse?_bare {cs name rest : List Char} (h : opening? cs = some (name, ')' :: rest)) :
    wholeUse? cs = some (name, []) := by
  rw [wholeUse?, h]
  rfl

theorem wholeUse?_fallback {cs name inside rest : List Char}
    (h : opening? cs = some (name, ',' :: (inside ++ ')' :: rest))) (hinside : Balanced inside) :
    wholeUse? cs = some (name, inside) := by
  rw [wholeUse?, h]
  simp only [untilClosed?_eq_some_iff.2 ⟨hinside, rest, rfl⟩, Option.map_some]

theorem wholeUse?_eq_none {cs : List Char} (h : ¬ "var(".toList <+: cs) : wholeUse? cs = none := by
  rw [wholeUse?, opening?_eq_none h]

/-- A text ends with `s`, and the first closing parenthesis stands in `s` if there is one. -/
theorem suffix_before_close_iff {cs s : List Char} :
    (s <:+ cs ∧ cs.dropWhile (· != ')') <:+ s) ↔ ∃ inside, cs = inside ++ s ∧ ')' ∉ inside := by
  constructor
  · rintro ⟨⟨inside, rfl⟩, hclose⟩
    refine ⟨inside, rfl, fun hmem => ?_⟩
    have hsplit : cut (inside ++ s) ++ (inside ++ s).dropWhile (· != ')') = inside ++ s :=
      List.takeWhile_append_dropWhile
    have hlength := congrArg List.length hsplit
    rw [List.length_append, List.length_append] at hlength
    have hpre : inside <+: cut (inside ++ s) := by
      refine List.prefix_of_prefix_length_le (List.prefix_append _ _) ⟨_, hsplit⟩ ?_
      have hle := hclose.length_le
      omega
    exact not_mem_cut _ (hpre.subset hmem)
  · rintro ⟨inside, rfl, hinside⟩
    have hall : ∀ c ∈ inside, (c != ')') = true :=
      fun c hc => bne_iff_ne.2 fun heq => hinside (heq ▸ hc)
    rw [List.dropWhile_append_of_pos hall]
    exact ⟨List.suffix_append _ _, List.dropWhile_suffix _⟩

theorem covers_iff {u s : List Char} :
    covers u s = true ↔
      ∃ name inside, opening? u = some (name, ',' :: (inside ++ s)) ∧ ')' ∉ inside := by
  unfold covers
  split
  · rename_i name rest hopening
    simp only [hopening, Bool.and_eq_true, List.isSuffixOf_iff_suffix, suffix_before_close_iff,
      Option.some.injEq, Prod.mk.injEq, List.cons.injEq, true_and]
    constructor
    · rintro ⟨inside, hrest, hinside⟩
      exact ⟨name, inside, ⟨rfl, hrest⟩, hinside⟩
    · rintro ⟨_, inside, ⟨-, hrest⟩, hinside⟩
      exact ⟨inside, hrest, hinside⟩
  · rename_i hnot
    simp only [Bool.false_eq_true, false_iff]
    rintro ⟨name, inside, hopening, -⟩
    exact hnot name _ hopening

/-- What can stand at a place, as far as uses go. -/
theorem opening?_cases (cs : List Char) :
    (∃ name rest, opening? cs = some (name, ')' :: rest)) ∨
      (∃ name rest, opening? cs = some (name, ',' :: rest)) ∨
      (use? cs = none ∧ wholeUse? cs = none ∧ ∀ s, covers cs s = false) := by
  rw [use?_eq, wholeUse?]
  unfold covers
  split
  · rename_i name rest hopening
    exact .inl ⟨name, rest, hopening⟩
  · rename_i name rest hopening
    exact .inr (.inl ⟨name, rest, hopening⟩)
  · exact .inr (.inr ⟨rfl, rfl, fun s => by split <;> simp_all⟩)

theorem hasEmptyFallback_iff {cs : List Char} :
    hasEmptyFallback cs = true ↔ ∃ name rest, opening? cs = some (name, ',' :: ')' :: rest) := by
  unfold hasEmptyFallback
  split
  · rename_i name rest hopening
    exact ⟨fun _ => ⟨name, rest, hopening⟩, fun _ => rfl⟩
  · rename_i hnot
    simp only [Bool.false_eq_true, false_iff]
    rintro ⟨name, rest, hopening⟩
    exact hnot name rest hopening

/-! ## The uses that the scan sees -/

/-- Nothing that begins before a part of a stylesheet covers a place in it. -/
def Free (all cs : List Char) : Prop :=
  ∀ u s, u <:+ all → cs.length < u.length → s <:+ cs → covers u s = false

theorem free_self (all : List Char) : Free all all := by
  intro u s hu hlength _
  have hle := hu.length_le
  omega

/-- Behind a closing parenthesis nothing is covered by what begins before it. -/
theorem free_of_close {all after : List Char} (h : ')' :: after <:+ all) : Free all after := by
  intro u s hu hlength hs
  by_contra hcovers
  rcases covers_iff.1 (by simpa using hcovers) with ⟨name, inside, hopening, hinside⟩
  rcases exists_head hopening (by decide) with ⟨head, hhead, hclose, -⟩
  rcases hs with ⟨between, rfl⟩
  -- The parenthesis is between the beginning of `u` and `s`.
  have hmem : ')' ∈ 'v' :: (head ++ ',' :: inside) := by
    have hu' : ')' :: (between ++ s) <:+ u :=
      List.suffix_of_suffix_length_le h hu (by simpa using Nat.succ_le_of_lt hlength)
    rcases hu' with ⟨more, hmore⟩
    have hsame : (more ++ ')' :: between) ++ s = ('v' :: (head ++ ',' :: inside)) ++ s := by
      rw [List.append_assoc, List.cons_append, hmore, hhead]
      simp
    rw [← List.append_cancel_right hsame]
    simp
  simp [hclose, hinside] at hmem

/-- Where no use begins, nothing more is covered at the next place. -/
theorem Free.next {all rest : List Char} {c : Char} (h : Free all (c :: rest))
    (hcs : c :: rest <:+ all) (hcovers : ∀ s, covers (c :: rest) s = false) : Free all rest := by
  intro u s hu hlonger hs
  rcases Nat.lt_or_ge (c :: rest).length u.length with hlt | hge
  · exact h u s hu hlt (hs.trans (List.suffix_cons c rest))
  · have hsame : u = c :: rest := by
      have hsuffix := List.suffix_of_suffix_length_le hu hcs hge
      refine hsuffix.eq_of_length_le ?_
      rw [List.length_cons]
      omega
    rw [hsame]
    exact hcovers s

theorem isMissed_of_free {all cs : List Char} (h : Free all cs) :
    isMissed all cs = hasEmptyFallback cs := by
  have hnone : all.tails.any (covers · cs) = false := by
    rw [List.any_eq_false]
    intro u hu hcovers
    have hsuffix := (List.mem_tails u all).1 hu
    rcases Nat.lt_or_ge cs.length u.length with hlength | hlength
    · rw [h u cs hsuffix hlength List.suffix_rfl] at hcovers
      cases hcovers
    · -- A use is longer than what stands in its fallback.
      rcases covers_iff.1 hcovers with ⟨name, inside, hopening, -⟩
      rcases exists_head hopening (by decide) with ⟨head, rfl, -, -⟩
      simp only [List.length_cons, List.length_append] at hlength
      omega
  rw [isMissed, hnone, Bool.or_false]

theorem isMissed_of_covers {all u s : List Char} (hu : u <:+ all) (h : covers u s = true) :
    isMissed all s = true := by
  rw [isMissed, Bool.or_eq_true, List.any_eq_true]
  exact .inr ⟨u, (List.mem_tails u all).2 hu, h⟩

/-- What the scan finds at a place. -/
def seenAt (all cs : List Char) : Option (List Char × List Char) :=
  if isMissed all cs then none else wholeUse? cs

theorem seenIn_cons (all : List Char) (c : Char) (cs : List Char) :
    seenIn all (c :: cs) = (seenAt all (c :: cs)).toList ++ seenIn all cs := by
  unfold seenIn seenAt
  rw [List.tails_cons, List.filter_cons]
  cases isMissed all (c :: cs) with
  | true => rfl
  | false =>
    simp only [Bool.not_false, if_true, List.filterMap_cons]
    cases wholeUse? (c :: cs) <;> rfl

theorem seenIn_nil (all : List Char) : seenIn all [] = [] := by
  have hnone : wholeUse? [] = none := rfl
  simp [seenIn, List.filterMap_filter, hnone]

theorem seenIn_append_of_none {all cs rest : List Char}
    (h : ∀ s, s ≠ [] → s <:+ cs → seenAt all (s ++ rest) = none) :
    seenIn all (cs ++ rest) = seenIn all rest := by
  induction cs with
  | nil => rfl
  | cons c cs ih =>
    have hhead := h (c :: cs) (List.cons_ne_nil c cs) List.suffix_rfl
    rw [List.cons_append] at hhead ⊢
    rw [seenIn_cons, hhead]
    exact ih fun s hne hs => h s hne (hs.trans (List.suffix_cons c cs))

theorem seenAt_eq_none {all cs : List Char} (h : ¬ "var(".toList <+: cs) :
    seenAt all cs = none := by
  rw [seenAt, wholeUse?_eq_none h, ite_self]

theorem seenIn_cons_of_none {all cs : List Char} {c : Char} (h : seenAt all (c :: cs) = none) :
    seenIn all (c :: cs) = seenIn all cs := by
  rw [seenIn_cons, h]
  rfl

theorem seenIn_cons_of_ne {all cs : List Char} {c : Char} (h : c ≠ 'v') :
    seenIn all (c :: cs) = seenIn all cs := by
  refine seenIn_cons_of_none (seenAt_eq_none ?_)
  rintro ⟨tail, htail⟩
  exact h (List.cons.inj htail).1.symm

/-! ## Step by step -/

section Steps

variable {all cs name inside rest : List Char}

/-- A use without a fallback. -/
theorem seenIn_bare (hfree : Free all cs) (h : opening? cs = some (name, ')' :: rest)) :
    seenIn all cs = (name, []) :: seenIn all rest := by
  have hsome : seenAt all cs = some (name, []) := by
    have hempty : hasEmptyFallback cs = false := by
      rw [hasEmptyFallback, h]
      rfl
    rw [seenAt, isMissed_of_free hfree, hempty, wholeUse?_bare h]
    rfl
  rcases exists_head h (by decide) with ⟨head, rfl, -, hnone⟩
  rw [seenIn_cons, hsome, seenIn_append_of_none fun s hne hs => seenAt_eq_none (hnone s hne hs),
    seenIn_cons_of_ne (by decide)]
  rfl

theorem uses_bare (h : opening? cs = some (name, ')' :: rest)) :
    uses cs = (name, []) :: uses rest := by
  refine scanAll_of_some (use?_bare h) ?_
  rcases exists_head h (by decide) with ⟨head, rfl, -, -⟩
  simp only [List.length_cons, List.length_append]
  omega

/-- A use whose fallback has no character is not seen. -/
theorem seenIn_empty (hfree : Free all cs) (h : opening? cs = some (name, ',' :: ')' :: rest)) :
    seenIn all cs = seenIn all rest := by
  have hnone : seenAt all cs = none := by
    rw [seenAt, isMissed_of_free hfree, hasEmptyFallback_iff.2 ⟨name, rest, h⟩, if_pos rfl]
  rcases exists_head h (by decide) with ⟨head, rfl, -, hhead⟩
  rw [seenIn_cons_of_none hnone,
    seenIn_append_of_none fun s hne hs => seenAt_eq_none (hhead s hne hs),
    seenIn_cons_of_ne (by decide), seenIn_cons_of_ne (by decide)]

theorem uses_empty (h : opening? cs = some (name, ',' :: ')' :: rest)) : uses cs = uses rest := by
  have hopening : opening? cs = some (name, ',' :: ([] ++ ')' :: rest)) := h
  have hnone : use? cs = none := use?_fallback hopening List.not_mem_nil
  have hcomma : use? (',' :: ')' :: rest) = none := rfl
  have hclose : use? (')' :: rest) = none := rfl
  rcases exists_head h (by decide) with ⟨head, rfl, -, hhead⟩
  rw [uses, scanAll_of_none hnone,
    scanAll_append_of_none fun s hne hs => use?_eq_none (hhead s hne hs),
    scanAll_of_none hcomma, scanAll_of_none hclose]
  rfl

/-- A use with a fallback hides what stands in it up to the first closing parenthesis. -/
theorem seenIn_fallback (hcs : cs <:+ all) (hfree : Free all cs) {fallback : List Char}
    (hwhole : wholeUse? cs = some (name, fallback))
    (h : opening? cs = some (name, ',' :: (inside ++ ')' :: rest))) (hinside : ')' ∉ inside)
    (hne : inside ≠ []) : seenIn all cs = (name, fallback) :: seenIn all rest := by
  have hsome : seenAt all cs = some (name, fallback) := by
    have hempty : hasEmptyFallback cs = false := by
      rw [← Bool.not_eq_true, hasEmptyFallback_iff]
      rintro ⟨_, _, hempty⟩
      rw [h] at hempty
      cases inside with
      | nil => exact hne rfl
      | cons c inside =>
        simp only [List.cons_append, Option.some.injEq, Prod.mk.injEq, List.cons.injEq] at hempty
        exact hinside (by simp [hempty.2.2.1])
    rw [seenAt, isMissed_of_free hfree, hempty, hwhole]
    rfl
  have hcovered : ∀ s, s ≠ [] → s <:+ inside → seenAt all (s ++ ')' :: rest) = none := by
    rintro s - ⟨before, rfl⟩
    have hcovers : covers cs (s ++ ')' :: rest) = true := by
      refine covers_iff.2 ⟨name, before, ?_, fun hmem => hinside (List.mem_append_left _ hmem)⟩
      rw [h, List.append_assoc]
    rw [seenAt, isMissed_of_covers hcs hcovers, if_pos rfl]
  rcases exists_head h (by decide) with ⟨head, rfl, -, hhead⟩
  rw [seenIn_cons, hsome,
    seenIn_append_of_none fun s hne hs => seenAt_eq_none (hhead s hne hs),
    seenIn_cons_of_ne (by decide), seenIn_append_of_none hcovered, seenIn_cons_of_ne (by decide)]
  rfl

theorem uses_fallback (h : opening? cs = some (name, ',' :: (inside ++ ')' :: rest)))
    (hinside : ')' ∉ inside) (hne : inside ≠ []) : uses cs = (name, inside) :: uses rest := by
  have hsome := use?_fallback h hinside
  rw [if_neg (by simpa using hne)] at hsome
  refine scanAll_of_some hsome ?_
  rcases exists_head h (by decide) with ⟨head, rfl, -, -⟩
  simp only [List.length_cons, List.length_append]
  omega

end Steps

/-- A scan as it is described by places: the names that are seen, with the parts of the fallbacks up
to the first closing parenthesis. -/
theorem uses_eq_seenIn {all cs : List Char} (hclosed : Parenthesised all) (hcs : cs <:+ all)
    (hfree : Free all cs) : uses cs = (seenIn all cs).map cutUse := by
  -- The induction goes over what a use takes at once.
  induction hlength : cs.length using Nat.strong_induction_on generalizing cs with
  | _ n ih =>
    have hshorter : ∀ rest, ')' :: rest <:+ cs →
        uses rest = (seenIn all rest).map cutUse := by
      intro rest hrest
      have hle := hrest.length_le
      rw [List.length_cons] at hle
      exact ih rest.length (by omega) ((List.suffix_cons _ _).trans (hrest.trans hcs))
        (free_of_close (hrest.trans hcs)) rfl
    rcases opening?_cases cs with ⟨name, rest, h⟩ | ⟨name, rest, h⟩ | ⟨huse, hwhole, hcovers⟩
    · have hrest : ')' :: rest <:+ cs := suffix_of_opening? h (by decide)
      rw [uses_bare h, seenIn_bare hfree h, hshorter rest hrest]
      rfl
    · rcases hclosed cs name rest hcs h with ⟨fallback, more, hbalanced, rfl⟩
      by_cases hempty : fallback = []
      · subst hempty
        have hrest : ')' :: more <:+ cs :=
          (List.suffix_cons ',' _).trans (suffix_of_opening? h (by decide))
        rw [uses_empty h, seenIn_empty hfree h, hshorter more hrest]
      · have hwhole := wholeUse?_fallback h hbalanced
        have hne := hbalanced.cut_ne_nil hempty
        rcases exists_cut fallback more with ⟨after, hafter⟩
        rw [hafter] at h
        have hrest : ')' :: after <:+ cs :=
          (List.suffix_append (',' :: cut fallback) _).trans (suffix_of_opening? h (by decide))
        rw [uses_fallback h (not_mem_cut fallback) hne,
          seenIn_fallback hcs hfree hwhole h (not_mem_cut fallback) hne, hshorter after hrest]
        rfl
    · cases cs with
      | nil =>
        rw [seenIn_nil, uses, scanAll]
        rfl
      | cons c rest =>
        have hnone : seenAt all (c :: rest) = none := by rw [seenAt, hwhole, ite_self]
        have hrest := ih rest.length (by rw [← hlength, List.length_cons]; omega)
          ((List.suffix_cons c rest).trans hcs) (hfree.next hcs hcovers) rfl
        rw [uses, scanAll_of_none huse, seenIn_cons_of_none hnone]
        exact hrest

theorem uses_eq_seenUses {cs : List Char} (h : Parenthesised cs) :
    uses cs = (seenUses cs).map cutUse :=
  uses_eq_seenIn h List.suffix_rfl (free_self cs)

/-! ## Defaults -/

theorem names_map_cutUse (used : List (List Char × List Char)) :
    names (used.map cutUse) = names used := by
  rw [names, List.map_map]
  rfl

theorem balanced_of_wholeUse? {cs : List Char} {e : List Char × List Char}
    (h : wholeUse? cs = some e) : Balanced e.2 := by
  unfold wholeUse? at h
  split at h
  · cases h
    exact Balanced.nil
  · rcases Option.map_eq_some_iff.1 h with ⟨fallback, hfallback, rfl⟩
    exact (untilClosed?_eq_some_iff.1 hfallback).1
  · cases h

theorem balanced_of_mem_everyUse {cs : List Char} {e : List Char × List Char}
    (h : e ∈ everyUse cs) : Balanced e.2 := by
  rcases List.mem_filterMap.1 h with ⟨s, -, hs⟩
  exact balanced_of_wholeUse? hs

theorem mem_everyUse_of_mem_seenUses {cs : List Char} {e : List Char × List Char}
    (h : e ∈ seenUses cs) : e ∈ everyUse cs := by
  rcases List.mem_filterMap.1 h with ⟨s, hs, he⟩
  exact List.mem_filterMap.2 ⟨s, List.mem_of_mem_filter hs, he⟩

theorem blanks_cut_iff {cs : List Char} (h : Balanced cs) : Blanks (cut cs) ↔ Blanks cs := by
  constructor
  · intro hblanks
    have hopen : '(' ∉ cut cs := by
      intro hmem
      cases hblanks '(' hmem
    rwa [h.cut_eq hopen] at hblanks
  · exact fun hblanks c hc => hblanks c (List.takeWhile_subset _ hc)

/-- A default is a fallback of the name, without blanks around it. -/
theorem exists_of_firstDefault {used : List (List Char × List Char)} {name s : String}
    (h : firstDefault used name = some s) : ∃ e ∈ used, s.toList = trim e.2 := by
  rcases List.exists_of_findSome?_eq_some h with ⟨e, he, hs⟩
  split at hs
  · refine ⟨e, he, ?_⟩
    unfold default? at hs
    split at hs
    · cases hs
    · rw [← Option.some.inj hs, String.toList_ofList]
  · cases hs

/-- What the scan takes for the default of a name, beside the whole fallback. -/
theorem firstDefault_cut {used : List (List Char × List Char)} (h : ∀ e ∈ used, Balanced e.2)
    (name : String) :
    (firstDefault used name = none ∧ firstDefault (used.map cutUse) name = none) ∨
      ∃ fallback, Balanced fallback ∧
        firstDefault used name = some (String.ofList (trim fallback)) ∧
        firstDefault (used.map cutUse) name = some (String.ofList (trim (cut fallback))) := by
  induction used with
  | nil => exact .inl ⟨rfl, rfl⟩
  | cons e used ih =>
    have hbalanced := h e List.mem_cons_self
    have hrest := ih fun e' he' => h e' (List.mem_cons_of_mem e he')
    simp only [List.map_cons, firstDefault_cons, cutUse]
    by_cases hname : String.ofList e.1 = name
    · rw [if_pos hname, if_pos hname]
      by_cases hblanks : Blanks e.2
      · rw [default?_eq_none_iff.2 hblanks,
          default?_eq_none_iff.2 ((blanks_cut_iff hbalanced).2 hblanks)]
        exact hrest
      · rw [default?_of_not_blanks hblanks,
          default?_of_not_blanks fun hcut => hblanks ((blanks_cut_iff hbalanced).1 hcut)]
        exact .inr ⟨e.2, hbalanced, rfl, rfl⟩
    · rw [if_neg hname, if_neg hname]
      exact hrest

/-- A part of a fallback is a whole fallback only if nothing is missing of it. -/
theorem cut_eq_of_trim_eq {cs ds : List Char} (hcs : Balanced cs) (hds : Balanced ds)
    (h : trim (cut cs) = trim ds) : cut cs = cs := by
  refine hcs.cut_eq fun hopen => ?_
  have hmem : '(' ∈ ds := by
    have htrim := Text.mem_trim hopen rfl
    rw [h] at htrim
    exact Text.mem_of_mem_trim htrim
  have hclose : ')' ∈ ds := by
    rw [← List.count_pos_iff, ← hds.count_eq, List.count_pos_iff]
    exact hmem
  have htrim := Text.mem_trim hclose rfl
  rw [← h] at htrim
  exact not_mem_cut cs (Text.mem_of_mem_trim htrim)

/-- The scan takes the first whole fallback of a name for its default if it sees this one, or
another one of the same text, before all others of the name, and if there are no parentheses in
it. -/
theorem firstDefault_cut_eq_iff {every seen : List (List Char × List Char)}
    (hevery : ∀ e ∈ every, Balanced e.2) (hseen : ∀ e ∈ seen, Balanced e.2) (name : String) :
    firstDefault (seen.map cutUse) name = firstDefault every name ↔
      firstDefault seen name = firstDefault every name ∧
        ∀ s ∈ firstDefault every name, '(' ∉ s.toList := by
  rcases firstDefault_cut hseen name with ⟨hnone, hcut⟩ | ⟨fallback, hbalanced, hwhole, hcut⟩
  · rw [hnone, hcut]
    constructor
    · intro h
      rw [← h]
      exact ⟨rfl, fun s hs => by cases hs⟩
    · exact fun h => h.1
  · rw [hwhole, hcut]
    constructor
    · intro h
      rcases exists_of_firstDefault h.symm with ⟨e, he, htrim⟩
      rw [String.toList_ofList] at htrim
      have hsame := cut_eq_of_trim_eq hbalanced (hevery e he) htrim
      rw [hsame] at h
      refine ⟨h, ?_⟩
      rw [← h]
      rintro s ⟨⟩ hopen
      rw [String.toList_ofList] at hopen
      exact hbalanced.cut_eq_iff.1 hsame (Text.mem_of_mem_trim hopen)
    · rintro ⟨h, hopen⟩
      rw [← h] at hopen ⊢
      have hnot := hopen _ rfl
      rw [String.toList_ofList] at hnot
      rw [hbalanced.cut_eq_iff.2 fun hmem => hnot (Text.mem_trim hmem rfl)]

/-! ## Plain fallbacks -/

/-- Where no fallback has a parenthesis and none is empty, the scan sees everything. -/
theorem seenUses_of_plain {cs : List Char} (hclosed : Parenthesised cs)
    (hplain : ∀ e ∈ everyUse cs, '(' ∉ e.2)
    (hempty : ∀ s, s <:+ cs → hasEmptyFallback s = false) : seenUses cs = everyUse cs := by
  rw [seenUses, seenIn, everyUse, List.filterMap_filter]
  refine List.filterMap_congr fun s hs => ?_
  have hsuffix := (List.mem_tails s cs).1 hs
  by_cases huse : "var(".toList <+: s
  · have hseen : isMissed cs s = false := by
      rw [isMissed, hempty s hsuffix, Bool.false_or, List.any_eq_false]
      intro u hu hcovers
      have hu' := (List.mem_tails u cs).1 hu
      rcases covers_iff.1 hcovers with ⟨name, inside, hopening, hinside⟩
      rcases hclosed u name _ hu' hopening with ⟨fallback, more, hbalanced, hrest⟩
      have hwhole : (name, fallback) ∈ everyUse cs := by
        rw [hrest] at hopening
        exact List.mem_filterMap.2 ⟨u, hu, wholeUse?_fallback hopening hbalanced⟩
      -- The use that is covered begins within the fallback, with its parenthesis.
      rcases huse with ⟨tail, rfl⟩
      have hstart : inside ++ "var(".toList <+: fallback := by
        have hpre : inside ++ "var(".toList <+: fallback ++ ')' :: more :=
          ⟨tail, by rw [← hrest, List.append_assoc]⟩
        exact Text.prefix_of_prefix_append_cons (by simpa using hinside) hpre
      exact hplain _ hwhole (hstart.subset (by simp))
    rw [hseen]
    rfl
  · rw [wholeUse?_eq_none huse, ite_self]

/-! ## What is reported -/

/-- A stylesheet's property of a name is there, with the first fallback of the name that is not
blank, up to the parenthesis that closes the use. -/
def Reports (text name : String) : Prop :=
  ∃ v ∈ customProperties text, v.name = name ∧ DefaultsTo (everyUse text.toList) name v.default

theorem reports_iff {text : String} (hblocks : ¬ "/**".toList <:+: text.toList)
    (hclosed : Parenthesised text.toList) (name : String) :
    Reports text name ↔
      name ∈ names (seenUses text.toList) ∧
        firstDefault (seenUses text.toList) name = firstDefault (everyUse text.toList) name ∧
        ∀ s ∈ firstDefault (everyUse text.toList) name, '(' ∉ s.toList := by
  have hlisted : name ∈ (customProperties text).map (·.name) ↔
      name ∈ names (seenUses text.toList) := by
    rw [map_name_customProperties, mem_mergedNames_iff, docBlocks_eq_nil hblocks,
      uses_eq_seenUses hclosed, names_map_cutUse]
    simp [names]
  have hdefault : ∀ v ∈ customProperties text, v.default =
      firstDefault ((seenUses text.toList).map cutUse) v.name := by
    intro v hv
    rw [(of_mem_customProperties hv).2, uses_eq_seenUses hclosed]
  rw [← hlisted, ← firstDefault_cut_eq_iff (fun e he => balanced_of_mem_everyUse he)
    (fun e he => balanced_of_mem_everyUse (mem_everyUse_of_mem_seenUses he))]
  constructor
  · rintro ⟨v, hv, rfl, hv'⟩
    rw [defaultsTo_iff, hdefault v hv] at hv'
    exact ⟨List.mem_map_of_mem hv, hv'⟩
  · rintro ⟨hname, heq⟩
    rcases List.mem_map.1 hname with ⟨v, hv, rfl⟩
    rw [← hdefault v hv] at heq
    exact ⟨v, hv, rfl, defaultsTo_iff.2 heq⟩

/-- Which uses of a stylesheet are reported, and which defaults. Listed are the names of the uses
that the scan sees, each with the first of its fallbacks that is not blank, as far as to the first
closing parenthesis. So a name is reported with its whole first fallback if and only if the scan
sees a use of it, and the first fallback that it sees is the first one that there is and has no
parentheses. If no fallback has parentheses and none is empty, every name is reported. -/
theorem whole_fallbacks_reported {text : String} (hblocks : ¬ "/**".toList <:+: text.toList)
    (hclosed : Parenthesised text.toList) :
    ((customProperties text).map (·.name) = Assoc.firsts id (names (seenUses text.toList)) ∧
      ∀ v ∈ customProperties text,
        DefaultsTo ((seenUses text.toList).map cutUse) v.name v.default) ∧
    (∀ name, Reports text name ↔
      name ∈ names (seenUses text.toList) ∧ ∃ default,
        DefaultsTo (everyUse text.toList) name default ∧
        DefaultsTo (seenUses text.toList) name default ∧ ∀ s ∈ default, '(' ∉ s.toList) ∧
    ((∀ e ∈ everyUse text.toList, '(' ∉ e.2) →
      (∀ s, s <:+ text.toList → hasEmptyFallback s = false) →
      ∀ name ∈ names (everyUse text.toList), Reports text name) := by
  refine ⟨⟨?_, fun v hv => ?_⟩, fun name => ?_, fun hplain hempty name hname => ?_⟩
  · rw [map_name_customProperties, docBlocks_eq_nil hblocks, uses_eq_seenUses hclosed,
      List.flatMap_nil, mergedNames, names_map_cutUse]
    simp [names]
  · rw [defaultsTo_iff, (of_mem_customProperties hv).2, uses_eq_seenUses hclosed]
  · rw [reports_iff hblocks hclosed]
    refine and_congr_right fun _ => ?_
    constructor
    · rintro ⟨hsame, hopen⟩
      exact ⟨_, defaultsTo_iff.2 rfl, defaultsTo_iff.2 hsame.symm, hopen⟩
    · rintro ⟨default, hevery, hseen, hopen⟩
      rw [defaultsTo_iff] at hevery hseen
      rw [← hevery]
      exact ⟨hseen.symm, hopen⟩
  · have hall := seenUses_of_plain hclosed hplain hempty
    rw [reports_iff hblocks hclosed, hall]
    refine ⟨hname, rfl, fun s hs hopen => ?_⟩
    rcases exists_of_firstDefault hs with ⟨e, he, htrim⟩
    rw [htrim] at hopen
    exact hplain e he (Text.mem_of_mem_trim hopen)

/-- A use within the fallback of another one, a name whose second fallback calls a function, and an
empty fallback. -/
def nestedRules : String :=
  "var(--a,var(--b, 1))var(--c,2)var(--b,1)var( --c,f())var(--d,)"

theorem whole_fallbacks_reported_nested :
    ¬ "/**".toList <:+: nestedRules.toList ∧ Parenthesised nestedRules.toList ∧
      (customProperties nestedRules).map (·.name) = ["--a", "--c", "--b"] ∧
      ¬ Reports nestedRules "--a" ∧ Reports nestedRules "--b" ∧ Reports nestedRules "--c" ∧
      ¬ Reports nestedRules "--d" := by
  have hblocks : ¬ "/**".toList <:+: nestedRules.toList := by decide +kernel
  have hclosed : Parenthesised nestedRules.toList := by decide +kernel
  have hevery : everyUse nestedRules.toList =
      [("--a".toList, "var(--b, 1)".toList), ("--b".toList, " 1".toList),
        ("--c".toList, ['2']), ("--b".toList, ['1']), ("--c".toList, "f()".toList),
        ("--d".toList, [])] := by
    decide +kernel
  have hseen : seenUses nestedRules.toList =
      [("--a".toList, "var(--b, 1)".toList), ("--c".toList, ['2']),
        ("--b".toList, ['1']), ("--c".toList, "f()".toList)] := by
    decide +kernel
  rcases whole_fallbacks_reported hblocks hclosed with ⟨⟨hnames, -⟩, hreports, -⟩
  simp only [hevery, hseen, defaultsTo_iff] at hnames hreports
  refine ⟨hblocks, hclosed, hnames.trans (by decide), ?_, ?_, ?_, ?_⟩
  · rw [hreports]
    rintro ⟨-, default, rfl, -, hopen⟩
    exact absurd (hopen "var(--b, 1)" (by decide +kernel)) (by decide)
  · exact (hreports "--b").2 ⟨by decide, some "1", by decide +kernel, by decide +kernel, by decide⟩
  · exact (hreports "--c").2 ⟨by decide, some "2", by decide +kernel, by decide +kernel, by decide⟩
  · rw [hreports]
    exact fun h => absurd h.1 (by decide)

end Style
end PropCatalog
