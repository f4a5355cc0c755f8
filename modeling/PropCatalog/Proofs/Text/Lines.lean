import Mathlib.Data.List.TakeWhile
import PropCatalog.Docs

/-!
# Blanks and lines — what trimming and splitting do to an append

Texts are put together from lines and taken apart again. This file says what `trim` and `lines` make
of texts that are put together:

- `trim_append_blanks`, `trim_blanks_append` : blanks at either end do not count
- `lines_append_newline` : a line feed separates the lines before it from those after it
- `lines_dropLeft`       : what is dropped from the left is dropped from the first line
- `lines_append_blanks`  : blanks at the end of a text add blanks and blank lines only
- `exists_append_trim`   : trimming takes blanks only
- `lines_joinWith`       : joined texts have the lines of each of them
- `trim_joinWith_append`, `trim_joinWith_blanks` : blank lines around a text do not count
-/

namespace PropCatalog
namespace Text

/-! ## Classes of characters -/

/-- The code points of the blanks beyond `U+007F`. -/
def wideBlanks : List Nat :=
  [0x85, 0xa0, 0x1680, 0x2000, 0x2001, 0x2002, 0x2003, 0x2004, 0x2005, 0x2006, 0x2007, 0x2008,
    0x2009, 0x200a, 0x2028, 0x2029, 0x202f, 0x205f, 0x3000]

theorem wideBlanks_not_inTable : ∀ n ∈ wideBlanks, inTable alphanumericBounds n = false := by
  decide +kernel

theorem mem_wideBlanks_of_isBlank {c : Char} (h : isBlank c = true) (hwide : 128 ≤ c.toNat) :
    c.toNat ∈ wideBlanks := by
  simp only [isBlank, Bool.or_eq_true, Bool.and_eq_true, decide_eq_true_eq, beq_iff_eq] at h
  simp only [wideBlanks, List.mem_cons, List.not_mem_nil, or_false]
  omega

/-- A word character is no blank. -/
theorem isBlank_eq_false_of_isWordChar {c : Char} (h : isWordChar c = true) :
    isBlank c = false := by
  by_contra hblank
  have hblank : isBlank c = true := by simpa using hblank
  -- Word characters are a condition on letters below `U+0080` and a table beyond.
  unfold isWordChar at h
  split at h
  · -- The blanks of the ASCII range come before the digits.
    have hlow : c.toNat ≤ 32 ∨ 128 ≤ c.toNat := by
      simp only [isBlank, Bool.or_eq_true, Bool.and_eq_true, decide_eq_true_eq,
        beq_iff_eq] at hblank
      omega
    delta Char.isAlphanum Char.isAlpha Char.isUpper Char.isLower Char.isDigit at h
    simp only [Bool.or_eq_true, Bool.and_eq_true, decide_eq_true_eq, beq_iff_eq,
      UInt32.le_iff_toNat_le] at h
    change ((((65 ≤ c.toNat ∧ c.toNat ≤ 90) ∨ (97 ≤ c.toNat ∧ c.toNat ≤ 122)) ∨
      (48 ≤ c.toNat ∧ c.toNat ≤ 57)) ∨ c = '_') at h
    rcases h with h | rfl
    · omega
    · cases hblank
  · rename_i hwide
    rw [wideBlanks_not_inTable _ (mem_wideBlanks_of_isBlank hblank (by omega))] at h
    cases h

/-- A line break is a blank. -/
theorem isBlank_of_isLineBreak {c : Char} (h : isLineBreak c = true) : isBlank c = true := by
  simp only [isLineBreak, Bool.or_eq_true, Bool.and_eq_true, decide_eq_true_eq, beq_iff_eq] at h
  simp only [isBlank, Bool.or_eq_true, Bool.and_eq_true, decide_eq_true_eq, beq_iff_eq]
  omega

/-! ## Trimming -/

/-- A text of blanks. -/
def Blanks (cs : List Char) : Prop :=
  ∀ c ∈ cs, isBlank c = true

theorem blanks_nil : Blanks [] := fun _ h => absurd h List.not_mem_nil

theorem blanks_feed : Blanks ['\n'] := by
  intro c hc
  rw [List.mem_singleton.1 hc]
  rfl

theorem Blanks.append {cs ds : List Char} (h : Blanks cs) (h' : Blanks ds) : Blanks (cs ++ ds) :=
  fun c hc => (List.mem_append.1 hc).elim (h c) (h' c)

theorem dropRight_append (p : Char → Bool) (cs ds : List Char) :
    dropRight p (cs ++ ds) =
      if (dropRight p ds).isEmpty then dropRight p cs else cs ++ dropRight p ds := by
  unfold dropRight
  rw [List.reverse_append, List.dropWhile_append]
  by_cases h : (ds.reverse.dropWhile p).isEmpty = true
  · simp [h]
  · simp [h]

theorem dropRight_append_of_all {p : Char → Bool} (cs : List Char) {ds : List Char}
    (h : ∀ c ∈ ds, p c = true) : dropRight p (cs ++ ds) = dropRight p cs := by
  have hnone : dropRight p ds = [] := by
    simpa [dropRight, List.dropWhile_eq_nil_iff] using h
  rw [dropRight_append, hnone]
  rfl

theorem dropRight_cons {p : Char → Bool} {c : Char} (h : p c = false) (cs : List Char) :
    dropRight p (c :: cs) = c :: dropRight p cs := by
  have hone : dropRight p [c] = [c] := by simp [dropRight, h]
  have hsplit := dropRight_append p [c] cs
  rw [List.singleton_append] at hsplit
  rw [hsplit]
  by_cases hempty : (dropRight p cs).isEmpty = true
  · rw [if_pos hempty, hone, List.isEmpty_iff.1 hempty]
  · rw [if_neg hempty, List.singleton_append]

theorem trim_cons {c : Char} (h : isBlank c = false) (cs : List Char) :
    trim (c :: cs) = c :: dropRight isBlank cs := by
  have hleft : dropLeft isBlank (c :: cs) = c :: cs := by simp [dropLeft, h]
  rw [trim, dropEnds, hleft, dropRight_cons h]

theorem trim_cons_cons {c d : Char} (hc : isBlank c = false) (hd : isBlank d = false)
    (cs : List Char) : trim (c :: d :: cs) = c :: d :: dropRight isBlank cs := by
  rw [trim_cons hc, dropRight_cons hd]

theorem trimLeft_cons {c : Char} (h : isBlank c = false) (cs : List Char) :
    trimLeft (c :: cs) = c :: cs := by
  simp [trimLeft, dropLeft, h]

theorem dropEnds_all_append {p : Char → Bool} {bs : List Char} (h : ∀ c ∈ bs, p c = true)
    (cs : List Char) : dropEnds p (bs ++ cs) = dropEnds p cs := by
  have hleft : dropLeft p (bs ++ cs) = dropLeft p cs := List.dropWhile_append_of_pos h
  rw [dropEnds, dropEnds, hleft]

theorem dropEnds_append_all {p : Char → Bool} (cs : List Char) {bs : List Char}
    (h : ∀ c ∈ bs, p c = true) : dropEnds p (cs ++ bs) = dropEnds p cs := by
  -- If nothing is left of `cs` from the left, the rest is dropped from that side too.
  have hnone : bs.dropWhile p = [] := List.dropWhile_eq_nil_iff.2 h
  unfold dropEnds dropLeft
  rw [List.dropWhile_append]
  by_cases hempty : (cs.dropWhile p).isEmpty = true
  · rw [if_pos hempty, hnone, List.isEmpty_iff.1 hempty]
  · rw [if_neg hempty, dropRight_append_of_all _ h]

theorem trim_blanks_append {bs : List Char} (h : Blanks bs) (cs : List Char) :
    trim (bs ++ cs) = trim cs :=
  dropEnds_all_append h cs

theorem trim_append_blanks (cs : List Char) {bs : List Char} (h : Blanks bs) :
    trim (cs ++ bs) = trim cs :=
  dropEnds_append_all cs h

theorem trim_eq_nil {bs : List Char} (h : Blanks bs) : trim bs = [] := by
  have := trim_append_blanks [] h
  simpa [trim, dropEnds, dropLeft, dropRight] using this

/-! ## Lines -/

theorem lines_cons {c : Char} (h : isLineBreak c = false) (rest : List Char) :
    lines (c :: rest) = consLine c (lines rest) := by
  have hpair : ∀ rest', c = '\r' → rest = '\n' :: rest' → False := by
    rintro rest' rfl -
    cases h
  rw [lines.eq_3 _ _ hpair, h]
  rfl

/-- A break ends an empty line, unless it is the first half of a pair. -/
theorem lines_cons_break {c : Char} (h : isLineBreak c = true) {rest : List Char}
    (hpair : c = '\r' → rest.head? ≠ some '\n') : lines (c :: rest) = [] :: lines rest := by
  have hnot : ∀ rest', c = '\r' → rest = '\n' :: rest' → False := by
    rintro rest' hc rfl
    exact hpair hc rfl
  rw [lines.eq_3 _ _ hnot, if_pos h]

theorem lines_newline (rest : List Char) : lines ('\n' :: rest) = [] :: lines rest :=
  lines_cons_break rfl (by intro h; cases h)

theorem lines_ne_nil {cs : List Char} (h : cs ≠ []) : lines cs ≠ [] := by
  fun_cases lines cs with
  | case1 => exact absurd rfl h
  | case2 rest => exact List.cons_ne_nil _ _
  | case3 c rest _ _ => exact List.cons_ne_nil _ _
  | case4 c rest _ _ => cases lines rest <;> exact List.cons_ne_nil _ _

theorem consLine_append (c : Char) {ls : List (List Char)} (h : ls ≠ [])
    (ms : List (List Char)) : consLine c (ls ++ ms) = consLine c ls ++ ms := by
  cases ls with
  | nil => exact absurd rfl h
  | cons line ls => rfl

/-- A line feed separates the lines before it from those after it. -/
theorem lines_append_newline (cs ds : List Char) :
    lines (cs ++ '\n' :: ds) = lines (cs ++ ['\n']) ++ lines ds := by
  fun_induction lines cs with
  | case1 => simp only [List.nil_append, lines_newline]; rfl
  | case2 rest ih => simp [lines, ih]
  | case3 c rest hpair hbreak ih =>
    -- Only a break at the very end can form a pair with the line feed that follows.
    match rest, hpair, ih with
    | [], _, _ =>
      by_cases hc : c = '\r'
      · subst hc
        rfl
      · have hstart : ∀ es, lines (c :: '\n' :: es) = [] :: [] :: lines es := by
          intro es
          rw [lines_cons_break hbreak (fun h => absurd h hc), lines_newline]
        rw [List.singleton_append, List.singleton_append, hstart, hstart]
        rfl
    | d :: rest, hpair, ih =>
      have hstart : ∀ es, lines (c :: d :: (rest ++ es)) = [] :: lines (d :: (rest ++ es)) := by
        intro es
        refine lines_cons_break hbreak ?_
        rintro hc hd
        have hd : d = '\n' := by simpa using hd
        exact hpair rest hc (by rw [hd])
      simp only [List.cons_append] at ih ⊢
      rw [hstart, hstart, ih, List.cons_append]
  | case4 c rest hpair hbreak ih =>
    have hc : isLineBreak c = false := by simpa using hbreak
    have hsome : lines (rest ++ ['\n']) ≠ [] := lines_ne_nil (by simp)
    rw [List.cons_append, List.cons_append, lines_cons hc, lines_cons hc, ih,
      consLine_append c hsome]

theorem lines_cons_unbroken {c : Char} (h : isLineBreak c = false) (cs : List Char) :
    ∃ first more, lines (c :: cs) = (c :: first) :: more := by
  rw [lines_cons h]
  cases lines cs with
  | nil => exact ⟨[], [], rfl⟩
  | cons line more => exact ⟨line, more, rfl⟩

/-- The first line begins with the first character, unless that one breaks the line. -/
theorem lines_cons_first (c : Char) (cs : List Char) :
    ∃ first more, lines (c :: cs) = first :: more ∧ (first = [] ∨ ∃ rest, first = c :: rest) := by
  by_cases hbreak : isLineBreak c = true
  · by_cases hpair : c = '\r' ∧ cs.head? = some '\n'
    · rcases hpair with ⟨rfl, hfeed⟩
      cases cs with
      | nil => cases hfeed
      | cons d cs =>
        obtain rfl : d = '\n' := by simpa using hfeed
        exact ⟨[], _, rfl, Or.inl rfl⟩
    · exact ⟨[], _, lines_cons_break hbreak fun hc hd => hpair ⟨hc, hd⟩, Or.inl rfl⟩
  · rcases lines_cons_unbroken (by simpa using hbreak) cs with ⟨first, more, hlines⟩
    exact ⟨c :: first, more, hlines, Or.inr ⟨first, rfl⟩⟩

/-- What is dropped from the left of a text is dropped from its first line. -/
theorem lines_dropLeft {p : Char → Bool} (hp : ∀ c, p c = true → isLineBreak c = false)
    (cs : List Char) :
    ∃ first more, lines (cs ++ ['\n']) = first :: more ∧
      lines (dropLeft p cs ++ ['\n']) = dropLeft p first :: more := by
  induction cs with
  | nil => exact ⟨[], [], rfl, rfl⟩
  | cons c cs ih =>
    by_cases hc : p c = true
    · rcases ih with ⟨first, more, hlines, hdrop⟩
      refine ⟨c :: first, more, ?_, ?_⟩
      · rw [List.cons_append, lines_cons (hp c hc), hlines]
        rfl
      · simpa [dropLeft, hc] using hdrop
    · -- Nothing is dropped, and the first line begins as the text does.
      rcases lines_cons_first c (cs ++ ['\n']) with ⟨first, more, hlines, hfirst⟩
      refine ⟨first, more, hlines, ?_⟩
      have htext : dropLeft p (c :: cs) = c :: cs := by simp [dropLeft, hc]
      have hkept : dropLeft p first = first := by
        rcases hfirst with rfl | ⟨rest, rfl⟩
        · rfl
        · simp [dropLeft, hc]
      rw [htext, hkept]
      exact hlines

theorem mem_of_mem_lines {cs line : List Char} {c : Char} (hline : line ∈ lines cs)
    (hc : c ∈ line) : c ∈ cs := by
  fun_induction lines cs generalizing line with
  | case1 => cases hline
  | case2 rest ih =>
    rcases List.mem_cons.1 hline with rfl | hline
    · cases hc
    · exact List.mem_cons_of_mem _ (List.mem_cons_of_mem _ (ih hline hc))
  | case3 d rest _ _ ih =>
    rcases List.mem_cons.1 hline with rfl | hline
    · cases hc
    · exact List.mem_cons_of_mem _ (ih hline hc)
  | case4 d rest _ _ ih =>
    cases hlines : lines rest with
    | nil =>
      rw [hlines] at hline
      rw [List.mem_singleton.1 hline] at hc
      rw [List.mem_singleton.1 hc]
      exact List.mem_cons_self
    | cons first more =>
      rw [hlines] at hline ih
      rcases List.mem_cons.1 hline with rfl | hline
      · rcases List.mem_cons.1 hc with rfl | hc
        · exact List.mem_cons_self
        · exact List.mem_cons_of_mem _ (ih List.mem_cons_self hc)
      · exact List.mem_cons_of_mem _ (ih (List.mem_cons_of_mem _ hline) hc)

/-- A text without line breaks. -/
def Unbroken (cs : List Char) : Prop :=
  ∀ c ∈ cs, isLineBreak c = false

instance (cs : List Char) : Decidable (Unbroken cs) :=
  List.decidableBAll (fun c => isLineBreak c = false) cs

theorem lines_unbroken_append {cs : List Char} (h : Unbroken cs) (ds : List Char) :
    lines (cs ++ '\n' :: ds) = cs :: lines ds := by
  induction cs with
  | nil => exact lines_newline ds
  | cons c cs ih =>
    rw [List.cons_append, lines_cons (h c List.mem_cons_self),
      ih fun d hd => h d (List.mem_cons_of_mem _ hd)]
    rfl

/-- Lines that are ended by line feeds, and what comes after them. -/
theorem lines_flatMap_append {ls : List (List Char)} (h : ∀ line ∈ ls, Unbroken line)
    (ds : List Char) : lines (ls.flatMap (· ++ ['\n']) ++ ds) = ls ++ lines ds := by
  induction ls with
  | nil => rfl
  | cons line ls ih =>
    have hrest := ih fun l hl => h l (List.mem_cons_of_mem _ hl)
    rw [List.flatMap_cons, List.append_assoc, List.append_assoc, List.singleton_append,
      lines_unbroken_append (h line List.mem_cons_self), hrest]
    rfl

/-! ## Blanks at the end of a text -/

theorem exists_append_dropRight (cs : List Char) :
    ∃ bs, Blanks bs ∧ cs = dropRight isBlank cs ++ bs := by
  refine ⟨(cs.reverse.takeWhile isBlank).reverse, ?_, ?_⟩
  · intro c hc
    exact List.mem_takeWhile_imp (List.mem_reverse.1 hc)
  · rw [dropRight, ← List.reverse_append, List.takeWhile_append_dropWhile, List.reverse_reverse]

theorem trim_dropRight (cs : List Char) : trim (dropRight isBlank cs) = trim cs := by
  rcases exists_append_dropRight cs with ⟨bs, hbs, heq⟩
  have htrim := trim_append_blanks (dropRight isBlank cs) hbs
  rw [← heq] at htrim
  exact htrim.symm

theorem dropRight_cons_congr {p : Char → Bool} {cs ds : List Char}
    (h : dropRight p cs = dropRight p ds) (c : Char) :
    dropRight p (c :: cs) = dropRight p (c :: ds) := by
  have hcs := dropRight_append p [c] cs
  have hds := dropRight_append p [c] ds
  rw [List.singleton_append] at hcs hds
  rw [hcs, hds, h]

theorem map_dropRight_lines_blanks {bs : List Char} (h : Blanks bs) :
    (lines bs).map (dropRight isBlank) = List.replicate (lines bs).length [] := by
  refine List.eq_replicate_iff.2 ⟨List.length_map _, ?_⟩
  intro line hline
  rcases List.mem_map.1 hline with ⟨line, hmem, rfl⟩
  have hblanks : Blanks line := fun c hc => h c (mem_of_mem_lines hmem hc)
  exact dropRight_append_of_all [] hblanks

/-- Lines that agree but for blanks at their ends and blank lines at the end still do so with a
character in front. -/
theorem map_dropRight_consLine (c : Char) {ls ms : List (List Char)} {k : Nat}
    (h : ms.map (dropRight isBlank) = ls.map (dropRight isBlank) ++ List.replicate k []) :
    ∃ k', (consLine c ms).map (dropRight isBlank) =
      (consLine c ls).map (dropRight isBlank) ++ List.replicate k' [] := by
  cases ls with
  | nil =>
    cases ms with
    | nil => exact ⟨0, by simp⟩
    | cons m ms =>
      -- A blank line takes the character.
      rcases List.eq_replicate_iff.1 h with ⟨hlength, hall⟩
      have hm : dropRight isBlank m = dropRight isBlank [] := hall _ List.mem_cons_self
      have hms : ms.map (dropRight isBlank) = List.replicate ms.length [] :=
        List.eq_replicate_iff.2
          ⟨List.length_map _, fun line hline => hall line (List.mem_cons_of_mem _ hline)⟩
      refine ⟨ms.length, ?_⟩
      rw [← hms, consLine, consLine, List.map_cons, dropRight_cons_congr hm]
      rfl
  | cons l ls =>
    cases ms with
    | nil => cases h
    | cons m ms =>
      rw [List.map_cons, List.map_cons, List.cons_append] at h
      rcases List.cons.inj h with ⟨hm, hms⟩
      refine ⟨k, ?_⟩
      rw [consLine, consLine, List.map_cons, List.map_cons, List.cons_append, hms,
        dropRight_cons_congr hm]

/-- Blanks at the end of a text add blanks to its last line and blank lines. -/
theorem lines_append_blanks (cs : List Char) {bs : List Char} (h : Blanks bs) :
    ∃ k, (lines (cs ++ bs)).map (dropRight isBlank) =
      (lines cs).map (dropRight isBlank) ++ List.replicate k [] := by
  -- The induction follows `lines`; the blanks are met at the end of the text only.
  fun_induction lines cs with
  | case1 => exact ⟨_, map_dropRight_lines_blanks h⟩
  | case2 rest ih =>
    rcases ih with ⟨k, hk⟩
    exact ⟨k, by simp [lines, hk]⟩
  | case3 c rest hpair hbreak ih =>
    by_cases hhead : c = '\r' ∧ (rest ++ bs).head? = some '\n'
    · -- The text ends with the first half of a pair, and the blanks begin with the second.
      rcases hhead with ⟨rfl, hfeed⟩
      cases rest with
      | nil =>
        cases bs with
        | nil => cases hfeed
        | cons d bs =>
          obtain rfl : d = '\n' := by simpa using hfeed
          have hbs : Blanks bs := fun e he => h e (List.mem_cons_of_mem _ he)
          exact ⟨_, congrArg ([] :: ·) (map_dropRight_lines_blanks hbs)⟩
      | cons d rest =>
        obtain rfl : d = '\n' := by simpa using hfeed
        exact absurd rfl (hpair rest rfl)
    · rcases ih with ⟨k, hk⟩
      rw [List.cons_append, lines_cons_break hbreak fun hc hd => hhead ⟨hc, hd⟩, List.map_cons, hk]
      exact ⟨k, rfl⟩
  | case4 c rest hpair hbreak ih =>
    have hc : isLineBreak c = false := by simpa using hbreak
    rcases ih with ⟨k, hk⟩
    rw [List.cons_append, lines_cons hc]
    exact map_dropRight_consLine c hk

/-! ## What trimming keeps -/

theorem exists_append_trim (cs : List Char) :
    ∃ bs bs', Blanks bs ∧ Blanks bs' ∧ cs = bs ++ (trim cs ++ bs') := by
  rcases exists_append_dropRight (trimLeft cs) with ⟨bs', hbs', hright⟩
  refine ⟨cs.takeWhile isBlank, bs', fun c hc => List.mem_takeWhile_imp hc, hbs', ?_⟩
  calc cs = cs.takeWhile isBlank ++ trimLeft cs := List.takeWhile_append_dropWhile.symm
    _ = cs.takeWhile isBlank ++ (trim cs ++ bs') := congrArg (_ ++ ·) hright

theorem trim_trim (cs : List Char) : trim (trim cs) = trim cs := by
  rcases exists_append_trim cs with ⟨bs, bs', hbs, hbs', heq⟩
  calc trim (trim cs) = trim (trim cs ++ bs') := (trim_append_blanks _ hbs').symm
    _ = trim (bs ++ (trim cs ++ bs')) := (trim_blanks_append hbs _).symm
    _ = trim cs := congrArg trim heq.symm

theorem mem_trim {cs : List Char} {c : Char} (hc : c ∈ cs) (hblank : isBlank c = false) :
    c ∈ trim cs := by
  rcases exists_append_trim cs with ⟨bs, bs', hbs, hbs', heq⟩
  -- Neither piece that is cut off can hold a character that is no blank.
  have hnot : ∀ ds, Blanks ds → c ∉ ds := by
    intro ds hds hmem
    rw [hds c hmem] at hblank
    cases hblank
  rw [heq] at hc
  simpa [hnot bs hbs, hnot bs' hbs'] using hc

theorem trim_eq_nil_iff {cs : List Char} : trim cs = [] ↔ Blanks cs := by
  constructor
  · intro h c hc
    by_contra hblank
    have hmem := mem_trim hc (by simpa using hblank)
    rw [h] at hmem
    cases hmem
  · exact trim_eq_nil

theorem mem_of_mem_trim {cs : List Char} {c : Char} (hc : c ∈ trim cs) : c ∈ cs := by
  rcases exists_append_trim cs with ⟨bs, bs', -, -, heq⟩
  rw [heq]
  exact List.mem_append_right _ (List.mem_append_left _ hc)

/-! ## Joined lines -/

theorem joinWith_append (sep : List Char) {ls ms : List (List Char)} (hls : ls ≠ [])
    (hms : ms ≠ []) : joinWith sep (ls ++ ms) = joinWith sep ls ++ sep ++ joinWith sep ms := by
  -- `joinWith` has an equation for a single piece, so the two shortest lists are told apart.
  induction ls with
  | nil => exact absurd rfl hls
  | cons line ls ih =>
    cases ls with
    | nil =>
      cases ms with
      | nil => exact absurd rfl hms
      | cons m ms => rfl
    | cons line' ls =>
      have hrest := ih (List.cons_ne_nil _ _)
      simp only [List.cons_append, joinWith] at hrest ⊢
      rw [hrest]
      simp [List.append_assoc]

theorem joinWith_cons (sep line : List Char) {ls : List (List Char)} (h : ls ≠ []) :
    joinWith sep (line :: ls) = line ++ sep ++ joinWith sep ls :=
  joinWith_append sep (List.cons_ne_nil line []) h

theorem joinWith_cons_cons (sep : List Char) (c : Char) (cs : List Char) (ls : List (List Char)) :
    joinWith sep ((c :: cs) :: ls) = c :: joinWith sep (cs :: ls) := by
  cases ls <;> rfl

theorem mem_joinWith (sep : List Char) {ls : List (List Char)} {line : List Char} {c : Char}
    (hline : line ∈ ls) (hc : c ∈ line) : c ∈ joinWith sep ls := by
  fun_induction joinWith sep ls with
  | case1 => cases hline
  | case2 piece =>
    rw [List.mem_singleton.1 hline] at hc
    exact hc
  | case3 piece rest _ ih =>
    rcases List.mem_cons.1 hline with rfl | hline
    · exact List.mem_append_left _ (List.mem_append_left _ hc)
    · exact List.mem_append_right _ (ih hline)

theorem mem_of_mem_joinWith {sep : List Char} {ls : List (List Char)} {c : Char}
    (h : c ∈ joinWith sep ls) : c ∈ sep ∨ ∃ line ∈ ls, c ∈ line := by
  fun_induction joinWith sep ls with
  | case1 => cases h
  | case2 piece => exact Or.inr ⟨piece, List.mem_cons_self, h⟩
  | case3 piece rest _ ih =>
    rcases List.mem_append.1 h with h | h
    · rcases List.mem_append.1 h with h | h
      · exact Or.inr ⟨piece, List.mem_cons_self, h⟩
      · exact Or.inl h
    · rcases ih h with hsep | ⟨line, hline, hc⟩
      · exact Or.inl hsep
      · exact Or.inr ⟨line, List.mem_cons_of_mem _ hline, hc⟩

theorem lines_joinWith {ls : List (List Char)} (h : ls ≠ []) :
    lines (joinWith ['\n'] ls ++ ['\n']) = ls.flatMap fun l => lines (l ++ ['\n']) := by
  induction ls with
  | nil => exact absurd rfl h
  | cons l ls ih =>
    by_cases hls : ls = []
    · simp [hls, joinWith]
    · rw [joinWith_cons _ _ hls, List.append_assoc, List.append_assoc, List.singleton_append,
        lines_append_newline, ih hls]
      rfl

theorem blanks_joinWith {ls : List (List Char)} (h : ∀ line ∈ ls, Blanks line) :
    Blanks (joinWith ['\n'] ls) := by
  induction ls with
  | nil => exact blanks_nil
  | cons line ls ih =>
    have hline := h line List.mem_cons_self
    have hrest := ih fun l hl => h l (List.mem_cons_of_mem _ hl)
    by_cases hls : ls = []
    · subst hls
      exact hline
    · rw [joinWith_cons _ _ hls]
      exact (hline.append blanks_feed).append hrest

theorem trim_joinWith_append (ls : List (List Char)) {ms : List (List Char)}
    (h : ∀ line ∈ ms, Blanks line) :
    trim (joinWith ['\n'] (ls ++ ms)) = trim (joinWith ['\n'] ls) := by
  by_cases hls : ls = []
  · subst hls
    exact (trim_eq_nil (blanks_joinWith h)).trans (trim_eq_nil blanks_nil).symm
  · by_cases hms : ms = []
    · rw [hms, List.append_nil]
    · have hafter : Blanks (['\n'] ++ joinWith ['\n'] ms) :=
        blanks_feed.append (blanks_joinWith h)
      rw [joinWith_append _ hls hms, List.append_assoc, trim_append_blanks _ hafter]

theorem trim_joinWith_blanks {ls : List (List Char)} (h : ∀ line ∈ ls, Blanks line)
    (ms : List (List Char)) :
    trim (joinWith ['\n'] (ls ++ ms)) = trim (joinWith ['\n'] ms) := by
  by_cases hms : ms = []
  · subst hms
    rw [List.append_nil]
    exact (trim_eq_nil (blanks_joinWith h)).trans (trim_eq_nil blanks_nil).symm
  · by_cases hls : ls = []
    · rw [hls, List.nil_append]
    · have hbefore : Blanks (joinWith ['\n'] ls ++ ['\n']) := (blanks_joinWith h).append blanks_feed
      rw [joinWith_append _ hls hms, trim_blanks_append hbefore]

end Text
end PropCatalog
