import Mathlib.Data.List.Basic
import PropCatalog.Pattern.Wildcard

/-!
# Wildcards — patterns joined by slashes

A wildcard pattern that is cut at a slash falls into two patterns, as long as the slash does not
stand in a set of characters; what fits the two, joined by a slash, fits the whole. In the other
direction a text has at least the slashes of a pattern that it fits.

- `Piece.ofChars_cons`         : a pattern read piece by piece
- `Pattern.SlashesPlain`       : no slash of a pattern stands in a set
- `Piece.ofChars_append_slash` : the pieces of a pattern that is cut at a slash
- `fits_append_slash`, `count_slash_le_of_fits` : the texts that fit
-/

namespace PropCatalog
namespace Pattern

/-! ## Sets that are closed before a place -/

/-- The number of characters after an opening bracket that cannot close the set. -/
def setStart (cs : List Char) : Nat :=
  let negation := if cs.head? == some '!' then 1 else 0
  negation + if (cs.drop negation).head? == some ']' then 1 else 0

theorem setLength?_eq (cs : List Char) :
    setLength? cs =
      let length := setStart cs + ((cs.drop (setStart cs)).takeWhile (· != ']')).length
      if length < cs.length then some length else none := rfl

theorem setStart_le_of_setLength? {cs : List Char} {n : Nat} (h : setLength? cs = some n) :
    setStart cs ≤ n ∧ n < cs.length := by
  rw [setLength?_eq] at h
  dsimp only at h
  split at h
  · rename_i hlt
    cases h
    exact ⟨Nat.le_add_right _ _, hlt⟩
  · cases h

theorem setStart_append {a : List Char} (b : List Char) (h : setStart a < a.length) :
    setStart (a ++ b) = setStart a := by
  rcases a with _ | ⟨c, _ | ⟨c', a⟩⟩
  · simp at h
  · by_cases hc : c = '!'
    · simp [setStart, hc] at h
    · simp [setStart, hc]
  · by_cases hc : c = '!' <;> simp [setStart, hc]

theorem setStart_le_append (a b : List Char) : setStart a ≤ setStart (a ++ b) := by
  rcases a with _ | ⟨c, _ | ⟨c', a⟩⟩
  · simp [setStart]
  · by_cases hc : c = '!' <;> simp [setStart, hc]
  · by_cases hc : c = '!' <;> simp [setStart, hc]

/-- A set that is closed within `a` does not depend on what stands after `a`. -/
theorem setLength?_append_eq_some_iff {a b : List Char} {n : Nat} (hn : n < a.length) :
    setLength? (a ++ b) = some n ↔ setLength? a = some n := by
  by_cases hstart : setStart a < a.length
  · rw [setLength?_eq, setLength?_eq]
    dsimp only
    rw [setStart_append b hstart, List.drop_append_of_le_length (Nat.le_of_lt hstart),
      List.takeWhile_append]
    have hlength := List.length_drop (i := setStart a) (l := a)
    split
    · -- Nothing within `a` closes the set.
      rename_i hall
      constructor <;> intro h <;> split at h <;> simp at h <;> simp at hall <;> omega
    · rename_i hsome
      have hlt : ((a.drop (setStart a)).takeWhile (· != ']')).length <
          (a.drop (setStart a)).length := by
        have hle := (List.takeWhile_sublist (l := a.drop (setStart a)) (· != ']')).length_le
        omega
      rw [List.length_append, if_pos (by omega), if_pos (by omega)]
  · have hle := setStart_le_append a b
    constructor
    · intro h
      have hsmall := (setStart_le_of_setLength? h).1
      omega
    · intro h
      have hsmall := (setStart_le_of_setLength? h).1
      omega

/-! ## Reading piece by piece -/

/-- The first piece of a pattern, and how many characters it takes after its first one. -/
def firstPiece (c : Char) (rest : List Char) : Piece × Nat :=
  if c = '*' then (.star, 0)
  else if c = '?' then (.any, 0)
  else if c = '[' then
    match setLength? rest with
    | some length => (.ofSet (rest.take length), length + 1)
    | none => (.char c, 0)
  else (.char c, 0)

theorem ofSet_ne_char (body : List Char) (c : Char) : Piece.ofSet body ≠ .char c := by
  unfold Piece.ofSet
  dsimp only
  generalize marksOf _ = marks
  split <;> simp

/-- A slash is read as a piece only where it stands. -/
theorem firstPiece_eq_slash_iff (c : Char) (rest : List Char) :
    (firstPiece c rest).1 = .char '/' ↔ c = '/' := by
  unfold firstPiece
  split_ifs with h₁ h₂ h₃
  · simp [h₁]
  · simp [h₂]
  · split
    · simp [h₃, ofSet_ne_char]
    · simp [h₃]
  · simp

/-- A piece that ends within `a` does not depend on what stands after `a`. -/
theorem firstPiece_append {c : Char} {a b : List Char}
    (h : (firstPiece c (a ++ b)).2 ≤ a.length) : firstPiece c (a ++ b) = firstPiece c a := by
  unfold firstPiece at h ⊢
  split_ifs at h ⊢ with h₁ h₂ h₃
  · rfl
  · rfl
  · cases hwhole : setLength? (a ++ b) with
    | some n =>
      rw [hwhole] at h
      have hn : n < a.length := h
      rw [(setLength?_append_eq_some_iff hn).1 hwhole]
      simp only
      rw [List.take_append_of_le_length (Nat.le_of_lt hn)]
    | none =>
      cases hpart : setLength? a with
      | none => rfl
      | some n =>
        have hn := (setStart_le_of_setLength? hpart).2
        rw [(setLength?_append_eq_some_iff hn).2 hpart] at hwhole
        cases hwhole
  · rfl

theorem ofCharsUpTo_cons (fuel : Nat) (c : Char) (rest : List Char) :
    Piece.ofCharsUpTo (fuel + 1) (c :: rest) =
      (firstPiece c rest).1 :: Piece.ofCharsUpTo fuel (rest.drop (firstPiece c rest).2) := by
  rw [Piece.ofCharsUpTo, firstPiece]
  simp only [beq_iff_eq]
  split_ifs
  · rfl
  · rfl
  · cases setLength? rest <;> rfl
  · rfl

/-- Every piece takes a character, so that the length of the pattern is enough fuel. -/
theorem ofCharsUpTo_eq_ofChars {fuel : Nat} {cs : List Char} (h : cs.length ≤ fuel) :
    Piece.ofCharsUpTo fuel cs = Piece.ofChars cs := by
  have henough : ∀ (fuel fuel' : Nat) (cs : List Char), cs.length ≤ fuel → cs.length ≤ fuel' →
      Piece.ofCharsUpTo fuel cs = Piece.ofCharsUpTo fuel' cs := by
    intro fuel
    induction fuel with
    | zero =>
      intro fuel' cs hcs _
      rw [List.length_eq_zero_iff.1 (Nat.le_zero.1 hcs)]
      cases fuel' <;> rfl
    | succ fuel ih =>
      intro fuel' cs hcs hcs'
      cases cs with
      | nil => cases fuel' <;> rfl
      | cons c rest =>
        cases fuel' with
        | zero => simp at hcs'
        | succ fuel' =>
          rw [List.length_cons] at hcs hcs'
          rw [ofCharsUpTo_cons, ofCharsUpTo_cons]
          rw [ih fuel' _ (by rw [List.length_drop]; omega) (by rw [List.length_drop]; omega)]
  exact henough fuel cs.length cs h (Nat.le_refl _)

theorem Piece.ofChars_cons (c : Char) (rest : List Char) :
    ofChars (c :: rest) = (firstPiece c rest).1 :: ofChars (rest.drop (firstPiece c rest).2) := by
  have hdrop : (rest.drop (firstPiece c rest).2).length ≤ rest.length := by
    rw [List.length_drop]
    omega
  calc ofChars (c :: rest)
      = ofCharsUpTo (rest.length + 1) (c :: rest) := rfl
    _ = (firstPiece c rest).1 :: ofCharsUpTo rest.length (rest.drop (firstPiece c rest).2) :=
        ofCharsUpTo_cons rest.length c rest
    _ = _ := by rw [ofCharsUpTo_eq_ofChars hdrop]

theorem Piece.ofChars_cons_char {c : Char} (rest : List Char)
    (hc : c ≠ '*' ∧ c ≠ '?' ∧ c ≠ '[') : ofChars (c :: rest) = .char c :: ofChars rest := by
  have hfirst : firstPiece c rest = (.char c, 0) := by
    rw [firstPiece, if_neg hc.1, if_neg hc.2.1, if_neg hc.2.2]
  rw [ofChars_cons, hfirst]
  rfl

/-- A pattern without wildcards stands for itself. -/
theorem Piece.ofChars_eq_map {cs : List Char} (h : ∀ c ∈ cs, c ≠ '*' ∧ c ≠ '?' ∧ c ≠ '[') :
    ofChars cs = cs.map .char := by
  induction cs with
  | nil => rfl
  | cons c rest ih =>
    have hrest := ih fun c' hc' => h c' (List.mem_cons_of_mem c hc')
    rw [ofChars_cons_char rest (h c List.mem_cons_self), hrest]
    rfl

/-! ## Slashes that stand for themselves -/

/-- No slash of the pattern stands in a set: as many slashes are among its pieces. -/
def SlashesPlain (cs : List Char) : Prop :=
  (Piece.ofChars cs).count (.char '/') = cs.count '/'

instance (cs : List Char) : Decidable (SlashesPlain cs) :=
  inferInstanceAs (Decidable (_ = _))

/-- The slashes among the pieces: one for a slash in front, and those of the pieces after it. -/
theorem count_slash_ofChars_cons (c : Char) (rest : List Char) :
    (Piece.ofChars (c :: rest)).count (.char '/') =
      (Piece.ofChars (rest.drop (firstPiece c rest).2)).count (.char '/') +
        if c = '/' then 1 else 0 := by
  rw [Piece.ofChars_cons, List.count_cons]
  simp only [beq_iff_eq, firstPiece_eq_slash_iff]

theorem count_slash_cons_split (c : Char) (rest : List Char) (n : Nat) :
    (c :: rest).count '/' =
      (rest.take n).count '/' + (rest.drop n).count '/' + if c = '/' then 1 else 0 := by
  rw [List.count_cons, ← List.count_append, List.take_append_drop]
  simp only [beq_iff_eq]

theorem count_slash_ofChars_le (cs : List Char) :
    (Piece.ofChars cs).count (.char '/') ≤ cs.count '/' := by
  induction hn : cs.length using Nat.strongRecOn generalizing cs with
  | _ n ih =>
    subst hn
    cases cs with
    | nil => exact Nat.le_refl 0
    | cons c rest =>
      have hdrop := ih _ (by rw [List.length_cons, List.length_drop]; omega)
        (rest.drop (firstPiece c rest).2) rfl
      have hsplit := count_slash_cons_split c rest (firstPiece c rest).2
      have hpieces := count_slash_ofChars_cons c rest
      omega

/-- A pattern is cut at a slash that stands for itself. -/
theorem Piece.ofChars_append_slash {a b : List Char} (h : SlashesPlain (a ++ '/' :: b)) :
    ofChars (a ++ '/' :: b) = ofChars a ++ .char '/' :: ofChars b ∧ SlashesPlain b := by
  induction hn : a.length using Nat.strongRecOn generalizing a with
  | _ n ih =>
    subst hn
    cases a with
    | nil =>
      have hfirst := ofChars_cons_char (c := '/') b (by decide)
      refine ⟨hfirst, ?_⟩
      simpa [SlashesPlain, hfirst] using h
    | cons c a =>
      rw [List.cons_append] at h ⊢
      -- The first piece takes no slash, so it ends before the one at which the pattern is cut.
      have hsplit := count_slash_cons_split c (a ++ '/' :: b) (firstPiece c (a ++ '/' :: b)).2
      have hpieces := count_slash_ofChars_cons c (a ++ '/' :: b)
      have hle := count_slash_ofChars_le ((a ++ '/' :: b).drop (firstPiece c (a ++ '/' :: b)).2)
      have hnone : ((a ++ '/' :: b).take (firstPiece c (a ++ '/' :: b)).2).count '/' = 0 := by
        rw [SlashesPlain] at h
        omega
      have hwithin : (firstPiece c (a ++ '/' :: b)).2 ≤ a.length := by
        by_contra hbeyond
        refine List.count_eq_zero.1 hnone (List.mem_take_iff_getElem.2 ⟨a.length, ?_, by simp⟩)
        simp
        omega
      have hdrop : (a ++ '/' :: b).drop (firstPiece c (a ++ '/' :: b)).2 =
          a.drop (firstPiece c a).2 ++ '/' :: b := by
        rw [List.drop_append_of_le_length hwithin, firstPiece_append hwithin]
      have hrest : SlashesPlain (a.drop (firstPiece c a).2 ++ '/' :: b) := by
        rw [← hdrop, SlashesPlain]
        rw [SlashesPlain] at h
        omega
      rcases ih _ (by rw [List.length_cons, List.length_drop]; omega) hrest rfl with ⟨heq, hb⟩
      refine ⟨?_, hb⟩
      rw [ofChars_cons, hdrop, heq, ofChars_cons, firstPiece_append hwithin]
      rfl

/-! ## Texts that fit -/

theorem anySuffix_iff {p : List Char → Bool} {cs : List Char} :
    anySuffix p cs = true ↔ ∃ a b, cs = a ++ b ∧ p b = true := by
  induction cs with
  | nil => simp [anySuffix]
  | cons c rest ih =>
    rw [anySuffix, Bool.or_eq_true, ih]
    constructor
    · intro hcase
      rcases hcase with h | ⟨a, b, rfl, h⟩
      · exact ⟨[], c :: rest, rfl, h⟩
      · exact ⟨c :: a, b, rfl, h⟩
    · intro hcase
      rcases hcase with ⟨a, b, heq, h⟩
      cases a with
      | nil =>
        rw [heq]
        exact Or.inl h
      | cons c' a =>
        cases heq
        exact Or.inr ⟨a, b, rfl, h⟩

theorem matchesPieces_star_iff {pieces : List Piece} {cs : List Char} :
    matchesPieces (.star :: pieces) cs = true ↔
      ∃ a b, cs = a ++ b ∧ matchesPieces pieces b = true := by
  rw [matchesPieces]
  exact anySuffix_iff

/-- A piece other than a star stands for one character. -/
theorem matchesPieces_cons_iff {piece : Piece} {pieces : List Piece} {cs : List Char}
    (h : piece ≠ .star) :
    matchesPieces (piece :: pieces) cs = true ↔
      ∃ c rest, cs = c :: rest ∧ piece.accepts c = true ∧ matchesPieces pieces rest = true := by
  cases cs with
  | nil => cases piece <;> simp_all [matchesPieces]
  | cons c rest => cases piece <;> simp_all [matchesPieces]

/-- Pieces one after the other fit what they fit one after the other. -/
theorem matchesPieces_append {ps qs : List Piece} {xs ys : List Char}
    (hps : matchesPieces ps xs = true) (hqs : matchesPieces qs ys = true) :
    matchesPieces (ps ++ qs) (xs ++ ys) = true := by
  induction ps generalizing xs with
  | nil =>
    have hxs : xs = [] := List.isEmpty_iff.1 hps
    rw [hxs]
    exact hqs
  | cons piece ps ih =>
    by_cases hstar : piece = .star
    · subst hstar
      rcases matchesPieces_star_iff.1 hps with ⟨a, b, rfl, hb⟩
      exact matchesPieces_star_iff.2 ⟨a, b ++ ys, List.append_assoc a b ys, ih hb⟩
    · rcases (matchesPieces_cons_iff hstar).1 hps with ⟨c, rest, rfl, hc, hrest⟩
      exact (matchesPieces_cons_iff hstar).2 ⟨c, rest ++ ys, rfl, hc, ih hrest⟩

/-- What fits nothing at all is made of stars, and these fit everything. -/
theorem matchesPieces_of_nil {ps : List Piece} (hne : ps ≠ []) (h : matchesPieces ps [] = true)
    (cs : List Char) : matchesPieces ps cs = true := by
  induction ps with
  | nil => exact absurd rfl hne
  | cons piece ps ih =>
    by_cases hstar : piece = .star
    · subst hstar
      rcases matchesPieces_star_iff.1 h with ⟨a, b, heq, hb⟩
      rcases List.append_eq_nil_iff.1 heq.symm with ⟨-, rfl⟩
      exact matchesPieces_star_iff.2 ⟨cs, [], (List.append_nil cs).symm, hb⟩
    · rcases (matchesPieces_cons_iff hstar).1 h with ⟨c, rest, heq, -⟩
      cases heq

theorem count_slash_le_of_matchesPieces {ps : List Piece} {cs : List Char}
    (h : matchesPieces ps cs = true) : ps.count (.char '/') ≤ cs.count '/' := by
  induction ps generalizing cs with
  | nil => exact Nat.zero_le _
  | cons piece ps ih =>
    by_cases hstar : piece = .star
    · subst hstar
      rcases matchesPieces_star_iff.1 h with ⟨a, b, rfl, hb⟩
      have hle := ih hb
      rw [List.count_append]
      simp only [List.count_cons]
      simp
      omega
    · rcases (matchesPieces_cons_iff hstar).1 h with ⟨c, rest, rfl, hc, hrest⟩
      have hle := ih hrest
      rw [List.count_cons, List.count_cons]
      by_cases hslash : piece = .char '/'
      · subst hslash
        have hc : c = '/' := by simpa [Piece.accepts] using hc
        simp [hc]
        omega
      · simp [hslash]
        omega

/-! ## Patterns joined by slashes -/

theorem fits_map_char (cs : List Char) : matchesPieces (cs.map .char) cs = true := by
  induction cs with
  | nil => rfl
  | cons c rest ih => simp [matchesPieces, Piece.accepts, ih]

theorem fits_append_slash {a b xs ys : List Char} (h : SlashesPlain (a ++ '/' :: b))
    (ha : fits a xs = true) (hb : fits b ys = true) :
    fits (a ++ '/' :: b) (xs ++ '/' :: ys) = true := by
  rw [fits, (Piece.ofChars_append_slash h).1]
  refine matchesPieces_append ha ?_
  exact (matchesPieces_cons_iff (by simp)).2 ⟨'/', ys, rfl, by simp [Piece.accepts], hb⟩

/-- A text has at least the slashes of a pattern that it fits. -/
theorem count_slash_le_of_fits {pattern text : List Char} (hplain : SlashesPlain pattern)
    (h : fits pattern text = true) : pattern.count '/' ≤ text.count '/' := by
  have hle := count_slash_le_of_matchesPieces h
  rwa [hplain] at hle

end Pattern
end PropCatalog
