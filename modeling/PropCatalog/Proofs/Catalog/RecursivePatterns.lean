import PropCatalog.Proofs.Catalog.SharedPatterns

/-!
# Recursive patterns — exclusion at every depth

A star describes slashes like other characters, so that two stars and a slash in front of a pattern
describe everything up to some slash. Since they may also be dropped, the pattern is looked for in
the path as a whole and behind each of its slashes, that is, in each directory on the way.

- `Pattern.Describes`, `fits_iff_describes` : what a pattern describes, piece by piece
- `fits_stars_slash_iff`                    : a pattern behind two stars and a slash
- `exists_slash_split_iff`                  : the ends of a path behind its slashes
- `recursive_patterns_exclude`              : what such a pattern and a list of patterns exclude
-/

namespace PropCatalog
namespace Pattern

/-! ## What a pattern describes -/

/-- The texts that the pieces of a pattern describe: a star any text, and any other piece one
character that it accepts. -/
inductive Describes : List Piece → List Char → Prop where
  | nil : Describes [] []
  | star {pieces : List Piece} (cs : List Char) {ds : List Char} :
      Describes pieces ds → Describes (.star :: pieces) (cs ++ ds)
  | cons {piece : Piece} {pieces : List Piece} {c : Char} {cs : List Char} :
      piece.accepts c = true → Describes pieces cs → Describes (piece :: pieces) (c :: cs)

theorem matchesPieces_iff_describes {pieces : List Piece} {cs : List Char} :
    matchesPieces pieces cs = true ↔ Describes pieces cs := by
  induction pieces generalizing cs with
  | nil =>
    rw [matchesPieces, List.isEmpty_iff]
    constructor
    · rintro rfl
      exact .nil
    · intro h
      cases h
      rfl
  | cons piece pieces ih =>
    by_cases hstar : piece = .star
    · subst hstar
      rw [matchesPieces_star_iff]
      constructor
      · rintro ⟨a, b, rfl, hb⟩
        exact .star a (ih.1 hb)
      · intro h
        cases h with
        | star a hb => exact ⟨a, _, rfl, ih.2 hb⟩
        | cons haccepts _ => cases haccepts
    · rw [matchesPieces_cons_iff hstar]
      constructor
      · rintro ⟨c, rest, rfl, hc, hrest⟩
        exact .cons hc (ih.1 hrest)
      · intro h
        cases h with
        | star => exact absurd rfl hstar
        | cons hc hrest => exact ⟨_, _, rfl, hc, ih.2 hrest⟩

theorem fits_iff_describes {pattern text : List Char} :
    fits pattern text = true ↔ Describes (Piece.ofChars pattern) text :=
  matchesPieces_iff_describes

/-! ## Two stars and a slash -/

theorem ofChars_stars_slash (pattern : List Char) :
    Piece.ofChars ('*' :: '*' :: '/' :: pattern) =
      .star :: .star :: .char '/' :: Piece.ofChars pattern := by
  have hstar : ∀ rest, firstPiece '*' rest = (.star, 0) := fun rest => rfl
  rw [Piece.ofChars_cons, hstar, List.drop_zero, Piece.ofChars_cons, hstar, List.drop_zero,
    Piece.ofChars_cons_char pattern (by decide)]

/-- Behind two stars and a slash a pattern describes what stands behind some slash. -/
theorem fits_stars_slash_iff {pattern text : List Char} :
    fits ('*' :: '*' :: '/' :: pattern) text = true ↔
      ∃ before after, text = before ++ '/' :: after ∧ fits pattern after = true := by
  rw [fits, ofChars_stars_slash, matchesPieces_star_iff]
  constructor
  · rintro ⟨a, b, rfl, hb⟩
    rcases matchesPieces_star_iff.1 hb with ⟨a', b', rfl, hb'⟩
    rcases (matchesPieces_cons_iff (by simp)).1 hb' with ⟨c, after, rfl, hc, hafter⟩
    have hslash : c = '/' := by simpa [Piece.accepts] using hc
    exact ⟨a ++ a', after, by rw [hslash, List.append_assoc], hafter⟩
  · rintro ⟨before, after, rfl, hafter⟩
    refine ⟨[], before ++ '/' :: after, rfl, matchesPieces_star_iff.2 ⟨before, _, rfl, ?_⟩⟩
    exact (matchesPieces_cons_iff (by simp)).2 ⟨'/', after, rfl, by simp [Piece.accepts], hafter⟩

theorem excludes_stars_slash_iff {pattern path : String} :
    excludes path ("**/" ++ pattern) = true ↔
      fits pattern.toList path.toList = true ∨
        ∃ before after, path.toList = before ++ '/' :: after ∧
          fits pattern.toList after = true := by
  have htext : ("**/" ++ pattern).toList = '*' :: '*' :: '/' :: pattern.toList := by simp
  have hstrip : Text.stripPrefix? ['*', '*', '/'] ('*' :: '*' :: '/' :: pattern.toList) =
      some pattern.toList := by
    simp [Text.stripPrefix?, Text.startsWith]
  rw [excludes, htext, hstrip, Bool.or_eq_true, fits_stars_slash_iff]
  exact or_comm

theorem isExcluded_iff {path : String} {patterns : List String} :
    isExcluded path patterns = true ↔ ∃ pattern ∈ patterns, excludes path pattern = true :=
  List.any_eq_true

theorem isExcluded_singleton (path pattern : String) :
    isExcluded path [pattern] = excludes path pattern := by
  simp [isExcluded]

end Pattern

/-! ## Directories on the way -/

/-- A slash behind a text without slashes and a slash is that slash or a later one. -/
theorem append_slash_eq_iff {a x after : List Char} (ha : '/' ∉ a) :
    (∃ before, a ++ '/' :: x = before ++ '/' :: after) ↔
      x = after ∨ ∃ before, x = before ++ '/' :: after := by
  constructor
  · rintro ⟨before, heq⟩
    rcases List.append_eq_append_iff.1 heq with ⟨more, rfl, hmore⟩ | ⟨more, hbefore, hmore⟩
    · cases more with
      | nil => exact Or.inl (List.tail_eq_of_cons_eq hmore)
      | cons c more => exact Or.inr ⟨more, List.tail_eq_of_cons_eq hmore⟩
    · cases more with
      | nil => exact Or.inl (List.tail_eq_of_cons_eq hmore).symm
      | cons c more =>
        -- The slash would stand within `a`.
        cases hmore
        exact absurd (by simp [hbefore]) ha
  · rintro (rfl | ⟨before, rfl⟩)
    · exact ⟨a, rfl⟩
    · exact ⟨a ++ '/' :: before, by simp⟩

/-- What stands behind a slash of a path is the path as seen from a directory on the way. -/
theorem exists_slash_split_iff {name : String} {names : List String}
    (hfree : ∀ name' ∈ name :: names, '/' ∉ name'.toList) {after : List Char} :
    (∃ before, slashed (name :: names) = before ++ '/' :: after) ↔
      ∃ tail, tail <:+ names ∧ tail ≠ [] ∧ slashed tail = after := by
  have hname := hfree name List.mem_cons_self
  induction names generalizing name with
  | nil =>
    rw [slashed_singleton]
    constructor
    · rintro ⟨before, heq⟩
      exact absurd (by simp [heq]) hname
    · rintro ⟨tail, htail, hne, -⟩
      exact absurd (List.suffix_nil.1 htail) hne
  | cons next names ih =>
    have hrest : ∀ name' ∈ next :: names, '/' ∉ name'.toList :=
      fun name' hname' => hfree name' (List.mem_cons_of_mem name hname')
    have hlater := ih hrest (hrest next List.mem_cons_self)
    rw [slashed_cons name (by simp), append_slash_eq_iff hname]
    refine (or_congr_right hlater).trans ?_
    constructor
    · rintro (rfl | ⟨tail, htail, hne, rfl⟩)
      · exact ⟨next :: names, List.suffix_rfl, by simp, rfl⟩
      · exact ⟨tail, htail.trans (List.suffix_cons next names), hne, rfl⟩
    · rintro ⟨tail, htail, hne, rfl⟩
      rcases List.suffix_cons_iff.1 htail with rfl | htail
      · exact Or.inl rfl
      · exact Or.inr ⟨tail, htail, hne, rfl⟩

open Pattern in
/-- A pattern behind two stars and a slash excludes a path exactly if it describes the path or what
stands behind one of its slashes; for a path of names this is the path as seen from the root or from
a directory on the way. A list of patterns excludes what one of them alone excludes. -/
theorem recursive_patterns_exclude (pattern path : String) :
    (isExcluded path ["**/" ++ pattern] = true ↔
      Describes (Piece.ofChars pattern.toList) path.toList ∨
        ∃ before after, path.toList = before ++ '/' :: after ∧
          Describes (Piece.ofChars pattern.toList) after) ∧
    (∀ names : List String, names ≠ [] → (∀ name ∈ names, '/' ∉ name.toList) →
      path.toList = slashed names →
      (isExcluded path ["**/" ++ pattern] = true ↔
        ∃ tail, tail <:+ names ∧ tail ≠ [] ∧
          Describes (Piece.ofChars pattern.toList) (slashed tail))) ∧
    ∀ patterns, isExcluded path patterns = true ↔
      ∃ single ∈ patterns, isExcluded path [single] = true := by
  have hdepth : isExcluded path ["**/" ++ pattern] = true ↔
      Describes (Piece.ofChars pattern.toList) path.toList ∨
        ∃ before after, path.toList = before ++ '/' :: after ∧
          Describes (Piece.ofChars pattern.toList) after := by
    rw [isExcluded_singleton, excludes_stars_slash_iff]
    simp only [fits_iff_describes]
  refine ⟨hdepth, ?_, ?_⟩
  · intro names hnames hfree hpath
    rw [hdepth, hpath]
    cases names with
    | nil => exact absurd rfl hnames
    | cons name names =>
      constructor
      · rintro (hwhole | ⟨before, after, heq, hafter⟩)
        · exact ⟨name :: names, List.suffix_rfl, hnames, hwhole⟩
        · rcases (exists_slash_split_iff hfree).1 ⟨before, heq⟩ with ⟨tail, htail, hne, rfl⟩
          exact ⟨tail, htail.trans (List.suffix_cons name names), hne, hafter⟩
      · rintro ⟨tail, htail, hne, hdescribes⟩
        rcases List.suffix_cons_iff.1 htail with rfl | htail
        · exact Or.inl hdescribes
        · rcases (exists_slash_split_iff hfree).2 ⟨tail, htail, hne, rfl⟩ with ⟨before, heq⟩
          exact Or.inr ⟨before, slashed tail, heq, hdescribes⟩
  · intro patterns
    simp only [isExcluded_iff, isExcluded_singleton]

open Pattern in
theorem recursive_patterns_exclude_stories :
    isExcluded "src/ui/Box.stories.tsx" ["**/" ++ "ui/*.stories.tsx"] = true ∧
      ∃ tail, tail <:+ ["src", "ui", "Box.stories.tsx"] ∧ tail ≠ [] ∧
        Describes (Piece.ofChars "ui/*.stories.tsx".toList) (slashed tail) := by
  have hexcluded : isExcluded "src/ui/Box.stories.tsx" ["**/" ++ "ui/*.stories.tsx"] = true := by
    decide +kernel
  exact ⟨hexcluded, ((recursive_patterns_exclude "ui/*.stories.tsx" "src/ui/Box.stories.tsx").2.1
    ["src", "ui", "Box.stories.tsx"] (by decide) (by decide) (by decide)).1 hexcluded⟩

end PropCatalog
