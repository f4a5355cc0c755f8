import PropCatalog.Proofs.Assoc
import PropCatalog.Proofs.Catalog.Discovery
import PropCatalog.Proofs.Fallible
import PropCatalog.Proofs.Path
import PropCatalog.Proofs.Pattern.Wildcard

/-!
# Shared patterns — patterns that both include and exclude

A pattern finds files part by part, and it excludes them as one text in which slashes are characters
like any other. This file compares the two readings. A pattern that is written as the path it reads
as excludes what it finds, as long as every `**` stands for a directory; only the `**` in front may
stand for none. Where another `**` stands for none, the path has too few slashes for the pattern.

- `Glob.SpellsDeep`, `Spells.deep` : parts for which every inner `**` stands for a directory
- `excludes_of_spellsDeep`  : what is found is excluded
- `excludes_eq_false_of_short`, `excludes_eq_false_of_dot` : what is found and is not excluded
- `mem_discover_iff`        : the files that remain
- `shared_patterns_exclude` : a pattern among the includes and the excludes
-/

namespace PropCatalog

/-! ## Names below a directory -/

/-- Names without slashes have one slash less between them than there are names. -/
theorem count_slash_slashed {names : List String} (h : ∀ name ∈ names, '/' ∉ name.toList) :
    (slashed names).count '/' = names.length - 1 := by
  induction names with
  | nil => rfl
  | cons name names ih =>
    have hname : name.toList.count '/' = 0 := List.count_eq_zero.2 (h name List.mem_cons_self)
    by_cases hrest : names = []
    · rw [hrest, slashed_singleton, hname]
      rfl
    · have hcount := ih fun name' hname' => h name' (List.mem_cons_of_mem name hname')
      have hlength := List.length_pos_iff.2 hrest
      rw [slashed_cons name hrest, List.count_append, List.count_cons, hname, hcount]
      simp
      omega

/-- A text is cut at its first slash in one way. -/
theorem append_slash_inj {a b x y : List Char} (ha : '/' ∉ a) (hb : '/' ∉ b)
    (h : a ++ '/' :: x = b ++ '/' :: y) : a = b ∧ x = y := by
  induction a generalizing b with
  | nil =>
    cases b with
    | nil => exact ⟨rfl, List.tail_eq_of_cons_eq h⟩
    | cons d b =>
      injection h with hd
      exact absurd (hd ▸ List.mem_cons_self) hb
  | cons c a ih =>
    cases b with
    | nil =>
      injection h with hc
      exact absurd (hc ▸ List.mem_cons_self) ha
    | cons d b =>
      injection h with hcd hrest
      have hlater := ih (fun hmem => ha (List.mem_cons_of_mem c hmem))
        (fun hmem => hb (List.mem_cons_of_mem d hmem)) hrest
      exact ⟨by rw [hcd, hlater.1], hlater.2⟩

/-- What stands before a slash in the text of names without slashes is the first name. -/
theorem first_of_slashed {name : String} {names : List String} {first after : List Char}
    (hname : '/' ∉ name.toList) (hfirst : '/' ∉ first)
    (h : slashed (name :: names) = first ++ '/' :: after) :
    name.toList = first ∧ names ≠ [] ∧ slashed names = after := by
  have hmore : names ≠ [] := by
    rintro rfl
    rw [slashed_singleton] at h
    exact hname (by simp [h])
  rw [slashed_cons name hmore] at h
  rcases append_slash_inj hname hfirst h with ⟨hsame, hrest⟩
  exact ⟨hsame, hmore, hrest⟩

/-- A path below a directory is shown by its names, and the directory itself by a dot. -/
theorem toList_relativePath (root : Path) (names : List String) :
    (relativePath root (root.below names)).toList =
      if slashed names = [] then ['.'] else slashed names := by
  have hrelative : (root.below names).relativeTo? root = some { parts := names } := by
    simp [Path.below, Path.relativeTo?]
  have htext : ("/".intercalate names).toList = slashed names := String.toList_intercalate
  rw [relativePath, hrelative, Option.getD_some, Path.toString]
  simp only [String.empty_append, beq_iff_eq, ← String.toList_inj, htext, String.toList_empty]
  split <;> simp_all

/-- A path has a slash less than names below the directory. -/
theorem count_slash_relativePath {names : List String}
    (h : ∀ name ∈ names, '/' ∉ name.toList) (root : Path) :
    (relativePath root (root.below names)).toList.count '/' = names.length - 1 := by
  rw [toList_relativePath]
  split
  · rename_i hnothing
    rw [← count_slash_slashed h, hnothing]
    rfl
  · exact count_slash_slashed h

/-! ## What the parts of a pattern stand for -/

/-- The parts stand for the names with one directory or more for every `**`, the one in front
apart. -/
def Glob.SpellsDeep (parts : List GlobPart) (names : List String) : Prop :=
  Spells 1 parts names ∨ ∃ rest, parts = .directories :: rest ∧ Spells 1 rest names

/-- The parts without a `**` in front. -/
def Glob.inner : List GlobPart → List GlobPart
  | .directories :: rest => rest
  | parts => parts

namespace Glob

/-- Without `**` it does not matter for how many directories `**` stands. -/
theorem Spells.of_not_mem {least : Nat} {parts : List GlobPart} {names : List String}
    (h : Spells least parts names) (hparts : .directories ∉ parts) (most : Nat) :
    Spells most parts names := by
  induction h with
  | nil => exact Spells.nil
  | @cons part parts way names hpart _ ih =>
    refine Spells.cons ?_ (ih fun hmem => hparts (List.mem_cons_of_mem part hmem))
    cases part with
    | directories => exact absurd List.mem_cons_self hparts
    | wildcard pieces => exact hpart
    | name text => exact hpart

/-- If `**` stands in front only, then every path that is found counts. -/
theorem Spells.deep {parts : List GlobPart} {names : List String} (h : Spells 0 parts names)
    (hparts : .directories ∉ parts.tail) : SpellsDeep parts names := by
  cases h with
  | nil => exact Or.inl Spells.nil
  | @cons part parts way names hpart hrest =>
    have hdeep : Spells 1 parts names := hrest.of_not_mem hparts 1
    cases part with
    | directories =>
      cases way with
      | nil => exact Or.inr ⟨parts, rfl, hdeep⟩
      | cons name way => exact Or.inl (Spells.cons (Nat.le_add_left 1 way.length) hdeep)
    | wildcard pieces => exact Or.inl (Spells.cons hpart hdeep)
    | name text => exact Or.inl (Spells.cons hpart hdeep)

end Glob

/-! ## Patterns that are written as paths -/

/-- The pattern is written as the path it reads as, and no slash stands in a set. -/
structure Pattern.Plain (pattern : String) : Prop where
  written : (Path.ofString pattern).toString = pattern
  slashes : SlashesPlain pattern.toList

/-- A pattern without a leading `./`. -/
def withoutDot (pattern : String) : String :=
  match Text.stripPrefix? ['.', '/'] pattern.toList with
  | some rest => String.ofList rest
  | none => pattern

theorem mem_includePatterns {includes : List String} {pattern : String} :
    pattern ∈ includePatterns includes ↔
      ∃ P ∈ includes, ∃ E ∈ Pattern.expandBraces P, withoutDot E = pattern := by
  have hunfold : includePatterns includes =
      (includes.flatMap Pattern.expandBraces).map withoutDot := rfl
  rw [hunfold, List.mem_map]
  constructor
  · intro hcase
    rcases hcase with ⟨E, hE, hpattern⟩
    rcases List.mem_flatMap.1 hE with ⟨P, hP, hmem⟩
    exact ⟨P, hP, E, hmem, hpattern⟩
  · intro hcase
    rcases hcase with ⟨P, hP, E, hmem, hpattern⟩
    exact ⟨E, List.mem_flatMap.2 ⟨P, hP, hmem⟩, hpattern⟩

theorem not_mem_of_mem_splitAt {sep : Char} {cs piece : List Char}
    (h : piece ∈ Text.splitAt sep cs) : sep ∉ piece := by
  induction cs generalizing piece with
  | nil =>
    rw [Text.splitAt, List.mem_singleton] at h
    simp [h]
  | cons c rest ih =>
    rw [Text.splitAt] at h
    split at h
    · rcases List.mem_cons.1 h with rfl | h
      · simp
      · exact ih h
    · rename_i hc
      have hc : ¬ sep = c := fun heq => hc (by simp [heq])
      cases hsplit : Text.splitAt sep rest with
      | nil =>
        rw [hsplit] at h
        simp_all [Text.consLine]
      | cons first others =>
        rw [hsplit, Text.consLine] at h
        rcases List.mem_cons.1 h with rfl | h
        · have hfirst := ih (hsplit ▸ List.mem_cons_self)
          simp [hc, hfirst]
        · exact ih (hsplit ▸ List.mem_cons_of_mem _ h)

/-- The parts of a path are names: no part is empty, a single dot, or has a slash. -/
theorem part_of_mem_parts {text part : String} (h : part ∈ (Path.ofString text).parts) :
    part.toList ≠ [] ∧ part.toList ≠ ['.'] ∧ '/' ∉ part.toList := by
  rcases List.mem_map.1 h with ⟨cs, hcs, rfl⟩
  rcases List.mem_filter.1 hcs with ⟨hsplit, hkept⟩
  rw [String.toList_ofList]
  simp at hkept
  exact ⟨by simpa using hkept.1, by simpa using hkept.2, not_mem_of_mem_splitAt hsplit⟩

/-- What it means that a text is a pattern: its parts are patterns, and there are some. -/
theorem parts_of_glob {pattern : String} {g : Glob} (h : Glob.ofString pattern = .ok g) :
    pattern ≠ "" ∧ (Path.ofString pattern).root = "" ∧ (Path.ofString pattern).parts ≠ [] ∧
      List.Forall₂ (fun text part => GlobPart.ofString text = .ok part)
        (Path.ofString pattern).parts g.parts := by
  unfold Glob.ofString at h
  dsimp only at h
  split_ifs at h with hempty habsolute hparts
  refine ⟨by simpa using hempty, by simpa [Path.isAbsolute] using habsolute,
    by simpa using hparts, ?_⟩
  cases hmap : (Path.ofString pattern).parts.mapM GlobPart.ofString with
  | error e =>
    rw [hmap] at h
    cases h
  | ok parts =>
    rw [hmap] at h
    cases h
    exact mapM_eq_ok_iff.1 hmap

namespace Pattern.Plain

variable {pattern : String} {g : Glob} (hplain : Pattern.Plain pattern)

include hplain

/-- A pattern that is written as its path consists of the parts of this path. -/
theorem eq_slashed (hroot : (Path.ofString pattern).root = "")
    (hparts : (Path.ofString pattern).parts ≠ []) :
    pattern.toList = slashed (Path.ofString pattern).parts := by
  have hwritten := hplain.written
  have htext : ("/".intercalate (Path.ofString pattern).parts).toList =
      slashed (Path.ofString pattern).parts := String.toList_intercalate
  rw [Path.toString, hroot, String.empty_append] at hwritten
  by_cases hnothing : "/".intercalate (Path.ofString pattern).parts = ""
  · -- Only the dot is written for nothing, and it has no parts.
    simp only [hnothing, beq_self_eq_true, if_true] at hwritten
    rw [← hwritten] at hparts
    exact absurd (by decide) hparts
  · simp only [beq_iff_eq, hnothing, if_false] at hwritten
    rw [← htext, hwritten]

/-- No part is a single dot, so that nothing is dropped in front. -/
theorem withoutDot_eq : withoutDot pattern = pattern := by
  have hnone : Text.stripPrefix? ['.', '/'] pattern.toList = none := by
    rw [Text.stripPrefix?, if_neg]
    intro hstarts
    rcases List.isPrefixOf_iff_prefix.1 hstarts with ⟨after, hafter⟩
    have hroot : (Path.ofString pattern).root = "" := by
      rw [Path.ofString, ← hafter]
      rfl
    cases hlist : (Path.ofString pattern).parts with
    | nil =>
      have hwritten := hplain.written
      rw [Path.toString, hroot, hlist] at hwritten
      rw [← hwritten] at hafter
      cases hafter
    | cons part parts =>
      have hpart : part ∈ (Path.ofString pattern).parts := hlist ▸ List.mem_cons_self
      rcases part_of_mem_parts hpart with ⟨-, hdot, hslash⟩
      rw [hplain.eq_slashed hroot (by simp [hlist]), hlist] at hafter
      -- The first part would be the dot.
      exact hdot (first_of_slashed hslash (by decide : '/' ∉ ['.']) hafter.symm).1
  rw [withoutDot, hnone]

/-- The texts of the parts, as they stand in the pattern. -/
theorem exists_texts (hglob : Glob.ofString pattern = .ok g) :
    ∃ texts, pattern.toList = slashed texts ∧ texts ≠ [] ∧
      (∀ text ∈ texts, text.toList ≠ [] ∧ '/' ∉ text.toList) ∧
      List.Forall₂ (fun text part => GlobPart.ofString text = .ok part) texts g.parts := by
  rcases parts_of_glob hglob with ⟨-, hroot, hparts, hread⟩
  refine ⟨_, hplain.eq_slashed hroot hparts, hparts, ?_, hread⟩
  intro text htext
  have hpart := part_of_mem_parts htext
  exact ⟨hpart.1, hpart.2.2⟩

end Pattern.Plain

/-! ## What is found is excluded -/

/-- A part, read as a wildcard pattern of its own, fits the names that it stands for. -/
theorem fits_of_part {text : String} {part : GlobPart} (hread : GlobPart.ofString text = .ok part)
    {way : List String} (h : part.Spells 1 way) :
    way ≠ [] ∧ Pattern.fits text.toList (slashed way) = true := by
  unfold GlobPart.ofString at hread
  dsimp only at hread
  split_ifs at hread with hstars hmixed hwild
  · cases hread
    have htext : text = "**" := by simpa using hstars
    refine ⟨List.ne_nil_of_length_pos h, ?_⟩
    rw [htext]
    have hpieces : Pattern.Piece.ofChars "**".toList = [.star, .star] := by decide
    rw [Pattern.fits, hpieces]
    exact Pattern.matchesPieces_of_nil (by simp) (by decide) _
  · cases hread
    rcases h with ⟨name, rfl, hfits⟩
    exact ⟨by simp, by rw [slashed_singleton]; exact hfits⟩
  · cases hread
    cases h
    refine ⟨by simp, ?_⟩
    have hplain : ∀ c ∈ text.toList, c ≠ '*' ∧ c ≠ '?' ∧ c ≠ '[' := by
      intro c hc
      simp only [List.any_eq_true, not_exists, not_and, Bool.or_eq_true, beq_iff_eq] at hwild
      have := hwild c hc
      tauto
    rw [slashed_singleton, Pattern.fits, Pattern.Piece.ofChars_eq_map hplain]
    exact Pattern.fits_map_char text.toList

/-- Parts with slashes between them, read as one wildcard pattern, fit the names that they stand
for with a directory or more for every `**`. -/
theorem fits_of_spells {parts : List GlobPart} {names : List String}
    (h : Glob.Spells 1 parts names) {texts : List String}
    (hread : List.Forall₂ (fun text part => GlobPart.ofString text = .ok part) texts parts)
    (hslashes : Pattern.SlashesPlain (slashed texts)) (hparts : parts ≠ []) :
    names ≠ [] ∧ Pattern.fits (slashed texts) (slashed names) = true := by
  induction h generalizing texts with
  | nil => exact absurd rfl hparts
  | @cons part parts way names hpart hrest ih =>
    cases hread with
    | @cons text _ texts _ htext htexts =>
      rcases fits_of_part htext hpart with ⟨hway, hfits⟩
      by_cases hlast : parts = []
      · subst hlast
        cases hrest
        cases htexts
        rw [List.append_nil, slashed_singleton]
        exact ⟨hway, hfits⟩
      · have hmore : texts ≠ [] := by
          intro hnil
          rw [hnil] at htexts
          cases htexts
          exact hlast rfl
        rw [slashed_cons text hmore] at hslashes ⊢
        have hplain := (Pattern.Piece.ofChars_append_slash hslashes).2
        rcases ih htexts hplain hlast with ⟨hnames, hfitsRest⟩
        refine ⟨by simp [hway], ?_⟩
        rw [slashed_append hway hnames]
        exact Pattern.fits_append_slash hslashes hfits hfitsRest

/-- The same of the path that has these names: it is shown by them, or by a dot. -/
theorem fits_relativePath_of_spells {parts : List GlobPart} {names : List String}
    (h : Glob.Spells 1 parts names) {texts : List String}
    (hread : List.Forall₂ (fun text part => GlobPart.ofString text = .ok part) texts parts)
    (hslashes : Pattern.SlashesPlain (slashed texts)) (htexts : slashed texts ≠ []) (root : Path) :
    Pattern.fits (slashed texts) (relativePath root (root.below names)).toList = true := by
  have hparts : parts ≠ [] := by
    intro hnil
    rw [hnil] at hread
    cases hread
    exact htexts rfl
  have hfits := (fits_of_spells h hread hslashes hparts).2
  rw [toList_relativePath]
  split
  · -- Only stars fit the empty text, and these fit the dot as well.
    rename_i hnothing
    rw [hnothing] at hfits
    refine Pattern.matchesPieces_of_nil ?_ hfits _
    cases hchars : slashed texts with
    | nil => exact absurd hchars htexts
    | cons c cs =>
      rw [Pattern.Piece.ofChars_cons]
      exact List.cons_ne_nil _ _
  · exact hfits

theorem ofString_eq_directories {text : String} (h : GlobPart.ofString text = .ok .directories) :
    text = "**" := by
  unfold GlobPart.ofString at h
  dsimp only at h
  split_ifs at h with hstars
  · simpa using hstars
  · cases h
  · cases h

/-- What is left of a pattern without the `**` in front, and the slash after it. -/
theorem stripPrefix?_directories {texts : List String} (h : texts ≠ []) :
    Text.stripPrefix? ['*', '*', '/'] (slashed ("**" :: texts)) = some (slashed texts) := by
  rw [slashed_cons "**" h]
  rfl

/-- Only a part `**` in front can be left out. -/
theorem texts_of_stripPrefix? {texts : List String} (htext : ∀ text ∈ texts, '/' ∉ text.toList)
    {rest : List Char} (h : Text.stripPrefix? ['*', '*', '/'] (slashed texts) = some rest) :
    ∃ more, texts = "**" :: more ∧ more ≠ [] ∧ rest = slashed more := by
  unfold Text.stripPrefix? at h
  split at h
  · rename_i hstarts
    cases h
    rcases List.isPrefixOf_iff_prefix.1 hstarts with ⟨after, hafter⟩
    cases texts with
    | nil => cases hafter
    | cons text more =>
      rcases first_of_slashed (htext text List.mem_cons_self) (by decide : '/' ∉ ['*', '*'])
        hafter.symm with ⟨hfirst, hmore, rfl⟩
      refine ⟨more, ?_, hmore, ?_⟩
      · rw [String.toList_inj.1 (hfirst.trans (by decide : _ = "**".toList))]
      · rw [← hafter]
        rfl
  · cases h

/-- A pattern that is written as its path excludes what it finds with a directory or more for every
`**`, the one in front apart. -/
theorem excludes_of_spellsDeep {pattern : String} {g : Glob} (hglob : Glob.ofString pattern = .ok g)
    (hplain : Pattern.Plain pattern) {names : List String} (h : Glob.SpellsDeep g.parts names)
    (root : Path) :
    Pattern.excludes (relativePath root (root.below names)) pattern = true := by
  rcases hplain.exists_texts hglob with ⟨texts, heq, htexts, htext, hread⟩
  have hslashes := hplain.slashes
  unfold Pattern.excludes
  rw [heq] at hslashes ⊢
  rw [Bool.or_eq_true]
  rcases h with hdeep | ⟨rest, hrest, hdeep⟩
  · left
    have hsome := slashed_ne_nil htexts fun text ht => (htext text ht).1
    exact fits_relativePath_of_spells hdeep hread hslashes hsome root
  · rw [hrest] at hread
    cases hread with
    | @cons text _ texts _ hfirst hreadRest =>
      rw [ofString_eq_directories hfirst] at hslashes ⊢
      by_cases hlast : texts = []
      · -- Two stars alone fit every path.
        left
        have hpieces : Pattern.Piece.ofChars "**".toList = [.star, .star] := by decide
        rw [hlast, slashed_singleton, Pattern.fits, hpieces]
        exact Pattern.matchesPieces_of_nil (by simp) (by decide) _
      · right
        have hsome := slashed_ne_nil hlast fun text ht => (htext text (List.mem_cons_of_mem _ ht)).1
        rw [stripPrefix?_directories hlast]
        rw [slashed_cons "**" hlast] at hslashes
        have hslashesRest := (Pattern.Piece.ofChars_append_slash hslashes).2
        exact fits_relativePath_of_spells hdeep hreadRest hslashesRest hsome root

/-! ## What is found and is not excluded -/

/-- A pattern does not fit a text with fewer slashes. -/
theorem fits_eq_false_of_short {texts : List String}
    (hslashes : Pattern.SlashesPlain (slashed texts)) (htext : ∀ text ∈ texts, '/' ∉ text.toList)
    {shown : List Char} (hshort : shown.count '/' < texts.length - 1) :
    Pattern.fits (slashed texts) shown = false := by
  rw [Bool.eq_false_iff]
  intro hfits
  have hle := Pattern.count_slash_le_of_fits hslashes hfits
  rw [count_slash_slashed htext] at hle
  omega

theorem Glob.length_inner_le (parts : List GlobPart) : (inner parts).length ≤ parts.length := by
  unfold inner
  split <;> simp

/-- A path with fewer names than the pattern has parts, a `**` in front apart, has too few slashes
to be excluded. -/
theorem excludes_eq_false_of_short {pattern : String} {g : Glob}
    (hglob : Glob.ofString pattern = .ok g) (hplain : Pattern.Plain pattern) {names : List String}
    (hnames : names ≠ []) (hslashFree : ∀ name ∈ names, '/' ∉ name.toList)
    (hshort : names.length < (Glob.inner g.parts).length) (root : Path) :
    Pattern.excludes (relativePath root (root.below names)) pattern = false := by
  rcases hplain.exists_texts hglob with ⟨texts, heq, -, htext, hread⟩
  have hslashes := hplain.slashes
  have hpos := List.length_pos_iff.2 hnames
  have hshown := count_slash_relativePath hslashFree root
  have hfree : ∀ text ∈ texts, '/' ∉ text.toList := fun text ht => (htext text ht).2
  have hlength := hread.length_eq
  have hinner := Glob.length_inner_le g.parts
  unfold Pattern.excludes
  rw [heq] at hslashes ⊢
  -- Neither the pattern nor what is left of it fits, since both have more slashes.
  rw [fits_eq_false_of_short hslashes hfree (by omega), Bool.false_or]
  cases hstrip : Text.stripPrefix? ['*', '*', '/'] (slashed texts) with
  | none => rfl
  | some rest =>
    rcases texts_of_stripPrefix? hfree hstrip with ⟨more, rfl, hmore, rfl⟩
    rw [slashed_cons "**" hmore] at hslashes
    refine fits_eq_false_of_short (Pattern.Piece.ofChars_append_slash hslashes).2
      (fun text ht => hfree text (List.mem_cons_of_mem _ ht)) ?_
    rcases List.forall₂_cons_left_iff.1 hread with ⟨part, parts, hfirst, hreadRest, hparts⟩
    have hpart : part = .directories := by
      have hstars : GlobPart.ofString "**" = .ok .directories := by rfl
      rw [hstars] at hfirst
      cases hfirst
      rfl
    rw [hparts, hpart] at hshort
    have hmoreParts : names.length < more.length := hreadRest.length_eq ▸ hshort
    omega

/-- A pattern with `./` in front excludes no path below a directory. -/
theorem excludes_eq_false_of_dot {pattern : String} {rest : List Char}
    (hpattern : pattern.toList = '.' :: '/' :: rest) {names : List String}
    (hslashFree : ∀ name ∈ names, '/' ∉ name.toList) (hdot : "." ∉ names) (root : Path) :
    Pattern.excludes (relativePath root (root.below names)) pattern = false := by
  unfold Pattern.excludes
  rw [hpattern]
  have hstrip : Text.stripPrefix? ['*', '*', '/'] ('.' :: '/' :: rest) = none := rfl
  rw [hstrip, Bool.or_false, Bool.eq_false_iff, Pattern.fits,
    Pattern.Piece.ofChars_cons_char _ (by decide), Pattern.Piece.ofChars_cons_char _ (by decide)]
  intro hfits
  rcases (Pattern.matchesPieces_cons_iff (by simp)).1 hfits with ⟨c, cs, htext, hc, hfits⟩
  rcases (Pattern.matchesPieces_cons_iff (by simp)).1 hfits with ⟨c', after, rfl, hc', -⟩
  simp only [Pattern.Piece.accepts, beq_iff_eq] at hc hc'
  rw [hc, hc', toList_relativePath] at htext
  split at htext
  · simp at htext
  · cases names with
    | nil => cases htext
    | cons name names =>
      -- The first name would be the dot.
      have hname := (first_of_slashed (hslashFree name List.mem_cons_self)
        (by decide : '/' ∉ ['.']) htext).1
      have heq : name = "." := String.toList_inj.1 (hname.trans (by decide : _ = ".".toList))
      exact hdot (heq ▸ List.mem_cons_self)

/-! ## The files that remain -/

theorem mem_candidates_iff {ε : Type} {find : String → Except ε (List Path)}
    {isFile : Path → Except ε Bool} {patterns : List String} {files : List Path}
    (h : candidates find isFile patterns = .ok files) (p : Path) :
    p ∈ files ↔ isFile p = .ok true ∧
      ∃ pattern ∈ patterns, ∃ found, find pattern = .ok found ∧ p ∈ found := by
  rcases candidates_eq_ok_iff.1 h with ⟨founds, hall, rfl⟩
  have hsorted : ∀ {pattern paths found}, find pattern = .ok paths →
      filesAmong isFile (paths.mergeSort Path.le) = .ok found →
        (p ∈ found ↔ isFile p = .ok true ∧ ∃ found, find pattern = .ok found ∧ p ∈ found) := by
    intro pattern paths found hpaths hfound
    rw [mem_filesAmong_iff hfound, List.mem_mergeSort, and_comm, hpaths]
    simp
  clear h
  induction hall with
  | nil => simp
  | @cons pattern found patterns founds hfirst _ ih =>
    rcases hfirst with ⟨paths, hpaths, hfound⟩
    rw [List.flatten_cons, List.mem_append, List.exists_mem_cons_iff, and_or_left]
    exact or_congr (hsorted hpaths hfound) ih

/-- A file is returned, as seen from the root, if a pattern finds it and no pattern excludes it. -/
theorem mem_discover_iff {d : Disk} {s : Settings} {files : List Path}
    (h : discover d s = .ok files) (shown : String) :
    shown ∈ files.map (relativePath s.root) ↔
      Pattern.isExcluded shown (s.excludes.flatMap Pattern.expandBraces) = false ∧
        ∃ pattern ∈ includePatterns s.includes, ∃ g found, Glob.ofString pattern = .ok g ∧
          g.select d s.root = .ok found ∧
            ∃ p ∈ found, d.isFile [] p = .ok true ∧ relativePath s.root p = shown := by
  rcases bind_eq_ok_iff.1 h with ⟨paths, hpaths, hfiles⟩
  cases hfiles
  have hchosen : chooseFiles s.root (s.excludes.flatMap Pattern.expandBraces) paths =
      Assoc.firsts (relativePath s.root) (paths.filter fun p => !Pattern.isExcluded
        (relativePath s.root p) (s.excludes.flatMap Pattern.expandBraces)) := rfl
  rw [hchosen, Assoc.mem_map_firsts, List.mem_map]
  simp only [List.mem_filter, mem_candidates_iff hpaths, mapError_eq_ok_iff, findOn_eq_ok_iff,
    Bool.not_eq_true']
  constructor
  · rintro ⟨p, ⟨⟨hfile, pattern, hpattern, found, ⟨g, hglob, hselect⟩, hp⟩, hkept⟩, rfl⟩
    exact ⟨hkept, pattern, hpattern, g, found, hglob, hselect, p, hp, hfile, rfl⟩
  · rintro ⟨hkept, pattern, hpattern, g, found, hglob, hselect, p, hp, hfile, rfl⟩
    exact ⟨p, ⟨⟨hfile, pattern, hpattern, found, ⟨g, hglob, hselect⟩, hp⟩, hkept⟩, rfl⟩

/-- Files are found if every include pattern can be read and gone through, and it can be told of all
that it finds whether these are files. -/
theorem exists_discover_iff {d : Disk} {s : Settings} :
    (∃ files, discover d s = .ok files) ↔
      ∀ pattern ∈ includePatterns s.includes, ∃ g found, Glob.ofString pattern = .ok g ∧
        g.select d s.root = .ok found ∧ ∀ p ∈ found, ∃ isThere, d.isFile [] p = .ok isThere := by
  have hpattern : ∀ pattern, (∃ files, (do
        let paths ← findOn d s.root pattern
        filesAmong (fun p => (d.isFile [] p).mapError Failure.disk) (paths.mergeSort Path.le)) =
          .ok files) ↔
      ∃ g found, Glob.ofString pattern = .ok g ∧ g.select d s.root = .ok found ∧
        ∀ p ∈ found, ∃ isThere, d.isFile [] p = .ok isThere := by
    intro pattern
    simp only [bind_eq_ok_iff, findOn_eq_ok_iff]
    constructor
    · rintro ⟨files, found, ⟨g, hglob, hselect⟩, hfiles⟩
      have htold := exists_filesAmong_iff.1 ⟨files, hfiles⟩
      simp only [List.mem_mergeSort, mapError_eq_ok_iff] at htold
      exact ⟨g, found, hglob, hselect, htold⟩
    · rintro ⟨g, found, hglob, hselect, htold⟩
      have hfiles : ∃ files, filesAmong (fun p => (d.isFile [] p).mapError Failure.disk)
          (found.mergeSort Path.le) = .ok files := by
        refine exists_filesAmong_iff.2 ?_
        simpa only [List.mem_mergeSort, mapError_eq_ok_iff] using htold
      rcases hfiles with ⟨files, hfiles⟩
      exact ⟨files, found, ⟨g, hglob, hselect⟩, hfiles⟩
  simp only [← hpattern]
  rw [← exists_mapM_eq_ok_iff]
  exact exists_bind_pure_eq_ok_iff.trans exists_bind_pure_eq_ok_iff

/-- A pattern that stands among the include patterns and among the exclude patterns. What one of its
expansions finds is not returned if the expansion is written as a path and every `**`, the one in
front apart, stands for a directory or more; so nothing that it finds is returned if it has no other
`**`. Where a path has fewer names than the expansion has parts, or the expansion has `./` in front,
the expansion does not exclude the path, and it is returned if it is a file that no other pattern
excludes. -/
theorem shared_patterns_exclude {d : Disk} {s : Settings} {files : List Path} {P E : String}
    (hfiles : discover d s = .ok files) (hinclude : P ∈ s.includes) (hexclude : P ∈ s.excludes)
    (hE : E ∈ Pattern.expandBraces P) :
    ∃ g found, Glob.ofString (withoutDot E) = .ok g ∧ g.select d s.root = .ok found ∧
      ∀ p ∈ found, ∃ names, p = s.root.below names ∧ Glob.Spells 0 g.parts names ∧
        (Pattern.Plain E → Glob.SpellsDeep g.parts names ∨ .directories ∉ g.parts.tail →
          relativePath s.root p ∉ files.map (relativePath s.root)) ∧
        (names ≠ [] → (∀ name ∈ names, name ≠ "." ∧ '/' ∉ name.toList) →
          (Pattern.Plain E ∧ names.length < (Glob.inner g.parts).length ∨
            ['.', '/'] <+: E.toList) →
          d.isFile [] p = .ok true →
          (∀ E' ∈ s.excludes.flatMap Pattern.expandBraces, E' ≠ E →
            Pattern.excludes (relativePath s.root p) E' = false) →
          relativePath s.root p ∈ files.map (relativePath s.root)) := by
  have hpattern : withoutDot E ∈ includePatterns s.includes :=
    mem_includePatterns.2 ⟨P, hinclude, E, hE, rfl⟩
  rcases exists_discover_iff.1 ⟨files, hfiles⟩ _ hpattern with ⟨g, found, hglob, hselect, -⟩
  refine ⟨g, found, hglob, hselect, fun p hp => ?_⟩
  rcases Glob.spells_of_mem_select hselect hp with ⟨names, rfl, hspells⟩
  refine ⟨names, rfl, hspells, ?_, ?_⟩
  · intro hplain hcase hmem
    have hdeep : Glob.SpellsDeep g.parts names := hcase.elim id hspells.deep
    have hkept := ((mem_discover_iff hfiles _).1 hmem).1
    have hshared : E ∈ s.excludes.flatMap Pattern.expandBraces :=
      List.mem_flatMap.2 ⟨P, hexclude, hE⟩
    rw [hplain.withoutDot_eq] at hglob
    rw [Pattern.isExcluded, List.any_eq_false] at hkept
    exact hkept E hshared (excludes_of_spellsDeep hglob hplain hdeep s.root)
  · intro hnames hproper hcase hfile hothers
    refine (mem_discover_iff hfiles _).2
      ⟨?_, withoutDot E, hpattern, g, found, hglob, hselect, _, hp, hfile, rfl⟩
    have hslashFree := fun name hname => (hproper name hname).2
    have hspared : Pattern.excludes (relativePath s.root (s.root.below names)) E = false := by
      rcases hcase with ⟨hplain, hshort⟩ | ⟨rest, hrest⟩
      · rw [hplain.withoutDot_eq] at hglob
        exact excludes_eq_false_of_short hglob hplain hnames hslashFree hshort s.root
      · exact excludes_eq_false_of_dot hrest.symm hslashFree
          (fun hmem => (hproper "." hmem).1 rfl) s.root
    rw [Pattern.isExcluded, List.any_eq_false]
    intro E' hE'
    by_cases hsame : E' = E
    · rw [hsame, hspared]
      simp
    · rw [hothers E' hE' hsame]
      simp

/-- A project with a component in a directory and another one below it. -/
def nestedProject : Disk where
  entries := [(["src"], .directory), (["src", "App.tsx"], .file []),
    (["src", "ui"], .directory), (["src", "ui", "Box.tsx"], .file [])]

/-- Settings that include and exclude by the same pattern. -/
def overlappingSettings : Settings where
  root := { root := "/" }
  includes := ["src/**/*.\x7btsx,jsx\x7d"]
  excludes := ["src/**/*.\x7btsx,jsx\x7d"]

theorem shared_patterns_exclude_nested :
    ∃ files, discover nestedProject overlappingSettings = .ok files ∧
      "src/ui/Box.tsx" ∉ files.map (relativePath overlappingSettings.root) ∧
      "src/App.tsx" ∈ files.map (relativePath overlappingSettings.root) := by
  have hglob : Glob.ofString "src/**/*.tsx" = .ok ⟨[.name "src", .directories,
      .wildcard (Pattern.Piece.ofChars "*.tsx".toList)], false⟩ := by decide
  have hplain : Pattern.Plain "src/**/*.tsx" := ⟨by decide, by decide⟩
  have hselected : Glob.select ⟨[.name "src", .directories,
      .wildcard (Pattern.Piece.ofChars "*.tsx".toList)], false⟩ nestedProject
        overlappingSettings.root =
      .ok [⟨"/", ["src", "App.tsx"]⟩, ⟨"/", ["src", "ui", "Box.tsx"]⟩] := by decide +kernel
  have hpatterns : includePatterns overlappingSettings.includes =
      ["src/**/*.tsx", "src/**/*.jsx"] := by decide +kernel
  have hfound : ∃ files, discover nestedProject overlappingSettings = .ok files := by
    refine exists_discover_iff.2 ?_
    rw [hpatterns]
    intro pattern hpattern
    rcases List.mem_cons.1 hpattern with rfl | hpattern
    · refine ⟨_, _, hglob, hselected, fun p hp => ?_⟩
      rcases List.mem_pair.1 hp with rfl | rfl
      · exact ⟨true, by decide⟩
      · exact ⟨true, by decide⟩
    · rcases List.mem_singleton.1 hpattern with rfl
      exact ⟨_, [], rfl, by decide +kernel, fun p hp => absurd hp List.not_mem_nil⟩
  rcases hfound with ⟨files, hfiles⟩
  have hexpand : "src/**/*.tsx" ∈ Pattern.expandBraces "src/**/*.\x7btsx,jsx\x7d" := by
    decide +kernel
  rcases shared_patterns_exclude hfiles List.mem_cons_self List.mem_cons_self hexpand with
    ⟨g, found, hg, hselect, hall⟩
  rw [hplain.withoutDot_eq, hglob] at hg
  cases hg
  rw [hselected] at hselect
  cases hselect
  refine ⟨files, hfiles, ?_, ?_⟩
  · rcases hall { root := "/", parts := ["src", "ui", "Box.tsx"] } (by decide) with
      ⟨names, hbox, -, hlost, -⟩
    have hnames : names = ["src"] ++ (["ui"] ++ (["Box.tsx"] ++ [])) :=
      (congrArg Path.parts hbox).symm
    refine hlost hplain (Or.inl (Or.inl ?_))
    rw [hnames]
    exact .cons rfl (.cons (Nat.le_refl 1) (.cons ⟨"Box.tsx", rfl, by decide⟩ .nil))
  · rcases hall { root := "/", parts := ["src", "App.tsx"] } (by decide) with
      ⟨names, happ, -, -, hkept⟩
    have hnames : names = ["src", "App.tsx"] := (congrArg Path.parts happ).symm
    subst hnames
    refine hkept (by decide) (by decide) (Or.inl ⟨hplain, by decide⟩) (by decide) ?_
    decide +kernel

end PropCatalog
