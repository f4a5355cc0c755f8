import PropCatalog.Proofs.Disk
import PropCatalog.Proofs.Settings.Numbers

/-!
# Settings — what is refused and what is promised

Settings are refused for four mistakes of the document and for nothing else. All others are usable:
what the catalog relies on without checking it again holds of them.

- `Yaml.Datum.Holds`    : what a mapping has under a key
- `Yaml.Datum.Short`    : data whose integers can be written
- `Settings.Mistake`    : the mistakes, said about the document
- `Settings.Usable`     : what is promised of settings
- `settings_validated`  : loading fails exactly for a mistake, and gives usable settings otherwise
-/

namespace PropCatalog

/-! ## Looking into mappings -/

namespace Yaml
namespace Datum

/-- A mapping holds a value under a text: of the entries with this key the last one counts. -/
def Holds (d : Datum) (key : String) (value : Datum) : Prop :=
  ∃ before after, d = .map (before ++ (.text key, value) :: after) ∧ ∀ e ∈ after, e.1 ≠ .text key

theorem isText_iff {d : Datum} {key : String} : d.isText key = true ↔ d = .text key := by
  cases d <;> simp [isText]

theorem lookup?_eq_some_iff {entries : List (Datum × Datum)} {key : String} {value : Datum} :
    lookup? entries key = some value ↔
      ∃ before after, entries = before ++ (.text key, value) :: after ∧
        ∀ e ∈ after, e.1 ≠ .text key := by
  -- The entries are searched from the end: those that were passed over come after the one found.
  unfold lookup?
  rw [Option.map_eq_some_iff]
  constructor
  · rintro ⟨⟨found, value⟩, hfind, rfl⟩
    rcases List.find?_eq_some_iff_append.1 hfind with ⟨hkey, after, before, hentries, hafter⟩
    refine ⟨before.reverse, after.reverse, ?_, ?_⟩
    · obtain rfl : found = .text key := isText_iff.1 hkey
      simpa using congrArg List.reverse hentries
    · intro e he hkey
      simpa [hkey, isText] using hafter e (List.mem_reverse.1 he)
  · rintro ⟨before, after, rfl, hafter⟩
    refine ⟨(.text key, value), List.find?_eq_some_iff_append.2 ⟨?_, ?_⟩, rfl⟩
    · simp [isText]
    · refine ⟨after.reverse, before.reverse, by simp, ?_⟩
      intro e he
      have hne : ¬ e.1.isText key = true := fun hkey =>
        hafter e (List.mem_reverse.1 he) (isText_iff.1 hkey)
      simpa using hne

theorem holds_iff {d : Datum} {key : String} {value : Datum} :
    d.Holds key value ↔ lookup? d.entries key = some value := by
  rw [lookup?_eq_some_iff]
  cases d with
  | map entries =>
    constructor
    · rintro ⟨before, after, hd, hafter⟩
      cases hd
      exact ⟨before, after, rfl, hafter⟩
    · rintro ⟨before, after, hentries, hafter⟩
      exact ⟨before, after, congrArg Datum.map hentries, hafter⟩
  | _ => simp [Holds, entries]

/-- A property that nothing lacks holds of a field exactly if the field is there and has it. -/
theorem field_iff (d : Datum) (key : String) {P : Datum → Prop} (hnull : ¬ P .null) :
    P (d.field key) ↔ ∃ value, d.Holds key value ∧ P value := by
  simp only [holds_iff, field]
  cases hlookup : lookup? d.entries key with
  | none => simpa using hnull
  | some value => simp

/-- A datum is in another one: it is this one, or in an item of it, or in what it has under a
key. -/
inductive Within (d : Datum) : Datum → Prop
  | whole : Within d d
  | item {items : List Datum} {item : Datum} : item ∈ items → Within d item →
      Within d (.list items)
  | entry {entries : List (Datum × Datum)} {entry : Datum × Datum} : entry ∈ entries →
      Within d entry.2 → Within d (.map entries)

/-- No integer in a datum has more than 4300 digits. -/
def Short (d : Datum) : Prop :=
  ∀ n : Int, Within (.int n) d → (Text.decimal n.natAbs).length ≤ 4300

theorem short_null : Short .null := by
  intro n hn
  cases hn

theorem Short.held {d value : Datum} {key : String} (h : d.Short) (hholds : d.Holds key value) :
    value.Short := by
  rcases hholds with ⟨before, after, rfl, -⟩
  exact fun n hn => h n (.entry (List.mem_append_right before List.mem_cons_self) hn)

theorem Short.field {d : Datum} (h : d.Short) (key : String) : (d.field key).Short := by
  unfold Datum.field
  cases hvalue : lookup? d.entries key with
  | none => exact short_null
  | some value => exact h.held (holds_iff.2 hvalue)

theorem Short.isWritable {d : Datum} (h : d.Short) : d.isWritable = true := by
  cases d with
  | int n => exact decide_eq_true (h n .whole)
  | _ => rfl

/-- A short datum has the text that it would have without a limit. -/
theorem Short.written? {d : Datum} (h : d.Short) : d.written? = .ok d.text? :=
  written?_eq_ok_iff.2 ⟨h.isWritable, rfl⟩

theorem Short.writtenList {d : Datum} (h : d.Short) : d.writtenList = .ok d.textList := by
  unfold Datum.writtenList
  split
  · rename_i items
    have hall : items.all Datum.isWritable = true :=
      List.all_eq_true.2 fun item hitem => Short.isWritable fun n hn => h n (.item hitem hn)
    rw [if_pos hall]
  · rfl

/-- The integers that a datum may be given as. Truth values and doubles are given as none. -/
inductive ReadsAs : Datum → Int → Prop
  | int (n : Int) : ReadsAs (.int n) n
  | text {s : String} {n : Int} : Number.integer? s.toList = some n → ReadsAs (.text s) n

theorem int?_eq_some_iff {d : Datum} {n : Int} : d.int? = some n ↔ d.ReadsAs n := by
  constructor
  · intro h
    cases d with
    | int m =>
      cases h
      exact .int n
    | text s => exact .text h
    | _ => cases h
  · intro h
    cases h with
    | int => rfl
    | text hs => exact hs

end Datum
end Yaml

namespace Settings

open Yaml (Datum)

/-! ## Mistakes -/

/-- No pattern of component files is given, though the patterns are. -/
def NoIncludes (source : Datum) : Prop :=
  ∃ given, source.Holds "include" given ∧ given.textList = []

/-- The directory is given as a scalar whose text is blank. -/
def BlankDirectory (output : Datum) : Prop :=
  ∃ given directory, output.Holds "directory" given ∧ given.text? = some directory ∧
    ∀ c ∈ directory.toList, Text.isBlank c = true

/-- The number of permutations is given, but not as an integer from one on. -/
def BadPermutations (variants : Datum) : Prop :=
  ∃ given, variants.Holds "maxPermutations" given ∧ ¬ ∃ n : Int, given.ReadsAs n ∧ 1 ≤ n

/-- The mistakes of a document. -/
inductive Mistake (d : Datum) : SettingsError → Prop
  | notMapping : (∀ entries, d ≠ .map entries) → Mistake d .notMapping
  | noIncludes {source : Datum} : d.Holds "source" source → NoIncludes source →
      Mistake d .noIncludes
  | blankDirectory {output : Datum} : d.Holds "output" output → BlankDirectory output →
      Mistake d .blankDirectory
  | badPermutations {variants : Datum} : d.Holds "variants" variants → BadPermutations variants →
      Mistake d .badPermutations

/-! ## Usable settings -/

/-- The fallbacks: a text, a number and a text, under their three keys. -/
def FallbackTable (fallbacks : Fallbacks) : Prop :=
  ∃ text number children, fallbacks = [("string", .text text), ("number", number),
    ("children", .text children)] ∧ ((∃ n, number = .int n) ∨ ∃ x, number = .float x)

/-- What the catalog relies on. -/
structure Usable (s : Settings) : Prop where
  includes : s.includes ≠ []
  directory : ∃ c ∈ s.directory.toList, Text.isBlank c = false
  name : s.name ≠ ""
  baseUrl : s.baseUrl ≠ ""
  permutations : 1 ≤ s.maxPermutations
  fallbacks : FallbackTable s.fallbacks

/-! ## What each part refuses -/

theorem withNames_eq {s : Settings} {d : Datum} (hshort : d.Short) :
    s.withNames d = .ok { s with
      name := textOr s.name (d.field "name").text?
      description := (d.field "description").text?
      version := (d.field "version").text? } := by
  unfold withNames
  rw [(hshort.field "name").written?, (hshort.field "description").written?,
    (hshort.field "version").written?]
  rfl

/-- The texts under a key that is there, the default otherwise. -/
def givenTexts (default : List String) (d : Datum) (key : String) : List String :=
  if d.hasField key then (d.field key).textList else default

theorem textsOr_eq {default : List String} {d : Datum} (hshort : d.Short) (key : String) :
    textsOr default d key = .ok (givenTexts default d key) := by
  unfold textsOr givenTexts
  split
  · exact (hshort.field key).writtenList
  · rfl

theorem withSource_eq {s : Settings} {source : Datum} (hshort : source.Short) :
    s.withSource source =
      if (givenTexts s.includes source "include").isEmpty then .error (.mistake .noIncludes)
      else .ok { s with
        includes := givenTexts s.includes source "include"
        excludes := givenTexts s.excludes source "exclude"
        styleFiles := givenTexts s.styleFiles source "styleFiles" } := by
  unfold withSource
  rw [textsOr_eq hshort, textsOr_eq hshort, textsOr_eq hshort]
  cases hempty : (givenTexts s.includes source "include").isEmpty <;>
    simp only [needs, Except.mapError, bind, Except.bind, hempty] <;> rfl

theorem withSource_eq_error_iff {s : Settings} (hs : s.Usable) {source : Datum}
    (hshort : source.Short) {e : SettingsFault} :
    s.withSource source = .error e ↔ NoIncludes source ∧ e = .mistake .noIncludes := by
  have hempty : (givenTexts s.includes source "include").isEmpty = true ↔ NoIncludes source := by
    simp only [NoIncludes, Datum.holds_iff]
    cases hgiven : Datum.lookup? source.entries "include" with
    | none =>
      -- The patterns that are there already are kept.
      simpa [givenTexts, Datum.hasField, hgiven] using hs.includes
    | some given => simp [givenTexts, Datum.hasField, Datum.field, hgiven]
  rw [withSource_eq hshort, ← hempty]
  split
  · rename_i hnone
    simpa [hnone] using eq_comm
  · rename_i hsome
    simp [hsome]

theorem blankDirectory_iff {output : Datum} :
    BlankDirectory output ↔
      ∃ directory, (output.field "directory").text? = some directory ∧
        isBlankText directory = true := by
  simp only [BlankDirectory, Datum.holds_iff, Datum.field, isBlankText, List.all_eq_true]
  cases hgiven : Datum.lookup? output.entries "directory" with
  | none => simp [Datum.text?]
  | some given => simp

theorem withOutput_eq {s : Settings} {output : Datum} (hshort : output.Short) :
    s.withOutput output =
      if (((output.field "directory").text?.map isBlankText).getD false) then
        .error (.mistake .blankDirectory)
      else .ok { s with
        directory := (output.field "directory").text?.getD s.directory
        baseUrl := textOr s.baseUrl (output.field "baseUrl").text? } := by
  unfold withOutput
  rw [(hshort.field "directory").written?, (hshort.field "baseUrl").written?]
  cases hblank : ((output.field "directory").text?.map isBlankText).getD false <;>
    simp only [needs, Except.mapError, bind, Except.bind, hblank] <;> rfl

theorem withOutput_eq_error_iff {s : Settings} {output : Datum} (hshort : output.Short)
    {e : SettingsFault} :
    s.withOutput output = .error e ↔ BlankDirectory output ∧ e = .mistake .blankDirectory := by
  rw [withOutput_eq hshort, blankDirectory_iff]
  cases htext : (output.field "directory").text? with
  | none =>
    -- What is no scalar is passed over.
    simp
  | some directory =>
    by_cases hblank : isBlankText directory = true
    · simpa [hblank] using eq_comm
    · simp [hblank]

theorem permutationsOr_eq_error_iff (default : Int) {variants : Datum} {e : SettingsFault} :
    permutationsOr default variants = .error e ↔
      BadPermutations variants ∧ e = .mistake .badPermutations := by
  simp only [BadPermutations, Datum.holds_iff, ← Datum.int?_eq_some_iff]
  cases hgiven : Datum.lookup? variants.entries "maxPermutations" with
  | none => simp [permutationsOr, Datum.hasField, hgiven]
  | some given =>
    by_cases hgood : ∃ n, given.int? = some n ∧ 1 ≤ n
    · rcases hgood with ⟨n, hint, hone⟩
      have hpos : 0 < n := hone
      have hok : ¬ ∃ g, some given = some g ∧ ¬ ∃ n, g.int? = some n ∧ 1 ≤ n := by
        rintro ⟨g, hg, hbad⟩
        cases hg
        exact hbad ⟨n, hint, hone⟩
      simp only [hok, false_and, iff_false]
      simp [permutationsOr, Datum.hasField, Datum.field, hgiven, hint, hpos]
    · -- Either no integer is read, or one that is too small.
      have herror : permutationsOr default variants = .error (.mistake .badPermutations) := by
        cases hint : given.int? with
        | none => simp [permutationsOr, Datum.hasField, Datum.field, hgiven, hint]
        | some n =>
          have hpos : ¬ 0 < n := fun h => hgood ⟨n, hint, h⟩
          simp [permutationsOr, Datum.hasField, Datum.field, hgiven, hint, hpos]
      simp only [herror, Except.error.injEq]
      constructor
      · rintro rfl
        exact ⟨⟨given, rfl, hgood⟩, rfl⟩
      · exact fun h => h.2.symm

theorem exists_withFallbacks_eq_ok (fallbacks : Fallbacks) {defaults : Datum}
    (hshort : defaults.Short) : ∃ table, withFallbacks fallbacks defaults = .ok table := by
  unfold withFallbacks
  rw [(hshort.field "string").written?, (hshort.field "children").written?]
  exact ⟨_, rfl⟩

theorem withVariants_eq_error_iff {s : Settings} {variants : Datum} (hshort : variants.Short)
    {e : SettingsFault} :
    s.withVariants variants = .error e ↔
      BadPermutations variants ∧ e = .mistake .badPermutations := by
  rcases exists_withFallbacks_eq_ok s.fallbacks (hshort.field "defaultValues") with ⟨table, htable⟩
  rw [← permutationsOr_eq_error_iff s.maxPermutations]
  unfold withVariants
  rw [htable]
  exact bind_pure_eq_error_iff

/-! ## What each part keeps -/

theorem textOr_ne_empty {default : String} (h : default ≠ "") (text : Option String) :
    textOr default text ≠ "" := by
  unfold textOr
  cases text with
  | none => exact h
  | some text =>
    by_cases hempty : text = ""
    · simpa [Option.filter, hempty] using h
    · simp [Option.filter, hempty]

theorem Usable.withNames {s s' : Settings} (hs : s.Usable) {d : Datum}
    (h : s.withNames d = .ok s') : s'.Usable := by
  rcases bind_eq_ok_iff.1 h with ⟨name, -, h⟩
  rcases bind_eq_ok_iff.1 h with ⟨description, -, h⟩
  rcases bind_eq_ok_iff.1 h with ⟨version, -, h⟩
  cases h
  exact { hs with name := textOr_ne_empty hs.name name }

theorem Usable.withSource {s s' : Settings} (hs : s.Usable) {source : Datum}
    (h : s.withSource source = .ok s') : s'.Usable := by
  rcases bind_eq_ok_iff.1 h with ⟨includes, -, h⟩
  dsimp only at h
  split at h
  · cases h
  · rename_i hsome
    rcases bind_eq_ok_iff.1 h with ⟨excludes, -, h⟩
    rcases bind_eq_ok_iff.1 h with ⟨styleFiles, -, h⟩
    cases h
    exact { hs with includes := by simpa using hsome }

theorem Usable.withOutput {s s' : Settings} (hs : s.Usable) {output : Datum}
    (h : s.withOutput output = .ok s') : s'.Usable := by
  rcases bind_eq_ok_iff.1 h with ⟨directory, -, h⟩
  dsimp only at h
  split at h
  · cases h
  · rename_i hblank
    rcases bind_eq_ok_iff.1 h with ⟨baseUrl, -, h⟩
    cases h
    have hdirectory : ∃ c ∈ (directory.getD s.directory).toList, Text.isBlank c = false := by
      cases directory with
      | none => exact hs.directory
      | some directory => simpa [isBlankText] using hblank
    exact { hs with directory := hdirectory, baseUrl := textOr_ne_empty hs.baseUrl baseUrl }

namespace FallbackTable

theorem set_text {fallbacks : Fallbacks} (h : FallbackTable fallbacks) {key : String}
    (hkey : key ∈ ["string", "children"]) (t : String) :
    FallbackTable (Assoc.set fallbacks key (.text t)) := by
  rcases h with ⟨text, number, children, rfl, hnumber⟩
  simp only [List.mem_cons, List.not_mem_nil, or_false] at hkey
  rcases hkey with rfl | rfl
  · exact ⟨t, number, children, by simp [Assoc.set], hnumber⟩
  · exact ⟨text, number, t, by simp [Assoc.set], hnumber⟩

theorem set_number {fallbacks : Fallbacks} (h : FallbackTable fallbacks) {d : Datum}
    {value : Value} (hvalue : d.number? = some value) :
    FallbackTable (Assoc.set fallbacks "number" value) := by
  rcases h with ⟨text, number, children, rfl, -⟩
  have hnumber : (∃ n, value = .int n) ∨ ∃ x, value = .float x := by
    cases d with
    | int n =>
      cases hvalue
      exact Or.inl ⟨n, rfl⟩
    | float x =>
      cases hvalue
      exact Or.inr ⟨x, rfl⟩
    | _ => cases hvalue
  exact ⟨text, value, children, by simp [Assoc.set], hnumber⟩

/-- A fallback is replaced by one of its own kind, at its place. -/
theorem withFallbacks {fallbacks table : Fallbacks} (h : FallbackTable fallbacks)
    {defaults : Datum} (hmade : withFallbacks fallbacks defaults = .ok table) :
    FallbackTable table := by
  refine withFallbacks_of_set h hmade ?_ ?_
  · exact fun key hkey table t htable => htable.set_text hkey t
  · exact fun table value hvalue htable => htable.set_number hvalue

end FallbackTable

theorem permutationsOr_pos {default n : Int} (hdefault : 1 ≤ default) {variants : Datum}
    (h : permutationsOr default variants = .ok n) : 1 ≤ n := by
  unfold permutationsOr at h
  split at h
  · split at h
    · split at h
      · cases h
        assumption
      · cases h
    · cases h
  · cases h
    exact hdefault

theorem Usable.withVariants {s s' : Settings} (hs : s.Usable) {variants : Datum}
    (h : s.withVariants variants = .ok s') : s'.Usable := by
  rcases bind_eq_ok_iff.1 h with ⟨maxPermutations, hmax, h⟩
  rcases bind_eq_ok_iff.1 h with ⟨table, htable, h⟩
  cases h
  exact { hs with
    permutations := permutationsOr_pos hs.permutations hmax
    fallbacks := hs.fallbacks.withFallbacks (needs_eq_ok_iff.1 htable) }

/-! ## Documents -/

theorem usable_default (root : Path) : ({ root } : Settings).Usable where
  includes := List.cons_ne_nil _ _
  directory := ⟨'d', show 'd' ∈ "./docs".toList by decide, rfl⟩
  name := show "Components" ≠ "" by decide
  baseUrl := show "/" ≠ "" by decide
  permutations := show (1 : Int) ≤ 20 by decide
  fallbacks := ⟨_, _, _, rfl, Or.inl ⟨42, rfl⟩⟩

theorem ofDatum_eq {d : Datum} (h : d.isMap = true) (root : Path) :
    ofDatum root d = withNames { root } d >>= fun s =>
      s.withSource (d.field "source") >>= fun s =>
        s.withOutput (d.field "output") >>= fun s => s.withVariants (d.field "variants") := by
  unfold ofDatum
  rw [h]
  rfl

theorem not_holds_null (key : String) (value : Datum) : ¬ Datum.Holds .null key value := by
  rintro ⟨before, after, hnull, -⟩
  cases hnull

/-- A document is refused for a mistake that it has, or it has none and gives usable settings. -/
theorem ofDatum_cases (root : Path) {d : Datum} (hshort : d.Short) :
    (∃ e, Mistake d e ∧ ofDatum root d = .error (.mistake e)) ∨
      (¬ ∃ e, Mistake d e) ∧ ∃ s, ofDatum root d = .ok s ∧ s.Usable := by
  -- A part that is missing has no mistake.
  have hsource : NoIncludes (d.field "source") ↔ _ :=
    Datum.field_iff d "source" fun ⟨_, hgiven, _⟩ => not_holds_null _ _ hgiven
  have houtput : BlankDirectory (d.field "output") ↔ _ :=
    Datum.field_iff d "output" fun ⟨_, _, hgiven, _⟩ => not_holds_null _ _ hgiven
  have hvariants : BadPermutations (d.field "variants") ↔ _ :=
    Datum.field_iff d "variants" fun ⟨_, hgiven, _⟩ => not_holds_null _ _ hgiven
  by_cases hmap : ∃ entries, d = .map entries
  · have hisMap : d.isMap = true := by
      rcases hmap with ⟨entries, rfl⟩
      rfl
    have hnames := withNames_eq (s := { root }) hshort
    have hstart := (usable_default root).withNames hnames
    rw [ofDatum_eq hisMap, hnames]
    -- The parts are read one after the other, each from settings that are usable so far.
    rcases error_or_ok (fun _ => withSource_eq_error_iff hstart (hshort.field "source"))
      (fun _ => hstart.withSource) with
      ⟨hbad, hfirst⟩ | ⟨hfine₁, s₁, hfirst, hs₁⟩
    · rcases hsource.1 hbad with ⟨source, hholds, hbad⟩
      exact Or.inl ⟨_, .noIncludes hholds hbad, by simp only [hfirst, bind, Except.bind]⟩
    rcases error_or_ok (fun _ => withOutput_eq_error_iff (hshort.field "output"))
      (fun _ => hs₁.withOutput) with
      ⟨hbad, hsecond⟩ | ⟨hfine₂, s₂, hsecond, hs₂⟩
    · rcases houtput.1 hbad with ⟨output, hholds, hbad⟩
      exact Or.inl ⟨_, .blankDirectory hholds hbad,
        by simp only [hfirst, hsecond, bind, Except.bind]⟩
    rcases error_or_ok (fun _ => withVariants_eq_error_iff (hshort.field "variants"))
      (fun _ => hs₂.withVariants) with
      ⟨hbad, hthird⟩ | ⟨hfine₃, s₃, hthird, hs₃⟩
    · rcases hvariants.1 hbad with ⟨variants, hholds, hbad⟩
      exact Or.inl ⟨_, .badPermutations hholds hbad,
        by simp only [hfirst, hsecond, hthird, bind, Except.bind]⟩
    · refine Or.inr ⟨?_, s₃, by simp only [hfirst, hsecond, hthird, bind, Except.bind], hs₃⟩
      rintro ⟨e, hmistake⟩
      cases hmistake with
      | notMapping hnot => exact hmap.elim hnot
      | noIncludes hholds hbad => exact hfine₁ (hsource.2 ⟨_, hholds, hbad⟩)
      | blankDirectory hholds hbad => exact hfine₂ (houtput.2 ⟨_, hholds, hbad⟩)
      | badPermutations hholds hbad => exact hfine₃ (hvariants.2 ⟨_, hholds, hbad⟩)
  · refine Or.inl ⟨.notMapping, .notMapping fun entries h => hmap ⟨entries, h⟩, ?_⟩
    have hisMap : d.isMap = false := by
      cases d with
      | map entries => exact absurd ⟨entries, rfl⟩ hmap
      | _ => rfl
    rw [ofDatum, hisMap]
    rfl

/-- A document that denotes nothing is an empty mapping. -/
def document : Datum → Datum
  | .null => .map []
  | d => d

theorem short_document {d : Datum} (h : d.Short) : (document d).Short := by
  cases d with
  | null =>
    intro n hn
    cases hn with
    | entry hmem => cases hmem
  | _ => exact h

/-- Loading a text that is not blank ends with what its document gives. -/
theorem load_eq_ofDatum {env : Environment} {disk : Disk} {p file : Path} {text : String}
    {v : Datum} (hfile : fileFor env disk p = .ok file)
    (hread : disk.readText [] file = .ok text) (hblank : isBlankText text = false)
    (hload : Yaml.load text = .ok v) :
    load env disk p = (ofDatum file.parent (document v)).mapError Failure.ofSettings := by
  have hhas := Disk.has_of_readText hread
  have hdatum : readFile disk file = .ok (document v) := by
    unfold readFile
    simp only [hread, hblank, hload]
    -- Only a document that denotes nothing is replaced.
    cases v <;> rfl
  unfold load
  simp only [hfile, hhas, hdatum, bind, Except.bind, Except.mapError]
  rfl

end Settings

open Settings Yaml in
/-- Validation is exact, for every document in a settings file without integers that are too long to
be written. Loading is refused exactly if the document has a mistake, and always for a mistake that
it has; otherwise there are settings, and they are usable. -/
theorem settings_validated {env : Environment} {disk : Disk} {p file : Path} {text : String}
    {v : Datum} (hfile : fileFor env disk p = .ok file)
    (hread : disk.readText [] file = .ok text) (hblank : isBlankText text = false)
    (hload : Yaml.load text = .ok v) (hshort : v.Short) :
    ((∃ e, Settings.load env disk p = .error (.settings e)) ↔ ∃ e, Mistake (document v) e) ∧
      (∀ e, Settings.load env disk p = .error (.settings e) → Mistake (document v) e) ∧
      ((¬ ∃ e, Mistake (document v) e) → ∃ s, Settings.load env disk p = .ok s ∧ s.Usable) := by
  rw [load_eq_ofDatum hfile hread hblank hload]
  rcases ofDatum_cases file.parent (short_document hshort) with
    ⟨e, hmistake, herror⟩ | ⟨hnone, s, hok, hs⟩
  · rw [herror]
    refine ⟨⟨fun _ => ⟨e, hmistake⟩, fun _ => ⟨e, rfl⟩⟩, ?_,
      fun hnone => absurd ⟨e, hmistake⟩ hnone⟩
    intro e' he'
    cases he'
    exact hmistake
  · rw [hok]
    refine ⟨⟨?_, fun hmistake => absurd hmistake hnone⟩, ?_, fun _ => ⟨s, rfl, hs⟩⟩
    · rintro ⟨e, he⟩
      cases he
    · intro e he
      cases he

/-- A project whose settings give a number of permutations. -/
def permutationsProject (given : String) : Disk where
  entries := [(["docspark.yml"],
    .file (Text.encode ("variants: \x7bmaxPermutations: " ++ given ++ "\x7d").toList))]

open Settings Yaml in
/-- A truth value is refused, and a text may stand for a number. -/
theorem settings_validated_permutations :
    (∃ e, Settings.load { cwd := [], home := "/" } (permutationsProject "yes") {} =
        .error (.settings e)) ∧
      ∃ s, Settings.load { cwd := [], home := "/" } (permutationsProject "'7'") {} = .ok s ∧
        s.Usable := by
  have hfile : ∀ given, fileFor { cwd := [], home := "/" } (permutationsProject given) {} =
      .ok { root := "/", parts := ["docspark.yml"] } := fun _ => rfl
  have hreadYes :
      (permutationsProject "yes").readText [] { root := "/", parts := ["docspark.yml"] } =
        .ok "variants: \x7bmaxPermutations: yes\x7d" := by decide +kernel
  have hreadSeven :
      (permutationsProject "'7'").readText [] { root := "/", parts := ["docspark.yml"] } =
        .ok "variants: \x7bmaxPermutations: '7'\x7d" := by decide +kernel
  have hyes : Yaml.load "variants: \x7bmaxPermutations: yes\x7d" =
      .ok (.map [(.text "variants", .map [(.text "maxPermutations", .bool true)])]) := rfl
  have hseven : Yaml.load "variants: \x7bmaxPermutations: '7'\x7d" =
      .ok (.map [(.text "variants", .map [(.text "maxPermutations", .text "7")])]) := rfl
  have hshort : ∀ given : Datum, given.Short →
      (Datum.map [(.text "variants", .map [(.text "maxPermutations", given)])]).Short := by
    intro given hgiven n hn
    cases hn with
    | entry hmem hn =>
      cases List.mem_singleton.1 hmem
      cases hn with
      | entry hmem hn =>
        cases List.mem_singleton.1 hmem
        exact hgiven n hn
  have htrue : (Datum.bool true).Short := by
    intro n hn
    cases hn
  have htext : (Datum.text "7").Short := by
    intro n hn
    cases hn
  constructor
  · refine (settings_validated (hfile "yes") hreadYes (by decide) hyes (hshort _ htrue)).1.2
      ⟨.badPermutations, ?_⟩
    refine .badPermutations ⟨[], [], rfl, by simp⟩ ⟨.bool true, ⟨[], [], rfl, by simp⟩, ?_⟩
    rintro ⟨n, hn, -⟩
    cases hn
  · refine (settings_validated (hfile "'7'") hreadSeven (by decide) hseven (hshort _ htext)).2.2 ?_
    rintro ⟨e, hmistake⟩
    cases hmistake with
    | notMapping hnot => exact hnot _ rfl
    | noIncludes hholds _ => cases Datum.holds_iff.1 hholds
    | blankDirectory hholds _ => cases Datum.holds_iff.1 hholds
    | badPermutations hholds hbad =>
      cases Datum.holds_iff.1 hholds
      rcases hbad with ⟨given, hgiven, hnot⟩
      cases Datum.holds_iff.1 hgiven
      exact hnot ⟨7, .text rfl, by decide⟩

end PropCatalog
