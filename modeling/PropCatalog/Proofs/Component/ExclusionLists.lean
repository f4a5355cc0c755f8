import PropCatalog.Component.Extract
import PropCatalog.Proofs.Assoc
import PropCatalog.Proofs.Text.Lines
import PropCatalog.Proofs.Text.Runs

/-!
# Exclusion lists — the names that a tag lists

A prop says in the text of a tag which other props it is not shown together with. The text is taken
apart into names at blanks and commas, and the names are compared with those of props.

- `IsNamedIn`, `ListsNames` : the names in a text, and the list of them
- `IsCleanList`             : lists that are read as they are written
- `placedNames`             : the names in their places, by which their order is told
- `splitNames_eq_iff`       : what is read from a text is the list of the names in it
- `splitNames_of_joined`    : a clean list is read again, whatever separators stand in it
- `splitNames_eq_pieces`    : empty pieces and blanks at the ends of the text do not count
- `mem_excludedWith_iff`    : the names that a prop excludes
- `exclusion_lists_clean`   : what there is to say about the list that is read from a text
-/

namespace PropCatalog

/-! ## Names in a text -/

/-- The characters that separate names. -/
def separatesNames (c : Char) : Bool :=
  Text.isBlank c || c == ','

theorem separatesNames_eq_false_iff {c : Char} :
    separatesNames c = false ↔ Text.isBlank c = false ∧ c ≠ ',' := by
  simp [separatesNames]

/-- A name in a text is a stretch between separators. The word `true` is none, since it is what the
text of an empty tag reads. -/
def IsNamedIn (text name : String) : Prop :=
  name ≠ "true" ∧ Text.IsRun separatesNames text.toList name.toList

/-- The names in a text, each once, in the order in which they first stand there. -/
structure ListsNames (text : String) (names : List String) : Prop where
  nodup : names.Nodup
  mem_iff : ∀ name, name ∈ names ↔ IsNamedIn text name
  ordered : names.Pairwise fun a b =>
    Text.RunsFirst separatesNames text.toList a.toList b.toList

/-- Different names, none of them empty or `true` or with a separator in it. -/
structure IsCleanList (names : List String) : Prop where
  nodup : names.Nodup
  ne_empty : ∀ name ∈ names, name ≠ ""
  ne_true : ∀ name ∈ names, name ≠ "true"
  solid : ∀ name ∈ names, ∀ c ∈ name.toList, Text.isBlank c = false ∧ c ≠ ','

namespace ListsNames

variable {text : String} {names others : List String}

theorem isCleanList (h : ListsNames text names) : IsCleanList names where
  nodup := h.nodup
  ne_empty := by
    rintro _ hname rfl
    rcases ((h.mem_iff _).1 hname).2 with ⟨before, after, -, hne, -⟩
    exact hne rfl
  ne_true := fun name hname => ((h.mem_iff name).1 hname).1
  solid := by
    intro name hname c hc
    rcases ((h.mem_iff name).1 hname).2 with ⟨before, after, -, -, hrun, -⟩
    exact separatesNames_eq_false_iff.1 (hrun c hc)

/-- There is one list of the names in a text only. -/
theorem unique (h : ListsNames text names) (h' : ListsNames text others) : names = others := by
  -- The lists have the same names, and of two names only one can stand first.
  have hperm : names.Perm others := (List.perm_ext_iff_of_nodup h.nodup h'.nodup).2 fun name =>
    (h.mem_iff name).trans (h'.mem_iff name).symm
  exact hperm.eq_of_pairwise (fun _ _ _ _ hfirst hlast => absurd hlast hfirst.asymm) h.ordered
    h'.ordered

end ListsNames

/-! ## The list that is read -/

/-- The names that are read are the runs that come up first, `true` apart. -/
theorem splitNames_eq (text : String) :
    splitNames text = Assoc.firsts id
      (((Text.runsOutside separatesNames text.toList).map String.ofList).filter (· != "true")) :=
  Assoc.foldl_addNew_eq _

theorem nodup_splitNames (text : String) : (splitNames text).Nodup := by
  rw [splitNames_eq]
  exact Assoc.nodup_firsts_id _

theorem mem_splitNames_iff {text name : String} :
    name ∈ splitNames text ↔ IsNamedIn text name := by
  rw [splitNames_eq, Assoc.mem_firsts_id, List.mem_filter, List.mem_map, bne_iff_ne, and_comm]
  refine and_congr_right fun _ => ?_
  constructor
  · rintro ⟨run, hrun, rfl⟩
    rw [String.toList_ofList]
    exact Text.mem_runsOutside_iff.1 hrun
  · intro hrun
    exact ⟨name.toList, Text.mem_runsOutside_iff.2 hrun, String.ofList_toList⟩

/-- The name at a place of a text. -/
def nameAt (placed : List Char × List Char) : String :=
  String.ofList placed.2

/-- The names in a text in their places, also those that come up again. -/
def placedNames (text : String) : List (List Char × List Char) :=
  (Text.placedRuns separatesNames text.toList).filter fun placed => nameAt placed != "true"

theorem mem_placedNames_iff {text : String} {before run : List Char} :
    (before, run) ∈ placedNames text ↔
      Text.IsRunBehind separatesNames text.toList before run ∧ String.ofList run ≠ "true" := by
  rw [placedNames, List.mem_filter, Text.mem_placedRuns_iff, bne_iff_ne]
  rfl

theorem splitNames_eq_map (text : String) :
    splitNames text = (Assoc.firsts nameAt (placedNames text)).map nameAt := by
  have hnames : ((Text.runsOutside separatesNames text.toList).map String.ofList).filter
      (· != "true") = (placedNames text).map nameAt := by
    rw [← Text.map_snd_placedRuns, List.map_map, List.filter_map]
    rfl
  rw [splitNames_eq, hnames, Assoc.firsts_map]
  rfl

/-- The names come in the order of their first places. -/
theorem pairwise_splitNames (text : String) :
    (splitNames text).Pairwise fun a b =>
      Text.RunsFirst separatesNames text.toList a.toList b.toList := by
  have hsorted : (placedNames text).Pairwise fun x y => x.1.length < y.1.length :=
    (Text.pairwise_placedRuns text.toList).sublist List.filter_sublist
  have hfirsts := hsorted.sublist (Assoc.firsts_sublist nameAt (placedNames text))
  rw [splitNames_eq_map, List.pairwise_map]
  refine hfirsts.imp_of_mem ?_
  rintro ⟨before, run⟩ ⟨before', run'⟩ hmem hmem' hlt
  have hplaced := mem_placedNames_iff.1 ((Assoc.firsts_sublist nameAt _).subset hmem)
  -- No place of the second name comes before the one that is kept.
  rcases (Assoc.mem_firsts_iff nameAt _ (fun _ _ => Nat.lt_asymm) _ hsorted _).1 hmem' with
    ⟨hplaced', hfirst⟩
  refine ⟨before, by simpa [nameAt] using hplaced.1, fun other hother => ?_⟩
  rw [nameAt, String.toList_ofList] at hother
  have hkept : (other, run') ∈ placedNames text :=
    mem_placedNames_iff.2 ⟨hother, (mem_placedNames_iff.1 hplaced').2⟩
  exact hlt.trans_le (Nat.not_lt.1 (hfirst _ hkept rfl))

theorem listsNames_splitNames (text : String) : ListsNames text (splitNames text) :=
  ⟨nodup_splitNames text, fun _ => mem_splitNames_iff, pairwise_splitNames text⟩

theorem splitNames_eq_iff {text : String} {names : List String} :
    splitNames text = names ↔ ListsNames text names := by
  constructor
  · rintro rfl
    exact listsNames_splitNames text
  · exact (listsNames_splitNames text).unique

/-! ## Other texts with the same names -/

/-- A clean list is read again, whatever separators stand between its names. -/
theorem splitNames_of_joined {names : List String} {joined : String} (hclean : IsCleanList names)
    (h : Text.JoinedBy separatesNames (names.map String.toList) joined.toList) :
    splitNames joined = names := by
  -- The names are the runs of the joined text, and being clean they are all kept.
  have hruns : Text.runsOutside separatesNames joined.toList = names.map String.toList := by
    refine Text.runsOutside_of_joined h fun piece hpiece => ?_
    rcases List.mem_map.1 hpiece with ⟨name, hname, rfl⟩
    refine ⟨fun hnil => hclean.ne_empty name hname (String.toList_eq_nil_iff.1 hnil), ?_⟩
    exact fun c hc => separatesNames_eq_false_iff.2 (hclean.solid name hname c hc)
  have hback : (names.map String.toList).map String.ofList = names := by
    simp [Function.comp_def]
  have hkept : names.filter (· != "true") = names :=
    List.filter_eq_self.2 fun name hname => bne_iff_ne.2 (hclean.ne_true name hname)
  rw [splitNames_eq, hruns, hback, hkept]
  exact Assoc.firsts_of_nodup id (by simpa using hclean.nodup)

/-- Blanks at the ends of a text do not count. -/
theorem runsOutside_trim (cs : List Char) :
    Text.runsOutside separatesNames (Text.trim cs) = Text.runsOutside separatesNames cs := by
  have hsep : ∀ {bs}, Text.Blanks bs → ∀ c ∈ bs, separatesNames c = true := fun hbs c hc => by
    rw [separatesNames, hbs c hc, Bool.true_or]
  rcases Text.exists_append_trim cs with ⟨bs, bs', hbs, hbs', heq⟩
  have hend := Text.runsOutside_append (Text.trim cs) fun c hc =>
    hsep hbs' c (List.mem_of_mem_head? hc)
  calc Text.runsOutside separatesNames (Text.trim cs)
      = Text.runsOutside separatesNames (Text.trim cs ++ bs') := by
        rw [hend, Text.runsOutside_separators (hsep hbs'), List.append_nil]
    _ = Text.runsOutside separatesNames (bs ++ (Text.trim cs ++ bs')) :=
        (Text.runsOutside_separators_append (hsep hbs) _).symm
    _ = Text.runsOutside separatesNames cs := congrArg _ heq.symm

/-- The names are also found by trimming the text and cutting it at every separator: the pieces
that are left empty between separators, or next to a comma at an end, are passed over. -/
theorem splitNames_eq_pieces (text : String) :
    splitNames text = Assoc.firsts id
      (((((Text.trim text.toList).splitOnP separatesNames).filter (!·.isEmpty)).map
        String.ofList).filter (· != "true")) := by
  rw [Text.filter_splitOnP, runsOutside_trim, splitNames_eq]

/-- A prop excludes the names in the text of its tag, and none if it has no such tag. -/
theorem mem_excludedWith_iff {o : Outline} {defaults : List (String × String)} {m : Member}
    {name : String} :
    name ∈ (buildProp o defaults m).excludedWith ↔
      ∃ text, Assoc.get? (memberDocs m.comments).tags "excludedWith" = some text ∧
        IsNamedIn text name := by
  change name ∈ splitNames ((Assoc.get? (memberDocs m.comments).tags "excludedWith").getD "") ↔ _
  rw [mem_splitNames_iff]
  cases Assoc.get? (memberDocs m.comments).tags "excludedWith" with
  | none =>
    refine iff_of_false ?_ (by simp)
    -- A tag that is missing counts as an empty text, in which no name stands.
    rintro ⟨-, hrun⟩
    rcases Text.isRun_iff.1 hrun with ⟨before, hrun⟩
    exact Text.not_isRunBehind_nil before name.toList hrun
  | some text => simp

/-- The list of names that is read from a text is clean. It is the one that lists the names in the
text in the order in which they first stand there, and it is read again from any text that has its
names with blanks and commas between them. -/
theorem exclusion_lists_clean (text : String) :
    IsCleanList (splitNames text) ∧
      (∀ names, splitNames text = names ↔ ListsNames text names) ∧
      ∀ joined : String,
        Text.JoinedBy separatesNames ((splitNames text).map String.toList) joined.toList →
          splitNames joined = splitNames text := by
  have hclean : IsCleanList (splitNames text) := (listsNames_splitNames text).isCleanList
  exact ⟨hclean, fun names => splitNames_eq_iff, fun joined h => splitNames_of_joined hclean h⟩

/-- A list with an empty piece, the word that is no name, a wide space and a name that comes up
again; then its names with other separators between them. -/
theorem exclusion_lists_clean_shapes :
    splitNames " size, true,,\u3000shape size" = ["size", "shape"] ∧
      IsCleanList ["size", "shape"] ∧
      ListsNames " size, true,,\u3000shape size" ["size", "shape"] ∧
      Text.JoinedBy separatesNames ["size".toList, "shape".toList] "size ,\u00a0shape".toList ∧
      splitNames "size ,\u00a0shape" = ["size", "shape"] := by
  have hread : splitNames " size, true,,\u3000shape size" = ["size", "shape"] := by decide +kernel
  have hsep : ∀ c ∈ " ,\u00a0".toList, separatesNames c = true :=
    List.all_eq_true.1 (by decide)
  have hjoined : Text.JoinedBy separatesNames ["size".toList, "shape".toList]
      ("size".toList ++ (" ,\u00a0".toList ++ "shape".toList)) :=
    .cons _ (by decide) hsep (by decide) (.single _)
  rcases exclusion_lists_clean " size, true,,\u3000shape size" with ⟨hclean, hlists, hagain⟩
  rw [hread] at hclean hagain
  exact ⟨hread, hclean, (hlists _).1 hread, hjoined, hagain "size ,\u00a0shape" hjoined⟩

end PropCatalog
