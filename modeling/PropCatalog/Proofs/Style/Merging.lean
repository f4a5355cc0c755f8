import PropCatalog.Proofs.Assoc
import PropCatalog.Proofs.Text.Lines
import PropCatalog.Style.Variables

/-!
# Merging — one custom property for every name that is documented or used

The names that are documented come first, then those that are only used. Of several descriptions of
a name the last one counts, of several fallbacks the first one that is not blank.

- `DescribedAs`, `DefaultsTo` : what the scans of a stylesheet say about a name
- `get?_addUse`, `get?_foldl_addUse` : what one use and all uses do to the property of a name
- `custom_properties_merged`  : names, descriptions and defaults of the properties
-/

namespace PropCatalog
namespace Style

open Text (trim Blanks)

/-! ## What is said about a name -/

/-- A description without blanks around it and without the end of its block. -/
inductive Cleaned (cs : List Char) : List Char → Prop where
  | plain (h : ¬ ['*', '/'] <:+ trim cs) : Cleaned cs (trim cs)
  | closed (body : List Char) (h : trim cs = body ++ ['*', '/']) : Cleaned cs (trim body)

/-- The description of a name: the last one that is found for it. -/
inductive DescribedAs (found : List (List Char × List Char)) (name : String) : String → Prop where
  | last (before : List (List Char × List Char)) (text : List Char)
      (after : List (List Char × List Char)) (description : String)
      (hfound : found = before ++ (name.toList, text) :: after)
      (hlast : ∀ e ∈ after, e.1 ≠ name.toList)
      (hclean : Cleaned text description.toList) : DescribedAs found name description
  | never (h : ∀ e ∈ found, e.1 ≠ name.toList) : DescribedAs found name ""

/-- The default of a name: the first fallback that is found for it and is not blank. -/
inductive DefaultsTo (used : List (List Char × List Char)) (name : String) :
    Option String → Prop where
  | first (before : List (List Char × List Char)) (fallback : List Char)
      (after : List (List Char × List Char))
      (hused : used = before ++ (name.toList, fallback) :: after)
      (hfirst : ∀ e ∈ before, e.1 = name.toList → Blanks e.2)
      (hfallback : ¬ Blanks fallback) :
      DefaultsTo used name (some (String.ofList (trim fallback)))
  | never (h : ∀ e ∈ used, e.1 = name.toList → Blanks e.2) : DefaultsTo used name none

/-- The names of what a scan finds. -/
def names (found : List (List Char × List Char)) : List String :=
  found.map fun e => String.ofList e.1

theorem mem_names_iff {found : List (List Char × List Char)} {name : String} :
    name ∈ names found ↔ ∃ e ∈ found, e.1 = name.toList := by
  simp only [names, List.mem_map, ← String.toList_inj, String.toList_ofList]

theorem cleaned_cleanDescription (cs : List Char) :
    Cleaned cs (cleanDescription cs).toList := by
  rw [cleanDescription, String.toList_ofList]
  by_cases hclose : ['*', '/'] <:+ trim cs
  · have hends : Text.endsWith ['*', '/'] (trim cs) = true := by
      simpa [Text.endsWith] using hclose
    rcases hclose with ⟨body, hbody⟩
    have hdrop : (trim cs).dropLast.dropLast = body := by
      rw [← hbody]
      simp [List.dropLast_append_of_ne_nil]
    rw [if_pos hends, hdrop]
    exact .closed body hbody.symm
  · have hends : ¬ Text.endsWith ['*', '/'] (trim cs) = true := by
      simpa [Text.endsWith] using hclose
    rw [if_neg hends, Text.trim_trim]
    exact .plain hclose

/-! ## Fallbacks -/

/-- A fallback as a default: none if it is blank. -/
def default? (fallback : List Char) : Option String :=
  if trim fallback = [] then none else some (String.ofList (trim fallback))

/-- The first default among the uses of a name. -/
def firstDefault (used : List (List Char × List Char)) (name : String) : Option String :=
  used.findSome? fun e => if e.1 = name.toList then default? e.2 else none

theorem firstDefault_cons (e : List Char × List Char) (used : List (List Char × List Char))
    (name : String) :
    firstDefault (e :: used) name =
      (if String.ofList e.1 = name then default? e.2 else none).or (firstDefault used name) := by
  have hname : e.1 = name.toList ↔ String.ofList e.1 = name := by
    rw [← String.toList_inj, String.toList_ofList]
  simp only [firstDefault, List.findSome?_cons, hname]
  cases (if String.ofList e.1 = name then default? e.2 else none) <;> rfl

theorem firstDefault_of_not_mem {used : List (List Char × List Char)} {name : String}
    (h : name ∉ names used) : firstDefault used name = none := by
  refine List.findSome?_eq_none_iff.2 fun e he => if_neg fun hname => ?_
  exact h (mem_names_iff.2 ⟨e, he, hname⟩)

theorem default?_eq_none_iff {fallback : List Char} :
    default? fallback = none ↔ Blanks fallback := by
  simp [default?, Text.trim_eq_nil_iff]

theorem default?_of_not_blanks {fallback : List Char} (h : ¬ Blanks fallback) :
    default? fallback = some (String.ofList (trim fallback)) := by
  rw [default?, if_neg fun hnil => h (Text.trim_eq_nil_iff.1 hnil)]

theorem defaultsTo_firstDefault (used : List (List Char × List Char)) (name : String) :
    DefaultsTo used name (firstDefault used name) := by
  cases hfirst : firstDefault used name with
  | none =>
    refine .never fun e he hname => ?_
    have hnone := List.findSome?_eq_none_iff.1 hfirst e he
    rwa [if_pos hname, default?_eq_none_iff] at hnone
  | some d =>
    rcases List.findSome?_eq_some_iff.1 hfirst with ⟨before, e, after, rfl, he, hbefore⟩
    by_cases hname : e.1 = name.toList
    · rw [if_pos hname] at he
      have hfallback : ¬ Blanks e.2 := by
        intro hblank
        rw [default?_eq_none_iff.2 hblank] at he
        cases he
      rw [default?_of_not_blanks hfallback] at he
      cases he
      refine .first before e.2 after (by rw [← hname]) (fun e' he' hname' => ?_) hfallback
      have hnone := hbefore e' he'
      rwa [if_pos hname', default?_eq_none_iff] at hnone
    · rw [if_neg hname] at he
      cases he

/-- The uses of a stylesheet say one thing only about the default of a name. -/
theorem defaultsTo_iff {used : List (List Char × List Char)} {name : String}
    {default : Option String} :
    DefaultsTo used name default ↔ default = firstDefault used name := by
  constructor
  · intro h
    symm
    cases h with
    | first before fallback after hused hfirst hfallback =>
      rw [hused, firstDefault, List.findSome?_append, List.findSome?_cons, if_pos rfl,
        default?_of_not_blanks hfallback]
      have hnone : before.findSome?
          (fun e => if e.1 = name.toList then default? e.2 else none) = none := by
        refine List.findSome?_eq_none_iff.2 fun e he => ?_
        by_cases hname : e.1 = name.toList
        · rw [if_pos hname, default?_eq_none_iff]
          exact hfirst e he hname
        · rw [if_neg hname]
      rw [hnone]
      rfl
    | never h =>
      refine List.findSome?_eq_none_iff.2 fun e he => ?_
      by_cases hname : e.1 = name.toList
      · rw [if_pos hname, default?_eq_none_iff]
        exact h e he hname
      · rw [if_neg hname]
  · rintro rfl
    exact defaultsTo_firstDefault used name

/-! ## Uses -/

/-- The property of a name after one more use of it. -/
def withUse (name : String) (default : Option String) : Option StyleVariable → StyleVariable
  | none => { name, default }
  | some v => { v with default := v.default.or default }

/-- A use changes nothing if there is a default, and else it sets the property of its name. -/
theorem addUse_cases (vars : List (String × StyleVariable)) (e : List Char × List Char) :
    let name := String.ofList e.1
    let v := withUse name (default? e.2) (Assoc.get? vars name)
    (Assoc.get? vars name = some v ∧ addUse vars e = vars) ∨
      addUse vars e = Assoc.set vars name v := by
  intro name v
  have hdefault : (if String.ofList (trim e.2) == "" then none
      else some (String.ofList (trim e.2))) = default? e.2 := by
    by_cases hnil : trim e.2 = []
    · simp [default?, hnil]
    · have hne : ¬ String.ofList (trim e.2) = "" := by
        rw [← String.toList_inj]
        simpa using hnil
      simp [default?, hnil, hne]
  rw [addUse, hdefault]
  cases hget : Assoc.get? vars name with
  | none =>
    right
    simp only [v, name, hget, withUse]
  | some old =>
    cases hold : old.default with
    | none =>
      right
      simp only [v, name, hget, withUse, hold, Option.none_or, Option.isNone_none, if_true]
    | some d =>
      left
      have hkept : v = old := by
        simp only [v, hget, withUse, hold, Option.some_or]
        rw [← hold]
      refine ⟨congrArg some hkept.symm, ?_⟩
      simp [hold]

theorem get?_addUse (vars : List (String × StyleVariable)) (e : List Char × List Char)
    (name : String) :
    Assoc.get? (addUse vars e) name =
      if String.ofList e.1 = name then some (withUse name (default? e.2) (Assoc.get? vars name))
      else Assoc.get? vars name := by
  rcases addUse_cases vars e with ⟨hget, hkept⟩ | hset
  · rw [hkept]
    by_cases hname : String.ofList e.1 = name
    · rw [if_pos hname, ← hname, ← hget]
    · rw [if_neg hname]
  · rw [hset, Assoc.get?_set]
    by_cases hname : String.ofList e.1 = name
    · rw [if_pos hname, if_pos hname, hname]
    · rw [if_neg hname, if_neg hname]

theorem map_fst_addUse (vars : List (String × StyleVariable)) (e : List Char × List Char) :
    (addUse vars e).map (·.1) =
      vars.map (·.1) ++ if Assoc.has vars (String.ofList e.1) then [] else [String.ofList e.1] := by
  rcases addUse_cases vars e with ⟨hget, hkept⟩ | hset
  · rw [hkept, if_pos (Assoc.has_of_get? hget), List.append_nil]
  · rw [hset, Assoc.map_fst_set]

theorem withUse_withUse (name : String) (d d' : Option String) (v? : Option StyleVariable) :
    withUse name d' (some (withUse name d v?)) = withUse name (d.or d') v? := by
  cases v? with
  | none => rfl
  | some v => simp only [withUse, Option.or_assoc]

/-- The property of a name after all uses. -/
theorem get?_foldl_addUse (used : List (List Char × List Char))
    (vars : List (String × StyleVariable)) (name : String) :
    Assoc.get? (used.foldl addUse vars) name =
      if name ∈ names used then
        some (withUse name (firstDefault used name) (Assoc.get? vars name))
      else Assoc.get? vars name := by
  induction used generalizing vars with
  | nil => rfl
  | cons e used ih =>
    have hmem : name ∈ names (e :: used) ↔ String.ofList e.1 = name ∨ name ∈ names used := by
      rw [names, List.map_cons, List.mem_cons, eq_comm]
      rfl
    rw [List.foldl_cons, ih, get?_addUse, firstDefault_cons]
    by_cases hname : String.ofList e.1 = name
    · rw [if_pos hname, if_pos hname, if_pos (hmem.2 (Or.inl hname))]
      by_cases hused : name ∈ names used
      · rw [if_pos hused, withUse_withUse]
      · rw [if_neg hused, firstDefault_of_not_mem hused, Option.or_none]
    · simp only [hmem, hname, if_false, false_or, Option.none_or]

/-! ## The properties of a stylesheet -/

/-- The properties that are documented, before uses are looked at. -/
theorem foldl_addDocumented_eq (found : List (List Char × List Char)) :
    found.foldl addDocumented [] = Assoc.ofList (found.map fun e =>
      (String.ofList e.1,
        { name := String.ofList e.1, description := cleanDescription e.2 })) := by
  rw [Assoc.ofList, List.foldl_map]
  rfl

theorem get?_documented (found : List (List Char × List Char)) (name : String) :
    (Assoc.get? (found.foldl addDocumented []) name = none ∧ name ∉ names found ∧
      DescribedAs found name "") ∨
    ∃ description, Assoc.get? (found.foldl addDocumented []) name = some { name, description } ∧
      name ∈ names found ∧ DescribedAs found name description := by
  rw [foldl_addDocumented_eq, Assoc.get?_ofList, ← List.map_reverse, Assoc.get?, List.find?_map,
    Function.comp_def]
  -- The last one that is found is the first one from behind.
  cases hfind : found.reverse.find? fun e => String.ofList e.1 == name with
  | none =>
    left
    have hnone : ∀ e ∈ found, e.1 ≠ name.toList := by
      intro e he hname
      have hne := List.find?_eq_none.1 hfind e (List.mem_reverse.2 he)
      rw [hname, String.ofList_toList] at hne
      exact hne (beq_self_eq_true name)
    refine ⟨?_, ?_, .never hnone⟩
    · rfl
    · rw [mem_names_iff]
      rintro ⟨e, he, hname⟩
      exact hnone e he hname
  | some e =>
    right
    rcases List.find?_eq_some_iff_append.1 hfind with ⟨hname, later, earlier, hsplit, hlater⟩
    have hname : String.ofList e.1 = name := by simpa using hname
    have hchars : e.1 = name.toList := by rw [← hname, String.toList_ofList]
    have hfound : found = earlier.reverse ++ (name.toList, e.2) :: later.reverse := by
      rw [← hchars, ← List.reverse_inj, hsplit]
      simp
    refine ⟨cleanDescription e.2, ?_, ?_, ?_⟩
    · simp [hname]
    · exact mem_names_iff.2 ⟨(name.toList, e.2), by simp [hfound], rfl⟩
    · refine .last _ e.2 _ _ hfound (fun e' he' hname' => ?_) (cleaned_cleanDescription e.2)
      have hne := hlater e' (List.mem_reverse.1 he')
      rw [hname', String.ofList_toList] at hne
      simp at hne

/-- The names of the properties: those that are documented, then the others that are used. -/
def mergedNames (found used : List (List Char × List Char)) : List String :=
  Assoc.firsts id (names found) ++
    Assoc.firsts id ((names used).filter fun name => name ∉ names found)

theorem map_fst_documented (found : List (List Char × List Char)) :
    (found.foldl addDocumented []).map (·.1) = Assoc.firsts id (names found) := by
  have hstep : ∀ vars (e : List Char × List Char), (addDocumented vars e).map (·.1) =
      vars.map (·.1) ++
        if Assoc.has vars (String.ofList e.1) then [] else [String.ofList e.1] :=
    fun vars e => Assoc.map_fst_set vars _ _
  have hnone : ((found.map fun e => String.ofList e.1).filter
      fun k => !Assoc.has ([] : List (String × StyleVariable)) k) = names found := by
    simp [Assoc.has, names]
  rw [Assoc.map_fst_foldl hstep, hnone, List.map_nil, List.nil_append]

/-- The map of the properties of a stylesheet. -/
def merged (found used : List (List Char × List Char)) : List (String × StyleVariable) :=
  used.foldl addUse (found.foldl addDocumented [])

theorem map_fst_merged (found used : List (List Char × List Char)) :
    (merged found used).map (·.1) = mergedNames found used := by
  have hfilter : ((used.map fun e => String.ofList e.1).filter
      fun k => !Assoc.has (found.foldl addDocumented []) k) =
      (names used).filter fun name => name ∉ names found := by
    refine List.filter_congr fun name _ => ?_
    have hhas : Assoc.has (found.foldl addDocumented []) name = true ↔ name ∈ names found := by
      rw [Assoc.has_iff_mem_keys, map_fst_documented, Assoc.mem_firsts_id]
    rw [Bool.eq_iff_iff, Bool.not_eq_true', ← Bool.not_eq_true, hhas, decide_eq_true_eq]
  rw [merged, Assoc.map_fst_foldl map_fst_addUse, map_fst_documented, hfilter, mergedNames]

theorem nodup_mergedNames (found used : List (List Char × List Char)) :
    (mergedNames found used).Nodup := by
  refine List.nodup_append.2 ⟨Assoc.nodup_firsts_id _, Assoc.nodup_firsts_id _, ?_⟩
  rintro name hfound _ hused rfl
  rw [Assoc.mem_firsts_id] at hfound hused
  simpa [hfound] using (List.mem_filter.1 hused).2

theorem mem_mergedNames_iff {found used : List (List Char × List Char)} {name : String} :
    name ∈ mergedNames found used ↔ name ∈ names found ∨ name ∈ names used := by
  rw [mergedNames, List.mem_append, Assoc.mem_firsts_id, Assoc.mem_firsts_id, List.mem_filter]
  by_cases hfound : name ∈ names found
  · simp [hfound]
  · simp [hfound]

/-- Under every name of the map stands its property. -/
theorem get?_merged {found used : List (List Char × List Char)} {name : String}
    (h : name ∈ mergedNames found used) :
    ∃ description, DescribedAs found name description ∧
      Assoc.get? (merged found used) name =
        some { name, description, default := firstDefault used name } := by
  have hget := get?_foldl_addUse used (found.foldl addDocumented []) name
  rcases get?_documented found name with ⟨hnone, hnot, hnever⟩ | ⟨description, hsome, -, hlast⟩
  · have hused : name ∈ names used := (mem_mergedNames_iff.1 h).resolve_left hnot
    rw [hnone, if_pos hused] at hget
    exact ⟨"", hnever, hget⟩
  · refine ⟨description, hlast, ?_⟩
    rw [hsome] at hget
    rw [merged, hget]
    by_cases hused : name ∈ names used
    · rw [if_pos hused]
      rfl
    · rw [if_neg hused, firstDefault_of_not_mem hused]

theorem customProperties_eq (text : String) :
    customProperties text =
      (merged ((docBlocks text.toList).flatMap documented) (uses text.toList)).map (·.2) := rfl

theorem eq_of_mem_merged {found used : List (List Char × List Char)}
    {pair : String × StyleVariable} (h : pair ∈ merged found used) :
    ∃ description, DescribedAs found pair.1 description ∧
      pair.2 = { name := pair.1, description, default := firstDefault used pair.1 } := by
  have hkeys := map_fst_merged found used
  have hname : pair.1 ∈ mergedNames found used := by
    rw [← hkeys]
    exact List.mem_map_of_mem h
  have hnodup : ((merged found used).map (·.1)).Nodup := by
    rw [hkeys]
    exact nodup_mergedNames found used
  rcases get?_merged hname with ⟨description, hdescribed, hget⟩
  rw [Assoc.get?_of_mem hnodup h] at hget
  exact ⟨description, hdescribed, Option.some.inj hget⟩

theorem map_name_customProperties (text : String) :
    (customProperties text).map (·.name) =
      mergedNames ((docBlocks text.toList).flatMap documented) (uses text.toList) := by
  rw [customProperties_eq, List.map_map, ← map_fst_merged]
  refine List.map_congr_left fun pair hpair => ?_
  rcases eq_of_mem_merged hpair with ⟨description, -, heq⟩
  exact congrArg StyleVariable.name heq

theorem of_mem_customProperties {text : String} {v : StyleVariable}
    (h : v ∈ customProperties text) :
    DescribedAs ((docBlocks text.toList).flatMap documented) v.name v.description ∧
      v.default = firstDefault (uses text.toList) v.name := by
  rw [customProperties_eq] at h
  rcases List.mem_map.1 h with ⟨pair, hpair, rfl⟩
  rcases eq_of_mem_merged hpair with ⟨description, hdescribed, heq⟩
  rw [heq]
  exact ⟨hdescribed, rfl⟩

/-- The properties of a stylesheet have different names: first those that are documented, in the
order in which they first are, then the others that are used, in the order of their first use. The
description of a property is the last one that is found, the default the first fallback that is not
blank. -/
theorem custom_properties_merged (text : String) :
    let found := (docBlocks text.toList).flatMap documented
    let used := uses text.toList
    (customProperties text).map (·.name) = mergedNames found used ∧
      (mergedNames found used).Nodup ∧
      (∀ name, name ∈ mergedNames found used ↔ name ∈ names found ∨ name ∈ names used) ∧
      ∀ v ∈ customProperties text,
        DescribedAs found v.name v.description ∧ DefaultsTo used v.name v.default := by
  intro found used
  refine ⟨map_name_customProperties text, nodup_mergedNames found used,
    fun name => mem_mergedNames_iff, fun v hv => ?_⟩
  rcases of_mem_customProperties hv with ⟨hdescribed, hdefault⟩
  exact ⟨hdescribed, defaultsTo_iff.2 hdefault⟩

end Style
end PropCatalog
