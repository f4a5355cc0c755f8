import Mathlib.Data.List.Infix
import PropCatalog.Component.Defaults
import PropCatalog.Tsx.Code

/-!
# Annotated functions — whose defaults stand in for those of a component

Where the function behind a component takes no names out of its parameters, the defaults are those
of another function, one that has a parameter annotated with the props declaration. The name of the
declaration is looked for anywhere in the annotation, so that it may also be found within a longer
name, and then the defaults are those of a function for other props.

- `OccursWhole`, `TypedWith` : a name as a word of its own, and the functions that are annotated so
- `Mentions`                 : the functions that are taken for such ones
- `Clear`                    : no function stands in the way of those that are annotated
- `annotated_function_taken` : which function is taken if this is so, and which one if it is not
-/

namespace PropCatalog

open Tsx.Code (isWordPart)

/-! ## Names in texts -/

/-- A text is found where it is a part of another one. -/
theorem Text.contains_iff_infix {needle cs : List Char} :
    Text.contains needle cs = true ↔ needle <:+: cs := by
  induction cs with
  | nil => rw [Text.contains, List.isEmpty_iff, List.infix_nil]
  | cons c rest ih =>
    rw [Text.contains, Bool.or_eq_true, List.isPrefixOf_iff_prefix, ih, List.infix_cons_iff]

/-- A name stands in a text as a word of its own: what is next to it belongs to no word. -/
def OccursWhole (name text : String) : Prop :=
  ∃ before after, text.toList = before ++ name.toList ++ after ∧
    (∀ c ∈ before.getLast?, isWordPart c = false) ∧ ∀ c ∈ after.head?, isWordPart c = false

theorem OccursWhole.isInfix {name text : String} (h : OccursWhole name text) :
    name.toList <:+: text.toList := by
  rcases h with ⟨before, after, heq, -, -⟩
  exact ⟨before, after, heq.symm⟩

/-- A text is searched for a name from each of its positions. -/
def occursWhole (name text : String) : Bool :=
  (List.range (text.toList.length + 1)).any fun i =>
    name.toList.isPrefixOf (text.toList.drop i) &&
      (text.toList.take i).getLast?.all (!isWordPart ·) &&
      ((text.toList.drop i).drop name.toList.length).head?.all (!isWordPart ·)

theorem occursWhole_iff {name text : String} :
    occursWhole name text = true ↔ OccursWhole name text := by
  simp only [occursWhole, OccursWhole, List.any_eq_true, List.mem_range, Bool.and_eq_true,
    Option.all_eq_true, Bool.not_eq_true', List.isPrefixOf_iff_prefix, and_assoc]
  constructor
  · rintro ⟨i, -, ⟨after, hname⟩, hbefore, hafter⟩
    refine ⟨_, _, ?_, hbefore, hafter⟩
    rw [← hname, List.drop_left, List.append_assoc, hname, List.take_append_drop]
  · rintro ⟨before, after, heq, hbefore, hafter⟩
    rw [List.append_assoc] at heq
    refine ⟨before.length, ?_, ?_, ?_, ?_⟩
    · rw [heq, List.length_append]
      omega
    · rw [heq, List.drop_left]
      exact List.prefix_append _ _
    · rw [heq, List.take_left]
      exact hbefore
    · rw [heq, List.drop_left, List.drop_left]
      exact hafter

instance (name text : String) : Decidable (OccursWhole name text) :=
  decidable_of_iff _ occursWhole_iff

/-! ## Functions -/

/-- A function takes names out of a parameter that is annotated with a props declaration. -/
def TypedWith (propsName : String) (entry : Callable × Option String) : Prop :=
  ∃ param ∈ entry.1.params, param.bindings.isSome = true ∧
    OccursWhole propsName (paramTypeText param entry.2)

instance (propsName : String) (entry : Callable × Option String) :
    Decidable (TypedWith propsName entry) :=
  inferInstanceAs (Decidable (∃ param ∈ entry.1.params, _ ∧ _))

/-- A function takes names out of a parameter whose annotation has the name of a props declaration
in it, be it as a part of another name. -/
def Mentions (propsName : String) (entry : Callable × Option String) : Prop :=
  ∃ param ∈ entry.1.params, param.bindings.isSome = true ∧
    propsName.toList <:+: (paramTypeText param entry.2).toList

theorem TypedWith.mentions {propsName : String} {entry : Callable × Option String}
    (h : TypedWith propsName entry) : Mentions propsName entry := by
  rcases h with ⟨param, hparam, hbindings, hwhole⟩
  exact ⟨param, hparam, hbindings, hwhole.isInfix⟩

theorem isAnnotatedWith_iff {propsName : String} {entry : Callable × Option String} :
    isAnnotatedWith propsName entry = true ↔ Mentions propsName entry := by
  simp only [isAnnotatedWith, List.any_eq_true, Bool.and_eq_true, Text.contains_iff_infix]
  rfl

/-- The first one of some functions that has a property. -/
def IsFirst (P : Callable × Option String → Prop) (functions : List (Callable × Option String))
    (entry : Callable × Option String) : Prop :=
  ∃ before after, functions = before ++ entry :: after ∧ P entry ∧ ∀ e ∈ before, ¬ P e

/-- Every function whose annotation has the name of the declaration in other names only stands
behind one that is annotated with the declaration. -/
def Clear (o : Outline) (propsName : String) : Prop :=
  ∀ before entry after, functionsInOrder o = before ++ entry :: after →
    Mentions propsName entry → ¬ TypedWith propsName entry → ∃ e ∈ before, TypedWith propsName e

/-- The texts of the defaults that a function gives to the names it takes out of a parameter. -/
def Callable.defaults (f : Callable) : List (String × String) :=
  (f.bindings?.getD []).filterMap fun (key, default) => default.map (key, ·)

/-! ## The function that is taken -/

section Taken

variable {o : Outline} {name propsName : String}

theorem find?_isAnnotatedWith_eq_some_iff {entry : Callable × Option String} :
    (functionsInOrder o).find? (isAnnotatedWith propsName) = some entry ↔
      IsFirst (Mentions propsName) (functionsInOrder o) entry := by
  rw [List.find?_eq_some_iff_append, IsFirst]
  simp only [isAnnotatedWith_iff, Bool.not_eq_true', ← Bool.not_eq_true]
  constructor
  · rintro ⟨hentry, before, after, heq, hbefore⟩
    exact ⟨before, after, heq, hentry, hbefore⟩
  · rintro ⟨before, after, heq, hentry, hbefore⟩
    exact ⟨hentry, before, after, heq, hbefore⟩

theorem find?_isAnnotatedWith_eq_none_iff :
    (functionsInOrder o).find? (isAnnotatedWith propsName) = none ↔
      ∀ entry ∈ functionsInOrder o, ¬ Mentions propsName entry := by
  simp only [List.find?_eq_none, isAnnotatedWith_iff]

theorem propDefaults_of_defaultsFunction? {f : Callable}
    (h : defaultsFunction? o name propsName = some f) :
    propDefaults o name propsName = f.defaults := by
  rw [propDefaults, h]
  rfl

theorem Clear.isFirst_mentions (h : Clear o propsName) {entry : Callable × Option String}
    (hfirst : IsFirst (TypedWith propsName) (functionsInOrder o) entry) :
    IsFirst (Mentions propsName) (functionsInOrder o) entry := by
  rcases hfirst with ⟨before, after, heq, htyped, hbefore⟩
  refine ⟨before, after, heq, htyped.mentions, fun e he hmentions => ?_⟩
  -- A function that is found earlier stands behind an annotated one, which is earlier still.
  rcases List.append_of_mem he with ⟨front, back, rfl⟩
  rw [List.append_assoc, List.cons_append] at heq
  rcases h front e _ heq hmentions (hbefore e he) with ⟨e', he', htyped'⟩
  exact hbefore e' (List.mem_append_left _ he') htyped'

theorem Clear.not_mentions (h : Clear o propsName)
    (hnone : ∀ entry ∈ functionsInOrder o, ¬ TypedWith propsName entry) :
    ∀ entry ∈ functionsInOrder o, ¬ Mentions propsName entry := by
  intro entry hentry hmentions
  rcases List.append_of_mem hentry with ⟨before, after, heq⟩
  rcases h before entry after heq hmentions (hnone entry hentry) with ⟨e, he, htyped⟩
  exact hnone e (heq ▸ List.mem_append_left _ he) htyped

/-- Where a function stands in the way, the first one that is found is not annotated with the
declaration. -/
theorem exists_isFirst_of_not_clear (h : ¬ Clear o propsName) :
    ∃ entry, IsFirst (Mentions propsName) (functionsInOrder o) entry ∧
      ¬ TypedWith propsName entry := by
  simp only [Clear, not_forall, not_exists, not_and] at h
  rcases h with ⟨before, entry, after, heq, hmentions, htyped, hbefore⟩
  -- Up to the one in the way no function is annotated with the declaration.
  cases hfind : before.find? (isAnnotatedWith propsName) with
  | some e =>
    refine ⟨e, find?_isAnnotatedWith_eq_some_iff.1 ?_, hbefore e (List.mem_of_find?_eq_some hfind)⟩
    rw [heq, List.find?_append, hfind, Option.some_or]
  | none =>
    refine ⟨entry, find?_isAnnotatedWith_eq_some_iff.1 ?_, htyped⟩
    rw [heq, List.find?_append, hfind, Option.none_or,
      List.find?_cons_of_pos (isAnnotatedWith_iff.2 hmentions)]

end Taken

/-- What stands in for the defaults of a component whose own function takes no names out of its
parameters. As long as no function stands in the way, the first one that is annotated with the props
declaration is taken, and if there is none there are no defaults. Otherwise the first one is taken
whose annotation has the name of the declaration in it, which is not annotated with it. -/
theorem annotated_function_taken (o : Outline) (name propsName : String)
    (hown : ∀ f, implementation? o name = some f → f.bindings? = none) :
    (Clear o propsName →
      (∀ entry, IsFirst (TypedWith propsName) (functionsInOrder o) entry →
        defaultsFunction? o name propsName = some entry.1 ∧
          propDefaults o name propsName = entry.1.defaults) ∧
      ((∀ entry ∈ functionsInOrder o, ¬ TypedWith propsName entry) →
        defaultsFunction? o name propsName = none ∧ propDefaults o name propsName = [])) ∧
    (¬ Clear o propsName →
      ∃ entry, IsFirst (Mentions propsName) (functionsInOrder o) entry ∧
        ¬ TypedWith propsName entry ∧ defaultsFunction? o name propsName = some entry.1 ∧
        propDefaults o name propsName = entry.1.defaults) := by
  have hfound : defaultsFunction? o name propsName =
      ((functionsInOrder o).find? (isAnnotatedWith propsName)).map (·.1) := by
    unfold defaultsFunction?
    cases himpl : implementation? o name with
    | none => rfl
    | some f => simp [hown f himpl]
  have htaken : ∀ entry, IsFirst (Mentions propsName) (functionsInOrder o) entry →
      defaultsFunction? o name propsName = some entry.1 := by
    intro entry hfirst
    rw [hfound, find?_isAnnotatedWith_eq_some_iff.2 hfirst, Option.map_some]
  refine ⟨fun hclear => ⟨fun entry hfirst => ?_, fun hnone => ?_⟩, fun hclear => ?_⟩
  · have hsome := htaken entry (hclear.isFirst_mentions hfirst)
    exact ⟨hsome, propDefaults_of_defaultsFunction? hsome⟩
  · rw [find?_isAnnotatedWith_eq_none_iff.2 (hclear.not_mentions hnone), Option.map_none] at hfound
    exact ⟨hfound, by rw [propDefaults, hfound]⟩
  · rcases exists_isFirst_of_not_clear hclear with ⟨entry, hfirst, htyped⟩
    have hsome := htaken entry hfirst
    exact ⟨entry, hfirst, htyped, hsome, propDefaults_of_defaultsFunction? hsome⟩

/-- A function that takes the size out of a parameter with the given annotation. -/
def sized (name size annotation : String) : Callable where
  name := some name
  params := [{ bindings := some [("size", some size)], declaredType := some annotation }]

/-- A module with a function for buttons and one for other buttons, in any order. -/
def buttons (functions : List Callable) : Outline where
  path := "Button.tsx"
  functions := functions

theorem annotated_function_taken_buttons :
    let icon := sized "IconButton" "sm" "IconButtonProps"
    let plain := sized "Plain" "lg" "Readonly<ButtonProps>"
    implementation? (buttons [icon, plain]) "Button" = none ∧
      implementation? (buttons [plain, icon]) "Button" = none ∧
      (∃ entry, ¬ TypedWith "ButtonProps" entry ∧
        propDefaults (buttons [icon, plain]) "Button" "ButtonProps" = entry.1.defaults) ∧
      propDefaults (buttons [plain, icon]) "Button" "ButtonProps" = [("size", "lg")] := by
  intro icon plain
  have hplain : TypedWith "ButtonProps" (plain, none) := by decide
  have hicon : Mentions "ButtonProps" (icon, none) ∧ ¬ TypedWith "ButtonProps" (icon, none) := by
    rw [← isAnnotatedWith_iff]
    decide
  have hblocked : ¬ Clear (buttons [icon, plain]) "ButtonProps" := by
    intro hclear
    rcases hclear [] (icon, none) [(plain, none)] rfl hicon.1 hicon.2 with ⟨e, he, -⟩
    cases he
  have hclear : Clear (buttons [plain, icon]) "ButtonProps" := by
    intro before entry after heq hmentions htyped
    cases before with
    | nil =>
      cases heq
      exact absurd hplain htyped
    | cons e before =>
      obtain rfl : (plain, none) = e := (List.cons.inj heq).1
      exact ⟨(plain, none), List.mem_cons_self, hplain⟩
  refine ⟨rfl, rfl, ?_, ?_⟩
  · rcases (annotated_function_taken (buttons [icon, plain]) "Button" "ButtonProps"
      (by rintro f ⟨⟩)).2 hblocked with ⟨entry, -, htyped, -, hdefaults⟩
    exact ⟨entry, htyped, hdefaults⟩
  · have htaken := (annotated_function_taken (buttons [plain, icon]) "Button" "ButtonProps"
      (by rintro f ⟨⟩)).1 hclear
    exact (htaken.1 (plain, none) ⟨[], _, rfl, hplain, by simp⟩).2

end PropCatalog
