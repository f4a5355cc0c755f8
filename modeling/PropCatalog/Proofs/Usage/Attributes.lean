import PropCatalog.Proofs.Usage.AssignedValues

/-!
# Attributes — which props a snippet stands for

The attributes of a snippet stand one after the other, with spaces between them, and they are read
from the left: a name goes as far as the characters of names do, a value in braces as far as it is
JSON. A text goes up to a quote; but quotes within a text are not marked, so that a text may run on
over its own closing quote, and over the attributes that follow it up to another one.

- `IsAttribute`, `shown`   : props that become attributes, and those that are seen
- `attribute_append_cases` : two attributes and what follows them
- `RunsOver`               : props of which one text swallows what follows another one
- `attributesCode_eq_iff`  : the props whose attributes are written alike
- `snippet_eq_iff`         : the props that have a snippet in common
-/

namespace PropCatalog

/-! ## Names and values -/

/-- The characters of names: letters and digits of any script, and a few marks. -/
def isNameChar (c : Char) : Bool :=
  Text.isWordChar c || c == '$' || c == '-'

/-- A prop with a name and a value that can be those of an attribute. -/
structure IsAttribute (e : String × Value) : Prop where
  notContent : e.1 ≠ "children"
  name : ∀ c ∈ e.1.toList, isNameChar c = true
  value : e.2.Plain

/-- Whether a prop is seen in a snippet: not if it is false, nor if it is true and has no name. -/
def isShown : String × Value → Bool
  | (name, .bool b) => b && name != ""
  | _ => true

def shown (props : List (String × Value)) : List (String × Value) :=
  props.filter isShown

/-- The attributes of an element, each after a space. -/
def attributesCode (props : List (String × Value)) : String :=
  String.join ((props.filterMap fun e => attributeCode e.1 e.2).map (" " ++ ·))

/-- What follows the name of an attribute. -/
def valueChars : Value → List Char
  | .text s => "=\"".toList ++ s.toList ++ ['"']
  | .bool _ => []
  | v => "=\x7b".toList ++ v.compactChars ++ ['\x7d']

def attributeChars (e : String × Value) : List Char :=
  ' ' :: (e.1.toList ++ valueChars e.2)

theorem attributeCode_of_not_shown {e : String × Value} (h : isShown e = false) :
    attributeCode e.1 e.2 = none := by
  rcases e with ⟨name, v⟩
  cases v with
  | bool b => exact if_neg (by simpa [isShown] using h)
  | null | int | float | text | list | map => cases h

theorem toList_attributeCode {e : String × Value} (h : isShown e = true) :
    ∃ code, attributeCode e.1 e.2 = some code ∧ (" " ++ code).toList = attributeChars e := by
  rcases e with ⟨name, v⟩
  cases v with
  | bool b =>
    refine ⟨name, if_pos h, ?_⟩
    simp [attributeChars, valueChars]
  | text s => exact ⟨_, rfl, by simp [attributeChars, valueChars]⟩
  | null | int | float | list | map =>
    exact ⟨_, rfl, by simp [attributeChars, valueChars, Value.compact]⟩

theorem toList_attributesCode (props : List (String × Value)) :
    (attributesCode props).toList = (shown props).flatMap attributeChars := by
  induction props with
  | nil => rfl
  | cons e props ih =>
    unfold attributesCode shown at ih ⊢
    cases hshown : isShown e with
    | false => simpa [attributeCode_of_not_shown hshown, hshown] using ih
    | true =>
      rcases toList_attributeCode hshown with ⟨code, hcode, hchars⟩
      simp [hcode, hshown, ← hchars, ← ih]

/-- Without content an element is its name and its attributes. -/
theorem snippet_of_attributes (name : String) {props : List (String × Value)}
    (h : ∀ e ∈ props, e.1 ≠ "children") :
    snippet name props = "<" ++ name ++ attributesCode props ++ " />" := by
  have hall : props.filter (·.1 != "children") = props :=
    List.filter_eq_self.2 fun e he => bne_iff_ne.2 (h e he)
  have hnone : Assoc.get? props "children" = none := by
    rw [Assoc.get?, Option.map_eq_none_iff, List.find?_eq_none]
    exact fun e he => by simpa using h e he
  simp only [snippet, hall, hnone, Option.filter_none, attributesCode]

theorem snippet_eq_iff_attributes (name : String) {props others : List (String × Value)}
    (hprops : ∀ e ∈ props, e.1 ≠ "children") (hothers : ∀ e ∈ others, e.1 ≠ "children") :
    snippet name props = snippet name others ↔ attributesCode props = attributesCode others := by
  rw [snippet_of_attributes name hprops, snippet_of_attributes name hothers]
  simp [← String.toList_inj]

theorem attributesCode_shown (props : List (String × Value)) :
    attributesCode (shown props) = attributesCode props := by
  rw [← String.toList_inj, toList_attributesCode, toList_attributesCode]
  simp [shown, List.filter_filter]

theorem attributesCode_append (props others : List (String × Value)) :
    attributesCode (props ++ others) = attributesCode props ++ attributesCode others := by
  rw [← String.toList_inj, String.toList_append]
  simp [toList_attributesCode, shown]

theorem attributesCode_text (key s : String) (rest : List (String × Value)) :
    attributesCode ((key, .text s) :: rest) =
      " " ++ key ++ "=\"" ++ s ++ "\"" ++ attributesCode rest := by
  rw [← String.toList_inj]
  simp [attributesCode, attributeCode]

/-! ## One attribute -/

/-- A word of one class of characters goes up to the first character outside. -/
theorem word_append_inj {p : Char → Bool} {word word' rest rest' : List Char}
    (hword : ∀ c ∈ word, p c = true) (hword' : ∀ c ∈ word', p c = true)
    (hrest : ∀ c ∈ rest.head?, p c = false) (hrest' : ∀ c ∈ rest'.head?, p c = false)
    (h : word ++ rest = word' ++ rest') : word = word' ∧ rest = rest' := by
  have hstop : ∀ {tail : List Char}, (∀ c ∈ tail.head?, p c = false) → tail.takeWhile p = [] := by
    intro tail htail
    cases tail with
    | nil => rfl
    | cons c tail => exact List.takeWhile_cons_of_neg (by simp [htail c rfl])
  have htake := congrArg (List.takeWhile p) h
  rw [List.takeWhile_append_of_pos hword, List.takeWhile_append_of_pos hword', hstop hrest,
    hstop hrest', List.append_nil, List.append_nil] at htake
  rw [htake] at h
  exact ⟨htake, List.append_cancel_left h⟩

/-- The forms of what follows a name. -/
theorem valueChars_cases (v : Value) :
    (∃ s, v = .text s) ∨ (∃ b, v = .bool b) ∨
      valueChars v = "=\x7b".toList ++ v.compactChars ++ ['\x7d'] := by
  cases v with
  | text s => exact .inl ⟨s, rfl⟩
  | bool b => exact .inr (.inl ⟨b, rfl⟩)
  | null | int | float | list | map => exact .inr (.inr rfl)

/-- Two texts up to a quote are the same, or one goes on over the quote that ends the other. -/
theorem quoted_append_cases {cs cs' rest rest' : List Char}
    (h : cs ++ '"' :: rest = cs' ++ '"' :: rest') :
    (cs = cs' ∧ rest = rest') ∨ (∃ more, cs' = cs ++ '"' :: more ∧ rest = more ++ '"' :: rest') ∨
      ∃ more, cs = cs' ++ '"' :: more ∧ rest' = more ++ '"' :: rest := by
  rcases List.append_eq_append_iff.1 h with ⟨more, rfl, hrest⟩ | ⟨more, rfl, hrest⟩
  · cases more with
    | nil => exact .inl ⟨by simp, (List.cons.inj hrest).2⟩
    | cons c more =>
      rcases List.cons.inj hrest with ⟨rfl, htail⟩
      exact .inr (.inl ⟨more, rfl, htail⟩)
  · cases more with
    | nil => exact .inl ⟨by simp, (List.cons.inj hrest).2.symm⟩
    | cons c more =>
      rcases List.cons.inj hrest with ⟨rfl, htail⟩
      exact .inr (.inr ⟨more, rfl, htail⟩)

/-- A text, and the same text with a quote and more after it. -/
def Continues (v v' : Value) (more : String) : Prop :=
  ∃ s, v = .text s ∧ v' = .text (s ++ "\"" ++ more)

section Tails

/-- What follows an attribute begins with a space. -/
def Spaced (rest : List Char) : Prop :=
  ∃ more, rest = ' ' :: more

/-- What follows a name does not belong to it. -/
theorem not_isNameChar_of_head {rest : List Char} (hrest : Spaced rest) (v : Value) :
    ∀ c ∈ (valueChars v ++ rest).head?, isNameChar c = false := by
  rcases hrest with ⟨more, rfl⟩
  intro c hc
  rcases valueChars_cases v with ⟨s, rfl⟩ | ⟨b, rfl⟩ | hbraces
  · cases hc
    decide
  · cases hc
    decide
  · rw [hbraces] at hc
    cases hc
    decide

variable {rest rest' : List Char} (hrest : Spaced rest) (hrest' : Spaced rest')

include hrest hrest'

theorem value_append_cases {v v' : Value} (hv : v.Plain) (hv' : v'.Plain)
    (hshown : v ≠ .bool false) (hshown' : v' ≠ .bool false)
    (h : valueChars v ++ rest = valueChars v' ++ rest') :
    (v = v' ∧ rest = rest') ∨
      (∃ more, Continues v v' more ∧ rest = more.toList ++ '"' :: rest') ∨
      ∃ more, Continues v' v more ∧ rest' = more.toList ++ '"' :: rest := by
  rcases hrest with ⟨after, rfl⟩
  rcases hrest' with ⟨after', rfl⟩
  rcases valueChars_cases v with ⟨s, rfl⟩ | ⟨b, rfl⟩ | hbraces <;>
    rcases valueChars_cases v' with ⟨s', rfl⟩ | ⟨b', rfl⟩ | hbraces'
  · -- Two texts.
    have hquoted : s.toList ++ '"' :: ' ' :: after = s'.toList ++ '"' :: ' ' :: after' := by
      simpa [valueChars] using h
    rcases quoted_append_cases hquoted with ⟨hs, hafter⟩ | ⟨more, hs, hafter⟩ | ⟨more, hs, hafter⟩
    · exact .inl ⟨by rw [String.toList_injective hs], hafter⟩
    · refine .inr (.inl ⟨String.ofList more, ⟨s, rfl, ?_⟩, by simpa using hafter⟩)
      rw [Value.text.injEq, ← String.toList_inj]
      simpa using hs
    · refine .inr (.inr ⟨String.ofList more, ⟨s', rfl, ?_⟩, by simpa using hafter⟩)
      rw [Value.text.injEq, ← String.toList_inj]
      simpa using hs
  -- Different forms differ in their first two characters.
  · simp [valueChars] at h
  · rw [hbraces'] at h
    simp [valueChars] at h
  · simp [valueChars] at h
  · -- Two names alone, both of them true.
    obtain rfl : b = true := by simpa using hshown
    obtain rfl : b' = true := by simpa using hshown'
    exact .inl ⟨rfl, h⟩
  · rw [hbraces'] at h
    simp [valueChars] at h
  · rw [hbraces] at h
    simp [valueChars] at h
  · rw [hbraces] at h
    simp [valueChars] at h
  · -- Two values in braces, which are JSON up to the closing ones.
    have hends : ∀ cs, Json.Ends ('\x7d' :: cs) := by
      rintro cs c ⟨⟩
      exact .inr (.inr (.inr rfl))
    rw [hbraces, hbraces'] at h
    have hjson : v.compactChars ++ '\x7d' :: ' ' :: after =
        v'.compactChars ++ '\x7d' :: ' ' :: after' := by
      simpa using h
    rcases Json.compactChars_append_inj hv hv' (hends _) (hends _) hjson with ⟨hvalue, hafter⟩
    exact .inl ⟨hvalue, (List.cons.inj hafter).2⟩

/-- Two attributes are the same, or they have the same name and texts of which one continues the
other. -/
theorem attribute_append_cases {e e' : String × Value} (he : IsAttribute e) (he' : IsAttribute e')
    (hshown : isShown e = true) (hshown' : isShown e' = true)
    (h : attributeChars e ++ rest = attributeChars e' ++ rest') :
    (e = e' ∧ rest = rest') ∨
      (∃ more, e.1 = e'.1 ∧ Continues e.2 e'.2 more ∧ rest = more.toList ++ '"' :: rest') ∨
      ∃ more, e'.1 = e.1 ∧ Continues e'.2 e.2 more ∧ rest' = more.toList ++ '"' :: rest := by
  rcases e with ⟨name, v⟩
  rcases e' with ⟨name', v'⟩
  have hfalse : ∀ {key w}, isShown (key, w) = true → w ≠ .bool false := by
    rintro key w hw rfl
    cases hw
  have htexts : name.toList ++ (valueChars v ++ rest) =
      name'.toList ++ (valueChars v' ++ rest') := by
    simpa [attributeChars] using h
  -- The names end where the values or the next attributes begin.
  rcases word_append_inj he.name he'.name (not_isNameChar_of_head hrest v)
    (not_isNameChar_of_head hrest' v') htexts with ⟨hname, hvalues⟩
  obtain rfl : name = name' := String.toList_injective hname
  rcases value_append_cases hrest hrest' he.value he'.value (hfalse hshown) (hfalse hshown')
    hvalues with ⟨rfl, hafter⟩ | ⟨more, hmore, hafter⟩ | ⟨more, hmore, hafter⟩
  · exact .inl ⟨rfl, hafter⟩
  · exact .inr (.inl ⟨more, rfl, hmore, hafter⟩)
  · exact .inr (.inr ⟨more, rfl, hmore, hafter⟩)

end Tails

/-- An element does not end where an attribute begins. -/
theorem end_ne_attribute {e : String × Value} (he : IsAttribute e) (hshown : isShown e = true)
    (rest : List Char) : " />".toList ≠ attributeChars e ++ rest := by
  rcases e with ⟨name, v⟩
  intro h
  have hslash : ['/', '>'] = name.toList ++ (valueChars v ++ rest) := by
    simpa [attributeChars] using h
  cases hname : name.toList with
  | nil =>
    rw [hname, List.nil_append] at hslash
    rcases valueChars_cases v with ⟨s, rfl⟩ | ⟨b, rfl⟩ | hbraces
    · simp [valueChars] at hslash
    · have hempty : name = "" := String.toList_injective hname
      simp [isShown, hempty] at hshown
    · simp [hbraces] at hslash
  | cons c cs =>
    have hc := he.name c (by simp [hname])
    rw [hname] at hslash
    rw [← (List.cons.inj hslash).1] at hc
    exact absurd hc (by decide)

/-! ## All attributes -/

/-- Up to some place two lists of props are the same. There the one has a text, and the other the
same text with more: the closing quote, and the code of what follows in the first list up to another
quote, behind which the codes of both go on alike. -/
def RunsOver (props others : List (String × Value)) : Prop :=
  ∃ before key s more rest rest',
    props = before ++ (key, .text s) :: rest ∧
    others = before ++ (key, .text (s ++ "\"" ++ more)) :: rest' ∧
    attributesCode rest = more ++ "\"" ++ attributesCode rest'

theorem RunsOver.cons {props others : List (String × Value)} (e : String × Value)
    (h : RunsOver props others) : RunsOver (e :: props) (e :: others) := by
  rcases h with ⟨before, key, s, more, rest, rest', rfl, rfl, hcode⟩
  exact ⟨e :: before, key, s, more, rest, rest', rfl, rfl, hcode⟩

theorem RunsOver.attributesCode_eq {props others : List (String × Value)}
    (h : RunsOver props others) : attributesCode props = attributesCode others := by
  rcases h with ⟨before, key, s, more, rest, rest', rfl, rfl, hcode⟩
  simp only [attributesCode_append, attributesCode_text, hcode, String.append_assoc]

/-- The text that runs on has a quote in it with a space behind. -/
theorem RunsOver.exists_quote {props others : List (String × Value)} (h : RunsOver props others) :
    ∃ e ∈ others, ∃ s, e.2 = .text s ∧ ['"', ' '] <:+: s.toList := by
  rcases h with ⟨before, key, s, more, rest, rest', -, rfl, hcode⟩
  refine ⟨_, List.mem_append_right _ List.mem_cons_self, _, rfl, ?_⟩
  have hchars : (shown rest).flatMap attributeChars =
      more.toList ++ '"' :: (shown rest').flatMap attributeChars := by
    simpa [toList_attributesCode] using congrArg String.toList hcode
  -- The code of what follows begins with a space, and so does the part of it that is swallowed.
  cases hrest : shown rest with
  | nil => simp [hrest] at hchars
  | cons e shownRest =>
    rw [hrest, List.flatMap_cons, attributeChars, List.cons_append] at hchars
    cases hmore : more.toList with
    | nil => simp [hmore] at hchars
    | cons c cs =>
      rw [hmore] at hchars
      obtain rfl : ' ' = c := (List.cons.inj hchars).1
      exact ⟨s.toList, cs, by simp [hmore]⟩

theorem spaced_attributes (props : List (String × Value)) :
    Spaced (props.flatMap attributeChars ++ " />".toList) := by
  cases props with
  | nil => exact ⟨_, rfl⟩
  | cons e props => exact ⟨_, rfl⟩

/-- Where the text of an attribute continues that of another one, it runs over. -/
theorem runsOver_of_continues {e e' : String × Value} {props others : List (String × Value)}
    (hprops : ∀ x ∈ props, isShown x = true) (hothers : ∀ x ∈ others, isShown x = true)
    {more : String} (hname : e.1 = e'.1) (hvalue : Continues e.2 e'.2 more)
    (htail : props.flatMap attributeChars ++ " />".toList =
      more.toList ++ '"' :: (others.flatMap attributeChars ++ " />".toList)) :
    RunsOver (e :: props) (e' :: others) := by
  rcases e with ⟨name, v⟩
  rcases e' with ⟨name', v'⟩
  obtain rfl : name = name' := hname
  rcases hvalue with ⟨s, hv, hv'⟩
  obtain rfl : v = .text s := hv
  obtain rfl : v' = .text (s ++ "\"" ++ more) := hv'
  refine ⟨[], name, s, more, props, others, rfl, rfl, ?_⟩
  -- Both texts go on to the end of the element, which is taken off.
  rw [← List.cons_append, ← List.append_assoc] at htail
  rw [← String.toList_inj, String.toList_append, String.toList_append, toList_attributesCode,
    toList_attributesCode, shown, shown, List.filter_eq_self.2 hprops,
    List.filter_eq_self.2 hothers, List.append_cancel_right htail]
  simp

/-- Attributes that are read off the same text, one after the other. -/
theorem runsOver_of_attributes {props others : List (String × Value)}
    (hprops : ∀ e ∈ props, IsAttribute e ∧ isShown e = true)
    (hothers : ∀ e ∈ others, IsAttribute e ∧ isShown e = true)
    (h : props.flatMap attributeChars ++ " />".toList =
      others.flatMap attributeChars ++ " />".toList) :
    props = others ∨ RunsOver props others ∨ RunsOver others props := by
  -- Both lists are gone through together, up to the first text that runs over.
  induction props generalizing others with
  | nil =>
    cases others with
    | nil => exact .inl rfl
    | cons e' others =>
      have he' := hothers e' List.mem_cons_self
      rw [List.flatMap_cons, List.append_assoc] at h
      exact absurd h (end_ne_attribute he'.1 he'.2 _)
  | cons e props ih =>
    have he := hprops e List.mem_cons_self
    cases others with
    | nil =>
      rw [List.flatMap_cons, List.append_assoc] at h
      exact absurd h.symm (end_ne_attribute he.1 he.2 _)
    | cons e' others =>
      have he' := hothers e' List.mem_cons_self
      have hrest := fun x hx => hprops x (List.mem_cons_of_mem e hx)
      have hrest' := fun x hx => hothers x (List.mem_cons_of_mem e' hx)
      have hshown := fun x hx => (hrest x hx).2
      have hshown' := fun x hx => (hrest' x hx).2
      rw [List.flatMap_cons, List.flatMap_cons, List.append_assoc, List.append_assoc] at h
      rcases attribute_append_cases (spaced_attributes props) (spaced_attributes others) he.1 he'.1
        he.2 he'.2 h with ⟨rfl, htail⟩ | ⟨more, hname, hvalue, htail⟩ |
          ⟨more, hname, hvalue, htail⟩
      · rcases ih hrest hrest' htail with rfl | hruns | hruns
        · exact .inl rfl
        · exact .inr (.inl (hruns.cons e))
        · exact .inr (.inr (hruns.cons e))
      · exact .inr (.inl (runsOver_of_continues hshown hshown' hname hvalue htail))
      · exact .inr (.inr (runsOver_of_continues hshown' hshown hname hvalue htail))

/-- Attributes of the same code are the same, up to a text that runs over. -/
theorem attributesCode_eq_iff {props others : List (String × Value)}
    (hprops : ∀ e ∈ props, IsAttribute e) (hothers : ∀ e ∈ others, IsAttribute e) :
    attributesCode props = attributesCode others ↔
      shown props = shown others ∨ RunsOver (shown props) (shown others) ∨
        RunsOver (shown others) (shown props) := by
  have hshown : ∀ {entries : List (String × Value)}, (∀ e ∈ entries, IsAttribute e) →
      ∀ e ∈ shown entries, IsAttribute e ∧ isShown e = true := by
    intro entries hall e he
    exact ⟨hall e (List.mem_of_mem_filter he), List.of_mem_filter he⟩
  constructor
  · intro h
    refine runsOver_of_attributes (hshown hprops) (hshown hothers) ?_
    rw [← toList_attributesCode, ← toList_attributesCode, h]
  · intro h
    rw [← attributesCode_shown props, ← attributesCode_shown others]
    rcases h with hsame | hruns | hruns
    · rw [hsame]
    · exact hruns.attributesCode_eq
    · exact hruns.attributesCode_eq.symm

/-! ## Snippets -/

/-- Of two props that are texts, the first one may swallow the second one and all in between. -/
theorem attributesCode_merged (before between after : List (String × Value))
    (key s key' s' : String) :
    attributesCode (before ++ (key, .text s) :: (between ++ (key', .text s') :: after)) =
      attributesCode (before ++ (key, .text
        (s ++ "\"" ++ attributesCode between ++ " " ++ key' ++ "=\"" ++ s')) :: after) := by
  simp only [attributesCode_append, attributesCode_text, String.append_assoc]

theorem shown_merged_ne (before between after : List (String × Value))
    (key s key' s' text : String) :
    shown (before ++ (key, .text text) :: after) ≠
      shown (before ++ (key, .text s) :: (between ++ (key', .text s') :: after)) := by
  intro heq
  have hcount : ∀ key s (entries : List (String × Value)),
      (shown ((key, .text s) :: entries)).length = (shown entries).length + 1 := fun _ _ _ => rfl
  have hlength := congrArg List.length heq
  simp only [shown, List.filter_append, List.length_append] at hlength hcount
  simp only [hcount, List.filter_append, List.length_append] at hlength
  omega

/-- Which props have a snippet in common. They are the same as far as they are seen, unless a text
of the one runs over what follows in the other. As long as no text has a quote in it with a space
behind, a snippet determines the props that are seen. If two of them are texts it does not determine
them among all props: the first text may as well have everything in it up to the end of the second
one. -/
theorem snippet_eq_iff (name : String) {props others : List (String × Value)}
    (hprops : ∀ e ∈ props, IsAttribute e) (hothers : ∀ e ∈ others, IsAttribute e) :
    (snippet name props = snippet name others ↔
      shown props = shown others ∨ RunsOver (shown props) (shown others) ∨
        RunsOver (shown others) (shown props)) ∧
    ((∀ e ∈ props ++ others, ∀ s, e.2 = .text s → ¬ ['"', ' '] <:+: s.toList) →
      (snippet name props = snippet name others ↔ shown props = shown others)) ∧
    (∀ before key s between key' s' after,
      props = before ++ (key, .text s) :: (between ++ (key', .text s') :: after) →
      ∃ text, (∀ e ∈ before ++ (key, .text text) :: after, IsAttribute e) ∧
        snippet name (before ++ (key, .text text) :: after) = snippet name props ∧
        shown (before ++ (key, .text text) :: after) ≠ shown props) := by
  have hiff : snippet name props = snippet name others ↔
      shown props = shown others ∨ RunsOver (shown props) (shown others) ∨
        RunsOver (shown others) (shown props) := by
    rw [snippet_eq_iff_attributes name (fun e he => (hprops e he).notContent)
      (fun e he => (hothers e he).notContent), attributesCode_eq_iff hprops hothers]
  refine ⟨hiff, ?_, ?_⟩
  · intro hquotes
    have hnone : ∀ {entries rest : List (String × Value)}, (∀ e ∈ rest, e ∈ props ++ others) →
        ¬ RunsOver entries (shown rest) := by
      intro entries rest hrest hruns
      rcases hruns.exists_quote with ⟨e, he, s, hs, hquote⟩
      exact hquotes e (hrest e (List.mem_of_mem_filter he)) s hs hquote
    rw [hiff, or_iff_left]
    rintro (hruns | hruns)
    · exact hnone (fun e he => List.mem_append_right _ he) hruns
    · exact hnone (fun e he => List.mem_append_left _ he) hruns
  · rintro before key s between key' s' after rfl
    refine ⟨s ++ "\"" ++ attributesCode between ++ " " ++ key' ++ "=\"" ++ s', ?_⟩
    have hmerged : ∀ text, ∀ e ∈ before ++ (key, .text text) :: after, IsAttribute e := by
      intro text e he
      rcases List.mem_append.1 he with he | he
      · exact hprops e (List.mem_append_left _ he)
      rcases List.mem_cons.1 he with rfl | he
      · have hfirst := hprops (key, .text s) (by simp)
        exact ⟨hfirst.notContent, hfirst.name, Value.plain_text _⟩
      · exact hprops e (by simp [he])
    refine ⟨hmerged _, ?_, shown_merged_ne before between after key s key' s' _⟩
    rw [snippet_eq_iff_attributes name (fun e he => (hmerged _ e he).notContent)
      (fun e he => (hprops e he).notContent), attributesCode_merged]

theorem snippet_eq_iff_box :
    let one : List (String × Value) := [("label", .text "x\" size=\"y"), ("wide", .bool false)]
    let two : List (String × Value) := [("label", .text "x"), ("size", .text "y")]
    let tagged : List (String × Value) := [("tags", .list [.text "a\" b", .int (-1)])]
    (∀ e ∈ one ++ two ++ tagged, IsAttribute e) ∧ snippet "Box" one = snippet "Box" two ∧
      shown one ≠ shown two ∧ snippet "Box" tagged ≠ snippet "Box" two := by
  intro one two tagged
  have hall : ∀ e ∈ one ++ two ++ tagged, IsAttribute e := by
    intro e he
    simp only [one, two, tagged, List.cons_append, List.nil_append, List.mem_cons,
      List.not_mem_nil, or_false] at he
    rcases he with rfl | rfl | rfl | rfl | rfl
    · exact ⟨by decide, List.all_eq_true.1 (by decide), Value.plain_text _⟩
    · exact ⟨by decide, List.all_eq_true.1 (by decide), Value.plain_bool _⟩
    · exact ⟨by decide, List.all_eq_true.1 (by decide), Value.plain_text _⟩
    · exact ⟨by decide, List.all_eq_true.1 (by decide), Value.plain_text _⟩
    · refine ⟨by decide, List.all_eq_true.1 (by decide), Value.plain_list fun v hv => ?_⟩
      simp only [List.mem_cons, List.not_mem_nil, or_false] at hv
      rcases hv with rfl | rfl
      · exact Value.plain_text _
      · exact Value.plain_int _
  have hone : ∀ e ∈ one, IsAttribute e := fun e he => hall e (by simp [he])
  have htwo : ∀ e ∈ two, IsAttribute e := fun e he => hall e (by simp [he])
  have htagged : ∀ e ∈ tagged, IsAttribute e := fun e he => hall e (by simp [he])
  refine ⟨hall, ?_, ?_, ?_⟩
  · refine (snippet_eq_iff "Box" hone htwo).1.2 (.inr (.inr ?_))
    exact ⟨[], "label", "x", " size=\"y", [("size", .text "y")], [], rfl, rfl, rfl⟩
  · intro heq
    exact absurd (congrArg List.length heq) (by decide)
  · rw [ne_eq, (snippet_eq_iff "Box" htagged htwo).2.1]
    · intro heq
      exact absurd (congrArg List.length heq) (by decide)
    · intro e he s hs
      simp only [tagged, two, List.cons_append, List.nil_append, List.mem_cons,
        List.not_mem_nil, or_false] at he
      rcases he with rfl | rfl | rfl <;> cases hs <;> decide

end PropCatalog
