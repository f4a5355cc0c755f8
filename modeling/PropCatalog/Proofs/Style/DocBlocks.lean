import PropCatalog.Proofs.Docs.Blocks
import PropCatalog.Proofs.Style.Merging
import PropCatalog.Proofs.Style.Scans

/-!
# Documentation blocks of stylesheets — reading back what they document

Custom properties are documented one line each, between a line that opens a block and one that
closes it. Every property of such a block is found on its own line and nothing else is found.

- `DocumentedVariable`, `blockText` : what can be documented so that it is not taken for something
  else, and the block
- `documented_lines`        : the lines of a block
- `docBlocks_blockText`     : the block is found as it was written
- `documented_variables_read` : the properties of a stylesheet with one block
-/

namespace PropCatalog
namespace Style

open Text (trim trimLeft)

/-- A custom property and its description, on one line that neither closes the block nor uses a
property. -/
structure DocumentedVariable where
  name : List Char
  description : List Char
  isName : IsName name
  nonempty : description ≠ []
  trimmed : trim description = description
  oneLine : '\n' ∉ description
  closesNothing : ¬ ['*', '/'] <:+: description
  usesNothing : ¬ "var(".toList <:+: description

namespace DocumentedVariable

def toVariable (v : DocumentedVariable) : StyleVariable :=
  { name := String.ofList v.name, description := String.ofList v.description, default := none }

/-- The line of a property in a block, with the line feed that ends it. -/
def line (v : DocumentedVariable) : List Char :=
  " * ".toList ++ v.name ++ ": ".toList ++ v.description ++ ['\n']

end DocumentedVariable

/-- The lines of a block between the one that opens it and its end. -/
def blockLines (vars : List DocumentedVariable) : List Char :=
  vars.flatMap DocumentedVariable.line

theorem blockLines_cons (v : DocumentedVariable) (vars : List DocumentedVariable)
    (rest : List Char) :
    blockLines (v :: vars) ++ rest =
      ' ' :: '*' :: ' ' :: (v.name ++ ':' :: ' ' :: (v.description ++
        '\n' :: (blockLines vars ++ rest))) := by
  -- Stated for all lists: with the literals in it, the rewriting would evaluate them.
  have hassoc : ∀ a b c d e f : List Char,
      a ++ b ++ c ++ d ++ e ++ f ++ rest = a ++ (b ++ (c ++ (d ++ (e ++ (f ++ rest))))) := by simp
  exact (hassoc _ _ _ _ _ _).trans rfl

/-- A block that documents some properties, with the line feed behind it. -/
def blockText (vars : List DocumentedVariable) : List Char :=
  "/**\n".toList ++ blockLines vars ++ " */\n".toList

theorem blockText_append (vars : List DocumentedVariable) (after : List Char) :
    blockText vars ++ after =
      "/**".toList ++ '\n' :: (blockLines vars ++ ' ' :: '*' :: '/' :: '\n' :: after) := by
  -- Stated for all lists: with the literals in it, the rewriting would evaluate them.
  have hassoc : ∀ a b c d : List Char, a ++ b ++ c ++ d = a ++ (b ++ (c ++ d)) := by simp
  exact (hassoc _ _ _ _).trans rfl

theorem cleanDescription_eq (v : DocumentedVariable) :
    cleanDescription v.description = String.ofList v.description := by
  have hends : Text.endsWith ['*', '/'] v.description = false := by
    rw [Text.endsWith, ← Bool.not_eq_true, List.isSuffixOf_iff_suffix]
    exact fun h => v.closesNothing h.isInfix
  simp only [cleanDescription, v.trimmed, hends, Bool.false_eq_true, if_false]

/-! ## What is not found in a line -/

/-- A text that is in no line of a block unless it is in a description. -/
structure Foreign (needle : List Char) : Prop where
  name : ∃ c ∈ needle, isNamePart c = false
  star : ¬ needle <:+: ['*']
  space : ' ' ∉ needle
  colon : ':' ∉ needle
  feed : '\n' ∉ needle

theorem foreign_close : Foreign ['*', '/'] where
  name := ⟨'*', by decide, by decide⟩
  star := by decide
  space := by decide
  colon := by decide
  feed := by decide

theorem foreign_use : Foreign "var(".toList where
  name := ⟨'(', by decide, by decide⟩
  star := by decide
  space := by decide
  colon := by decide
  feed := by decide

theorem Foreign.ne_nil {needle : List Char} (h : Foreign needle) : needle ≠ [] := by
  rcases h.name with ⟨c, hc, -⟩
  exact List.ne_nil_of_mem hc

theorem Foreign.not_infix_name {needle name : List Char} (h : Foreign needle)
    (hname : IsName name) : ¬ needle <:+: name := by
  rcases h.name with ⟨c, hc, hpart⟩
  intro hoccurs
  rw [hname.isNamePart_of_mem (hoccurs.subset hc)] at hpart
  cases hpart

theorem Foreign.not_infix_blockLines {needle : List Char} (h : Foreign needle)
    {vars : List DocumentedVariable} (hvars : ∀ v ∈ vars, ¬ needle <:+: v.description)
    {rest : List Char} (hrest : ¬ needle <:+: rest) : ¬ needle <:+: blockLines vars ++ rest := by
  induction vars with
  | nil => exact hrest
  | cons v vars ih =>
    have hmore := ih fun w hw => hvars w (List.mem_cons_of_mem v hw)
    have hline : blockLines (v :: vars) ++ rest =
        ' ' :: (['*'] ++ ' ' :: (v.name ++ ':' :: ' ' ::
          (v.description ++ '\n' :: (blockLines vars ++ rest)))) :=
      blockLines_cons v vars rest
    rw [hline]
    -- Between the parts of a line stand characters that the text does not have.
    refine Text.not_infix_cons h.space h.ne_nil ?_
    refine Text.not_infix_append_cons h.space h.star ?_
    refine Text.not_infix_append_cons h.colon (h.not_infix_name v.isName) ?_
    refine Text.not_infix_cons h.space h.ne_nil ?_
    exact Text.not_infix_append_cons h.feed (hvars v List.mem_cons_self) hmore

/-! ## Lines -/

theorem trimLeft_space (cs : List Char) : trimLeft (' ' :: cs) = trimLeft cs := rfl

theorem trimLeft_name {name : List Char} (h : IsName name) (rest : List Char) :
    trimLeft (name ++ rest) = name ++ rest := by
  rcases h with ⟨part, -, -, rfl⟩
  rfl

theorem DocumentedVariable.trimLeft_description (v : DocumentedVariable) (rest : List Char) :
    trimLeft (v.description ++ rest) = v.description ++ rest := by
  have htrimmed := Text.trimLeft_of_trimmed v.trimmed
  cases hdescription : v.description with
  | nil => exact absurd hdescription v.nonempty
  | cons c cs =>
    rw [hdescription] at htrimmed
    by_cases hc : Text.isBlank c = true
    · -- A blank in front would be dropped, and the rest is too short.
      have hshort : trimLeft (c :: cs) = trimLeft cs := by
        simp [trimLeft, Text.dropLeft, hc]
      have hlength := (List.dropWhile_suffix (l := cs) Text.isBlank).length_le
      rw [hshort] at htrimmed
      rw [← Text.dropLeft, ← trimLeft, htrimmed, List.length_cons] at hlength
      omega
    · rw [List.cons_append, Text.trimLeft_cons (by simpa using hc)]

/-- The star of a line and what follows it. -/
theorem documented?_line (v : DocumentedVariable) (rest : List Char) :
    documented? ('*' :: ' ' :: (v.name ++ ':' :: ' ' :: (v.description ++ '\n' :: rest))) =
      some ((v.name, v.description), '\n' :: rest) := by
  have hname : name? (v.name ++ ':' :: ' ' :: (v.description ++ '\n' :: rest)) =
      some (v.name, ':' :: ' ' :: (v.description ++ '\n' :: rest)) := by
    refine name?_append v.isName ?_
    rintro c ⟨⟩
    decide
  have hcolon : ∀ cs, trimLeft (':' :: cs) = ':' :: cs := fun cs => rfl
  simp only [documented?, trimLeft_space, trimLeft_name v.isName, hname, hcolon,
    v.trimLeft_description, Text.takeWhile_ne_append v.oneLine, Text.dropWhile_ne_append v.oneLine]
  rw [if_neg]
  simpa using v.nonempty

/-- From each line of a block its property is read, and the line that closes the block says
nothing. -/
theorem documented_lines (vars : List DocumentedVariable) :
    documented (blockLines vars ++ " */".toList) = vars.map fun v => (v.name, v.description) := by
  induction vars with
  | nil =>
    refine scanAll_eq_nil fun s hs => ?_
    have hclose : s <:+ [' ', '*', '/'] := hs
    have hcases : s = [' ', '*', '/'] ∨ s = ['*', '/'] ∨ s = ['/'] ∨ s = [] := by
      simpa only [List.suffix_cons_iff, List.suffix_nil] using hclose
    rcases hcases with rfl | rfl | rfl | rfl <;> rfl
  | cons v vars ih =>
    have hfeed : ∀ cs, documented? ('\n' :: cs) = none := fun cs => rfl
    have hspace : ∀ cs, documented? (' ' :: cs) = none := fun cs => rfl
    rw [blockLines_cons, documented, scanAll_of_none (hspace _),
      scanAll_of_some (documented?_line v _), scanAll_of_none (hfeed _), List.map_cons]
    · exact congrArg _ ih
    · simp only [List.length_cons, List.length_append]
      omega

/-- The line that opens a block says nothing either. -/
theorem documented_block (vars : List DocumentedVariable) :
    documented ("/**\n".toList ++ blockLines vars ++ " */".toList) =
      vars.map fun v => (v.name, v.description) := by
  have hslash : ∀ cs, documented? ('/' :: cs) = none := fun cs => rfl
  have hfeed : ∀ cs, documented? ('\n' :: cs) = none := fun cs => rfl
  have hspace : ∀ cs, documented? (' ' :: cs) = none := fun cs => rfl
  have hstar : ∀ cs, documented? ('*' :: '*' :: cs) = none := fun cs => rfl
  -- The first line of the block begins with a space and a star as well.
  have hnext : ∀ cs, documented? ('*' :: '\n' :: ' ' :: '*' :: cs) = none := fun cs => rfl
  have hlines : ∃ cs, blockLines vars ++ " */".toList = ' ' :: '*' :: cs := by
    cases vars with
    | nil => exact ⟨['/'], rfl⟩
    | cons v vars => exact ⟨_, rfl⟩
  rcases hlines with ⟨cs, hcs⟩
  have hall := documented_lines vars
  rw [List.append_assoc, hcs]
  rw [hcs] at hall
  change scanAll documented? ('/' :: '*' :: '*' :: '\n' :: ' ' :: '*' :: cs) = _
  rw [scanAll_of_none (hslash _), scanAll_of_none (hstar _), scanAll_of_none (hnext _),
    scanAll_of_none (hfeed _)]
  exact hall

/-! ## Blocks -/

/-- A block ends at the first place where it can. -/
theorem untilClose?_append {inside : List Char} (h : ¬ ['*', '/'] <:+: inside)
    (rest : List Char) : untilClose? (inside ++ '*' :: '/' :: rest) = some (inside, rest) := by
  induction inside with
  | nil => rfl
  | cons c inside ih =>
    have hopen : ∀ more, c = '*' → inside ++ '*' :: '/' :: rest = '/' :: more → False := by
      rintro more rfl heq
      cases inside with
      | nil => cases heq
      | cons d inside =>
        rw [(List.cons.inj heq).1] at h
        exact h ⟨[], inside, rfl⟩
    have hinside := ih fun hoccurs => h (List.infix_cons hoccurs)
    rw [List.cons_append, untilClose?.eq_3 _ _ hopen, hinside]
    rfl

theorem docBlock?_append {inside : List Char} (h : ¬ ['*', '/'] <:+: inside) (rest : List Char) :
    docBlock? ("/**".toList ++ (inside ++ '*' :: '/' :: rest)) =
      some ("/**".toList ++ inside ++ "*/".toList, rest) := by
  have hstrip : Text.stripPrefix? ['/', '*', '*'] ("/**".toList ++ (inside ++ '*' :: '/' :: rest)) =
      some (inside ++ '*' :: '/' :: rest) := Text.stripPrefix?_append _ _
  unfold docBlock?
  rw [hstrip]
  simp only [untilClose?_append h, Option.map_some]
  rfl

theorem docBlock?_eq_none {cs : List Char} (h : ¬ "/**".toList <+: cs) : docBlock? cs = none := by
  have hstrip : Text.stripPrefix? ['/', '*', '*'] cs = none := Text.stripPrefix?_eq_none h
  rw [docBlock?, hstrip]

theorem docBlocks_eq_nil {cs : List Char} (h : ¬ "/**".toList <:+: cs) : docBlocks cs = [] :=
  scanAll_eq_nil fun _ hs => docBlock?_eq_none fun hpre => h (hpre.isInfix.trans hs.isInfix)

/-- The only block is the one that was written. -/
theorem docBlocks_blockText (vars : List DocumentedVariable) {after : List Char}
    (h : ¬ "/**".toList <:+: after) :
    docBlocks (blockText vars ++ after) = ["/**\n".toList ++ blockLines vars ++ " */".toList] := by
  have hinside : ¬ ['*', '/'] <:+: '\n' :: (blockLines vars ++ [' ']) := by
    refine Text.not_infix_cons foreign_close.feed foreign_close.ne_nil ?_
    exact foreign_close.not_infix_blockLines (fun v _ => v.closesNothing) (by decide)
  have htext : blockText vars ++ after =
      "/**".toList ++ ('\n' :: (blockLines vars ++ [' ']) ++ '*' :: '/' :: '\n' :: after) := by
    rw [blockText_append, List.cons_append, List.append_assoc]
    rfl
  have hblock := docBlock?_append hinside ('\n' :: after)
  have hwritten : "/**".toList ++ '\n' :: (blockLines vars ++ [' ']) ++ "*/".toList =
      "/**\n".toList ++ blockLines vars ++ " */".toList := by
    have hopen : "/**\n".toList = "/**".toList ++ ['\n'] := by decide
    have hclose : " */".toList = ' ' :: "*/".toList := by decide
    simp only [hopen, hclose, List.append_assoc, List.cons_append, List.nil_append]
  rw [← htext, hwritten] at hblock
  have hnone : docBlocks ('\n' :: after) = [] :=
    docBlocks_eq_nil (Text.not_infix_cons (by decide) (by decide) h)
  rw [docBlocks, scanAll_of_some hblock]
  · exact congrArg _ hnone
  · simp only [htext, List.length_append, List.length_cons]
    omega

/-! ## Uses -/

theorem use?_eq_none {cs : List Char} (h : ¬ "var(".toList <+: cs) : use? cs = none := by
  rw [use?, Text.stripPrefix?_eq_none h]

theorem uses_eq_nil {cs : List Char} (h : ¬ "var(".toList <:+: cs) : uses cs = [] :=
  scanAll_eq_nil fun _ hs => use?_eq_none fun hpre => h (hpre.isInfix.trans hs.isInfix)

theorem not_infix_blockText (vars : List DocumentedVariable) {after : List Char}
    (h : ¬ "var(".toList <:+: after) : ¬ "var(".toList <:+: blockText vars ++ after := by
  rw [blockText_append]
  refine Text.not_infix_append_cons foreign_use.feed (by decide) ?_
  refine foreign_use.not_infix_blockLines (fun v _ => v.usesNothing) ?_
  have hend : ¬ "var(".toList <:+: ['*', '/'] ++ '\n' :: after :=
    Text.not_infix_append_cons foreign_use.feed (by decide) h
  exact Text.not_infix_cons foreign_use.space foreign_use.ne_nil hend

/-! ## Properties -/

/-- What is documented in a block is read back from every stylesheet that begins with the block and
has no other block behind it and no use of a property: the properties come in the order of their
lines, with their descriptions and without defaults. -/
theorem documented_variables_read (vars : List DocumentedVariable)
    (hnames : (vars.map (·.name)).Nodup) {after : List Char} (hblock : ¬ "/**".toList <:+: after)
    (huse : ¬ "var(".toList <:+: after) :
    customProperties (String.ofList (blockText vars ++ after)) =
      vars.map DocumentedVariable.toVariable := by
  have hfound : (docBlocks (blockText vars ++ after)).flatMap documented =
      vars.map fun v => (v.name, v.description) := by
    rw [docBlocks_blockText vars hblock, List.flatMap_singleton, documented_block]
  have hpairs : (vars.map fun v => (v.name, v.description)).foldl addDocumented [] =
      vars.map fun v => (String.ofList v.name, v.toVariable) := by
    have hkeys : ((vars.map fun v => (String.ofList v.name, v.toVariable)).map (·.1)).Nodup := by
      rw [List.map_map]
      have hinj := hnames.map fun _ _ h => String.ofList_injective h
      rwa [List.map_map] at hinj
    rw [foldl_addDocumented_eq, List.map_map]
    simp only [Function.comp_def, cleanDescription_eq]
    exact Assoc.ofList_of_nodup hkeys
  rw [customProperties_eq, String.toList_ofList, uses_eq_nil (not_infix_blockText vars huse),
    hfound, merged, List.foldl_nil, hpairs, List.map_map]
  rfl

/-- Two properties whose descriptions have stars, colons, names and an opening delimiter in them. -/
def rowVariables : List DocumentedVariable := [
  { name := "--gap".toList
    description := "2 * --row: wide /** (--)".toList
    isName := ⟨"gap".toList, by decide, List.all_eq_true.1 rfl, rfl⟩
    nonempty := by decide
    trimmed := by decide +kernel
    oneLine := by decide
    closesNothing := by decide +kernel
    usesNothing := by decide +kernel },
  { name := "--row".toList
    description := ": *".toList
    isName := ⟨"row".toList, by decide, List.all_eq_true.1 rfl, rfl⟩
    nonempty := by decide
    trimmed := by decide +kernel
    oneLine := by decide
    closesNothing := by decide +kernel
    usesNothing := by decide +kernel }]

theorem documented_variables_read_row :
    let rules := ".row { gap: 4px } /* --column: 2 */\n".toList
    String.ofList (blockText rowVariables ++ rules) =
        "/**\n * --gap: 2 * --row: wide /** (--)\n * --row: : *\n */\n" ++
          ".row { gap: 4px } /* --column: 2 */\n" ∧
      (rowVariables.map (·.name)).Nodup ∧ ¬ "/**".toList <:+: rules ∧
      ¬ "var(".toList <:+: rules ∧
      customProperties (String.ofList (blockText rowVariables ++ rules)) =
        [{ name := "--gap", description := "2 * --row: wide /** (--)" },
          { name := "--row", description := ": *" }] := by
  intro rules
  have hnames : (rowVariables.map (·.name)).Nodup := by decide
  have hblock : ¬ "/**".toList <:+: rules := by decide +kernel
  have huse : ¬ "var(".toList <:+: rules := by decide +kernel
  refine ⟨by decide +kernel, hnames, hblock, huse, ?_⟩
  exact (documented_variables_read rowVariables hnames hblock huse).trans (by decide +kernel)

end Style
end PropCatalog
