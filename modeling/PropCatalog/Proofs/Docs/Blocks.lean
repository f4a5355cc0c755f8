import PropCatalog.Proofs.Assoc
import PropCatalog.Proofs.Text.Lines

/-!
# Documentation blocks — reading what was written

A block is written with one line for each line of its description and of its tags, every line behind
a star and a space. Reading such a block gives the description and the tags back:

- `Docs.WrittenTag`, `Docs.WrittenBlock` : what can be written so that it is not taken for something
  else
- `Docs.commentLines_text`    : the lines survive the delimiters and the stars in front of them
- `Docs.sections_tags`        : the tags are told apart
- `written_block_read`        : the texts are read back, the last one of a repeated tag counting

Blank lines, indentation, and lines that begin with a star or a slash are among the lines that can
be written; nothing is said about blocks in another layout.
-/

namespace PropCatalog

namespace Text

/-! ## Trimmed texts -/

theorem length_dropRight_le (p : Char → Bool) (cs : List Char) :
    (dropRight p cs).length ≤ cs.length := by
  have h := (List.dropWhile_sublist (l := cs.reverse) p).length_le
  simpa [dropRight] using h

theorem trimLeft_of_trimmed {cs : List Char} (h : trim cs = cs) : trimLeft cs = cs := by
  have hsuffix : trimLeft cs <:+ cs := List.dropWhile_suffix isBlank
  have hlength : cs.length ≤ (trimLeft cs).length := by
    calc cs.length = (trim cs).length := by rw [h]
      _ ≤ (trimLeft cs).length := length_dropRight_le isBlank (trimLeft cs)
  exact hsuffix.eq_of_length_le hlength

theorem dropRight_of_trimmed {cs : List Char} (h : trim cs = cs) : dropRight isBlank cs = cs := by
  have htrim : trim cs = dropRight isBlank (trimLeft cs) := rfl
  rw [trimLeft_of_trimmed h] at htrim
  exact htrim.symm.trans h

theorem dropRight_of_none {p : Char → Bool} {cs : List Char} (h : ∀ c ∈ cs, p c = false) :
    dropRight p cs = cs := by
  induction cs with
  | nil => rfl
  | cons c cs ih =>
    rw [dropRight_cons (h c List.mem_cons_self), ih fun d hd => h d (List.mem_cons_of_mem _ hd)]

/-- A text between two characters that are no blanks. -/
theorem trim_between {c d : Char} (hc : isBlank c = false) (hd : isBlank d = false)
    (cs : List Char) : trim (c :: (cs ++ [d])) = c :: (cs ++ [d]) := by
  have hlast : dropRight isBlank [d] = [d] := dropRight_cons hd []
  rw [trim_cons hc, dropRight_append, hlast]
  rfl

end Text

namespace Docs

open Text

/-! ## Lines that open a tag -/

/-- A line that opens a tag: an at sign and a word character, blanks around the line apart. -/
def OpensTag (line : List Char) : Prop :=
  ∃ c rest, trim line = '@' :: c :: rest ∧ isWordChar c = true

theorem isSome_tagLine?_iff (line : List Char) : (tagLine? line).isSome = true ↔ OpensTag line := by
  constructor
  · intro h
    unfold tagLine? at h
    split at h
    · rename_i rest hline
      cases rest with
      | nil => cases h
      | cons c rest =>
        refine ⟨c, rest, hline, ?_⟩
        by_contra hword
        simp [splitWord, hword] at h
    · cases h
  · rintro ⟨c, rest, hline, hword⟩
    simp [tagLine?, hline, splitWord, hword]

instance (line : List Char) : Decidable (OpensTag line) :=
  decidable_of_iff _ (isSome_tagLine?_iff line)

theorem tagLine?_eq_none {line : List Char} (h : ¬ OpensTag line) : tagLine? line = none := by
  rw [← isSome_tagLine?_iff] at h
  simpa using h

/-- A text of word characters. -/
def IsWord (cs : List Char) : Prop :=
  ∀ c ∈ cs, isWordChar c = true

instance (cs : List Char) : Decidable (IsWord cs) :=
  List.decidableBAll (fun c => isWordChar c = true) cs

theorem splitWord_append {name rest : List Char} (hname : IsWord name)
    (hrest : ∀ c ∈ rest.head?, isWordChar c = false) : splitWord (name ++ rest) = (name, rest) := by
  have hnone : rest.takeWhile isWordChar = [] ∧ rest.dropWhile isWordChar = rest := by
    cases rest with
    | nil => exact ⟨rfl, rfl⟩
    | cons c rest =>
      have hc : isWordChar c = false := hrest c rfl
      simp [hc]
  -- The name is taken whole, and the word ends with it.
  unfold splitWord
  rw [List.takeWhile_append_of_pos hname, List.dropWhile_append_of_pos hname, hnone.1, hnone.2,
    List.append_nil]

/-- A name and a trimmed text beside it are told apart. -/
theorem tagLine?_written {name first : List Char} (hne : name ≠ [])
    (hword : IsWord name) (hfirst : trim first = first) :
    tagLine? ('@' :: (name ++ ' ' :: first)) = some (name, first) := by
  -- The blank after the name is trimmed off if no text follows it.
  have htrim : ∃ gap, trim ('@' :: (name ++ ' ' :: first)) = '@' :: (name ++ gap) ∧
      (∀ c ∈ gap.head?, isWordChar c = false) ∧ trimLeft gap = first := by
    by_cases hempty : first = []
    · have hname : dropRight isBlank name = name :=
        dropRight_of_none fun c hc => isBlank_eq_false_of_isWordChar (hword c hc)
      have hblank : ∀ c ∈ [' '], isBlank c = true := by simp [isBlank]
      refine ⟨[], ?_, by simp, ?_⟩
      · rw [hempty, trim_cons rfl, dropRight_append_of_all name hblank, hname, List.append_nil]
      · exact hempty.symm
    · have hgap : dropRight isBlank (' ' :: first) = ' ' :: first := by
        have hsplit := dropRight_append isBlank [' '] first
        simpa [dropRight_of_trimmed hfirst, hempty] using hsplit
      refine ⟨' ' :: first, ?_, ?_, ?_⟩
      · rw [trim_cons rfl, dropRight_append, hgap]
        rfl
      · rintro c hc
        cases hc
        rfl
      · exact trimLeft_of_trimmed hfirst
  rcases htrim with ⟨gap, htrim, hgap, htext⟩
  unfold tagLine?
  rw [htrim]
  simp only [splitWord_append hword hgap, htext]
  cases name with
  | nil => exact absurd rfl hne
  | cons c name => rfl

/-! ## Written blocks -/

/-- A tag as it is written: its name, the text beside the name, and the lines below it. -/
structure WrittenTag where
  name : String
  first : List Char
  more : List (List Char)
  name_ne_empty : name.toList ≠ [] := by decide
  name_word : IsWord name.toList := by decide
  first_unbroken : Unbroken first := by decide
  first_trimmed : trim first = first := by decide
  more_unbroken : ∀ line ∈ more, Unbroken line := by decide
  more_plain : ∀ line ∈ more, ¬ OpensTag line := by decide
  trimmed : trim (joinLines (first :: more)) = joinLines (first :: more) := by decide

/-- A block as it is written: the lines of its description, and its tags. -/
structure WrittenBlock where
  leading : List (List Char)
  tags : List WrittenTag
  leading_unbroken : ∀ line ∈ leading, Unbroken line := by decide
  leading_plain : ∀ line ∈ leading, ¬ OpensTag line := by decide
  leading_trimmed : trim (joinLines leading) = joinLines leading := by decide

/-- A line behind a star and a space. -/
def starred (line : List Char) : List Char :=
  ' ' :: '*' :: ' ' :: line

namespace WrittenTag

/-- The line with the name, and those below it. -/
def lines (t : WrittenTag) : List (List Char) :=
  ('@' :: (t.name.toList ++ ' ' :: t.first)) :: t.more

/-- The text of a tag, which is `true` if it is empty. -/
def value (t : WrittenTag) : String :=
  let text := joinLines (t.first :: t.more)
  if text = [] then "true" else String.ofList text

end WrittenTag

namespace WrittenBlock

/-- The lines between the delimiters, without their stars. -/
def lines (b : WrittenBlock) : List (List Char) :=
  b.leading ++ b.tags.flatMap WrittenTag.lines

/-- The block with its delimiters, every line in between behind a star. -/
def text (b : WrittenBlock) : String :=
  String.ofList ('/' :: '*' :: '*' :: '\n' ::
    ((b.lines.map starred).flatMap (· ++ ['\n']) ++ [' ', '*', '/']))

end WrittenBlock

/-! ## Reading a written block -/

theorem dropStar_starred (line : List Char) : dropStar (starred line) = line := rfl

theorem unbroken_starred {line : List Char} (h : Unbroken line) : Unbroken (starred line) := by
  intro c hc
  simp only [starred, List.mem_cons] at hc
  rcases hc with rfl | rfl | rfl | hc
  · rfl
  · rfl
  · rfl
  · exact h c hc

/-- The closing delimiter is dropped. -/
theorem endsWith_close (cs : List Char) : endsWith ['*', '/'] (cs ++ ['*', '/']) = true := by
  simp [endsWith, List.isSuffixOf_iff_suffix]

theorem dropLast_close (cs : List Char) : (cs ++ ['*', '/']).dropLast.dropLast = cs := by
  have hsplit : cs ++ ['*', '/'] = cs ++ ['*'] ++ ['/'] := by simp
  rw [hsplit, List.dropLast_concat, List.dropLast_concat]

/-- A text that begins with a slash and a star loses its delimiters, and its lines their stars. -/
theorem commentLines_of_star {text inside : List Char} (h : trim text = '/' :: '*' :: inside) :
    commentLines text = (lines (blockInside inside)).map dropStar := by
  have hopening : startsWith ['/', '*'] ('/' :: '*' :: inside) = true := by simp [startsWith]
  simp only [commentLines, h, hopening, if_true, List.drop_succ_cons, List.drop_zero]

namespace WrittenTag

theorem lines_unbroken (t : WrittenTag) : ∀ line ∈ t.lines, Unbroken line := by
  intro line hline
  rcases List.mem_cons.1 hline with rfl | hline
  · intro c hc
    rcases List.mem_cons.1 hc with rfl | hc
    · rfl
    rcases List.mem_append.1 hc with hname | hrest
    · -- A break would be a blank, and a name has none.
      have hblank := isBlank_eq_false_of_isWordChar (t.name_word c hname)
      by_contra hbreak
      simp [isBlank_of_isLineBreak (by simpa using hbreak)] at hblank
    · rcases List.mem_cons.1 hrest with rfl | hfirst
      · rfl
      · exact t.first_unbroken c hfirst
  · exact t.more_unbroken line hline

theorem tagLine?_lines (t : WrittenTag) :
    tagLine? ('@' :: (t.name.toList ++ ' ' :: t.first)) = some (t.name.toList, t.first) :=
  tagLine?_written t.name_ne_empty t.name_word t.first_trimmed

theorem value_eq (t : WrittenTag) {pad : List (List Char)} (hpad : ∀ line ∈ pad, Blanks line) :
    tagText (joinLines (t.first :: (t.more ++ pad))) = t.value := by
  have htrim : trim (joinLines (t.first :: t.more ++ pad)) = joinLines (t.first :: t.more) :=
    (trim_joinWith_append (t.first :: t.more) hpad).trans t.trimmed
  rw [List.cons_append] at htrim
  simp only [tagText, htrim, value, List.isEmpty_iff]

end WrittenTag

namespace WrittenBlock

theorem description_eq (b : WrittenBlock) {pad : List (List Char)}
    (hpad : ∀ line ∈ pad, Blanks line) :
    trim (joinLines ([] :: b.leading ++ pad)) = joinLines b.leading := by
  have hopening : ∀ line ∈ [([] : List Char)], Blanks line := by simp [Blanks]
  calc trim (joinLines ([] :: b.leading ++ pad))
      = trim (joinLines ([] :: b.leading)) := trim_joinWith_append ([] :: b.leading) hpad
    _ = trim (joinLines b.leading) := trim_joinWith_blanks hopening b.leading
    _ = joinLines b.leading := b.leading_trimmed

theorem lines_unbroken (b : WrittenBlock) : ∀ line ∈ b.lines, Unbroken line := by
  intro line hline
  rcases List.mem_append.1 hline with hleading | htags
  · exact b.leading_unbroken line hleading
  · rcases List.mem_flatMap.1 htags with ⟨t, -, ht⟩
    exact t.lines_unbroken line ht

end WrittenBlock

/-- The lines of a written block are found again, between those of its delimiters. -/
theorem commentLines_text (b : WrittenBlock) :
    commentLines b.text.toList = [] :: (b.lines ++ [[' ']]) := by
  have hlines : ∀ line ∈ b.lines.map starred, Unbroken line := by
    intro line hline
    rcases List.mem_map.1 hline with ⟨line, hmem, rfl⟩
    exact unbroken_starred (b.lines_unbroken line hmem)
  have hstars : (b.lines.map starred).map dropStar = b.lines := by
    simp [Function.comp_def, dropStar_starred]
  have hsplit := lines_flatMap_append hlines [' ']
  unfold WrittenBlock.text
  rw [String.toList_ofList]
  generalize (b.lines.map starred).flatMap (· ++ ['\n']) = body at hsplit ⊢
  -- The delimiters are found, the second star of the opening one included.
  have htrim : trim ('/' :: '*' :: '*' :: '\n' :: (body ++ [' ', '*', '/'])) =
      '/' :: '*' :: '*' :: '\n' :: (body ++ [' ', '*', '/']) := by
    have hbetween := trim_between (c := '/') (d := '/') rfl rfl
      ('*' :: '*' :: '\n' :: (body ++ [' ', '*']))
    simpa using hbetween
  have hinside : blockInside ('*' :: '\n' :: (body ++ [' ', '*', '/'])) =
      '\n' :: (body ++ [' ']) := by
    have hclose : '\n' :: (body ++ [' ', '*', '/']) = '\n' :: (body ++ [' ']) ++ ['*', '/'] := by
      simp
    have hstart : startsWith ['*'] ('*' :: '\n' :: (body ++ [' ', '*', '/'])) = true := by
      simp [startsWith]
    simp only [blockInside, hstart, if_true, List.drop_succ_cons, List.drop_zero]
    rw [hclose, if_pos (endsWith_close _), dropLast_close]
  rw [commentLines_of_star htrim, hinside, lines_newline, hsplit, List.map_cons, List.map_append,
    hstars]
  rfl

/-! ## Telling tags apart -/

theorem sections_plain_append {ls : List (List Char)} (h : ∀ line ∈ ls, ¬ OpensTag line)
    (rest : List (List Char)) :
    sections (ls ++ rest) = (ls ++ (sections rest).1, (sections rest).2) := by
  induction ls with
  | nil => rfl
  | cons line ls ih =>
    have hline := tagLine?_eq_none (h line List.mem_cons_self)
    have hrest := ih fun l hl => h l (List.mem_cons_of_mem _ hl)
    simp only [List.cons_append, sections, hline, hrest]

/-- A tag takes the lines up to the next one. -/
theorem sections_tag_append (t : WrittenTag) (rest : List (List Char)) :
    sections (t.lines ++ rest) =
      ([], (t.name.toList, t.first :: (t.more ++ (sections rest).1)) :: (sections rest).2) := by
  simp only [WrittenTag.lines, List.cons_append, sections, t.tagLine?_lines,
    sections_plain_append t.more_plain]

/-- The tags of a block are read as they were written. What comes before the first one is the line
of the closing delimiter, if there is no tag. -/
theorem sections_tags (tags : List WrittenTag) :
    (∀ line ∈ (sections (tags.flatMap WrittenTag.lines ++ [[' ']])).1, Blanks line) ∧
      ((sections (tags.flatMap WrittenTag.lines ++ [[' ']])).2.map fun (name, lines) =>
        (String.ofList name, tagText (joinLines lines))) = tags.map fun t => (t.name, t.value) := by
  induction tags with
  | nil =>
    have hclose : sections [[' ']] = ([[' ']], []) := rfl
    simp [hclose, Blanks, isBlank]
  | cons t tags ih =>
    -- The lines before the next tag are added to this one; they are those of the delimiter, if any.
    rcases ih with ⟨hblanks, hpairs⟩
    rw [List.flatMap_cons, List.append_assoc, sections_tag_append]
    refine ⟨by simp, ?_⟩
    simp only [List.map_cons, hpairs, t.value_eq hblanks, String.ofList_toList]

/-- What is read from a written block, before the tags are collected. -/
theorem ofBlock_text (b : WrittenBlock) :
    ofBlock b.text =
      { description := String.ofList (joinLines b.leading)
        tags := Assoc.ofList (b.tags.map fun t => (t.name, t.value)) } := by
  rcases sections_tags b.tags with ⟨hblanks, hpairs⟩
  have hnone : ¬ OpensTag [] := by
    rintro ⟨c, rest, htrim, -⟩
    cases htrim
  -- The line of the opening delimiter and that of the closing one are blank.
  have hleading : ∀ line ∈ [] :: b.leading, ¬ OpensTag line := by
    intro line hline
    rcases List.mem_cons.1 hline with rfl | hline
    · exact hnone
    · exact b.leading_plain line hline
  have hsections := sections_plain_append hleading (b.tags.flatMap WrittenTag.lines ++ [[' ']])
  have hlines : commentLines b.text.toList =
      [] :: b.leading ++ (b.tags.flatMap WrittenTag.lines ++ [[' ']]) := by
    rw [commentLines_text, WrittenBlock.lines, List.cons_append, List.append_assoc]
  unfold ofBlock
  simp only [hlines, hsections, b.description_eq hblanks, hpairs]

end Docs

open Docs in
/-- Reading undoes writing: the description of a written block is read back, its tags come in the
order in which their names first occur, and each has the text of its last occurrence. -/
theorem written_block_read (b : WrittenBlock) :
    (ofBlock b.text).description = String.ofList (joinLines b.leading) ∧
      (ofBlock b.text).tags.map (·.1) = (Assoc.firsts (·.name) b.tags).map (·.name) ∧
      ∀ name, Assoc.get? (ofBlock b.text).tags name =
        (b.tags.reverse.find? (·.name == name)).map (·.value) := by
  rw [ofBlock_text]
  refine ⟨rfl, ?_, ?_⟩
  · rw [Assoc.map_fst_ofList, Assoc.firsts_map, List.map_map]
    rfl
  · intro name
    rw [Assoc.get?_ofList, ← List.map_reverse, Assoc.get?, List.find?_map, Option.map_map]
    rfl

/-- A block with a blank line, a line that looks like a delimiter, an indented line and a tag that
is given twice. -/
def inputBlock : Docs.WrittenBlock where
  leading := ["Input with states.".toList, [], "*/ is kept.".toList]
  tags := [
    { name := "example", first := "<Input".toList, more := ["  label=\"Email\" />".toList] },
    { name := "hideInDocs", first := [], more := [] },
    { name := "example", first := "<Input />".toList, more := [] }]

theorem written_block_read_input :
    inputBlock.text = "/**\n * Input with states.\n * \n * */ is kept.\n * @example <Input\n" ++
        " *   label=\"Email\" />\n * @hideInDocs \n * @example <Input />\n */" ∧
      (Docs.ofBlock inputBlock.text).description = "Input with states.\n\n*/ is kept." ∧
      (Docs.ofBlock inputBlock.text).tags.map (·.1) = ["example", "hideInDocs"] ∧
      Assoc.get? (Docs.ofBlock inputBlock.text).tags "example" = some "<Input />" ∧
      Assoc.get? (Docs.ofBlock inputBlock.text).tags "hideInDocs" = some "true" := by
  rcases written_block_read inputBlock with ⟨hdescription, hnames, htexts⟩
  refine ⟨by decide +kernel, hdescription.trans (by decide +kernel), ?_, ?_, ?_⟩
  · exact hnames.trans (by decide +kernel)
  · exact (htexts "example").trans (by decide +kernel)
  · exact (htexts "hideInDocs").trans (by decide +kernel)

end PropCatalog
