import PropCatalog.Proofs.Docs.Blocks
import PropCatalog.Tsx.Code

/-!
# Plain comments — several of them read as one text

Plain comments on a member are joined to one text before their delimiters are removed. This file
compares that with removing the delimiters of each comment by itself:

- `DelimitedComment`           : line comments and blocks, with the lines between their delimiters
- `Docs.ofPlainLines_congr`    : blanks around the lines do not count
- `Docs.commentLines_slashes`  : after two slashes, every comment is read line by line
- `Docs.mem_commentLines_star` : after a slash and a star, later comments keep their first slash
- `plain_comments_read`        : line comments, and a single block that is not empty, are read one
  by one; otherwise a slash stays in the description, unless a tag replaces it
-/

namespace PropCatalog

namespace Docs

open Text

/-! ## Lines that are read alike -/

/-- The tags on the lines of a comment. -/
def tagPairs (ls : List (List Char)) : List (String × String) :=
  (ls.map plainLine).filterMap fun
    | .tag name text => some (name, text)
    | .prose _ => none

/-- The lines of a comment that are no tags. -/
def prose (ls : List (List Char)) : List (List Char) :=
  (ls.map plainLine).filterMap fun
    | .prose line => some line
    | .tag _ _ => none

theorem mem_prose_iff {ls : List (List Char)} {text : List Char} :
    text ∈ prose ls ↔ ∃ line ∈ ls, plainLine line = .prose text := by
  unfold prose
  rw [List.mem_filterMap]
  constructor
  · rintro ⟨plain, hplain, htext⟩
    rcases List.mem_map.1 hplain with ⟨line, hline, rfl⟩
    refine ⟨line, hline, ?_⟩
    split at htext
    · rename_i heq
      rw [heq, Option.some.inj htext]
    · cases htext
  · rintro ⟨line, hline, htext⟩
    exact ⟨plainLine line, List.mem_map_of_mem hline, by rw [htext]⟩

theorem eq_trim_of_prose {line text : List Char} (h : plainLine line = .prose text) :
    text = trim line := by
  unfold plainLine at h
  split at h
  · cases h
  · split at h
    · cases h
    · exact (PlainLine.prose.inj h).symm

theorem ofPlainLines_def (ls : List (List Char)) :
    ofPlainLines ls =
      { description :=
          if (Assoc.get? (Assoc.ofList (tagPairs ls)) "description").getD "" == "" then
            String.ofList (trim (joinLines (prose ls)))
          else (Assoc.get? (Assoc.ofList (tagPairs ls)) "description").getD ""
        tags := Assoc.ofList (tagPairs ls) } :=
  rfl

theorem description_ofPlainLines {ls : List (List Char)}
    (h : Assoc.get? (ofPlainLines ls).tags "description" = none) :
    (ofPlainLines ls).description = String.ofList (trim (joinLines (prose ls))) := by
  rw [ofPlainLines_def] at h ⊢
  dsimp only at h ⊢
  rw [h]
  rfl

theorem plainLine_trim (line : List Char) : plainLine (trim line) = plainLine line := by
  simp only [plainLine, tagLine?, keyLine?, trim_trim]

/-- Blanks around the lines do not count. -/
theorem ofPlainLines_congr {ls ms : List (List Char)} (h : ls.map trim = ms.map trim) :
    ofPlainLines ls = ofPlainLines ms := by
  have hlines : ls.map plainLine = ms.map plainLine := by
    calc ls.map plainLine = (ls.map trim).map plainLine := by simp [plainLine_trim]
      _ = (ms.map trim).map plainLine := congrArg _ h
      _ = ms.map plainLine := by simp [plainLine_trim]
  rw [ofPlainLines, hlines, ofPlainLines]

/-- Blank lines at the end do not count. -/
theorem ofPlainLines_append_blank (ls : List (List Char)) (k : Nat) :
    ofPlainLines (ls ++ List.replicate k []) = ofPlainLines ls := by
  -- A blank line is prose: it leaves the tags alone, and is trimmed off the joined description.
  have hblank : plainLine [] = .prose [] := rfl
  have hmap : (ls ++ List.replicate k []).map plainLine =
      ls.map plainLine ++ List.replicate k (.prose []) := by
    rw [List.map_append, List.map_replicate, hblank]
  have htags : tagPairs (ls ++ List.replicate k []) = tagPairs ls := by
    rw [tagPairs, hmap, List.filterMap_append, List.filterMap_replicate_of_none rfl,
      List.append_nil, tagPairs]
  have hprose : prose (ls ++ List.replicate k []) = prose ls ++ List.replicate k [] := by
    rw [prose, hmap, List.filterMap_append, List.filterMap_replicate]
    rfl
  have hblanks : ∀ line ∈ List.replicate k ([] : List Char), Blanks line := by
    intro line hline
    rw [List.eq_of_mem_replicate hline]
    exact blanks_nil
  have hjoined : trim (joinLines (prose (ls ++ List.replicate k []))) =
      trim (joinLines (prose ls)) := by
    rw [hprose]
    exact trim_joinWith_append (prose ls) hblanks
  rw [ofPlainLines_def, htags, hjoined, ofPlainLines_def]

/-! ## Slashes that stay -/

/-- A line that begins with a slash is no tag. -/
theorem plainLine_slash {line : List Char} (h : (trim line).head? = some '/') :
    plainLine line = .prose (trim line) := by
  rcases List.head?_eq_some_iff.1 h with ⟨rest, htrim⟩
  -- A slash is no at sign, and no word begins with it that could be a key.
  have hword : splitWord ('/' :: rest) = ([], '/' :: rest) := by
    have hslash : isWordChar '/' = false := by decide +kernel
    simp [splitWord, hslash]
  have htag : tagLine? line = none := by
    rw [tagLine?, htrim]
    rfl
  have hkey : keyLine? line = none := by
    rw [keyLine?, htrim, hword]
    rfl
  rw [plainLine, htag, hkey]

theorem slash_mem_description {ls : List (List Char)} {line : List Char} (hline : line ∈ ls)
    (hslash : (trim line).head? = some '/')
    (hnone : Assoc.get? (ofPlainLines ls).tags "description" = none) :
    '/' ∈ (ofPlainLines ls).description.toList := by
  have hmem : '/' ∈ trim line := List.mem_of_head? hslash
  have hprose : trim line ∈ prose ls := mem_prose_iff.2 ⟨line, hline, plainLine_slash hslash⟩
  rw [description_ofPlainLines hnone, String.toList_ofList]
  exact mem_trim (mem_joinWith ['\n'] hprose hmem) rfl

theorem slash_not_mem_description {ls : List (List Char)} (h : ∀ line ∈ ls, '/' ∉ line)
    (hnone : Assoc.get? (ofPlainLines ls).tags "description" = none) :
    '/' ∉ (ofPlainLines ls).description.toList := by
  rw [description_ofPlainLines hnone, String.toList_ofList]
  intro hmem
  rcases mem_of_mem_joinWith (mem_of_mem_trim hmem) with hfeed | ⟨text, htext, hslash⟩
  · cases List.mem_singleton.1 hfeed
  · rcases mem_prose_iff.1 htext with ⟨line, hline, hprose⟩
    rw [eq_trim_of_prose hprose] at hslash
    exact h line hline (mem_of_mem_trim hslash)

/-! ## Comments that begin with two slashes -/

theorem dropSlashes_dropRight (line : List Char) :
    dropSlashes (dropRight isBlank line) = dropSlashes line := by
  rw [dropSlashes, trim_dropRight, dropSlashes]

theorem dropSlashes_of_not {line : List Char} (h : startsWith ['/', '/'] (trim line) = false) :
    dropSlashes line = trim line := by
  simp [dropSlashes, h]

/-- After two slashes, every line loses its own slashes. -/
theorem commentLines_slashes (rest : List Char) :
    ofPlainLines (commentLines ('/' :: '/' :: rest)) =
      ofPlainLines ((lines ('/' :: '/' :: rest ++ ['\n'])).map dropSlashes) := by
  have hlines : commentLines ('/' :: '/' :: rest) =
      (lines ('/' :: '/' :: dropRight isBlank rest)).map dropSlashes := by
    have hstart : startsWith ['/', '*'] ('/' :: '/' :: dropRight isBlank rest) = false := rfl
    simp only [commentLines, trim_cons_cons (c := '/') (d := '/') rfl rfl, hstart,
      Bool.false_eq_true, if_false]
  -- The blanks at the end of the text and the line feed add blank lines only.
  rcases exists_append_dropRight rest with ⟨bs, hbs, hrest⟩
  rcases lines_append_blanks ('/' :: '/' :: dropRight isBlank rest) (hbs.append blanks_feed)
    with ⟨k, hk⟩
  have htext : '/' :: '/' :: rest ++ ['\n'] =
      '/' :: '/' :: dropRight isBlank rest ++ (bs ++ ['\n']) := by
    conv_lhs => rw [hrest]
    simp
  have hall : ∀ ls : List (List Char),
      ls.map dropSlashes = (ls.map (dropRight isBlank)).map dropSlashes := by
    intro ls
    simp [Function.comp_def, dropSlashes_dropRight]
  have hfeed : (lines ('/' :: '/' :: rest ++ ['\n'])).map dropSlashes =
      commentLines ('/' :: '/' :: rest) ++ List.replicate k [] := by
    rw [htext, hall, hk, List.map_append, ← hall, hlines, List.map_replicate]
    rfl
  rw [hfeed, ofPlainLines_append_blank]

/-! ## Comments that begin with a slash and a star -/

/-- Removing the delimiters of a text leaves a slash that begins a later line. -/
theorem blockInside_feed (before after : List Char) :
    ∃ before' after', blockInside (before ++ '\n' :: '/' :: after) =
      before' ++ '\n' :: '/' :: after' := by
  -- A second star is dropped from what comes before the line feed.
  have hopening : ∃ before', (if startsWith ['*'] (before ++ '\n' :: '/' :: after) then
      (before ++ '\n' :: '/' :: after).drop 1 else before ++ '\n' :: '/' :: after) =
        before' ++ '\n' :: '/' :: after := by
    split
    · cases before with
      | nil => rename_i hstart; cases hstart
      | cons c before => exact ⟨before, rfl⟩
    · exact ⟨before, rfl⟩
  rcases hopening with ⟨before', hopening⟩
  refine ⟨before', ?_⟩
  unfold blockInside
  simp only [hopening]
  split
  · -- The closing delimiter ends after the slash, since neither it nor the feed begins with a star.
    rename_i hend
    have hclose := List.isSuffixOf_iff_suffix.1 hend
    have hafter : ['*', '/'] <:+ after := by
      rcases List.suffix_or_suffix_of_suffix hclose (List.suffix_append before' _) with h | h
      · simpa [List.suffix_cons_iff] using h
      · exact absurd (h.subset List.mem_cons_self) (by decide)
    rcases hafter with ⟨after', rfl⟩
    have hassoc : before' ++ '\n' :: '/' :: (after' ++ ['*', '/']) =
        before' ++ '\n' :: '/' :: after' ++ ['*', '/'] := by simp
    exact ⟨after', by rw [hassoc, dropLast_close]⟩
  · exact ⟨after, rfl⟩

theorem dropStar_slash (line : List Char) : dropStar ('/' :: line) = '/' :: line := by
  rw [dropStar, trimLeft_cons rfl]
  rfl

theorem dropStar_suffix (line : List Char) : dropStar line <:+ line := by
  have hleft : trimLeft line <:+ line := List.dropWhile_suffix isBlank
  unfold dropStar
  split
  · exact List.suffix_refl line
  · rename_i rest heq
    rw [heq] at hleft
    exact ((List.suffix_cons ' ' rest).trans (List.suffix_cons '*' _)).trans hleft
  · rename_i rest _ _ heq
    rw [heq] at hleft
    exact (List.suffix_cons '*' rest).trans hleft
  · exact List.suffix_refl line

/-- A comment after a block keeps its first slash. -/
theorem mem_commentLines_star (inside rest : List Char) :
    ∃ line ∈ commentLines ('/' :: '*' :: (inside ++ '\n' :: '/' :: rest)),
      (trim line).head? = some '/' := by
  have htrim : trim ('/' :: '*' :: (inside ++ '\n' :: '/' :: rest)) =
      '/' :: '*' :: (inside ++ '\n' :: '/' :: dropRight isBlank rest) := by
    have hslash := dropRight_cons (p := isBlank) (c := '/') rfl rest
    have hsplit := dropRight_append isBlank (inside ++ ['\n']) ('/' :: rest)
    rw [hslash] at hsplit
    rw [trim_cons_cons rfl rfl]
    simpa using hsplit
  rcases blockInside_feed inside (dropRight isBlank rest) with ⟨before, after, hinside⟩
  have hlines : commentLines ('/' :: '*' :: (inside ++ '\n' :: '/' :: rest)) =
      (lines (before ++ ['\n']) ++ lines ('/' :: after)).map dropStar := by
    rw [commentLines_of_star htrim, hinside, lines_append_newline before]
  rcases lines_cons_unbroken (c := '/') rfl after with ⟨first, more, hfirst⟩
  refine ⟨'/' :: first, ?_, ?_⟩
  · rw [hlines, hfirst, ← dropStar_slash first]
    exact List.mem_map_of_mem (List.mem_append_right _ List.mem_cons_self)
  · rw [trim_cons rfl]
    rfl

/-- The delimiters of a single block that is neither empty nor a documentation block are removed. -/
theorem commentLines_block {inside : List Char} (hne : inside ≠ [])
    (hstar : inside.head? ≠ some '*') :
    commentLines ('/' :: '*' :: (inside ++ ['*', '/'])) = (lines inside).map dropStar := by
  have htrim : trim ('/' :: '*' :: (inside ++ ['*', '/'])) =
      '/' :: '*' :: (inside ++ ['*', '/']) := by
    have hbetween := trim_between (c := '/') (d := '/') rfl rfl ('*' :: (inside ++ ['*']))
    simpa using hbetween
  have hstart : startsWith ['*'] (inside ++ ['*', '/']) = false := by
    cases inside with
    | nil => exact absurd rfl hne
    | cons c inside =>
      have hc : c ≠ '*' := by simpa using hstar
      simp [startsWith, List.isPrefixOf, hc.symm]
  have hinside : blockInside (inside ++ ['*', '/']) = inside := by
    simp only [blockInside, hstart, Bool.false_eq_true, if_false]
    rw [if_pos (endsWith_close _), dropLast_close]
  rw [commentLines_of_star htrim, hinside]

end Docs

open Text Docs

/-! ## Delimited comments -/

/-- A comment of a source: what follows two slashes on a line, or what stands between the delimiters
of a block. -/
inductive DelimitedComment where
  | line (rest : List Char) (unended : rest.any Tsx.Code.isLineFeed = false)
  | block (inside : List Char) (unclosed : ¬ ['*', '/'] <:+: inside)

namespace DelimitedComment

/-- The comment as it is written. -/
def text : DelimitedComment → List Char
  | line rest _ => '/' :: '/' :: rest
  | block inside _ => '/' :: '*' :: (inside ++ ['*', '/'])

def comment (c : DelimitedComment) : Comment :=
  ⟨String.ofList c.text⟩

def isLine : DelimitedComment → Bool
  | line _ _ => true
  | block _ _ => false

def dropSpace : List Char → List Char
  | ' ' :: rest => rest
  | rest => rest

/-- The rest of a line comment without further slashes and one space after them. -/
def unslashed (rest : List Char) : List Char :=
  dropSpace (dropLeft (· == '/') rest)

/-- The comment without its delimiters. -/
def content : DelimitedComment → List Char
  | line rest _ => unslashed rest
  | block inside _ => inside

/-- The lines of a comment without its delimiters. A line comment has a line even if it is empty;
the lines of a block lose the stars in front of them. -/
def ownLines (c : DelimitedComment) : List (List Char) :=
  if c.isLine then lines (c.content ++ ['\n']) else (lines c.content).map dropStar

/-- More characters break lines than end a line comment. The comment is clear if none of the lines
after such a break begins with slashes. -/
def Clear (c : DelimitedComment) : Prop :=
  c.isLine = true → ∀ line ∈ c.ownLines.tail, startsWith ['/', '/'] (trim line) = false

/-- Comments whose delimiters can be told apart in one text: line comments only, or a single comment
that is not empty. -/
def Separate (comments : List DelimitedComment) : Prop :=
  (∀ c ∈ comments, c.isLine = true) ∨
    (comments.length = 1 ∧ ∀ c ∈ comments, c.content ≠ [])

instance (comments : List DelimitedComment) : Decidable (Separate comments) :=
  inferInstanceAs (Decidable ((∀ c ∈ comments, c.isLine = true) ∨
    (comments.length = 1 ∧ ∀ c ∈ comments, c.content ≠ [])))

theorem exists_text_eq (c : DelimitedComment) : ∃ rest, c.text = '/' :: rest := by
  cases c <;> exact ⟨_, rfl⟩

theorem head?_inside {inside : List Char} {h : ¬ ['*', '/'] <:+: inside}
    (hplain : (block inside h).comment.isDoc = false) : inside.head? ≠ some '*' := by
  intro hstar
  rcases List.head?_eq_some_iff.1 hstar with ⟨rest, rfl⟩
  cases rest with
  | nil => simp [comment, text, Comment.isDoc] at hplain
  | cons c rest =>
    -- A slash after the star would close the block.
    have hc : c ≠ '/' := by
      rintro rfl
      exact h ⟨[], rest, rfl⟩
    simp [comment, text, Comment.isDoc, List.isPrefixOf, hc.symm] at hplain

/-! ## Line comments -/

theorem trim_dropSpace (cs : List Char) : trim (dropSpace cs) = trim cs := by
  have hspace : Blanks [' '] := by simp [Blanks, isBlank]
  unfold dropSpace
  split
  · rename_i rest
    exact (trim_blanks_append hspace rest).symm
  · rfl

theorem lines_dropSpace {cs first : List Char} {more : List (List Char)}
    (h : lines (cs ++ ['\n']) = first :: more) :
    ∃ own, lines (dropSpace cs ++ ['\n']) = own :: more ∧ trim own = trim first := by
  unfold dropSpace
  split
  · rename_i rest
    rw [List.cons_append, lines_cons rfl] at h
    cases hrest : lines (rest ++ ['\n']) with
    | nil => exact absurd hrest (lines_ne_nil (by simp))
    | cons own more' =>
      rw [hrest] at h
      obtain ⟨rfl, rfl⟩ := List.cons.inj h
      exact ⟨own, rfl, (trim_dropSpace (' ' :: own))⟩
  · exact ⟨first, h, rfl⟩

/-- The lines of a line comment are those of its content, but for the first one. -/
theorem lines_unslashed (rest : List Char) :
    ∃ first own more, lines (rest ++ ['\n']) = first :: more ∧
      lines (unslashed rest ++ ['\n']) = own :: more ∧
      trim own = trim (dropLeft (· == '/') first) := by
  have hslash : ∀ c : Char, (c == '/') = true → isLineBreak c = false := by
    intro c hc
    rw [beq_iff_eq.1 hc]
    rfl
  rcases lines_dropLeft hslash rest with ⟨first, more, hlines, hdrop⟩
  rcases lines_dropSpace hdrop with ⟨own, hown, htrim⟩
  exact ⟨first, own, more, hlines, hown, htrim⟩

theorem trim_dropLeft_dropRight (cs : List Char) :
    trim (dropLeft (· == '/') (dropRight isBlank cs)) = trim (dropLeft (· == '/') cs) := by
  rcases exists_append_dropRight cs with ⟨bs, hbs, heq⟩
  generalize dropRight isBlank cs = kept at heq ⊢
  subst heq
  -- No blank is a slash, so what is cut off at the end is not touched from the left.
  have hnone : dropLeft (· == '/') bs = bs := by
    cases bs with
    | nil => rfl
    | cons b bs =>
      have hb : b ≠ '/' := by
        rintro rfl
        cases hbs '/' List.mem_cons_self
      simp [dropLeft, hb]
  have hsplit : dropLeft (· == '/') (kept ++ bs) =
      if (dropLeft (· == '/') kept).isEmpty then dropLeft (· == '/') bs
      else dropLeft (· == '/') kept ++ bs := List.dropWhile_append
  rw [hsplit, hnone]
  split
  · rename_i hempty
    rw [List.isEmpty_iff.1 hempty]
    exact (trim_append_blanks [] hbs).symm
  · exact (trim_append_blanks _ hbs).symm

theorem trim_dropSlashes (first : List Char) :
    trim (dropSlashes ('/' :: '/' :: first)) = trim (dropLeft (· == '/') first) := by
  have hdrop : dropSlashes ('/' :: '/' :: first) =
      dropSpace (dropLeft (· == '/') (dropRight isBlank first)) := by
    simp only [dropSlashes, trim_cons_cons (c := '/') (d := '/') rfl rfl]
    rfl
  calc trim (dropSlashes ('/' :: '/' :: first))
      = trim (dropSpace (dropLeft (· == '/') (dropRight isBlank first))) := congrArg trim hdrop
    _ = trim (dropLeft (· == '/') (dropRight isBlank first)) := trim_dropSpace _
    _ = trim (dropLeft (· == '/') first) := trim_dropLeft_dropRight first

/-- A clear line comment loses its own slashes only. -/
theorem map_dropSlashes {c : DelimitedComment} (hline : c.isLine = true) (hclear : c.Clear) :
    ((lines (c.text ++ ['\n'])).map dropSlashes).map trim = c.ownLines.map trim := by
  cases c with
  | block => cases hline
  | line rest h =>
    rcases lines_unslashed rest with ⟨first, own, more, hlines, hown, hfirst⟩
    have hownLines : (line rest h).ownLines = own :: more := hown
    have htext : lines ((line rest h).text ++ ['\n']) = ('/' :: '/' :: first) :: more := by
      rw [text, List.cons_append, List.cons_append, lines_cons rfl, lines_cons rfl, hlines]
      rfl
    -- The later lines begin with no slashes, so they are only trimmed.
    have hmore : (more.map dropSlashes).map trim = more.map trim := by
      rw [List.map_map]
      refine List.map_congr_left ?_
      intro line hmem
      have hslashes := hclear rfl line (by rw [hownLines]; exact hmem)
      rw [Function.comp_apply, dropSlashes_of_not hslashes, trim_trim]
    rw [htext, hownLines, List.map_cons, List.map_cons, List.map_cons, hmore, trim_dropSlashes,
      hfirst]

/-! ## Several comments -/

variable {comments : List DelimitedComment}

theorem memberDocs_plain (hne : comments ≠ [])
    (hplain : ∀ c ∈ comments, c.comment.isDoc = false) :
    memberDocs (comments.map comment) =
      ofPlainLines (commentLines (joinLines (comments.map text))) := by
  have hnone : (comments.map comment).filter (·.isDoc) = [] := by
    simpa using hplain
  have htexts : (comments.map comment).map (·.text.toList) = comments.map text := by
    simp [comment, Function.comp_def]
  simp only [memberDocs, hnone, List.isEmpty_nil, Bool.not_true, Bool.false_eq_true, if_false,
    List.isEmpty_iff, List.map_eq_nil_iff, hne, ofPlain, htexts, String.toList_ofList]

/-- After a line comment, every line loses its own slashes. -/
theorem ofPlainLines_line_cons (rest : List Char) (h) (comments : List DelimitedComment) :
    ofPlainLines (commentLines (joinLines ((line rest h :: comments).map text))) =
      ofPlainLines ((line rest h :: comments).flatMap fun c =>
        (lines (c.text ++ ['\n'])).map dropSlashes) := by
  have hsome : (line rest h :: comments).map text ≠ [] := List.cons_ne_nil _ _
  have hstart : joinLines ((line rest h :: comments).map text) =
      '/' :: '/' :: joinWith ['\n'] (rest :: comments.map text) := by
    rw [joinLines, List.map_cons, text, joinWith_cons_cons, joinWith_cons_cons]
  have hlines := lines_joinWith hsome
  rw [← joinLines, hstart] at hlines
  rw [hstart, commentLines_slashes, hlines, List.map_flatMap, List.flatMap_map]

/-- Line comments are read one by one. -/
theorem memberDocs_lines (hne : comments ≠ [])
    (hplain : ∀ c ∈ comments, c.comment.isDoc = false) (hline : ∀ c ∈ comments, c.isLine = true)
    (hclear : ∀ c ∈ comments, c.Clear) :
    memberDocs (comments.map comment) = ofPlainLines (comments.flatMap ownLines) := by
  rw [memberDocs_plain hne hplain]
  match comments, hline, hclear with
  | block _ _ :: _, hline, _ => cases hline _ List.mem_cons_self
  | line rest h :: cs, hline, hclear =>
    rw [ofPlainLines_line_cons]
    apply ofPlainLines_congr
    rw [List.map_flatMap, List.map_flatMap]
    exact List.flatMap_congr fun c hc => map_dropSlashes (hline c hc) (hclear c hc)

/-- A single block that is not empty is read without its delimiters. -/
theorem memberDocs_block {inside : List Char} {h : ¬ ['*', '/'] <:+: inside}
    (hplain : ∀ c ∈ [block inside h], c.comment.isDoc = false) (hne : inside ≠ []) :
    memberDocs ([block inside h].map comment) =
      ofPlainLines ([block inside h].flatMap ownLines) := by
  have hstar := head?_inside (hplain _ List.mem_cons_self)
  rw [memberDocs_plain (List.cons_ne_nil _ _) hplain, List.flatMap_singleton]
  exact congrArg ofPlainLines (commentLines_block hne hstar)

/-- A block after a line comment keeps its opening delimiter. -/
theorem exists_slash_line {rest : List Char} {h} {cs : List DelimitedComment} {b : DelimitedComment}
    (hb : b ∈ line rest h :: cs) (hblock : b.isLine = false) :
    ∃ l ∈ (line rest h :: cs).flatMap fun c => (lines (c.text ++ ['\n'])).map dropSlashes,
      (trim l).head? = some '/' := by
  cases b with
  | line => cases hblock
  | block inside hinside =>
    have hfirst : ∃ first more, lines ((block inside hinside).text ++ ['\n']) =
        ('/' :: '*' :: first) :: more := by
      rcases lines_cons_unbroken (c := '*') rfl (inside ++ ['*', '/'] ++ ['\n'])
        with ⟨first, more, hlines⟩
      refine ⟨first, more, ?_⟩
      rw [text, List.cons_append, List.cons_append, lines_cons rfl, hlines]
      rfl
    rcases hfirst with ⟨first, more, hlines⟩
    have htrim : trim ('/' :: '*' :: first) = '/' :: '*' :: dropRight isBlank first :=
      trim_cons_cons rfl rfl first
    have hkept : dropSlashes ('/' :: '*' :: first) = trim ('/' :: '*' :: first) :=
      dropSlashes_of_not (by rw [htrim]; rfl)
    refine ⟨trim ('/' :: '*' :: first), List.mem_flatMap.2 ⟨_, hb, ?_⟩, ?_⟩
    · rw [hlines, ← hkept]
      exact List.mem_cons_self
    · rw [trim_trim, htrim]
      rfl

/-- Comments that are not separate leave a line that begins with a slash. -/
theorem exists_slash (hne : comments ≠ []) (hplain : ∀ c ∈ comments, c.comment.isDoc = false)
    (hmixed : ¬ Separate comments) :
    ∃ ls, memberDocs (comments.map comment) = ofPlainLines ls ∧
      ∃ line ∈ ls, (trim line).head? = some '/' := by
  rw [memberDocs_plain hne hplain]
  rcases not_or.1 hmixed with ⟨hlines, hsingle⟩
  match comments, hlines, hsingle with
  | line rest h :: cs, hlines, _ =>
    -- Some comment after the first one is a block.
    have hblock : ∃ b ∈ line rest h :: cs, b.isLine = false := by
      by_contra! hall
      exact hlines fun c hc => by simpa using hall c hc
    rcases hblock with ⟨b, hb, hblock⟩
    exact ⟨_, ofPlainLines_line_cons rest h cs, exists_slash_line hb hblock⟩
  | [block inside h], _, hsingle =>
    -- The star of the empty block is taken for a second one.
    obtain rfl : inside = [] := by simpa [content] using hsingle
    have hleft : ['/'] ∈ commentLines ['/', '*', '*', '/'] := by decide +kernel
    exact ⟨_, rfl, ['/'], hleft, rfl⟩
  | block inside h :: d :: cs, _, _ =>
    -- The closing delimiter of the first comment is inside the text, and the next comment begins a
    -- line of it.
    rcases d.exists_text_eq with ⟨rest, hrest⟩
    have hjoin : joinLines ((block inside h :: d :: cs).map text) =
        '/' :: '*' :: (inside ++ ['*', '/'] ++
          '\n' :: '/' :: joinWith ['\n'] (rest :: cs.map text)) := by
      rw [joinLines, List.map_cons, joinWith_cons _ _ (by simp), List.map_cons, hrest,
        joinWith_cons_cons]
      simp [text]
    rw [hjoin]
    exact ⟨_, rfl, mem_commentLines_star _ _⟩

/-! ## Comments without slashes -/

theorem mem_content_of_mem_ownLines {c : DelimitedComment} {line : List Char}
    (hline : line ∈ c.ownLines) (hslash : '/' ∈ line) : '/' ∈ c.content := by
  unfold ownLines at hline
  split at hline
  · simpa using mem_of_mem_lines hline hslash
  · rcases List.mem_map.1 hline with ⟨full, hfull, rfl⟩
    exact mem_of_mem_lines hfull ((dropStar_suffix full).subset hslash)

theorem clear_of_slash_not_mem {c : DelimitedComment} (h : '/' ∉ c.content) : c.Clear := by
  intro _ line hline
  by_contra hstart
  have hpre : ['/', '/'] <+: trim line := by
    simpa [startsWith, List.isPrefixOf_iff_prefix] using hstart
  have hslash : '/' ∈ trim line := hpre.subset List.mem_cons_self
  exact h (mem_content_of_mem_ownLines (List.mem_of_mem_tail hline) (mem_of_mem_trim hslash))

end DelimitedComment

open DelimitedComment

/-- Plain comments are read as one text. If they are line comments only, or a single block that is
not empty, each loses its own delimiters, and the lines that remain are read in order. Otherwise a
slash of some delimiter stays in the description, unless a tag `description` replaces it; so where
the comments themselves hold no slash, they are read one by one in these two cases only. -/
theorem plain_comments_read {comments : List DelimitedComment} (hne : comments ≠ [])
    (hplain : ∀ c ∈ comments, c.comment.isDoc = false) :
    let read := memberDocs (comments.map comment)
    let own := ofPlainLines (comments.flatMap ownLines)
    (Separate comments → (∀ c ∈ comments, c.Clear) → read = own) ∧
      (¬ Separate comments → Assoc.get? read.tags "description" = none →
        '/' ∈ read.description.toList) ∧
      ((∀ c ∈ comments, '/' ∉ c.content) → Assoc.get? read.tags "description" = none →
        (read = own ↔ Separate comments)) := by
  intro read own
  have hseparate : Separate comments → (∀ c ∈ comments, c.Clear) → read = own := by
    rintro (hlines | ⟨hlength, hcontent⟩) hclear
    · exact memberDocs_lines hne hplain hlines hclear
    · -- A single line comment is a case of line comments only.
      obtain ⟨c, rfl⟩ := List.length_eq_one_iff.1 hlength
      cases c with
      | line rest h => exact memberDocs_lines hne hplain (by simp [isLine]) hclear
      | block inside h => exact memberDocs_block hplain (hcontent _ List.mem_cons_self)
  have hmixed : ¬ Separate comments → Assoc.get? read.tags "description" = none →
      '/' ∈ read.description.toList := by
    intro hmixed hnone
    rcases exists_slash hne hplain hmixed with ⟨ls, hread, line, hline, hslash⟩
    change read = ofPlainLines ls at hread
    rw [hread] at hnone ⊢
    exact slash_mem_description hline hslash hnone
  refine ⟨hseparate, hmixed, ?_⟩
  intro hcontent hnone
  refine ⟨?_, fun h => hseparate h fun c hc => clear_of_slash_not_mem (hcontent c hc)⟩
  -- Were they read alike, the slash would be in a line of some comment.
  intro heq
  by_contra hnot
  have hslash := hmixed hnot hnone
  rw [heq] at hslash hnone
  have hown : ∀ line ∈ comments.flatMap ownLines, '/' ∉ line := by
    intro line hline hmem
    rcases List.mem_flatMap.1 hline with ⟨c, hc, hline⟩
    exact hcontent c hc (mem_content_of_mem_ownLines hline hmem)
  exact slash_not_mem_description hown hnone hslash

/-- A line comment, and a tag after it in a line comment with a third slash or in a block. -/
def toneLine : DelimitedComment :=
  .line " Picks the tone".toList (by decide +kernel)

def sizeLine : DelimitedComment :=
  .line "/ size: small".toList (by decide +kernel)

def sizeBlock : DelimitedComment :=
  .block " size: small ".toList (by decide +kernel)

theorem plain_comments_read_tone :
    ofPlainLines ([toneLine, sizeBlock].flatMap ownLines) =
        { description := "Picks the tone", tags := [("size", "small")] } ∧
      memberDocs ([toneLine, sizeLine].map comment) =
        { description := "Picks the tone", tags := [("size", "small")] } ∧
      memberDocs ([toneLine, sizeBlock].map comment) ≠
        { description := "Picks the tone", tags := [("size", "small")] } ∧
      '/' ∈ (memberDocs ([toneLine, sizeBlock].map comment)).description.toList := by
  have hown : ofPlainLines ([toneLine, sizeBlock].flatMap ownLines) =
      { description := "Picks the tone", tags := [("size", "small")] } := by decide +kernel
  have hnone : Assoc.get? (memberDocs ([toneLine, sizeBlock].map comment)).tags "description" =
      none := by decide +kernel
  rcases @plain_comments_read [toneLine, sizeLine] (by decide) (by decide +kernel)
    with ⟨hseparate, -, -⟩
  rcases @plain_comments_read [toneLine, sizeBlock] (by decide) (by decide +kernel)
    with ⟨-, hslash, hexact⟩
  refine ⟨hown, ?_, ?_, hslash (by decide) hnone⟩
  · have hclear : ∀ c ∈ [toneLine, sizeLine], c.Clear := by
      intro c hc
      refine clear_of_slash_not_mem ?_
      revert c
      decide +kernel
    exact (hseparate (by decide) hclear).trans (by decide +kernel)
  · intro hread
    have hseparate := (hexact (by decide +kernel) hnone).1 (hread.trans hown.symm)
    exact absurd hseparate (by decide)

end PropCatalog
