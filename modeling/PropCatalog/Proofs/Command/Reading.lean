import PropCatalog.Command.Invocation
import PropCatalog.Proofs.Fallible

/-!
# Readings — the words of a command, one after the other

The words of a command are read from left to right, with a bound on the number of steps. This file
takes the reading apart into what single words lead to:

- `wordStep`         : what one word leads to, the end of the reading or further words
- `takeWords_cons`   : a reading is such a step, and the reading of the words it leads to
- `takeWords_of_le`  : the bound is no limit, since no word leads to more words than stand behind it
- `takeWords_behind` : earlier settings stay in front of those that are read
- `map_fst_classify`, `classify_cons` : words keep their texts, and are told apart one by one
- `ofText_argument`, `ofText_named`, `ofText_cut` : arguments, and options by their names
-/

namespace PropCatalog
namespace Command

/-! ## One word -/

section Words

variable {opts : List Opt} {kind : Argument}

theorem length_rest_takeValue {opt : Opt} {rest : List (String × Word)} {taken : Taken}
    (h : takeValue opt rest = .ok taken) : taken.rest.length ≤ rest.length := by
  unfold takeValue at h
  split at h
  · split at h
    · cases h
      exact Nat.le_succ _
    · cases h
  · cases h
    exact Nat.le_refl _

theorem length_rest_takeOption {opt : Opt} {isShort equals : Bool} {text : List Char}
    {rest : List (String × Word)} {taken : Taken}
    (h : takeOption opts opt isShort equals text rest = .ok taken) :
    taken.rest.length ≤ rest.length := by
  fun_induction takeOption opts opt isShort equals text rest generalizing taken with
  | case1 => cases h; exact Nat.le_refl _
  | case2 => cases h
  | case3 => cases h; exact Nat.le_refl _
  | case4 => cases h
  | case5 => cases h; exact Nat.le_refl _
  | case6 =>
    rcases bind_eq_ok_iff.1 h with ⟨further, hfurther, ⟨⟩⟩
    have hlength := length_rest_takeValue hfurther
    exact hlength
  | case7 =>
    rename_i ih
    rcases bind_eq_ok_iff.1 h with ⟨further, hfurther, ⟨⟩⟩
    have hlength := ih hfurther
    exact hlength
  | case8 =>
    rename_i ih
    rcases bind_eq_ok_iff.1 h with ⟨further, hfurther, ⟨⟩⟩
    have hlength := ih hfurther
    exact hlength

/-- The options in a word, with their values. -/
def takeOptions (opts : List Opt) (opt : Opt) (isShort : Bool) (attached : Option Attached)
    (rest : List (String × Word)) : Except Stop Taken :=
  match attached with
  | none => takeValue opt rest
  | some a => takeOption opts opt isShort a.equals a.text rest

theorem length_rest_takeOptions {opt : Opt} {isShort : Bool} {attached : Option Attached}
    {rest : List (String × Word)} {taken : Taken}
    (h : takeOptions opts opt isShort attached rest = .ok taken) :
    taken.rest.length ≤ rest.length := by
  cases attached with
  | none => exact length_rest_takeValue h
  | some a => exact length_rest_takeOption h

/-- The words behind an argument, without two hyphens right behind it. -/
def withoutDivider : List (String × Word) → List (String × Word)
  | (_, .divider) :: rest => rest
  | rest => rest

theorem length_withoutDivider (rest : List (String × Word)) :
    (withoutDivider rest).length ≤ rest.length := by
  unfold withoutDivider
  split
  · exact Nat.le_succ _
  · exact Nat.le_refl _

/-- What one word leads to: the end of the reading, or further words. -/
def wordStep (opts : List Opt) (kind : Argument) (text : String) (word : Word)
    (rest : List (String × Word)) (r : Reading) :
    Except Stop (Reading ⊕ (List (String × Word) × Reading)) :=
  match word with
  | .unknown => .ok (.inr (rest, { r with isStray := true }))
  | .option opt isShort attached => do
    let taken ← takeOptions opts opt isShort attached rest
    let settings ← settingsOf taken.options
    return .inr (taken.rest, { r with
      settings := r.settings ++ settings, isStray := r.isStray || taken.isStray })
  | .argument =>
    if r.argument.isSome then .ok (.inr (rest, { r with isStray := true }))
    else if kind == .command then
      .ok (.inl { r with argument := some text, after := rest.map (·.1) })
    else .ok (.inr (withoutDivider rest, { r with argument := some text }))
  | .divider =>
    match kind, r.argument, rest with
    | .command, _, _ => .error .misuse
    | _, some _, _ => .ok (.inr (rest, { r with isStray := true }))
    | .optional, none, [] => .ok (.inl r)
    | .required, none, [] => .error .misuse
    | _, none, (text, _) :: rest => .ok (.inr (rest, { r with argument := some text }))

/-- Goes on with what a word leads to. -/
def resume (opts : List Opt) (kind : Argument) (fuel : Nat) :
    Reading ⊕ (List (String × Word) × Reading) → Except Stop Reading
  | .inl r => .ok r
  | .inr (rest, r) => takeWords opts kind fuel rest r

theorem takeWords_nil (fuel : Nat) (r : Reading) : takeWords opts kind fuel [] r = .ok r := by
  cases fuel <;> rfl

theorem takeWords_cons (fuel : Nat) (text : String) (word : Word) (rest : List (String × Word))
    (r : Reading) :
    takeWords opts kind (fuel + 1) ((text, word) :: rest) r =
      wordStep opts kind text word rest r >>= resume opts kind fuel := by
  cases word with
  | unknown => rfl
  | option opt isShort attached =>
    rw [takeWords.eq_def, wordStep]
    cases attached <;> simp only [takeOptions, bind_assoc, pure_bind, resume]
  | argument =>
    rcases r with ⟨settings, argument, after, isStray⟩
    cases argument <;> cases kind <;> rfl
  | divider =>
    rcases r with ⟨settings, argument, after, isStray⟩
    cases argument <;> cases kind <;> cases rest <;> rfl

/-- A word leads to no more words than there are behind it. -/
theorem length_of_wordStep {text : String} {word : Word} {rest rest' : List (String × Word)}
    {r r' : Reading} (h : wordStep opts kind text word rest r = .ok (.inr (rest', r'))) :
    rest'.length ≤ rest.length := by
  cases word with
  | unknown => cases h; exact Nat.le_refl _
  | option opt isShort attached =>
    rcases bind_eq_ok_iff.1 h with ⟨taken, htaken, h⟩
    rcases bind_eq_ok_iff.1 h with ⟨settings, -, h⟩
    cases h
    exact length_rest_takeOptions htaken
  | argument =>
    rw [wordStep] at h
    split at h
    · cases h; exact Nat.le_refl _
    · split at h
      · cases h
      · cases h; exact length_withoutDivider rest
  | divider =>
    unfold wordStep at h
    dsimp only at h
    split at h
    · cases h
    · cases h; exact Nat.le_refl _
    · cases h
    · cases h
    · cases h; exact Nat.le_succ _

/-- With a step for each word, the words are read to their end. -/
theorem takeWords_of_le {fuel : Nat} {words : List (String × Word)} (h : words.length ≤ fuel)
    (r : Reading) :
    takeWords opts kind fuel words r = takeWords opts kind words.length words r := by
  -- Any two sufficient numbers of steps are compared, since a word may lead past further ones.
  have hsame : ∀ n m (words : List (String × Word)) r, words.length ≤ n → words.length ≤ m →
      takeWords opts kind n words r = takeWords opts kind m words r := by
    intro n
    induction n with
    | zero =>
      intro m words r hn _
      rw [List.length_eq_zero_iff.1 (Nat.le_zero.1 hn), takeWords_nil, takeWords_nil]
    | succ n ih =>
      intro m words r hn hm
      cases words with
      | nil => rw [takeWords_nil, takeWords_nil]
      | cons word rest =>
        obtain ⟨m, rfl⟩ : ∃ k, m = k + 1 := ⟨m - 1, by rw [List.length_cons] at hm; omega⟩
        rw [takeWords_cons, takeWords_cons]
        cases hstep : wordStep opts kind word.1 word.2 rest r with
        | error e => rfl
        | ok next =>
          cases next with
          | inl r' => rfl
          | inr next =>
            have hlength := length_of_wordStep hstep
            rw [List.length_cons] at hn hm
            exact ih m next.1 next.2 (by omega) (by omega)
  exact hsame _ _ _ _ h (Nat.le_refl _)

/-! ## Earlier settings -/

/-- A reading behind earlier settings. -/
def Reading.behind (earlier : List Setting) (r : Reading) : Reading :=
  { r with settings := earlier ++ r.settings }

theorem wordStep_behind (earlier : List Setting) (text : String) (word : Word)
    (rest : List (String × Word)) (r : Reading) :
    wordStep opts kind text word rest (r.behind earlier) =
      (wordStep opts kind text word rest r).map
        (Sum.map (Reading.behind earlier) (Prod.map id (Reading.behind earlier))) := by
  cases word with
  | unknown => rfl
  | option opt isShort attached =>
    rw [wordStep, wordStep]
    cases takeOptions opts opt isShort attached rest with
    | error e => rfl
    | ok taken =>
      cases hsettings : settingsOf taken.options with
      | error e => simp [bind, Except.bind, hsettings, Except.map]
      | ok settings =>
        simp [bind, Except.bind, hsettings, Except.map, pure, Except.pure, Reading.behind,
          List.append_assoc]
  | argument =>
    rw [wordStep, wordStep]
    by_cases hargument : r.argument.isSome = true
    · simp [Reading.behind, hargument, Except.map]
    · by_cases hkind : (kind == .command) = true
      · simp [Reading.behind, hargument, hkind, Except.map]
      · simp [Reading.behind, hargument, hkind, Except.map]
  | divider =>
    rcases r with ⟨settings, argument, after, isStray⟩
    cases argument <;> cases kind <;> cases rest <;> rfl

/-- Whatever was set earlier stays in front of what the words set. -/
theorem takeWords_behind (earlier : List Setting) (fuel : Nat) (words : List (String × Word))
    (r : Reading) :
    takeWords opts kind fuel words (r.behind earlier) =
      (takeWords opts kind fuel words r).map (Reading.behind earlier) := by
  induction fuel generalizing words r with
  | zero => rfl
  | succ fuel ih =>
    cases words with
    | nil => rfl
    | cons word rest =>
      rw [takeWords_cons, takeWords_cons, wordStep_behind]
      cases wordStep opts kind word.1 word.2 rest r with
      | error e => rfl
      | ok next =>
        cases next with
        | inl r' => rfl
        | inr next => exact ih next.1 next.2

end Words

/-! ## Words of a command line -/

section Classified

variable {opts : List Opt}

theorem map_fst_classify {texts : List String} {words : List (String × Word)}
    (h : Word.classify opts texts = .ok words) : words.map (·.1) = texts := by
  induction texts generalizing words with
  | nil =>
    cases h
    rfl
  | cons text rest ih =>
    rw [Word.classify] at h
    split at h
    · cases h
      simp [Function.comp_def]
    · rcases bind_eq_ok_iff.1 h with ⟨word, -, h⟩
      rcases bind_eq_ok_iff.1 h with ⟨further, hfurther, h⟩
      cases h
      rw [List.map_cons, ih hfurther]

theorem classify_cons {text : String} {word : Word} (hne : text ≠ "--")
    (hword : Word.ofText opts text = .ok word) (rest : List String) :
    Word.classify opts (text :: rest) = (Word.classify opts rest).map ((text, word) :: ·) := by
  rw [Word.classify, if_neg (by simpa using hne), hword]
  rfl

/-- A word that begins with no hyphen is an argument. -/
theorem ofText_argument {text : String} (h : text.toList.head? ≠ some '-') :
    text ≠ "--" ∧ Word.ofText opts text = .ok .argument := by
  constructor
  · rintro rfl
    exact h rfl
  · unfold Word.ofText
    split
    · rename_i heq
      rw [heq] at h
      exact absurd rfl h
    · rfl

/-- A word that is the name of an option. -/
theorem ofText_named {text : String} {c : Char} {cs : List Char} {opt : Opt} {isShort : Bool}
    (htext : text.toList = '-' :: c :: cs) (hshort : (c != '-') = isShort)
    (h : Opt.named? opts text.toList = some opt) :
    Word.ofText opts text = .ok (.option opt isShort none) := by
  rw [htext] at h
  simp only [Word.ofText, htext, hyphenWord, h, ← hshort]
  rfl

/-- A word that is the name of an option up to an equals sign. -/
theorem ofText_cut {text : String} {c : Char} {cs start : List Char} {a : Attached} {opt : Opt}
    {isShort : Bool} (htext : text.toList = '-' :: c :: cs) (hshort : (c != '-') = isShort)
    (h : Opt.named? opts text.toList = none) (hcut : cutAtEquals text.toList = (start, some a))
    (hstart : Opt.named? opts start = some opt) :
    Word.ofText opts text = .ok (.option opt isShort (some a)) := by
  rw [htext] at h hcut
  simp only [Word.ofText, htext, hyphenWord, h, hcut, hstart, ← hshort]
  rfl

theorem cutAtEquals_append {start : List Char} (h : '=' ∉ start) (text : List Char) :
    cutAtEquals (start ++ '=' :: text) = (start, some { equals := true, text }) := by
  have hstart : ∀ c ∈ start, (c != '=') = true := by
    intro c hc
    rw [bne_iff_ne]
    rintro rfl
    exact h hc
  unfold cutAtEquals
  rw [List.dropWhile_append_of_pos hstart, List.takeWhile_append_of_pos hstart]
  simp

/-- No option has an equals sign in its name. -/
theorem named?_eq_none {cs : List Char} (h : '=' ∈ cs) : Opt.named? opts cs = none := by
  have hnames : ∀ opt : Opt, ∀ name ∈ opt.names, '=' ∉ name.toList := by
    intro opt
    cases opt <;> decide
  refine List.find?_eq_none.2 fun opt _ hname => ?_
  have hmem := hnames opt _ (List.contains_iff_mem.1 hname)
  rw [String.toList_ofList] at hmem
  exact hmem h

end Classified

end Command
end PropCatalog
