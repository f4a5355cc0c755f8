import Mathlib.Data.List.Induction
import PropCatalog.Proofs.Command.Reading

/-!
# Placement — logging options before and behind a command

The options for logging are known before the name of a command and behind it. This file says that it
makes no difference where they stand, and what they come to if they stand in both places:

- `LoggingOption`      : an option for logging as it is written
- `read_flatMap_texts` : in front of other words such options are read as earlier settings
- `Entries`            : what the words of one level say about logging, entry by entry
- `copiedOver_fill`    : settings of both levels, as entries copied over each other
- `ofArguments_eq`     : a command line is read once for all commands, and once for its own
- `logging_options_anywhere` : the options may be moved over the name of the command
-/

namespace PropCatalog
namespace Command

/-! ## Logging options -/

/-- An option for logging as it is written: `-v`, `--verbose`, or `--log-file` with its path in the
next word, which then begins with no hyphen, or behind an equals sign. -/
inductive LoggingOption where
  | short
  | verbose
  | logFile (path : String) (h : path.toList.head? ≠ some '-')
  | logFileEquals (path : String)

namespace LoggingOption

/-- The option on a command line. -/
def texts : LoggingOption → List String
  | short => ["-v"]
  | verbose => ["--verbose"]
  | logFile path _ => ["--log-file", path]
  | logFileEquals path => ["--log-file=" ++ path]

/-- The words it is written with. -/
def words : LoggingOption → List (String × Word)
  | short => [("-v", .option .verbose true none)]
  | verbose => [("--verbose", .option .verbose false none)]
  | logFile path _ => [("--log-file", .option .logFile false none), (path, .argument)]
  | logFileEquals path =>
    [("--log-file=" ++ path, .option .logFile false (some { equals := true, text := path.toList }))]

/-- What it sets. -/
def setting : LoggingOption → Setting
  | short => .verbose
  | verbose => .verbose
  | logFile path _ => .logFile path
  | logFileEquals path => .logFile path

end LoggingOption

open Invocation (commonOptions)

section Logging

variable {more : List Opt} {kind : Argument}

theorem named?_common {cs : List Char} {opt : Opt} (h : Opt.named? commonOptions cs = some opt) :
    Opt.named? (commonOptions ++ more) cs = some opt := by
  unfold Opt.named? at h ⊢
  rw [List.find?_append, h, Option.some_or]

/-- Logging options are told from other words before a command and behind it. -/
theorem classify_texts (o : LoggingOption) (rest : List String) :
    Word.classify (commonOptions ++ more) (o.texts ++ rest) =
      (Word.classify (commonOptions ++ more) rest).map (o.words ++ ·) := by
  cases o with
  | short =>
    have hname : Word.ofText (commonOptions ++ more) "-v" = .ok (.option .verbose true none) :=
      ofText_named rfl rfl (named?_common (by decide))
    exact classify_cons (by decide) hname rest
  | verbose =>
    have hname : Word.ofText (commonOptions ++ more) "--verbose" =
        .ok (.option .verbose false none) := ofText_named rfl rfl (named?_common (by decide))
    exact classify_cons (by decide) hname rest
  | logFile path h =>
    have hargument : path ≠ "--" ∧ Word.ofText (commonOptions ++ more) path = .ok .argument :=
      ofText_argument h
    have hname : Word.ofText (commonOptions ++ more) "--log-file" =
        .ok (.option .logFile false none) := ofText_named rfl rfl (named?_common (by decide))
    change Word.classify _ ("--log-file" :: path :: rest) = _
    rw [classify_cons (by decide) hname, classify_cons hargument.1 hargument.2]
    cases Word.classify (commonOptions ++ more) rest <;> rfl
  | logFileEquals path =>
    have htext : ("--log-file=" ++ path).toList = "--log-file".toList ++ '=' :: path.toList := by
      rw [String.toList_append]
      rfl
    have hname : Word.ofText (commonOptions ++ more) ("--log-file=" ++ path) =
        .ok (.option .logFile false (some { equals := true, text := path.toList })) := by
      have hstart : Opt.named? commonOptions "--log-file".toList = some .logFile := by decide
      refine ofText_cut htext rfl ?_ ?_ (named?_common hstart)
      · exact named?_eq_none (by simp [htext])
      · rw [htext, cutAtEquals_append (by decide)]
    exact classify_cons (by simp [← String.toList_inj, htext]) hname rest

theorem classify_flatMap_texts (before : List LoggingOption) (rest : List String) :
    Word.classify (commonOptions ++ more) (before.flatMap LoggingOption.texts ++ rest) =
      (Word.classify (commonOptions ++ more) rest).map
        (before.flatMap LoggingOption.words ++ ·) := by
  induction before with
  | nil =>
    rw [List.flatMap_nil, List.flatMap_nil, List.nil_append]
    cases Word.classify (commonOptions ++ more) rest <;> rfl
  | cons o before ih =>
    rw [List.flatMap_cons, List.append_assoc, classify_texts, ih]
    cases Word.classify (commonOptions ++ more) rest with
    | error e => rfl
    | ok words => simp [Except.map]

/-- A word with a single option takes one step. -/
theorem takeWords_option {opts : List Opt} {text value : String} {opt : Opt} {isShort : Bool}
    {attached : Option Attached} {rest rest' : List (String × Word)} {setting : Setting}
    (htaken : takeOptions opts opt isShort attached rest =
      .ok { options := [(opt, value)], rest := rest' })
    (hsetting : opt.setting value = .ok setting) (fuel : Nat) (r : Reading) :
    takeWords opts kind (fuel + 1) ((text, .option opt isShort attached) :: rest) r =
      takeWords opts kind fuel rest' { r with settings := r.settings ++ [setting] } := by
  have hsettings : settingsOf [(opt, value)] = .ok [setting] := by
    simp [settingsOf, hsetting, bind, Except.bind, pure, Except.pure]
  rw [takeWords_cons, wordStep, htaken]
  simp only [bind, Except.bind, hsettings, pure, Except.pure, resume, Bool.or_false]

/-- A logging option sets what it says. -/
theorem takeWords_words (o : LoggingOption) (fuel : Nat) (rest : List (String × Word))
    (r : Reading) :
    takeWords (commonOptions ++ more) kind (fuel + 1) (o.words ++ rest) r =
      takeWords (commonOptions ++ more) kind fuel rest
        { r with settings := r.settings ++ [o.setting] } := by
  cases o with
  | short => exact takeWords_option rfl rfl fuel r
  | verbose => exact takeWords_option rfl rfl fuel r
  | logFile path h => exact takeWords_option rfl rfl fuel r
  | logFileEquals path =>
    have htaken : takeOptions (commonOptions ++ more) .logFile false
        (some { equals := true, text := path.toList }) rest =
          .ok { options := [(.logFile, path)], rest } := by
      have hpath := String.ofList_toList (s := path)
      cases hchars : path.toList with
      | nil =>
        rw [hchars] at hpath
        simp [takeOptions, takeOption, Opt.takesValue, ← hpath]
      | cons c cs =>
        rw [hchars] at hpath
        simp [takeOptions, takeOption, Opt.takesValue, hpath]
    exact takeWords_option htaken rfl fuel r

theorem takeWords_flatMap_words (before : List LoggingOption) (fuel : Nat)
    (rest : List (String × Word)) (r : Reading) :
    takeWords (commonOptions ++ more) kind (fuel + before.length)
        (before.flatMap LoggingOption.words ++ rest) r =
      takeWords (commonOptions ++ more) kind fuel rest
        { r with settings := r.settings ++ before.map LoggingOption.setting } := by
  induction before generalizing r with
  | nil => simp
  | cons o before ih =>
    rw [List.flatMap_cons, List.append_assoc, List.length_cons, ← Nat.add_assoc, takeWords_words,
      ih, List.map_cons, List.append_assoc, List.singleton_append]

theorem length_le_words (before : List LoggingOption) :
    before.length ≤ (before.flatMap LoggingOption.words).length := by
  induction before with
  | nil => exact Nat.le_refl _
  | cons o before ih =>
    have hone : 1 ≤ o.words.length := by cases o <;> simp [LoggingOption.words]
    rw [List.flatMap_cons, List.length_append, List.length_cons]
    omega

/-- Logging options in front of some words are read as earlier settings. -/
theorem read_flatMap_texts (before : List LoggingOption) (rest : List String) :
    read (commonOptions ++ more) kind (before.flatMap LoggingOption.texts ++ rest) =
      (read (commonOptions ++ more) kind rest).map
        (Reading.behind (before.map LoggingOption.setting)) := by
  rw [read, read, classify_flatMap_texts]
  cases Word.classify (commonOptions ++ more) rest with
  | error e => rfl
  | ok words =>
    change takeWords _ kind _ (before.flatMap LoggingOption.words ++ words) {} =
      (takeWords _ kind words.length words {}).map _
    have hlength := length_le_words before
    -- More steps are there than the options need, since some of them have two words.
    obtain ⟨fuel, hfuel⟩ : ∃ fuel, (before.flatMap LoggingOption.words ++ words).length =
        fuel + before.length ∧ words.length ≤ fuel := by
      refine ⟨(before.flatMap LoggingOption.words).length + words.length - before.length, ?_, ?_⟩
      · rw [List.length_append]
        omega
      · omega
    rw [hfuel.1, takeWords_flatMap_words, takeWords_of_le hfuel.2]
    rw [← takeWords_behind, Reading.behind, List.append_nil]
    rfl

end Logging

/-! ## Levels -/

/-- The entries of one level of a command line that are about logging. An entry is missing if
nothing gives it a value. -/
structure Entries where
  verbose : Option Bool
  logFile : Option (Option String)
  deriving DecidableEq, Repr

namespace Entries

/-- Before the name of a command both entries have a value from the start. -/
def start : Entries where
  verbose := some false
  logFile := some none

/-- Behind it neither has. -/
def blank : Entries where
  verbose := none
  logFile := none

def set (e : Entries) : Setting → Entries
  | .verbose => { e with verbose := some true }
  | .logFile path => { e with logFile := some (some path) }
  | .output _ => e
  | .maxPermutations _ => e

/-- The entries after some settings, one after the other. -/
def fill (e : Entries) (settings : List Setting) : Entries :=
  settings.foldl set e

/-- The entries that are there are copied over those of another level. -/
def copiedOver (own main : Entries) : Entries where
  verbose := own.verbose.or main.verbose
  logFile := own.logFile.or main.logFile

theorem fill_concat (e : Entries) (settings : List Setting) (s : Setting) :
    e.fill (settings ++ [s]) = (e.fill settings).set s := by
  simp [fill]

end Entries

open Invocation

theorem last?_concat {α : Type} (f : Setting → Option α) (settings : List Setting) (s : Setting) :
    last? f (settings ++ [s]) = (f s).or (last? f settings) := by
  unfold last?
  cases hs : f s <;> simp [hs, List.filterMap_append]

/-- What is set last counts, on either level. -/
theorem fill_eq (e : Entries) (settings : List Setting) :
    e.fill settings =
      { verbose := if .verbose ∈ settings then some true else e.verbose
        logFile := ((last? logFile? settings).map some).or e.logFile } := by
  induction settings using List.reverseRecOn with
  | nil => rfl
  | append_singleton settings s ih =>
    rw [Entries.fill_concat, ih, last?_concat]
    cases s <;> simp [Entries.set, logFile?]

theorem last?_append {α : Type} (f : Setting → Option α) (earlier later : List Setting) :
    last? f (earlier ++ later) = (last? f later).or (last? f earlier) := by
  unfold last?
  rw [List.filterMap_append, List.getLast?_append]

/-- The settings of both levels, one after the other, come to the entries of the command over those
before it. -/
theorem copiedOver_fill (earlier later : List Setting) (task : Task) :
    (Entries.blank.fill later).copiedOver (Entries.start.fill earlier) =
      { verbose := some (withSettings (earlier ++ later) task).verbose
        logFile := some (withSettings (earlier ++ later) task).logFile } := by
  rw [fill_eq, fill_eq, withSettings, last?_append]
  by_cases hlater : Setting.verbose ∈ later <;> by_cases hearlier : Setting.verbose ∈ earlier <;>
    cases last? logFile? later <;> cases last? logFile? earlier <;>
      simp [Entries.copiedOver, Entries.blank, Entries.start, hlater, hearlier]

/-! ## Commands -/

/-- The commands there are. -/
inductive Subcommand where
  | build
  | inspect

namespace Subcommand

def name : Subcommand → String
  | build => "build"
  | inspect => "inspect"

/-- The options of a command beside those for every command. -/
def ownOptions : Subcommand → List Opt
  | build => [.output]
  | inspect => [.maxPermutations]

def argument : Subcommand → Argument
  | build => .optional
  | inspect => .required

/-- The words behind the name of a command. -/
def read (c : Subcommand) (after : List String) : Except Stop Reading :=
  Command.read (commonOptions ++ c.ownOptions) c.argument after

/-- What a command is told to do, by its argument and all settings. -/
def task (c : Subcommand) (settings : List Setting) (argument : Option String) :
    Except Stop Task :=
  match c, argument with
  | build, _ => .ok (.build (argument.getD ".") (last? output? settings))
  | inspect, none => .error .misuse
  | inspect, some file => .ok (.inspect file ((last? maxPermutations? settings).getD 20))

/-- The invocation of a command with earlier settings and its own words. -/
def invocation (c : Subcommand) (earlier : List Setting) (own : Reading) :
    Except Stop Invocation := do
  let task ← c.task (earlier ++ own.settings) own.argument
  if own.isStray then .error .misuse
  else .ok (withSettings (earlier ++ own.settings) task)

end Subcommand

/-- The name of a command ends the words before it. -/
theorem read_name (c : Subcommand) (after : List String) :
    read commonOptions .command (c.name :: after) =
      (Word.classify commonOptions after).map fun _ =>
        { argument := some c.name, after } := by
  have hargument : c.name ≠ "--" ∧ Word.ofText commonOptions c.name = .ok .argument :=
    ofText_argument (by cases c <;> decide)
  rw [read, classify_cons hargument.1 hargument.2]
  cases hafter : Word.classify commonOptions after with
  | error e => rfl
  | ok words =>
    rw [← map_fst_classify hafter]
    rfl

/-- A command line with logging options before its command. The words behind the name are read
twice: as words of any command, and then as those of this one. -/
theorem ofArguments_eq (before : List LoggingOption) (c : Subcommand) (after : List String) :
    ofArguments (before.flatMap LoggingOption.texts ++ c.name :: after) = (do
      let _ ← Word.classify commonOptions after
      let own ← c.read after
      c.invocation (before.map LoggingOption.setting) own) := by
  have hmain : read commonOptions .command
      (before.flatMap LoggingOption.texts ++ c.name :: after) =
        (Word.classify commonOptions after).map fun _ =>
          { settings := before.map LoggingOption.setting, argument := some c.name, after } := by
    have hlevel : commonOptions = commonOptions ++ [] := (List.append_nil _).symm
    rw [hlevel, read_flatMap_texts, ← hlevel, read_name]
    cases Word.classify commonOptions after with
    | error e => rfl
    | ok words => simp [Except.map, Reading.behind]
  rw [ofArguments, hmain]
  cases Word.classify commonOptions after with
  | error e => rfl
  | ok words =>
    -- What is made of the words of the command depends on its argument and on stray words.
    cases c with
    | build =>
      refine congrArg (Except.bind (read buildOptions .optional after)) (funext fun own => ?_)
      rcases own with ⟨settings, argument, rest, isStray⟩
      cases isStray <;> rfl
    | inspect =>
      refine congrArg (Except.bind (read inspectOptions .required after)) (funext fun own => ?_)
      rcases own with ⟨settings, argument, rest, isStray⟩
      cases isStray <;> cases argument <;> rfl

namespace Subcommand

/-- Words behind the name of a command are read as earlier settings if they set something. -/
theorem read_texts (c : Subcommand) (before : List LoggingOption) (after : List String) :
    c.read (before.flatMap LoggingOption.texts ++ after) =
      (c.read after).map (Reading.behind (before.map LoggingOption.setting)) :=
  read_flatMap_texts before after

theorem invocation_behind (c : Subcommand) (earlier : List Setting) (own : Reading) :
    c.invocation [] (own.behind earlier) = c.invocation earlier own := rfl

theorem eq_withSettings_of_invocation {c : Subcommand} {earlier : List Setting} {own : Reading}
    {i : Invocation} (h : c.invocation earlier own = .ok i) :
    ∃ task, i = withSettings (earlier ++ own.settings) task := by
  rcases bind_eq_ok_iff.1 h with ⟨task, -, h⟩
  split at h
  · cases h
  · exact ⟨task, (Except.ok.inj h).symm⟩

end Subcommand

end Command

open Command in
/-- Logging options mean the same before and behind the name of a command: the command line asks for
the same, or is refused in the same way. If it asks for something, then what is said about logging
is what the words of the command say, and where they say nothing, what the options before it say. -/
theorem logging_options_anywhere (before : List LoggingOption) (c : Subcommand)
    (after : List String) :
    Invocation.ofArguments (before.flatMap LoggingOption.texts ++ c.name :: after) =
        Invocation.ofArguments (c.name :: (before.flatMap LoggingOption.texts ++ after)) ∧
      ∀ i, Invocation.ofArguments (before.flatMap LoggingOption.texts ++ c.name :: after) = .ok i →
        ∃ own, c.read after = .ok own ∧
          (Entries.blank.fill own.settings).copiedOver
              (Entries.start.fill (before.map LoggingOption.setting)) =
            { verbose := some i.verbose, logFile := some i.logFile } := by
  refine ⟨?_, fun i hi => ?_⟩
  · have hbehind := ofArguments_eq [] c (before.flatMap LoggingOption.texts ++ after)
    have hlevel : Invocation.commonOptions = Invocation.commonOptions ++ [] :=
      (List.append_nil _).symm
    rw [List.flatMap_nil, List.nil_append, hlevel, classify_flatMap_texts, ← hlevel,
      c.read_texts] at hbehind
    rw [ofArguments_eq, hbehind]
    cases Word.classify Invocation.commonOptions after with
    | error e => rfl
    | ok words =>
      cases c.read after with
      | error e => rfl
      | ok own => exact (c.invocation_behind _ own).symm
  · rw [ofArguments_eq] at hi
    rcases bind_eq_ok_iff.1 hi with ⟨words, -, hi⟩
    rcases bind_eq_ok_iff.1 hi with ⟨own, hown, hi⟩
    rcases Subcommand.eq_withSettings_of_invocation hi with ⟨task, rfl⟩
    exact ⟨own, hown, copiedOver_fill _ own.settings task⟩

open Command in
/-- Two logging options, of which the second one has its path in the next word. -/
def loudly : List LoggingOption :=
  [.short, .logFile "first.log" (by decide)]

open Command in
theorem logging_options_anywhere_loudly :
    Invocation.ofArguments ["build", "-v", "--log-file", "first.log", "site"] =
        .ok { verbose := true, logFile := some "first.log", task := .build "site" none } ∧
      Invocation.ofArguments ["inspect", "-v", "--log-file", "first.log", "--help"] =
        .error .help ∧
      ∃ own, Subcommand.build.read ["--log-file=second.log"] = .ok own ∧
        (Entries.blank.fill own.settings).copiedOver
            (Entries.start.fill [.verbose, .logFile "first.log"]) =
          { verbose := some true, logFile := some (some "second.log") } := by
  have hbuild := (logging_options_anywhere loudly .build ["site"]).1
  have hinspect := (logging_options_anywhere loudly .inspect ["--help"]).1
  have hboth := (logging_options_anywhere loudly .build ["--log-file=second.log"]).2
  refine ⟨hbuild.symm.trans (by decide +kernel), hinspect.symm.trans (by decide +kernel), ?_⟩
  exact hboth { verbose := true, logFile := some "second.log", task := .build "." none }
    (by decide +kernel)

end PropCatalog
