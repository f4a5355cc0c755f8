import PropCatalog.Command.Words
import PropCatalog.Number.Read

/-!
# Command lines

A command line has options for every command, then a command, then the command's own options and its
argument. The options for every command may also stand behind it.

- `Setting`        : what one option sets
- `takeOption`     : an option with its value, or several short options in one word
- `takeWords`      : the words of one command
- `Invocation.ofArguments` : what a command line asks for
-/

namespace PropCatalog
namespace Command

/-- What an option sets. -/
inductive Setting where
  | verbose
  | logFile (path : String)
  | output (path : String)
  | maxPermutations (n : Int)
  deriving DecidableEq, Repr

/-- What an option with a value sets. -/
def Opt.setting (opt : Opt) (value : String) : Except Stop Setting :=
  match opt with
  | .help => .error .help
  | .verbose => .ok .verbose
  | .logFile => .ok (.logFile value)
  | .output => .ok (.output value)
  | .maxPermutations =>
    match Number.integer? value.toList with
    | some n => .ok (.maxPermutations n)
    | none => .error .misuse

/-! ## Options -/

/-- The options that a word holds, each with its value, whether something unknown is among them, and
the words after their values. -/
structure Taken where
  options : List (Opt × String)
  isStray : Bool := false
  rest : List (String × Word)

/-- An option without an attached text takes its value from the next word. -/
def takeValue (opt : Opt) (rest : List (String × Word)) : Except Stop Taken :=
  if opt.takesValue then
    match rest with
    | (text, .argument) :: rest => .ok { options := [(opt, text)], rest }
    | _ => .error .misuse
  else .ok { options := [(opt, "")], rest }

/-- The options in a word: the text attached to a short option without value holds further ones. -/
def takeOption (opts : List Opt) (opt : Opt) (isShort equals : Bool) :
    List Char → List (String × Word) → Except Stop Taken
  | [], rest =>
    if opt.takesValue then .ok { options := [(opt, "")], rest } else .error .misuse
  | c :: text, rest =>
    if opt.takesValue then .ok { options := [(opt, String.ofList (c :: text))], rest }
    else if !isShort || equals || c == '-' then .error .misuse
    else
      match Opt.named? opts ['-', c] with
      | none => .ok { options := [(opt, "")], isStray := true, rest }
      | some next => do
        let taken ←
          match text with
          | [] => takeValue next rest
          | '=' :: text => takeOption opts next true true text rest
          | c :: text => takeOption opts next true false (c :: text) rest
        return { taken with options := (opt, "") :: taken.options }

/-! ## Words of a command -/

/-- How a command uses an argument. -/
inductive Argument where
  /-- It names a further command, to which all words after it belong. -/
  | command
  | required
  | optional
  deriving DecidableEq, Repr

/-- What the words of a command say. -/
structure Reading where
  settings : List Setting := []
  argument : Option String := none
  /-- The words behind the name of a further command. -/
  after : List String := []
  /-- Whether there are words that nobody asked for. -/
  isStray : Bool := false
  deriving DecidableEq, Repr

/-- The settings of options, up to one that stops. -/
def settingsOf (options : List (Opt × String)) : Except Stop (List Setting) :=
  options.mapM fun (opt, value) => opt.setting value

/-- Reads the words of a command from left to right. -/
def takeWords (opts : List Opt) (kind : Argument) :
    Nat → List (String × Word) → Reading → Except Stop Reading
  | 0, _, r => .ok r
  | _, [], r => .ok r
  | fuel + 1, (text, word) :: rest, r =>
    match word with
    | .unknown => takeWords opts kind fuel rest { r with isStray := true }
    | .option opt isShort attached => do
      let taken ←
        match attached with
        | none => takeValue opt rest
        | some a => takeOption opts opt isShort a.equals a.text rest
      let settings ← settingsOf taken.options
      takeWords opts kind fuel taken.rest { r with
        settings := r.settings ++ settings, isStray := r.isStray || taken.isStray }
    | .argument =>
      if r.argument.isSome then takeWords opts kind fuel rest { r with isStray := true }
      else if kind == .command then
        .ok { r with argument := some text, after := rest.map (·.1) }
      else
        let rest :=
          match rest with
          | (_, .divider) :: rest => rest
          | rest => rest
        takeWords opts kind fuel rest { r with argument := some text }
    | .divider =>
      match kind, r.argument, rest with
      -- a divider cannot stand before the name of a command
      | .command, _, _ => .error .misuse
      | _, some _, _ => takeWords opts kind fuel rest { r with isStray := true }
      | .optional, none, [] => .ok r
      | .required, none, [] => .error .misuse
      | _, none, (text, _) :: rest =>
        takeWords opts kind fuel rest { r with argument := some text }

def read (opts : List Opt) (kind : Argument) (texts : List String) : Except Stop Reading := do
  let words ← Word.classify opts texts
  takeWords opts kind words.length words {}

end Command

/-! ## Invocations -/

inductive Task where
  /-- Build the catalog of a project. -/
  | build (path : String) (output : Option String)
  /-- Show a single component. -/
  | inspect (file : String) (maxPermutations : Int)
  deriving DecidableEq, Repr

/-- What a command line asks for. -/
structure Invocation where
  verbose : Bool := false
  logFile : Option String := none
  task : Task
  deriving DecidableEq, Repr

namespace Invocation

open Command

/-- The options for every command. -/
def commonOptions : List Opt := [.help, .verbose, .logFile]

def buildOptions : List Opt := commonOptions ++ [.output]

def inspectOptions : List Opt := commonOptions ++ [.maxPermutations]

/-- The last value that settings give. -/
def last? {α : Type} (f : Setting → Option α) (settings : List Setting) : Option α :=
  (settings.filterMap f).getLast?

def logFile? : Setting → Option String
  | .logFile path => some path
  | _ => none

def output? : Setting → Option String
  | .output path => some path
  | _ => none

def maxPermutations? : Setting → Option Int
  | .maxPermutations n => some n
  | _ => none

/-- The invocation of a task with the settings before and behind its name. -/
def withSettings (settings : List Setting) (task : Task) : Invocation :=
  { verbose := settings.contains .verbose, logFile := last? logFile? settings, task }

/-- What a command line asks for. -/
def ofArguments (arguments : List String) : Except Stop Invocation := do
  let main ← Command.read commonOptions .command arguments
  match main.argument with
  | some "build" =>
    let own ← Command.read buildOptions .optional main.after
    if main.isStray || own.isStray then throw .misuse
    let settings := main.settings ++ own.settings
    return withSettings settings (.build (own.argument.getD ".") (last? output? settings))
  | some "inspect" =>
    let own ← Command.read inspectOptions .required main.after
    match own.argument with
    | none => throw .misuse
    | some file =>
      if main.isStray || own.isStray then throw .misuse
      let settings := main.settings ++ own.settings
      return withSettings settings
        (.inspect file ((last? maxPermutations? settings).getD 20))
  | _ => throw .misuse

end Invocation
end PropCatalog
