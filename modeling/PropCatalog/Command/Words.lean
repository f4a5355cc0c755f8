import PropCatalog.Text.Search
import PropCatalog.Text.WordChar

/-!
# The words of a command line

Every command knows some options. Seen from a command, a word is one of its options, an unknown
option, or an argument; two hyphens alone make arguments of all words after them.

- `Opt`           : the options, with their names
- `Opt.named?`    : the option with a given name
- `Word.ofText`   : what a single word is; long names may be cut short
- `Word.classify` : a command line seen from a command
-/

namespace PropCatalog
namespace Command

/-- Why a command line is not carried out. -/
inductive Stop where
  /-- It asks for help. -/
  | help
  /-- It makes no sense. -/
  | misuse
  deriving DecidableEq, Repr

inductive Opt where
  | help
  | verbose
  | logFile
  | output
  | maxPermutations
  deriving DecidableEq, Repr

namespace Opt

def names : Opt → List String
  | help => ["-h", "--help"]
  | verbose => ["-v", "--verbose"]
  | logFile => ["--log-file"]
  | output => ["-o", "--output"]
  | maxPermutations => ["--max-permutations"]

def takesValue : Opt → Bool
  | help => false
  | verbose => false
  | logFile => true
  | output => true
  | maxPermutations => true

/-- The option with a given name. -/
def named? (opts : List Opt) (name : List Char) : Option Opt :=
  opts.find? fun o => o.names.contains (String.ofList name)

end Opt

/-- A text in the same word as an option, and whether an equals sign stands before it. -/
structure Attached where
  equals : Bool
  text : List Char
  deriving DecidableEq, Repr

inductive Word where
  | argument
  /-- Two hyphens, after which there are no options. -/
  | divider
  | option (opt : Opt) (isShort : Bool) (attached : Option Attached)
  | unknown
  deriving DecidableEq, Repr

/-- A word that begins with a hyphen, cut at its first equals sign. -/
def cutAtEquals (cs : List Char) : List Char × Option Attached :=
  match cs.dropWhile (· != '=') with
  | _ :: text => (cs.takeWhile (· != '='), some { equals := true, text })
  | [] => (cs, none)

/-- Whether a word is a negative number; one line feed may end it. -/
def isNegativeNumber (cs : List Char) : Bool :=
  let cs := if cs.getLast? == some '\n' then cs.dropLast else cs
  match cs with
  | '-' :: rest =>
    let whole := rest.takeWhile Text.isDecimalDigit
    match rest.dropWhile Text.isDecimalDigit with
    | [] => !whole.isEmpty
    | '.' :: fraction => !fraction.isEmpty && fraction.all Text.isDecimalDigit
    | _ => false
  | _ => false

/-- A word with the start of a long name, and perhaps a text behind an equals sign. -/
def longWord? (opts : List Opt) (cs : List Char) : Except Stop (Option Word) :=
  let (start, attached) := cutAtEquals cs
  let fitting := opts.filter fun o =>
    o.names.any fun name => Text.startsWith start name.toList
  match fitting with
  | [] => .ok none
  | [opt] => .ok (some (.option opt false attached))
  | _ => .error .misuse

/-- A word with a short name and a text right behind it. -/
def shortWord? (opts : List Opt) (cs : List Char) : Option Word :=
  (Opt.named? opts (cs.take 2)).map fun opt =>
    .option opt true (some { equals := false, text := cs.drop 2 })

/-- What a word is that begins with a hyphen and has more characters. -/
def hyphenWord (opts : List Opt) (cs : List Char) : Except Stop Word := do
  let isShort := cs.getD 1 '-' != '-'
  let (start, attached) := cutAtEquals cs
  match Opt.named? opts cs, attached, Opt.named? opts start with
  | some opt, _, _ => return .option opt isShort none
  | none, some attached, some opt => return .option opt isShort (some attached)
  | none, _, _ =>
    let found ← if isShort then pure (shortWord? opts cs) else longWord? opts cs
    match found with
    | some word => return word
    | none => return if isNegativeNumber cs || cs.contains ' ' then .argument else .unknown

/-- What a word is for a command with the given options. -/
def Word.ofText (opts : List Opt) (text : String) : Except Stop Word :=
  match text.toList with
  | '-' :: c :: rest => hyphenWord opts ('-' :: c :: rest)
  | _ => .ok .argument

/-- All words of a command line, each with its text. -/
def Word.classify (opts : List Opt) : List String → Except Stop (List (String × Word))
  | [] => .ok []
  | text :: rest =>
    if text == "--" then .ok ((text, .divider) :: rest.map fun t => (t, .argument))
    else do
      let word ← Word.ofText opts text
      return (text, word) :: (← classify opts rest)

end Command
end PropCatalog
