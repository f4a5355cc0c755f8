import PropCatalog.Text.Utf8
import PropCatalog.Yaml.ScalarText

/-!
# Tokens

A text is cut into tokens from left to right. Indentation becomes tokens of its own: the start of a
block list or mapping and its end. A key on a line of its own is known as such only when its colon
is reached, so candidates for keys are remembered and their tokens inserted afterwards.

- `Token`          : the tokens; `broken` stands where the text cannot be cut any further
- `Scan`           : the state of the cutting
- `Token.ofChars`  : all tokens of a text
-/

namespace PropCatalog
namespace Yaml

inductive Token where
  | streamEnd
  | version (major minor : Nat)
  | handle (name uri : String)
  /-- A directive without a meaning. -/
  | directive
  | documentStart
  | documentEnd
  | listStart
  | mapStart
  | blockEnd
  | flowListStart
  | flowListEnd
  | flowMapStart
  | flowMapEnd
  | comma
  | item
  | key
  | value
  | alias (name : String)
  | anchor (name : String)
  | tag (handle : Option String) (suffix : String)
  | scalar (text : String) (isPlain : Bool)
  | broken (error : Error)
  deriving DecidableEq, Repr

/-- A token that may turn out to be a key. -/
structure Candidate where
  /-- The number of tokens before it. -/
  before : Nat
  /-- Whether nothing but a key can stand here. -/
  required : Bool
  index : Nat
  line : Nat
  column : Nat
  deriving DecidableEq, Repr

/-- How long a key may be, in characters. -/
def keyLimit : Nat := 1024

structure Scan where
  cursor : Cursor
  /-- How many flow collections are open. -/
  depth : Nat := 0
  indent : Int := -1
  /-- The indentations around the present one. -/
  outer : List Int := []
  keyAllowed : Bool := true
  /-- The candidates, by the number of open flow collections. -/
  candidates : List (Nat × Candidate) := []
  /-- The tokens so far, the last one first. -/
  tokens : List Token := []
  deriving Repr

namespace Scan

/-! ## Candidates and indentation -/

def emit (s : Scan) (t : Token) : Scan :=
  { s with tokens := t :: s.tokens }

/-- Puts a token in front of the one that has `before` tokens before it. -/
def insert (s : Scan) (before : Nat) (t : Token) : Scan :=
  { s with tokens := s.tokens.take (s.tokens.length - before) ++
      t :: s.tokens.drop (s.tokens.length - before) }

def moveTo (s : Scan) (c : Cursor) : Scan := { s with cursor := c }

/-- The candidates that may still become keys: those on the present line that are not too long. -/
def dropStale (s : Scan) : Except Error Scan :=
  let isFresh (k : Candidate) : Bool :=
    k.line == s.cursor.line && s.cursor.index - k.index ≤ keyLimit
  if s.candidates.any fun (_, k) => !isFresh k && k.required then
    .error (.malformed .missingColon)
  else .ok { s with candidates := s.candidates.filter fun (_, k) => isFresh k }

/-- Gives up the candidate of the present flow collection. -/
def dropCandidate (s : Scan) : Except Error Scan :=
  if s.candidates.any fun (depth, k) => depth == s.depth && k.required then
    .error (.malformed .missingColon)
  else .ok { s with candidates := s.candidates.filter (·.1 != s.depth) }

/-- Remembers the next token as a candidate, if a key may stand here. -/
def addCandidate (s : Scan) : Except Error Scan :=
  if s.keyAllowed then do
    let s ← s.dropCandidate
    let candidate : Candidate := {
      before := s.tokens.length
      required := s.depth == 0 && s.indent == s.cursor.column
      index := s.cursor.index
      line := s.cursor.line
      column := s.cursor.column }
    return { s with candidates := (s.depth, candidate) :: s.candidates }
  else .ok s

/-- Closes the blocks that are indented further than `column`. -/
def unwind (s : Scan) (column : Int) : Scan :=
  if s.depth != 0 then s else close s.outer.length s
where
  close : Nat → Scan → Scan
    | 0, s => s
    | fuel + 1, s =>
      if column < s.indent then
        close fuel { s with
          indent := s.outer.headD (-1), outer := s.outer.tail, tokens := .blockEnd :: s.tokens }
      else s

/-- Opens a block at `column` unless one is open there; tells whether it did. -/
def indentTo (s : Scan) (column : Nat) : Bool × Scan :=
  if s.indent < column then
    (true, { s with indent := column, outer := s.indent :: s.outer })
  else (false, s)

/-! ## Tokens without a text -/

/-- A document mark or a directive ends everything that is open. -/
def closeAll (s : Scan) : Except Error Scan := do
  let s ← (s.unwind (-1)).dropCandidate
  return { s with keyAllowed := false }

def streamEnd (s : Scan) : Except Error Scan := do
  let s ← s.closeAll
  return { s with candidates := [] }.emit .streamEnd

def documentMark (s : Scan) (t : Token) : Except Error Scan := do
  let s ← s.closeAll
  return (s.emit t).moveTo (s.cursor.skip 3)

def flowStart (s : Scan) (t : Token) : Except Error Scan := do
  let s ← s.addCandidate
  return ({ s with depth := s.depth + 1, keyAllowed := true }.emit t).moveTo s.cursor.next

def flowEnd (s : Scan) (t : Token) : Except Error Scan := do
  let s ← s.dropCandidate
  return ({ s with depth := s.depth - 1, keyAllowed := false }.emit t).moveTo s.cursor.next

def comma (s : Scan) : Except Error Scan := do
  let s ← s.dropCandidate
  return ({ s with keyAllowed := true }.emit .comma).moveTo s.cursor.next

/-- Opens a block for an item, key or value at the cursor, outside flow collections only. -/
def openBlock (s : Scan) (problem : Problem) (t : Token) : Except Error Scan :=
  if s.depth != 0 then .ok s
  else if !s.keyAllowed then .error (.malformed problem)
  else
    match s.indentTo s.cursor.column with
    | (true, s) => .ok (s.emit t)
    | (false, s) => .ok s

def item (s : Scan) : Except Error Scan := do
  let s ← s.openBlock .misplacedEntry .listStart
  let s ← s.dropCandidate
  return ({ s with keyAllowed := true }.emit .item).moveTo s.cursor.next

def key (s : Scan) : Except Error Scan := do
  let s ← s.openBlock .misplacedKey .mapStart
  let s ← s.dropCandidate
  return ({ s with keyAllowed := s.depth == 0 }.emit .key).moveTo s.cursor.next

/-- A colon makes a key of the candidate, or belongs to a key that was announced. -/
def value (s : Scan) : Except Error Scan :=
  match s.candidates.find? (·.1 == s.depth) with
  | some (_, k) =>
    let s := { s with candidates := s.candidates.filter (·.1 != s.depth), keyAllowed := false }
    let s := s.insert k.before .key
    let s :=
      if s.depth != 0 then s
      else
        match s.indentTo k.column with
        | (true, s) => s.insert k.before .mapStart
        | (false, s) => s
    .ok ((s.emit .value).moveTo s.cursor.next)
  | none => do
    let s ← s.openBlock .misplacedValue .mapStart
    let s ← s.dropCandidate
    return ({ s with keyAllowed := s.depth == 0 }.emit .value).moveTo s.cursor.next

/-! ## Names -/

/-- The name of an anchor or alias, behind its mark. -/
def nameAfterMark (c : Cursor) : Except Error (String × Cursor) :=
  let (name, c) := c.next.span isNameChar
  let stops (ch : Char) : Bool :=
    endsToken (some ch) || ch == '?' || ch == ':' || ch == ',' || ch == ']' || ch == '\x7d' ||
      ch == '%' || ch == '@' || ch.toNat == 96
  if name.isEmpty || !c.peek.all stops then .error (.malformed .badName)
  else .ok (String.ofList name, c)

def named (s : Scan) (t : String → Token) : Except Error Scan := do
  let s ← s.addCandidate
  let (name, c) ← nameAfterMark s.cursor
  return ({ s with keyAllowed := false }.emit (t name)).moveTo c

/-! ## Tags -/

def isUriChar (c : Char) : Bool :=
  c.isAlphanum || "-;/?:@&=+$,_.!~*'()[]".toList.contains c

/-- The bytes of the escapes at the cursor, each a percent sign and two hexadecimal digits. -/
def uriBytes : Nat → List UInt8 → Cursor → Except Error (List UInt8 × Cursor)
  | 0, bytes, c => .ok (bytes, c)
  | fuel + 1, bytes, c =>
    if c.peek == some '%' then
      let digits := c.next.rest.take 2
      if digits.length == 2 && digits.all isHexDigit then
        uriBytes fuel (bytes ++ [(hexValue digits).toUInt8]) (c.skip 3)
      else .error (.malformed .badTag)
    else .ok (bytes, c)

/-- The characters of a tag; neighbouring escapes are decoded together. -/
def uriChars : Nat → List Char → Cursor → Except Error (List Char × Cursor)
  | 0, chars, c => .ok (chars, c)
  | fuel + 1, chars, c => do
    let (run, c) := c.span isUriChar
    let chars := chars ++ run
    if c.peek == some '%' then
      let (bytes, c) ← uriBytes c.rest.length [] c
      match Text.decodeStrict? bytes with
      | some decoded => uriChars fuel (chars ++ decoded) c
      | none => throw (.malformed .badTag)
    else return (chars, c)

/-- A part of a tag, which cannot be empty. -/
def uri (c : Cursor) : Except Error (String × Cursor) := do
  let (chars, after) ← uriChars (c.rest.length + 1) [] c
  if after.index == c.index then throw (.malformed .badTag)
  return (String.ofList chars, after)

/-- A tag handle: an exclamation mark, or a name between two of them. -/
def tagHandle (c : Cursor) : Except Error (String × Cursor) :=
  if c.peek != some '!' then .error (.malformed .badTag)
  else if c.peekAt 1 == some ' ' then .ok ("!", c.next)
  else
    let (name, after) := c.next.span isNameChar
    if after.peek == some '!' then
      .ok (String.ofList ('!' :: name ++ ['!']), after.next)
    else .error (.malformed .badTag)

/-- A tag: in angle brackets, a single exclamation mark, or a suffix behind a handle. -/
def tagToken (c : Cursor) : Except Error (Token × Cursor) := do
  let (token, c) ←
    if c.peekAt 1 == some '<' then do
      let (suffix, c) ← uri (c.skip 2)
      if c.peek != some '>' then throw (.malformed .badTag)
      pure (Token.tag none suffix, c.next)
    else if endsToken (c.peekAt 1) then pure (Token.tag none "!", c.next)
    else do
      let word := c.next.rest.takeWhile fun ch => !endsWord (some ch)
      let (handle, c) ← if word.contains '!' then tagHandle c else pure ("!", c.next)
      let (suffix, c) ← uri c
      pure (Token.tag (some handle) suffix, c)
  if !endsWord c.peek then throw (.malformed .badTag)
  return (token, c)

def tag (s : Scan) : Except Error Scan := do
  let s ← s.addCandidate
  let (token, c) ← tagToken s.cursor
  return ({ s with keyAllowed := false }.emit token).moveTo c

/-! ## Directives -/

/-- A number of a version. -/
def versionNumber (c : Cursor) : Except Error (Nat × Cursor) :=
  let (digits, c) := c.span Char.isDigit
  if digits.isEmpty then .error (.malformed .badDirective) else .ok (decimalValue digits, c)
where
  decimalValue (digits : List Char) : Nat :=
    digits.foldl (fun acc d => 10 * acc + (d.toNat - 48)) 0

/-- A directive, up to the end of its line. -/
def directiveToken (c : Cursor) : Except Error (Token × Cursor) := do
  let bad : Error := .malformed .badDirective
  let (name, c) := c.next.span isNameChar
  if name.isEmpty || !endsWord c.peek then throw bad
  let (token, c) ←
    if name == "YAML".toList then do
      let (major, c) ← versionNumber (c.skipWhile (· == ' '))
      if c.peek != some '.' then throw bad
      let (minor, c) ← versionNumber c.next
      if !endsWord c.peek then throw bad
      pure (Token.version major minor, c)
    else if name == "TAG".toList then do
      let (handle, c) ← tagHandle (c.skipWhile (· == ' '))
      if c.peek != some ' ' then throw bad
      let (start, c) ← uri (c.skipWhile (· == ' '))
      if !endsWord c.peek then throw bad
      pure (Token.handle handle start, c)
    else pure (Token.directive, c.skipWhile (!isBreak ·))
  let c := c.skipComment
  if !endsLine c.peek then throw bad
  return (token, c.skipBreak)

def directive (s : Scan) : Except Error Scan := do
  let s ← s.closeAll
  let (token, c) ← directiveToken s.cursor
  return (s.emit token).moveTo c

/-! ## Scalars -/

def blockScalar (s : Scan) (folded : Bool) : Except Error Scan := do
  let s ← s.dropCandidate
  let (text, c) ← block folded s.indent s.cursor
  return ({ s with keyAllowed := true }.emit (.scalar (String.ofList text) false)).moveTo c

def quotedScalar (s : Scan) (double : Bool) : Except Error Scan := do
  let s ← s.addCandidate
  let (text, c) ← quoted double s.cursor
  return ({ s with keyAllowed := false }.emit (.scalar (String.ofList text) false)).moveTo c

/-- A plain scalar; a key may follow it if a line break does. -/
def plainScalar (s : Scan) : Except Error Scan := do
  let s ← s.addCandidate
  let (text, broken, c) := plain (s.depth != 0) (s.indent + 1) s.cursor
  return ({ s with keyAllowed := broken }.emit (.scalar (String.ofList text) true)).moveTo c

/-! ## The next token -/

/-- Skips spaces, comments and line breaks; a key may follow a line break outside flow
collections. -/
def skipBlank : Nat → Scan → Scan
  | 0, s => s
  | fuel + 1, s =>
    let c := s.cursor.skipComment
    match c.lineBreak? with
    | some (_, c) =>
      skipBlank fuel { s with cursor := c, keyAllowed := s.keyAllowed || s.depth == 0 }
    | none => s.moveTo c

/-- The characters that no plain scalar begins with. -/
def isIndicator (c : Char) : Bool :=
  "-?:,[]\x7b\x7d#&*!|>'\"%@".toList.contains c || c.toNat == 96

/-- Whether a plain scalar begins with `c`, given what follows. -/
def startsPlain (s : Scan) (c : Char) (after : Option Char) : Bool :=
  !(endsToken (some c) || isIndicator c) ||
    (!endsToken after && (c == '-' || (s.depth == 0 && (c == '?' || c == ':'))))

/-- The token that begins with `c` at the cursor. -/
def token (s : Scan) (c : Char) : Except Error Scan :=
  let after := s.cursor.peekAt 1
  let first := s.cursor.column == 0
  let spaced := s.depth != 0 || endsToken after
  if c == '%' && first then s.directive
  else if first && s.cursor.isAtMark '-' then s.documentMark .documentStart
  else if first && s.cursor.isAtMark '.' then s.documentMark .documentEnd
  else if c == '[' then s.flowStart .flowListStart
  else if c == '\x7b' then s.flowStart .flowMapStart
  else if c == ']' then s.flowEnd .flowListEnd
  else if c == '\x7d' then s.flowEnd .flowMapEnd
  else if c == ',' then s.comma
  else if c == '-' && endsToken after then s.item
  else if c == '?' && spaced then s.key
  else if c == ':' && spaced then s.value
  else if c == '*' then s.named .alias
  else if c == '&' then s.named .anchor
  else if c == '!' then s.tag
  else if c == '|' && s.depth == 0 then s.blockScalar false
  else if c == '>' && s.depth == 0 then s.blockScalar true
  else if c == '\'' then s.quotedScalar false
  else if c == '"' then s.quotedScalar true
  else if s.startsPlain c after then s.plainScalar
  else .error (.malformed .unexpectedCharacter)

/-- Cuts tokens until the text ends or cannot be cut. -/
def run : Nat → Scan → List Token
  | 0, s => s.tokens.reverse
  | fuel + 1, s =>
    let s := skipBlank (s.cursor.rest.length + 1) s
    match s.dropStale with
    | .error e => (s.emit (.broken e)).tokens.reverse
    | .ok s =>
      let s := s.unwind s.cursor.column
      match s.cursor.peek with
      | none =>
        match s.streamEnd with
        | .ok s => s.tokens.reverse
        | .error e => (s.emit (.broken e)).tokens.reverse
      | some c =>
        match s.token c with
        | .ok s => run fuel s
        | .error e => (s.emit (.broken e)).tokens.reverse

end Scan

/-- The tokens of a text, without a byte order mark in front. -/
def Token.ofChars (text : List Char) : List Token :=
  if !text.all isPrintable then [.broken (.malformed .unprintable)]
  else
    let cursor : Cursor := { rest := text }
    let cursor := if cursor.peek == some byteOrderMark then cursor.next else cursor
    Scan.run (text.length + 1) { cursor }

end Yaml
end PropCatalog
