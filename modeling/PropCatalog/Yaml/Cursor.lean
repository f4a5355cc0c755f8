/-!
# Positions in a YAML text

A cursor is the rest of a text together with the line and column it begins at. The module also fixes
which characters break lines and which end a token, and lists what can be wrong with a text.
-/

namespace PropCatalog
namespace Yaml

/-! ## Errors -/

/-- What is wrong with a text that is no document. -/
inductive Problem where
  | unprintable
  | unexpectedCharacter
  | missingColon
  | misplacedEntry
  | misplacedKey
  | misplacedValue
  | badDirective
  | badName
  | badTag
  | badBlockHeader
  | badEscape
  | unclosedQuote
  | markInQuotes
  | unexpectedToken
  | undefinedAlias
  | duplicateAnchor
  | undefinedHandle
  | duplicateDirective
  | unsupportedVersion
  | severalDocuments
  | unknownTag
  | wrongKind
  | badMerge
  | collectionAsKey
  | badBase64
  deriving DecidableEq, Repr

def Problem.message : Problem → String
  | unprintable => "there is a character that cannot be printed"
  | unexpectedCharacter => "a character cannot start a token"
  | missingColon => "a key is not followed by a colon"
  | misplacedEntry => "a list item is not allowed here"
  | misplacedKey => "a key is not allowed here"
  | misplacedValue => "a value is not allowed here"
  | badDirective => "a directive is malformed"
  | badName => "the name of an anchor or alias is malformed"
  | badTag => "a tag is malformed"
  | badBlockHeader => "the header of a block text is malformed"
  | badEscape => "an escape sequence is unknown"
  | unclosedQuote => "a quoted text does not end"
  | markInQuotes => "a quoted text contains a document mark"
  | unexpectedToken => "a token is not expected here"
  | undefinedAlias => "an alias has no anchor"
  | duplicateAnchor => "an anchor is defined twice"
  | undefinedHandle => "a tag handle is not defined"
  | duplicateDirective => "a directive is repeated"
  | unsupportedVersion => "the version is not supported"
  | severalDocuments => "there is more than one document"
  | unknownTag => "a tag is unknown"
  | wrongKind => "a tag does not fit the value"
  | badMerge => "only mappings can be merged"
  | collectionAsKey => "a collection cannot be a key"
  | badBase64 => "the binary data is malformed"

/-- Why the text of a scalar denotes nothing of the kind that its tag or form asks for. -/
inductive ScalarError where
  | noNumber
  | emptyNumber
  | noBoolean
  | noTimestamp
  | noDate
  | noCharacter
  deriving DecidableEq, Repr

inductive Error where
  | malformed (problem : Problem)
  | scalar (error : ScalarError)
  deriving DecidableEq, Repr

/-! ## Character classes -/

/-- The characters a text may consist of. -/
def isPrintable (c : Char) : Bool :=
  let n := c.toNat
  n == 9 || n == 10 || n == 13 || (0x20 ≤ n && n ≤ 0x7e) || n == 0x85 ||
    (0xa0 ≤ n && n ≤ 0xd7ff) || (0xe000 ≤ n && n ≤ 0xfffd) || 0x10000 ≤ n

/-- The mark that may stand in front of a text. -/
def byteOrderMark : Char := Char.ofNat 0xfeff

def isBreak (c : Char) : Bool :=
  c == '\n' || c == '\r' || c.toNat == 0x85 || c.toNat == 0x2028 || c.toNat == 0x2029

def isSpaceOrTab (c : Char) : Bool :=
  c == ' ' || c == '\t'

/-- Whether a line ends before what follows. -/
def endsLine (next : Option Char) : Bool :=
  next.all isBreak

/-- Whether a word ends before what follows, if tabs do not count. -/
def endsWord (next : Option Char) : Bool :=
  next.all fun c => isBreak c || c == ' '

/-- Whether a token ends before what follows. -/
def endsToken (next : Option Char) : Bool :=
  next.all fun c => isBreak c || isSpaceOrTab c

/-- The characters of names of anchors, directives and tag handles. -/
def isNameChar (c : Char) : Bool :=
  c.isAlphanum || c == '-' || c == '_'

def isHexDigit (c : Char) : Bool :=
  c.isDigit || ('a' ≤ c && c ≤ 'f') || ('A' ≤ c && c ≤ 'F')

/-! ## Cursors -/

structure Cursor where
  rest : List Char
  index : Nat := 0
  line : Nat := 0
  column : Nat := 0
  deriving DecidableEq, Repr

namespace Cursor

/-- The next character. -/
def peek (c : Cursor) : Option Char := c.rest.head?

/-- The character `k` places ahead. -/
def peekAt (c : Cursor) (k : Nat) : Option Char := c.rest[k]?

/-- The cursor behind the next character. A byte order mark takes no column. -/
def next (c : Cursor) : Cursor :=
  match c.rest with
  | [] => c
  | ch :: rest =>
    if isBreak ch && !(ch == '\r' && rest.head? == some '\n') then
      { rest, index := c.index + 1, line := c.line + 1, column := 0 }
    else
      { rest
        index := c.index + 1
        line := c.line
        column := if ch == byteOrderMark then c.column else c.column + 1 }

def skip : Nat → Cursor → Cursor
  | 0, c => c
  | n + 1, c => skip n c.next

/-- The longest run of characters of a class, and the cursor behind it. -/
def span (p : Char → Bool) (c : Cursor) : List Char × Cursor :=
  let run := c.rest.takeWhile p
  (run, c.skip run.length)

def skipWhile (p : Char → Bool) (c : Cursor) : Cursor := (c.span p).2

/-- The line break at the cursor, as the character that stands for it, and the cursor behind it. -/
def lineBreak? (c : Cursor) : Option (Char × Cursor) :=
  match c.rest with
  | '\r' :: '\n' :: _ => some ('\n', c.skip 2)
  | ch :: _ =>
    if ch == '\n' || ch == '\r' || ch.toNat == 0x85 then some ('\n', c.next)
    else if isBreak ch then some (ch, c.next)
    else none
  | [] => none

/-- The cursor behind a line break, if there is one. -/
def skipBreak (c : Cursor) : Cursor :=
  match c.lineBreak? with
  | some (_, c) => c
  | none => c

/-- Whether the three characters of a document mark are ahead. -/
def isAtMark (c : Cursor) (mark : Char) : Bool :=
  c.rest.take 3 == [mark, mark, mark] && endsToken (c.peekAt 3)

/-- Whether a document mark is ahead. -/
def isAtDocumentMark (c : Cursor) : Bool :=
  c.isAtMark '-' || c.isAtMark '.'

/-- The cursor behind spaces and a comment. -/
def skipComment (c : Cursor) : Cursor :=
  let c := c.skipWhile (· == ' ')
  if c.peek == some '#' then c.skipWhile (!isBreak ·) else c

end Cursor
end Yaml
end PropCatalog
