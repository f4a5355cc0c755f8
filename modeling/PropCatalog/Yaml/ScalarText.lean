import PropCatalog.Yaml.Cursor

/-!
# The texts of scalars

The three ways to write a scalar, each with its own rule for line breaks.

- `plain`  : without quotes; ends before a comment, a colon that is followed by a gap, or a line
  that is not indented far enough
- `quoted` : between single or double quotes; a single line break becomes a space
- `block`  : the indented lines below a header, kept as they are or folded
-/

namespace PropCatalog
namespace Yaml

/-- What a run of line breaks inside a flowing text stands for: a single line feed is a space, and
otherwise the first line feed is dropped. -/
def foldBreaks (first : Char) (more : List Char) : List Char :=
  if first != '\n' then first :: more else if more.isEmpty then [' '] else more

/-! ## Plain scalars -/

/-- The marks of flow collections. -/
def isFlowMark (c : Char) : Bool :=
  c == ',' || c == '[' || c == ']' || c == '\x7b' || c == '\x7d'

/-- The length of the piece of a plain scalar at the front of a text. -/
def plainRun (inFlow : Bool) : List Char → Nat
  | [] => 0
  | c :: rest =>
    if endsToken (some c) ||
        (c == ':' && (endsToken rest.head? || (inFlow && rest.head?.any isFlowMark))) ||
        (inFlow && (c == '?' || isFlowMark c)) then 0
    else plainRun inFlow rest + 1

/-- The line breaks that follow, with spaces between them skipped; nothing if a document mark comes
after one of them. -/
def plainBreaks : Nat → List Char → Cursor → Option (List Char) × Cursor
  | 0, breaks, c => (some breaks, c)
  | fuel + 1, breaks, c =>
    if c.peek == some ' ' then plainBreaks fuel breaks c.next
    else
      match c.lineBreak? with
      | none => (some breaks, c)
      | some (b, c) =>
        if c.isAtDocumentMark then (none, c) else plainBreaks fuel (breaks ++ [b]) c

/-- The gap after a piece of a plain scalar: what it stands for, whether it has a line break, and
the cursor behind it. -/
def plainGap (c : Cursor) : List Char × Bool × Cursor :=
  let (spaces, c) := c.span (· == ' ')
  match c.lineBreak? with
  | none => (spaces, false, c)
  | some (first, c) =>
    if c.isAtDocumentMark then ([], true, c)
    else
      match plainBreaks c.rest.length [] c with
      | (none, c) => ([], true, c)
      | (some more, c) => (foldBreaks first more, true, c)

/-- The pieces of a plain scalar. `gap` stands before the next piece, and `broken` says whether the
last gap had a line break. -/
def plainPieces (inFlow : Bool) (indent : Int) :
    Nat → List Char → List Char → Bool → Cursor → List Char × Bool × Cursor
  | 0, text, _, broken, c => (text, broken, c)
  | fuel + 1, text, gap, broken, c =>
    let length := plainRun inFlow c.rest
    if c.peek == some '#' || length == 0 then (text, broken, c)
    else
      let text := text ++ gap ++ c.rest.take length
      let (gap, broken, c) := plainGap (c.skip length)
      if gap.isEmpty || c.peek == some '#' || (!inFlow && (c.column : Int) < indent) then
        (text, broken, c)
      else plainPieces inFlow indent fuel text gap broken c

/-- A plain scalar: its text, whether a line break follows it, and the cursor behind it. -/
def plain (inFlow : Bool) (indent : Int) (c : Cursor) : List Char × Bool × Cursor :=
  plainPieces inFlow indent c.rest.length [] [] false c

/-! ## Quoted scalars -/

/-- The characters that a backslash and a letter stand for. -/
def escapes : List (Char × Nat) :=
  [('0', 0), ('a', 7), ('b', 8), ('t', 9), ('\t', 9), ('n', 10), ('v', 11), ('f', 12), ('r', 13),
    ('e', 27), (' ', 32), ('"', 34), ('\\', 92), ('/', 47), ('N', 0x85), ('_', 0xa0),
    ('L', 0x2028), ('P', 0x2029)]

/-- The letters that announce a character number, with its length in digits. -/
def numberEscapes : List (Char × Nat) := [('x', 2), ('u', 4), ('U', 8)]

def hexValue (digits : List Char) : Nat :=
  digits.foldl (fun acc c => 16 * acc +
    (if c.isDigit then c.toNat - 48 else c.toLower.toNat - 87)) 0

/-- The line breaks at the start of the lines that follow, with the gaps between them skipped. -/
def quotedBreaks : Nat → List Char → Cursor → Except Error (List Char × Cursor)
  | 0, breaks, c => .ok (breaks, c)
  | fuel + 1, breaks, c =>
    if c.isAtDocumentMark then .error (.malformed .markInQuotes)
    else
      let c := c.skipWhile isSpaceOrTab
      match c.lineBreak? with
      | some (b, c) => quotedBreaks fuel (breaks ++ [b]) c
      | none => .ok (breaks, c)

/-- What an escape sequence stands for; the cursor is behind the backslash. -/
def escape (c : Cursor) : Except Error (List Char × Cursor) :=
  match c.rest with
  | [] => .error (.malformed .badEscape)
  | ch :: _ =>
    match escapes.find? (·.1 == ch), numberEscapes.find? (·.1 == ch) with
    | some (_, n), _ => .ok ([Char.ofNat n], c.next)
    | none, some (_, length) =>
      let digits := c.next.rest.take length
      if digits.length < length || !digits.all isHexDigit then .error (.malformed .badEscape)
      else if 0x110000 ≤ hexValue digits then .error (.scalar .noCharacter)
      else .ok ([Char.ofNat (hexValue digits)], c.next.skip length)
    | none, none =>
      match c.lineBreak? with
      | some (_, c) => quotedBreaks (c.rest.length + 1) [] c
      | none => .error (.malformed .badEscape)

/-- The text up to the next gap or the closing quote. -/
def quotedPiece (double : Bool) :
    Nat → List Char → Cursor → Except Error (List Char × Cursor)
  | 0, text, c => .ok (text, c)
  | fuel + 1, text, c =>
    let (run, c) := c.span fun ch =>
      !(ch == '\'' || ch == '"' || ch == '\\' || isSpaceOrTab ch || isBreak ch)
    let text := text ++ run
    match c.peek with
    | none => .ok (text, c)
    | some ch =>
      if !double && ch == '\'' && c.peekAt 1 == some '\'' then
        quotedPiece double fuel (text ++ ['\'']) (c.skip 2)
      else if (double && ch == '\'') || (!double && (ch == '"' || ch == '\\')) then
        quotedPiece double fuel (text ++ [ch]) c.next
      else if double && ch == '\\' then do
        let (chars, c) ← escape c.next
        quotedPiece double fuel (text ++ chars) c
      else .ok (text, c)

/-- The gap inside a quoted text: blanks are kept, and line breaks folded. -/
def quotedGap (c : Cursor) : Except Error (List Char × Cursor) :=
  let (blanks, c) := c.span isSpaceOrTab
  match c.peek with
  | none => .error (.malformed .unclosedQuote)
  | some _ =>
    match c.lineBreak? with
    | none => .ok (blanks, c)
    | some (first, c) => do
      let (more, c) ← quotedBreaks (c.rest.length + 1) [] c
      return (foldBreaks first more, c)

/-- Pieces and gaps up to the closing quote. -/
def quotedPieces (double : Bool) :
    Nat → List Char → Cursor → Except Error (List Char × Cursor)
  | 0, _, _ => .error (.malformed .unclosedQuote)
  | fuel + 1, text, c =>
    if c.peek == some (if double then '"' else '\'') then .ok (text, c.next)
    else do
      let (gap, c) ← quotedGap c
      let (text, c) ← quotedPiece double (c.rest.length + 1) (text ++ gap) c
      quotedPieces double fuel text c

/-- A quoted scalar and the cursor behind it; the cursor is at the opening quote. -/
def quoted (double : Bool) (c : Cursor) : Except Error (List Char × Cursor) := do
  let c := c.next
  let (text, c) ← quotedPiece double (c.rest.length + 1) [] c
  quotedPieces double (c.rest.length + 1) text c

/-! ## Block scalars -/

/-- What becomes of the line breaks at the end of a block. -/
inductive Chomping where
  | strip
  | clip
  | keep
  deriving DecidableEq, Repr

structure BlockHeader where
  chomping : Chomping := .clip
  /-- The indentation, if it is given as a number. -/
  indent : Option Nat := none
  deriving DecidableEq, Repr

def chomping? : Option Char → Option Chomping
  | some '+' => some .keep
  | some '-' => some .strip
  | _ => none

def digit? (c : Option Char) : Option Nat :=
  (c.filter Char.isDigit).map fun d => d.toNat - 48

/-- The header of a block; the cursor is behind the mark, and is left behind the header's line. -/
def blockHeader (c : Cursor) : Except Error (BlockHeader × Cursor) :=
  let (header, c) : BlockHeader × Cursor :=
    match chomping? c.peek, digit? c.peek with
    | some chomping, _ =>
      match digit? c.next.peek with
      | some d => ({ chomping, indent := some d }, c.skip 2)
      | none => ({ chomping }, c.next)
    | none, some d =>
      match chomping? c.next.peek with
      | some chomping => ({ chomping, indent := some d }, c.skip 2)
      | none => ({ indent := some d }, c.next)
    | none, none => ({}, c)
  let after := c.skipComment
  if header.indent == some 0 || !endsWord c.peek || !endsLine after.peek then
    .error (.malformed .badBlockHeader)
  else .ok (header, after.skipBreak)

/-- The empty lines in front of a block, the column of its first line, and the cursor there. -/
def blockStart : Nat → List Char → Nat → Cursor → List Char × Nat × Cursor
  | 0, breaks, column, c => (breaks, column, c)
  | fuel + 1, breaks, column, c =>
    if c.peek == some ' ' then blockStart fuel breaks (max column c.next.column) c.next
    else
      match c.lineBreak? with
      | some (b, c) => blockStart fuel (breaks ++ [b]) column c
      | none => (breaks, column, c)

/-- The cursor behind at most as many spaces as the indentation has. -/
def skipIndent (indent : Nat) : Nat → Cursor → Cursor
  | 0, c => c
  | fuel + 1, c =>
    if c.column < indent && c.peek == some ' ' then skipIndent indent fuel c.next else c

/-- The empty lines before the next line of a block. -/
def blockBreaks (indent : Nat) : Nat → List Char → Cursor → List Char × Cursor
  | 0, breaks, c => (breaks, c)
  | fuel + 1, breaks, c =>
    let c := skipIndent indent indent c
    match c.lineBreak? with
    | some (b, c) => blockBreaks indent fuel (breaks ++ [b]) c
    | none => (breaks, c)

/-- The lines of a block and what is left at its end: the break after the last line, and the empty
lines after it. -/
def blockLines (folded : Bool) (indent : Nat) :
    Nat → List Char → List Char → Cursor → List Char × List Char × List Char × Cursor
  | 0, text, breaks, c => (text, [], breaks, c)
  | fuel + 1, text, breaks, c =>
    if c.column != indent || c.peek.isNone then (text, [], breaks, c)
    else
      let text := text ++ breaks
      let flush := !c.peek.any isSpaceOrTab
      let (line, c) := c.span (!isBreak ·)
      let text := text ++ line
      let (lineEnd, c) : List Char × Cursor :=
        match c.lineBreak? with
        | some (b, c) => ([b], c)
        | none => ([], c)
      let (breaks, c) := blockBreaks indent (c.rest.length + 1) [] c
      if c.column == indent && c.peek.isSome then
        let between :=
          if folded && lineEnd == ['\n'] && flush && !c.peek.any isSpaceOrTab then
            if breaks.isEmpty then [' '] else []
          else lineEnd
        blockLines folded indent fuel (text ++ between) breaks c
      else (text, lineEnd, breaks, c)

/-- A block scalar and the cursor behind it; the cursor is at the mark, and `indent` is the
indentation around the block. -/
def block (folded : Bool) (indent : Int) (c : Cursor) : Except Error (List Char × Cursor) := do
  let (header, c) ← blockHeader c.next
  let least := (max (indent + 1) 1).toNat
  let (breaks, column, c) : List Char × Nat × Cursor :=
    match header.indent with
    | none =>
      let (breaks, column, c) := blockStart c.rest.length [] 0 c
      (breaks, max least column, c)
    | some n =>
      let column := least + n - 1
      let (breaks, c) := blockBreaks column (c.rest.length + 1) [] c
      (breaks, column, c)
  let (text, lineEnd, breaks, c) := blockLines folded column (c.rest.length + 1) [] breaks c
  let ending :=
    match header.chomping with
    | .strip => []
    | .clip => lineEnd
    | .keep => lineEnd ++ breaks
  return (text ++ ending, c)

end Yaml
end PropCatalog
