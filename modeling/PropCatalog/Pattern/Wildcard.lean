import PropCatalog.Text.Search

/-!
# Wildcard patterns

A wildcard pattern describes a text as a whole: a star stands for any characters, a question mark
for one, and a bracket for one character of a set. Slashes are characters like any other.

- `Piece.ofChars`  : reads a pattern; an opening bracket that is never closed stands for itself
- `matchesPieces`  : whether a text fits
- `isExcluded`     : whether some pattern of a list fits a path; a leading `**/` may also be dropped

In a set a hyphen between two characters denotes the characters from the first to the second.
A range whose ends are in the wrong order denotes nothing and disappears together with its ends.
-/

namespace PropCatalog
namespace Pattern

/-- One piece of a pattern. -/
inductive Piece where
  | star
  | any
  | char (c : Char)
  /-- One character that is (or, if `negated`, is not) in one of the ranges. -/
  | set (negated : Bool) (ranges : List (Char × Char))
  deriving DecidableEq, Repr

/-! ## Sets -/

/-- What stands in a set: a character, or the hyphen between the ends of a range. -/
inductive SetMark where
  | char (c : Char)
  | range
  deriving DecidableEq, Repr

/-- Cuts the inside of a set at the hyphens that make ranges. The first `skip` characters cannot be
such a hyphen: one at the start, and two after another hyphen. -/
def chunks : Nat → List Char → List (List Char)
  | _, [] => [[]]
  | 0, c :: rest => if c == '-' then [] :: chunks 2 rest else Text.consLine c (chunks 0 rest)
  | skip + 1, c :: rest => Text.consLine c (chunks skip rest)

/-- A hyphen at the very end stands for itself. -/
def closeChunks : List (List Char) → List (List Char)
  | [] => []
  | [chunk, []] => [chunk ++ ['-']]
  | chunk :: rest => chunk :: closeChunks rest

/-- Joins a chunk to the ones after it, without the range between them if its ends are in the wrong
order. -/
def mendChunk (chunk : List Char) : List (List Char) → List (List Char)
  | [] => [chunk]
  | next :: rest =>
    match chunk.getLast?, next.head? with
    | some first, some last =>
      if last < first then (chunk.dropLast ++ next.tail) :: rest else chunk :: next :: rest
    | _, _ => chunk :: next :: rest

/-- The chunks without the ranges that denote nothing, mended from the right. -/
def mendChunks (chunks : List (List Char)) : List (List Char) :=
  chunks.foldr mendChunk []

/-- The marks of chunks that are joined by ranges. -/
def marksOf : List (List Char) → List SetMark
  | [] => []
  | [chunk] => chunk.map .char
  | chunk :: rest => chunk.map .char ++ .range :: marksOf rest

/-- The ranges that marks denote; a range mark without a beginning is a hyphen. -/
def rangesOf : List SetMark → List (Char × Char)
  | [] => []
  | .range :: rest => ('-', '-') :: rangesOf rest
  | .char first :: .range :: .char last :: rest => (first, last) :: rangesOf rest
  | .char c :: rest => (c, c) :: rangesOf rest

/-- The piece for the inside of a set: an exclamation mark in front negates it. -/
def Piece.ofSet (body : List Char) : Piece :=
  let skip := if body.head? == some '!' then 2 else 1
  match marksOf (mendChunks (closeChunks (chunks skip body))) with
  | [.char '!'] => .any
  | .char '!' :: marks => .set true (rangesOf marks)
  | marks => .set false (rangesOf marks)

/-- The length of a set's inside, given what stands after the opening bracket: it ends at the first
closing bracket that is not its first character, a negation apart. -/
def setLength? (cs : List Char) : Option Nat :=
  let negation := if cs.head? == some '!' then 1 else 0
  let bracket := if (cs.drop negation).head? == some ']' then 1 else 0
  let body := (cs.drop (negation + bracket)).takeWhile (· != ']')
  let length := negation + bracket + body.length
  if length < cs.length then some length else none

/-! ## Patterns -/

/-- Reads a pattern of at most `fuel` characters. -/
def Piece.ofCharsUpTo : Nat → List Char → List Piece
  | 0, _ => []
  | _, [] => []
  | fuel + 1, c :: rest =>
    if c == '*' then .star :: ofCharsUpTo fuel rest
    else if c == '?' then .any :: ofCharsUpTo fuel rest
    else if c == '[' then
      match setLength? rest with
      | some length => .ofSet (rest.take length) :: ofCharsUpTo fuel (rest.drop (length + 1))
      | none => .char c :: ofCharsUpTo fuel rest
    else .char c :: ofCharsUpTo fuel rest

/-- The pieces of a pattern. -/
def Piece.ofChars (pattern : List Char) : List Piece :=
  ofCharsUpTo pattern.length pattern

/-- Whether a piece that stands for one character stands for `c`. -/
def Piece.accepts (c : Char) : Piece → Bool
  | .star => false
  | .any => true
  | .char d => c == d
  | .set negated ranges =>
    (ranges.any fun r => decide (r.1 ≤ c) && decide (c ≤ r.2)) != negated

/-- Whether `p` holds of some suffix of a text. -/
def anySuffix (p : List Char → Bool) : List Char → Bool
  | [] => p []
  | c :: rest => p (c :: rest) || anySuffix p rest

/-- Whether the pieces fit the whole text. -/
def matchesPieces : List Piece → List Char → Bool
  | [], cs => cs.isEmpty
  | .star :: pieces, cs => anySuffix (matchesPieces pieces) cs
  | piece :: pieces, cs =>
    match cs with
    | [] => false
    | c :: rest => piece.accepts c && matchesPieces pieces rest

/-- Whether a pattern fits the whole text. -/
def fits (pattern text : List Char) : Bool :=
  matchesPieces (Piece.ofChars pattern) text

/-! ## Exclusion -/

/-- Whether a pattern fits a path, as it is or without a leading `**/`. -/
def excludes (path pattern : String) : Bool :=
  fits pattern.toList path.toList ||
    match Text.stripPrefix? ['*', '*', '/'] pattern.toList with
    | some rest => fits rest path.toList
    | none => false

/-- Whether some pattern excludes a path. -/
def isExcluded (path : String) (patterns : List String) : Bool :=
  patterns.any (excludes path)

end Pattern
end PropCatalog
