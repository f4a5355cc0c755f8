/-!
# Blank characters, words and lines

Texts are read as lists of characters. This module fixes what counts as blank and as a line
break, and the operations that rest on these two classes:

- `isBlank`   : white space of every script, together with the separators `U+001C` to `U+001F`
- `isSpace`   : the blanks among them that may stand around a numeral
- `trim`      : a text without its leading and trailing blanks
- `words`     : the maximal runs of non-blank characters
- `lines`     : the pieces between line breaks, where a carriage return followed by a line feed
  is one break and a final break opens no further line
-/

namespace PropCatalog
namespace Text

/-! ## Character classes -/

/-- The characters that separate words and are removed by `trim`. -/
def isBlank (c : Char) : Bool :=
  let n := c.toNat
  (9 ≤ n && n ≤ 13) || (28 ≤ n && n ≤ 32) || n == 0x85 || n == 0xa0 || n == 0x1680 ||
    (0x2000 ≤ n && n ≤ 0x200a) || n == 0x2028 || n == 0x2029 || n == 0x202f || n == 0x205f ||
    n == 0x3000

/-- The blanks that may stand around a numeral: all but the separators `U+001C` to `U+001F`. -/
def isSpace (c : Char) : Bool :=
  isBlank c && !(28 ≤ c.toNat && c.toNat ≤ 31)

/-- The characters that end a line. -/
def isLineBreak (c : Char) : Bool :=
  let n := c.toNat
  (10 ≤ n && n ≤ 13) || (28 ≤ n && n ≤ 30) || n == 0x85 || n == 0x2028 || n == 0x2029

/-! ## Trimming -/

/-- The text without its longest prefix of characters that satisfy `p`. -/
def dropLeft (p : Char → Bool) (cs : List Char) : List Char :=
  cs.dropWhile p

/-- The text without its longest suffix of characters that satisfy `p`. -/
def dropRight (p : Char → Bool) (cs : List Char) : List Char :=
  (cs.reverse.dropWhile p).reverse

/-- The text without the characters that satisfy `p` at either end. -/
def dropEnds (p : Char → Bool) (cs : List Char) : List Char :=
  dropRight p (dropLeft p cs)

def trimLeft (cs : List Char) : List Char :=
  dropLeft isBlank cs

def trim (cs : List Char) : List Char :=
  dropEnds isBlank cs

def trimSpace (cs : List Char) : List Char :=
  dropEnds isSpace cs

/-! ## Words and lines -/

/-- The maximal runs of characters outside the class `p`, in order. -/
def runsOutside (p : Char → Bool) : List Char → List (List Char)
  | [] => []
  | c :: rest =>
    if p c then runsOutside p rest
    else
      match rest with
      | [] => [[c]]
      | d :: _ =>
        if p d then [c] :: runsOutside p rest
        else
          match runsOutside p rest with
          | [] => [[c]]
          | run :: runs => (c :: run) :: runs

def words (cs : List Char) : List (List Char) :=
  runsOutside isBlank cs

/-- Puts a character in front of the first line. -/
def consLine (c : Char) : List (List Char) → List (List Char)
  | [] => [[c]]
  | line :: rest => (c :: line) :: rest

/-- The lines of a text, without their breaks. -/
def lines : List Char → List (List Char)
  | [] => []
  | '\r' :: '\n' :: rest => [] :: lines rest
  | c :: rest => if isLineBreak c then [] :: lines rest else consLine c (lines rest)

/-- Joins pieces with a separator between neighbours. -/
def joinWith (sep : List Char) : List (List Char) → List Char
  | [] => []
  | [piece] => piece
  | piece :: rest => piece ++ sep ++ joinWith sep rest

/-- The words of a text with one space between neighbours. -/
def squeeze (cs : List Char) : List Char :=
  joinWith [' '] (words cs)

end Text
end PropCatalog
