import PropCatalog.Text.Blank

/-!
# Searching and cutting texts

Prefixes, suffixes, occurrences and splits of character lists. `replaceFirst` replaces the leftmost
occurrence only, and `splitAt` cuts at every occurrence of one character, so that a text with `n`
separators has `n + 1` pieces.
-/

namespace PropCatalog
namespace Text

def startsWith (pre cs : List Char) : Bool :=
  pre.isPrefixOf cs

def endsWith (suf cs : List Char) : Bool :=
  suf.isSuffixOf cs

/-- Whether `needle` occurs as a block of neighbouring characters. -/
def contains (needle : List Char) : List Char → Bool
  | [] => needle.isEmpty
  | c :: rest => needle.isPrefixOf (c :: rest) || contains needle rest

/-- The text without `pre` in front, if it starts with it. -/
def stripPrefix? (pre cs : List Char) : Option (List Char) :=
  if startsWith pre cs then some (cs.drop pre.length) else none

/-- The leftmost occurrence of `needle` is replaced by `replacement`; without one the text is
unchanged. -/
def replaceFirst (needle replacement : List Char) : List Char → List Char
  | [] => if needle.isEmpty then replacement else []
  | c :: rest =>
    if needle.isPrefixOf (c :: rest) then replacement ++ (c :: rest).drop needle.length
    else c :: replaceFirst needle replacement rest

/-- Cuts at every occurrence of `sep`. -/
def splitAt (sep : Char) : List Char → List (List Char)
  | [] => [[]]
  | c :: rest => if c == sep then [] :: splitAt sep rest else consLine c (splitAt sep rest)

/-- The part before the first `sep`, or the whole text. -/
def before (sep : Char) (cs : List Char) : List Char :=
  cs.takeWhile (· != sep)

/-- The part after the last `sep`, or the whole text. -/
def afterLast (sep : Char) (cs : List Char) : List Char :=
  (cs.reverse.takeWhile (· != sep)).reverse

/-- The decimal digits of a number. -/
def decimal (n : Nat) : List Char :=
  Nat.toDigits 10 n

/-- A number as text. -/
def number (n : Nat) : String :=
  String.ofList (decimal n)

end Text
end PropCatalog
