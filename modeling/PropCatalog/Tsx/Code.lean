/-!
# Characters of a module and their lexemes

The text is held as an array of characters beside the byte offset of each. Positions are indices
into that array, and every scanner maps a position to the position after a lexeme:

- `skipTrivia`      : past blanks and comments
- `wordEnd`         : past an identifier or keyword
- `numberEnd?`, `stringEnd?`, `regexEnd?` : past a literal, if a complete one stands there
- `operatorAt`      : the longest operator or punctuation mark at a position
- `autoSemicolon?`  : where a statement may end without a semicolon
-/

namespace PropCatalog
namespace Tsx

structure Code where
  chars : Array Char
  /-- `offsets[i]` is the byte offset of character `i`; the last entry is the length in bytes. -/
  offsets : Array Nat

namespace Code

def ofString (text : String) : Code :=
  let chars := text.toList.toArray
  let (offsets, stop) := chars.foldl
    (fun (acc : Array Nat × Nat) c => (acc.1.push acc.2, acc.2 + c.utf8Size)) (#[], 0)
  ⟨chars, offsets.push stop⟩

def size (code : Code) : Nat := code.chars.size

/-- The character at a position, and `U+0000` past the end. -/
def char (code : Code) (i : Nat) : Char :=
  code.chars.getD i (Char.ofNat 0)

def offset (code : Code) (i : Nat) : Nat :=
  code.offsets.getD i (code.offsets.back?.getD 0)

def text (code : Code) (start stop : Nat) : String :=
  String.ofList (code.chars.extract start stop).toList

/-- The first position from `i` on whose character fails `p`. -/
def skipWhile (code : Code) (p : Char → Bool) (i : Nat) : Nat :=
  if h : i < code.chars.size then
    if p code.chars[i] then skipWhile code p (i + 1) else i
  else i
termination_by code.chars.size - i

/-- Whether the characters from `i` on begin with `lexeme`. -/
def startsWith (code : Code) (i : Nat) (lexeme : String) : Bool :=
  go lexeme.toList i
where
  go : List Char → Nat → Bool
    | [], _ => true
    | c :: rest, j => j < code.size && code.char j == c && go rest (j + 1)

/-! ## Blanks and comments -/

def isLineFeed (c : Char) : Bool :=
  c == '\n' || c == '\r' || c.toNat == 0x2028 || c.toNat == 0x2029

/-- The space separators of all scripts. -/
def isSpaceSeparator (n : Nat) : Bool :=
  n == 32 || n == 0xa0 || n == 0x1680 || (0x2000 ≤ n && n ≤ 0x200a) || n == 0x202f ||
    n == 0x205f || n == 0x3000

/-- The characters that may stand between lexemes. -/
def isSpace (c : Char) : Bool :=
  let n := c.toNat
  (9 ≤ n && n ≤ 13) || isSpaceSeparator n || n == 0xfeff || n == 0x2028 || n == 0x2029 ||
    n == 0x2060 || n == 0x200b

/-- The position after the first `*/` from `i` on. -/
def blockEnd? (code : Code) (i : Nat) : Option Nat :=
  if i + 1 < code.size then
    if code.char i == '*' && code.char (i + 1) == '/' then some (i + 2) else blockEnd? code (i + 1)
  else none
termination_by code.size - i

/-- The position after the comment that begins at `i`. -/
def commentEnd? (code : Code) (i : Nat) : Option Nat :=
  if code.startsWith i "//" then some (code.skipWhile (!isLineFeed ·) (i + 2))
  else if code.startsWith i "/*" then code.blockEnd? (i + 2)
  else none

/-- The first position from `i` on that is neither blank nor in a comment. -/
def skipTrivia (code : Code) (i : Nat) : Nat :=
  let j := code.skipWhile isSpace i
  match code.commentEnd? j with
  | some k => if i < k ∧ k ≤ code.size then skipTrivia code k else j
  | none => j
termination_by code.size - i

/-- The comments between two positions, as pairs of positions. -/
def comments (code : Code) (i stop : Nat) : List (Nat × Nat) :=
  let j := code.skipWhile isSpace i
  if j < stop then
    match code.commentEnd? j with
    | some k => if i < k ∧ k ≤ code.size then (j, k) :: comments code k stop else []
    | none => []
  else []
termination_by code.size - i

/-! ## Words and literals -/

/-- The ASCII characters that belong to no word. -/
def isMark (c : Char) : Bool :=
  ":;`\"'@#.,|^&<=>+-*/\\%?!~()[]{}".toList.contains c

def isWordPart (c : Char) : Bool :=
  c.toNat ≥ 32 && !isSpace c && !isMark c

def isWordStart (c : Char) : Bool :=
  isWordPart c && !c.isDigit

def isHexDigit (c : Char) : Bool :=
  c.isDigit || ('a' ≤ c && c ≤ 'f') || ('A' ≤ c && c ≤ 'F')

/-- The position after `count` hexadecimal digits. -/
def hexEnd? (code : Code) (i count : Nat) : Option Nat :=
  if (List.range count).all fun k => isHexDigit (code.char (i + k)) then some (i + count) else none

/-- The position after a numbered character, whose `u` stands at `i`. -/
def codePointEnd? (code : Code) (i : Nat) : Option Nat :=
  if code.char i != 'u' then none
  else if code.char (i + 1) == '\x7b' then
    let j := code.skipWhile isHexDigit (i + 2)
    if i + 2 < j && code.char j == '\x7d' then some (j + 1) else none
  else code.hexEnd? (i + 1) 4

/-- The first position from `i` on that is not part of a word. -/
def wordRest (code : Code) (i : Nat) : Nat :=
  let j := code.skipWhile isWordPart i
  if code.char j == '\\' then
    match code.codePointEnd? (j + 1) with
    | some k => if i < k ∧ k ≤ code.size then wordRest code k else j
    | none => j
  else j
termination_by code.size - i

/-- The position after the word at `i`, which is `i` itself if there is none. -/
def wordEnd (code : Code) (i : Nat) : Nat :=
  if isWordStart (code.char i) && i < code.size then code.wordRest (i + 1)
  else if code.char i == '\\' then
    match code.codePointEnd? (i + 1) with
    | some k => code.wordRest k
    | none => i
  else i

def isDigitPart (c : Char) : Bool :=
  c.isDigit || c == '_'

/-- The position after an exponent at `i`, which is `i` itself if there is none. -/
def exponentEnd (code : Code) (i : Nat) : Nat :=
  if code.char i == 'e' || code.char i == 'E' then
    let j := if code.char (i + 1) == '+' || code.char (i + 1) == '-' then i + 2 else i + 1
    if (code.char j).isDigit then code.skipWhile isDigitPart j else i
  else i

def numberEnd? (code : Code) (i : Nat) : Option Nat :=
  let c := code.char i
  let based := c == '0' && "xXoObB".toList.contains (code.char (i + 1))
  if based then
    let j := code.skipWhile (fun d => isHexDigit d || d == '_') (i + 2)
    if i + 2 < j then some (if code.char j == 'n' then j + 1 else j) else none
  else if c.isDigit then
    let j := code.skipWhile isDigitPart i
    if code.char j == 'n' then some (j + 1)
    else if code.char j == '.' then
      some (code.exponentEnd (code.skipWhile isDigitPart (j + 1)))
    else some (code.exponentEnd j)
  else if c == '.' && (code.char (i + 1)).isDigit then
    some (code.exponentEnd (code.skipWhile isDigitPart (i + 1)))
  else none

/-- The position after the escape whose backslash stands at `i`. -/
def escapeEnd? (code : Code) (i : Nat) : Option Nat :=
  let c := code.char (i + 1)
  if code.size ≤ i + 1 then none
  else if c == 'x' then code.hexEnd? (i + 2) 2
  else if c == 'u' then code.codePointEnd? (i + 1)
  else if c == '\r' && code.char (i + 2) == '\n' then some (i + 3)
  else some (i + 2)

/-- The position after the `quote` that closes a string, read from `i` on. -/
def stringRest? (code : Code) (quote : Char) (i : Nat) : Option Nat :=
  if i < code.size then
    let c := code.char i
    if c == quote then some (i + 1)
    else if c == '\n' || c == '\r' then none
    else if c == '\\' then
      match code.escapeEnd? i with
      | some k => if i < k then stringRest? code quote k else none
      | none => none
    else stringRest? code quote (i + 1)
  else none
termination_by code.size - i

def stringEnd? (code : Code) (i : Nat) : Option Nat :=
  let c := code.char i
  if c == '"' || c == '\'' then code.stringRest? c (i + 1) else none

/-- The position after the slash that closes a regular expression, read from `i` on. -/
def regexRest? (code : Code) (inClass : Bool) (i : Nat) : Option Nat :=
  if i < code.size then
    let c := code.char i
    if isLineFeed c then none
    else if c == '\\' then
      if i + 1 < code.size && !isLineFeed (code.char (i + 1)) then regexRest? code inClass (i + 2)
      else none
    else if c == '/' && !inClass then some (i + 1)
    else regexRest? code ((c == '[' || inClass) && c != ']') (i + 1)
  else none
termination_by code.size - i

def regexEnd? (code : Code) (i : Nat) : Option Nat :=
  if code.char i == '/' && code.char (i + 1) != '/' && code.char (i + 1) != '*' then
    (code.regexRest? false (i + 1)).map (code.skipWhile fun c => 'a' ≤ c && c ≤ 'z')
  else none

/-- The position of the first character from `i` on that ends a run of template text: the closing
backquote, a backslash, or the opening of a substitution. -/
def templateRun (code : Code) (i : Nat) : Nat :=
  if i < code.size then
    let c := code.char i
    if c.toNat == 96 || c == '\\' || (c == '$' && code.char (i + 1) == '\x7b') then i
    else templateRun code (i + 1)
  else i
termination_by code.size - i

/-! ## Operators -/

/-- The operators and punctuation marks of more than one character, longer ones first. -/
def operators : List String :=
  [">>>=", "...", "===", "!==", "**=", "<<=", ">>=", ">>>", "&&=", "||=", "??=", "=>", "==", "!=",
    "<=", ">=", "&&", "||", "??", "?.", "++", "--", "+=", "-=", "*=", "/=", "%=", "&=", "|=", "^=",
    "<<", ">>", "**"]

/-- The longest operator or punctuation mark at a position, and the empty text if there is none. -/
def operatorAt (code : Code) (i : Nat) : String :=
  let c := code.char i
  if !isMark c || code.size ≤ i then ""
  else
    match operators.find? (code.startsWith i) with
    | some "?." => if (code.char (i + 2)).isDigit then "?" else "?."
    | some op => op
    | none => String.singleton c

/-! ## Ends of statements -/

/-- Whether a statement may begin at `i`, just after a line end, rather than continue the line
before. Inside a type an opening parenthesis or bracket begins a new item. -/
def mayBegin (code : Code) (inType : Bool) (i : Nat) : Bool :=
  let c := code.char i
  if c.toNat == 96 || ",.;*%><=?^|&/:".toList.contains c then false
  else if c == '(' || c == '[' then inType
  else if c == '+' || c == '-' then code.char (i + 1) == c
  else if c == '!' then code.char (i + 1) != '='
  else
    let word := code.text i (code.wordEnd i)
    word != "in" && word != "instanceof"

/-- Where a statement that has been read up to `i` may end without a semicolon: before the end of
the text, a closing brace, or a line end that no continuation follows. Comments on the same line
still belong to the statement. -/
def autoSemicolon? (code : Code) (inType : Bool) (i : Nat) : Option Nat :=
  let j := code.skipWhile (fun c => isSpace c && c != '\n') i
  if code.size ≤ j then some i
  else if code.char j == '\x7d' then some i
  else if code.char j == '\n' then
    if code.mayBegin inType (code.skipTrivia (j + 1)) then some i else none
  else
    match code.commentEnd? j with
    | some k => if i < k ∧ k ≤ code.size then autoSemicolon? code inType k else none
    | none => none
termination_by code.size - i

end Code
end Tsx
end PropCatalog
