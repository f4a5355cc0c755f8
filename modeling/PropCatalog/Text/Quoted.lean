import PropCatalog.Text.Printable
import PropCatalog.Text.Search

/-!
# Quoted texts

A text is shown between single quotes, or between double quotes if it holds single quotes and no
double ones. Backslashes and the surrounding quote are escaped, line feeds, returns and tabs have
short escapes, and other unprintable characters are numbered.
-/

namespace PropCatalog
namespace Text

/-- `count` hexadecimal digits of a number. -/
def hex (count n : Nat) : List Char :=
  let digits := Nat.toDigits 16 n
  List.replicate (count - digits.length) '0' ++ digits

/-- One character between the given quotes. -/
def quotedChar (quote c : Char) : List Char :=
  let n := c.toNat
  if c == quote || c == '\\' then ['\\', c]
  else if c == '\n' then ['\\', 'n']
  else if c == '\r' then ['\\', 'r']
  else if c == '\t' then ['\\', 't']
  else if isPrintable c then [c]
  else if n < 0x100 then '\\' :: 'x' :: hex 2 n
  else if n < 0x10000 then '\\' :: 'u' :: hex 4 n
  else '\\' :: 'U' :: hex 8 n

def quoted (cs : List Char) : List Char :=
  let quote := if cs.contains '\'' && !cs.contains '"' then '"' else '\''
  quote :: cs.flatMap (quotedChar quote) ++ [quote]

end Text
end PropCatalog
