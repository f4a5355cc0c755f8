/-!
# Decoding bytes

A byte sequence is read as UTF-8 one unit at a time: a unit is either a character or a maximal
piece that begins like a character and cannot be completed. `decodeStrict?` refuses the latter and
`decodeLossy` shows each of them as the replacement character. `encode` goes the other way.
-/

namespace PropCatalog
namespace Text

/-- Whether `b` may continue a character. -/
def isContinuation (b : UInt8) : Bool :=
  0x80 ≤ b && b ≤ 0xbf

/-- Whether `b` may follow the leading byte `lead` of a character of three or four bytes; the
narrower ranges exclude overlong forms, surrogates and values beyond `U+10FFFF`. -/
def isSecond (lead b : UInt8) : Bool :=
  if lead == 0xe0 then 0xa0 ≤ b && b ≤ 0xbf
  else if lead == 0xed then 0x80 ≤ b && b ≤ 0x9f
  else if lead == 0xf0 then 0x90 ≤ b && b ≤ 0xbf
  else if lead == 0xf4 then 0x80 ≤ b && b ≤ 0x8f
  else isContinuation b

/-- The units of a byte sequence; `none` stands for a piece that is no character. -/
def decodeUnits : List UInt8 → List (Option Char)
  | [] => []
  | a :: rest =>
    if a < 0x80 then some (Char.ofNat a.toNat) :: decodeUnits rest
    else if 0xc2 ≤ a && a ≤ 0xdf then
      match rest with
      | [] => [none]
      | b :: rest' =>
        if isContinuation b then
          some (Char.ofNat ((a.toNat % 32) * 64 + b.toNat % 64)) :: decodeUnits rest'
        else none :: decodeUnits (b :: rest')
    else if 0xe0 ≤ a && a ≤ 0xef then
      match rest with
      | [] => [none]
      | b :: rest' =>
        if isSecond a b then
          match rest' with
          | [] => [none]
          | c :: rest'' =>
            if isContinuation c then
              some (Char.ofNat ((a.toNat % 16) * 4096 + (b.toNat % 64) * 64 + c.toNat % 64)) ::
                decodeUnits rest''
            else none :: decodeUnits (c :: rest'')
        else none :: decodeUnits (b :: rest')
    else if 0xf0 ≤ a && a ≤ 0xf4 then
      match rest with
      | [] => [none]
      | b :: rest' =>
        if isSecond a b then
          match rest' with
          | [] => [none]
          | c :: rest'' =>
            if isContinuation c then
              match rest'' with
              | [] => [none]
              | d :: rest''' =>
                if isContinuation d then
                  some (Char.ofNat ((a.toNat % 8) * 262144 + (b.toNat % 64) * 4096 +
                    (c.toNat % 64) * 64 + d.toNat % 64)) :: decodeUnits rest'''
                else none :: decodeUnits (d :: rest''')
            else none :: decodeUnits (c :: rest'')
        else none :: decodeUnits (b :: rest')
    else none :: decodeUnits rest

/-- The characters of a byte sequence, with `U+FFFD` for every piece that is no character. -/
def decodeLossy (bytes : List UInt8) : List Char :=
  (decodeUnits bytes).map (·.getD (Char.ofNat 0xfffd))

/-- The bytes of a text. -/
def encode (cs : List Char) : List UInt8 :=
  cs.flatMap String.utf8EncodeChar

/-- The characters of a byte sequence, if all of it is well formed. -/
def decodeStrict? (bytes : List UInt8) : Option (List Char) :=
  (decodeUnits bytes).mapM id

end Text
end PropCatalog
