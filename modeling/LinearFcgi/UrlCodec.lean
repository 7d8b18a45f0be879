import LinearFcgi.Library.Hex
import LinearFcgi.Bytes

/-! `urlendecode.c`, over the bytes before the terminator. Arithmetic on `char`
wraps at eight bits. -/
namespace LinearFcgi

/-- `isalnum` in the C locale. -/
def isalnum (ch : UInt8) : Bool := isdigit ch || (65 ≤ ch && ch ≤ 90) || (97 ≤ ch && ch ≤ 122)

/-- `from_hex`. `Hex.lower` is `tolower` in the C locale. -/
def fromHex (ch : UInt8) : UInt8 := if isdigit ch then ch - 48 else Hex.lower ch - 97 + 10

/-- `to_hex`, with its table of digits. -/
def toHex (code : UInt8) : UInt8 := (ascii "0123456789abcdef").getD (code &&& 15).toNat 0

/-- `url_encode`. A `char` is signed: shifting it right repeats the sign. -/
def urlEncode : Bytes → Bytes
  | [] => []
  | ch :: rest =>
    if isalnum ch ∨ ch = 45 ∨ ch = 95 ∨ ch = 46 then ch :: urlEncode rest
    else if ch = 32 then 43 :: urlEncode rest
    else 37 :: toHex (ch.toInt8 >>> 4).toUInt8 :: toHex (ch &&& 15) :: urlEncode rest

/-- `url_decode`: a `'%'` takes the two characters after it along, and is
dropped alone where the text ends before them. -/
def urlDecode : Bytes → Bytes
  | [] => []
  | 37 :: hi :: lo :: rest => (fromHex hi <<< 4 ||| fromHex lo) :: urlDecode rest
  | 37 :: rest => urlDecode rest
  | 43 :: rest => 32 :: urlDecode rest
  | ch :: rest => ch :: urlDecode rest

example : urlEncode (ascii "a b-c/") ++ urlEncode [0xe3] = ascii "a+b-c%2f%e3" := by decide
example : urlDecode (ascii "a+%2b%4A%3") = ascii "a +J3" := by decide

end LinearFcgi
