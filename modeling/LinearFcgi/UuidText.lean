import LinearFcgi.Library.Hex
import LinearFcgi.Uuid

/-! `uuid_parse` and `uuid_unparse` on C strings. A string is given by what stands
before its terminator; whatever reads on behind the terminator has no result. -/
namespace LinearFcgi

def isxdigit (ch : UInt8) : Bool :=
  isdigit ch || (65 ≤ ch && ch ≤ 70) || (97 ≤ ch && ch ≤ 102)

/-- `0x` in front of a digit. -/
def skipPrefix : Bytes → Bytes
  | 48 :: x :: ch :: rest => if (x = 120 ∨ x = 88) ∧ isxdigit ch then ch :: rest else 48 :: x :: ch :: rest
  | s => s

/-- The digits that `strtoul` reads, and whether a minus stands before them. -/
def strtoulDigits (s : Bytes) : Bool × Bytes :=
  match s.dropWhile isspace with
  | 45 :: rest => (true, (skipPrefix rest).takeWhile isxdigit)
  | 43 :: rest => (false, (skipPrefix rest).takeWhile isxdigit)
  | rest => (false, (skipPrefix rest).takeWhile isxdigit)

/-- `strtoul(s, NULL, 16)`: the result saturates, or is negated as an `unsigned long`. -/
def strtoul (s : Bytes) : UInt64 :=
  let (negative, digits) := strtoulDigits s
  let n := Hex.number digits
  if 2 ^ 64 ≤ n then -1 else if negative then -n.toUInt64 else n.toUInt64

/-- What `snprintf` leaves in a buffer of `size` bytes, with the terminator. -/
def snprintf (size : Nat) (text : Bytes) : Bytes := text.take (size - 1) ++ [0]

namespace Uuid

/-- `sizeof(uuid_string_t)`. -/
def stringSize : Nat := 37

/-- `in[i]`. -/
def charAt (t : Bytes) (i : Nat) : Option UInt8 := (t ++ [0])[i]?

/-- `in + i`, handed over to be read. -/
def suffix (t : Bytes) (i : Nat) : Option Bytes := if i ≤ t.length then some (t.drop i) else none

/-- The places of the hyphens. -/
def isHyphen (i : Nat) : Bool := i = 8 || i = 13 || i = 18 || i = 23

/-- The loop of `_uuid_parse` from `i` on, with so many characters left to check. -/
def check (t : Bytes) : Nat → Nat → Option Bool
  | 0, _ => some true
  | left + 1, i => do
    let ch ← charAt t i
    if isHyphen i then
      if ch = 45 then check t left (i + 1) else some false
    else if isxdigit ch then check t left (i + 1) else some false

/-- One round of the loop over `node`. -/
def nodeByte (t : Bytes) (i : Nat) : Option UInt8 := do
  let hi ← charAt t (24 + 2 * i)
  let lo ← charAt t (24 + 2 * i + 1)
  return (strtoul (cString [hi, lo])).toUInt8

/-- `_uuid_parse`, with its `-1` as `none`. -/
def parse_ (t : Bytes) : Option (Option Fields) := do
  if ← check t (stringSize - 1) 0 then
    let timeLow := strtoul (← suffix t 0)
    let timeMid := strtoul (← suffix t 9)
    let timeHi := strtoul (← suffix t 14)
    let clockSeq := strtoul (← suffix t 19)
    let node : Node := #v[← nodeByte t 0, ← nodeByte t 1, ← nodeByte t 2, ← nodeByte t 3,
      ← nodeByte t 4, ← nodeByte t 5]
    return some ⟨timeLow.toUInt32, timeMid.toUInt16, timeHi.toUInt16,
      ((clockSeq &&& 0xff00) >>> 8).toUInt8, (clockSeq &&& 0x0ff).toUInt8, node⟩
  else return none

/-- `uuid_parse`: what it returns, and what it leaves in `out`. -/
def parse (t : Bytes) (out : Uuid) : Option (Int × Uuid) := do
  match ← parse_ t with
  | none => return (-1, out)
  | some u => return (0, pack u)

/-- What `uuid_unparse` leaves in its buffer. -/
def unparseBuffer (uu : Uuid) : Bytes := snprintf stringSize (unparse uu)

example : parse (ascii "01234567-89ab-CDEF-0123-123412341234") null =
    some (0, #v[0x01, 0x23, 0x45, 0x67, 0x89, 0xab, 0xcd, 0xef, 0x01, 0x23, 0x12, 0x34, 0x12,
      0x34, 0x12, 0x34]) := rfl
example : parse (ascii "00000000-0000-0000-0000000000000000 ") null = some (-1, null) := by decide

end Uuid
end LinearFcgi
