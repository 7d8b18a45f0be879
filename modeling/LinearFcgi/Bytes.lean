import Mathlib.Algebra.Ring.Int.Defs
import Mathlib.Algebra.Ring.Nat
import Mathlib.Data.List.TakeWhile
import Mathlib.Logic.Function.Basic

/-! Byte strings, and the few functions of the C library the program parses
them with. Where the source passes `c_str()`, the callee sees the bytes before
the first NUL. -/
namespace LinearFcgi

abbrev Bytes := List UInt8

/-- A string literal of the source. -/
def ascii (s : String) : Bytes := s.toList.map fun c => c.toNat.toUInt8

/-- What a callee sees of a string that is handed over as `const char*`. -/
def cString (s : Bytes) : Bytes := s.takeWhile (· ≠ 0)

theorem cString_of_nulFree {s : Bytes} (text : 0 ∉ s) : cString s = s := by
  refine List.takeWhile_eq_self_iff.mpr fun b inside => ?_
  have nonzero : b ≠ 0 := fun zero => text (zero ▸ inside)
  simpa using nonzero

/-- A terminator is not part of the string. -/
theorem cString_terminated (s : Bytes) : cString (s ++ [0]) = cString s := by
  induction s with
  | nil => rfl
  | cons b s ih =>
    simp only [cString, List.cons_append, List.takeWhile_cons] at ih ⊢
    rw [ih]

/-- Up to its first terminator, and behind it. -/
theorem cString_split (s : Bytes) : ∃ junk, s ++ [0] = cString s ++ 0 :: junk := by
  induction s with
  | nil => exact ⟨[], rfl⟩
  | cons b s ih =>
    obtain ⟨junk, split⟩ := ih
    by_cases nul : b = 0
    · exact ⟨s ++ [0], by simp [cString, nul]⟩
    · refine ⟨junk, ?_⟩
      simp only [cString, List.cons_append, List.takeWhile_cons] at split ⊢
      simp [nul, split]

theorem ne_zero_of_cString {s : Bytes} {b : UInt8} (member : b ∈ cString s) : b ≠ 0 := by
  simpa using List.mem_takeWhile_imp member

def isspace (c : UInt8) : Bool := c == 32 || (9 ≤ c && c ≤ 13)

def isdigit (c : UInt8) : Bool := 48 ≤ c && c ≤ 57

/-- The value of a run of decimal digits. -/
def decimal (digits : Bytes) : Nat := digits.foldl (fun n c => 10 * n + (c.toNat - 48)) 0

/-- `strtol(s, NULL, 10)` with a 64-bit `long`: blanks, a sign, digits; the
result saturates, and the flag tells whether `errno` is set to `ERANGE`. -/
def strtol (s : Bytes) : Int × Bool :=
  match s.dropWhile isspace with
  | 45 :: rest =>
    let n := decimal (rest.takeWhile isdigit)
    if n ≤ 2 ^ 63 then (-n, false) else (-2 ^ 63, true)
  | 43 :: rest =>
    let n := decimal (rest.takeWhile isdigit)
    if n < 2 ^ 63 then (n, false) else (2 ^ 63 - 1, true)
  | rest =>
    let n := decimal (rest.takeWhile isdigit)
    if n < 2 ^ 63 then (n, false) else (2 ^ 63 - 1, true)

/-- The cast `(size_t)` of a `long`. -/
def toSize (n : Int) : Nat := (n % 2 ^ 64).toNat

example : strtol (ascii " -12x") = (-12, false) := by decide
example : strtol (ascii "9223372036854775808") = (2 ^ 63 - 1, true) := by decide

end LinearFcgi
