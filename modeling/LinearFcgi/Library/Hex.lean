import LinearFcgi.Library.Lexicographic
import Mathlib.Algebra.Ring.Nat
import Mathlib.Data.List.Induction
import Mathlib.Data.Nat.Notation
import Mathlib.Tactic.Common

/-! Hexadecimal text: digits of either case are read, lower-case ones written. -/
namespace Hex

/-- The digit of a number below 16. -/
def digit (n : Nat) : UInt8 := if n < 10 then 48 + n.toUInt8 else 87 + n.toUInt8

/-- The number a digit of either case stands for. -/
def value (ch : UInt8) : Option Nat :=
  if 48 ≤ ch ∧ ch ≤ 57 then some (ch.toNat - 48)
  else if 97 ≤ ch ∧ ch ≤ 102 then some (ch.toNat - 87)
  else if 65 ≤ ch ∧ ch ≤ 70 then some (ch.toNat - 55)
  else none

/-- A capital letter's small one. -/
def lower (ch : UInt8) : UInt8 := if 65 ≤ ch ∧ ch ≤ 90 then ch + 32 else ch

/-- The number with so many digits, from the upper end. -/
def write : Nat → Nat → List UInt8
  | 0, _ => []
  | width + 1, n => write width (n / 16) ++ [digit (n % 16)]

/-- What a run of digits stands for. -/
def number (digits : List UInt8) : Nat := digits.foldl (fun n ch => 16 * n + (value ch).getD 0) 0

/-! ## One digit -/

variable {ch : UInt8} {n : Nat}

theorem value_eq_some : value ch = some n ↔ n < 10 ∧ ch.toNat = 48 + n ∨
    10 ≤ n ∧ n < 16 ∧ (ch.toNat = 87 + n ∨ ch.toNat = 55 + n) := by
  unfold value
  simp only [UInt8.le_iff_toNat_le, UInt8.reduceToNat]
  split
  · rw [Option.some_inj]
    omega
  split
  · rw [Option.some_inj]
    omega
  split
  · rw [Option.some_inj]
    omega
  · simp only [reduceCtorEq, false_iff]
    omega

theorem value_lt (read : value ch = some n) : n < 16 := by
  have cases_ := value_eq_some.mp read
  omega

theorem toNat_digit (small : n < 16) : (digit n).toNat = if n < 10 then 48 + n else 87 + n := by
  unfold digit
  split <;> simp <;> omega

theorem value_digit (small : n < 16) : value (digit n) = some n := by
  rw [value_eq_some, toNat_digit small]
  split <;> omega

/-- A digit that reads as a number is the one written for it, or its capital. -/
theorem digit_of_value (read : value ch = some n) : digit n = lower ch := by
  apply UInt8.toNat_inj.mp
  have shape := value_eq_some.mp read
  rw [toNat_digit (value_lt read), lower]
  simp only [UInt8.le_iff_toNat_le, UInt8.reduceToNat, apply_ite UInt8.toNat, UInt8.toNat_add]
  split <;> split <;> omega

theorem lower_digit (small : n < 16) : lower (digit n) = digit n := by
  have bound := toNat_digit small
  rw [lower, if_neg]
  rw [UInt8.le_iff_toNat_le, UInt8.le_iff_toNat_le, bound]
  simp only [UInt8.reduceToNat]
  split <;> omega

theorem compare_digit {m : Nat} (bound : n < 16) (bound' : m < 16) :
    compare (digit n) (digit m) = compare n m := by
  have left := toNat_digit bound
  have right := toNat_digit bound'
  rw [← Lexicographic.compare_toNat, left, right]
  rcases Nat.lt_trichotomy n m with less | rfl | greater
  · rw [Nat.compare_eq_lt.mpr less, Nat.compare_eq_lt.mpr]
    split <;> split <;> omega
  · rw [Nat.compare_eq_eq.mpr rfl, Nat.compare_eq_eq.mpr rfl]
  · rw [Nat.compare_eq_gt.mpr greater, Nat.compare_eq_gt.mpr]
    split <;> split <;> omega

/-! ## Runs of digits -/

variable {digits : List UInt8}

@[simp] theorem length_write (width n : Nat) : (write width n).length = width := by
  induction width generalizing n with
  | zero => rfl
  | succ width ih => rw [write, List.length_append, ih, List.length_singleton]

theorem number_append_singleton : number (digits ++ [ch]) = 16 * number digits + (value ch).getD 0 := by
  rw [number, List.foldl_append]
  rfl

theorem number_lt (read : ∀ ch ∈ digits, (value ch).isSome) : number digits < 16 ^ digits.length := by
  induction digits using List.reverseRecOn with
  | nil => exact Nat.one_pos
  | append_singleton digits ch ih =>
    rw [List.forall_mem_append, List.forall_mem_singleton] at read
    obtain ⟨n, value⟩ := Option.isSome_iff_exists.mp read.2
    have small := value_lt value
    have below := ih read.1
    rw [number_append_singleton, value, List.length_append, List.length_singleton, Nat.pow_succ,
      Option.getD_some]
    omega

theorem number_write {width n : Nat} (bound : n < 16 ^ width) : number (write width n) = n := by
  induction width generalizing n with
  | zero =>
    rw [Nat.pow_zero, Nat.lt_one_iff] at bound
    rw [bound]
    rfl
  | succ width ih =>
    rw [Nat.pow_succ] at bound
    rw [write, number_append_singleton, ih (by omega), value_digit (by omega), Option.getD_some]
    omega

/-- Written out again, a run of digits comes back in lower case. -/
theorem write_number (read : ∀ ch ∈ digits, (value ch).isSome) :
    write digits.length (number digits) = digits.map lower := by
  induction digits using List.reverseRecOn with
  | nil => rfl
  | append_singleton digits ch ih =>
    rw [List.forall_mem_append, List.forall_mem_singleton] at read
    obtain ⟨n, value⟩ := Option.isSome_iff_exists.mp read.2
    have small := value_lt value
    have upper : (16 * number digits + n) / 16 = number digits := by omega
    have last : (16 * number digits + n) % 16 = n := by omega
    rw [List.length_append, List.length_singleton, write, number_append_singleton, value,
      Option.getD_some, upper, last, ih read.1, digit_of_value value, List.map_append,
      List.map_singleton]

theorem write_add (width more n : Nat) :
    write (width + more) n = write width (n / 16 ^ more) ++ write more n := by
  induction more generalizing n with
  | zero => simp [write]
  | succ more ih =>
    rw [← Nat.add_assoc, write, write, ih, Nat.div_div_eq_div_mul, ← Nat.pow_succ',
      List.append_assoc]

/-- Only so many digits are written. -/
theorem write_mod (width n : Nat) : write width (n % 16 ^ width) = write width n := by
  induction width generalizing n with
  | zero => rfl
  | succ width ih =>
    have upper : n % 16 ^ (width + 1) / 16 = n / 16 % 16 ^ width := by
      rw [Nat.pow_succ', Nat.mod_mul_right_div_self]
    have last : n % 16 ^ (width + 1) % 16 = n % 16 := by
      rw [Nat.pow_succ', Nat.mod_mul_right_mod]
    rw [write, write, upper, last, ih]

/-- A number that follows another one is written behind it. -/
theorem write_append {width more m : Nat} (bound : m < 16 ^ more) (n : Nat) :
    write (width + more) (n * 16 ^ more + m) = write width n ++ write more m := by
  have upper : (n * 16 ^ more + m) / 16 ^ more = n := by
    rw [Nat.add_comm, Nat.add_mul_div_right _ _ (Nat.pow_pos (by decide)),
      Nat.div_eq_of_lt bound, Nat.zero_add]
  have lower : (n * 16 ^ more + m) % 16 ^ more = m := by
    rw [Nat.mul_comm, Nat.mul_add_mod, Nat.mod_eq_of_lt bound]
  rw [write_add, upper, ← write_mod more, lower]

/-- Digits of one number compare as the numbers do. -/
theorem compare_write {width m : Nat} (bound : n < 16 ^ width) (bound' : m < 16 ^ width) :
    compare (write width n) (write width m) = compare n m := by
  induction width generalizing n m with
  | zero =>
    rw [Nat.pow_zero, Nat.lt_one_iff] at bound bound'
    rw [bound, bound']
    rfl
  | succ width ih =>
    rw [Nat.pow_succ] at bound bound'
    have last := Nat.mod_lt n (show 16 > 0 by decide)
    have last' := Nat.mod_lt m (show 16 > 0 by decide)
    calc compare (write (width + 1) n) (write (width + 1) m)
        = (compare (write width (n / 16)) (write width (m / 16))).then
            (compare [digit (n % 16)] [digit (m % 16)]) :=
          Lexicographic.compare_append (by simp) _ _
      _ = (compare (n / 16) (m / 16)).then (compare (n % 16) (m % 16)) := by
          rw [ih (by omega) (by omega), Lexicographic.compare_singleton, compare_digit last last']
      _ = compare (n / 16 * 16 + n % 16) (m / 16 * 16 + m % 16) :=
          (Lexicographic.compare_mul_add last last' _ _).symm
      _ = compare n m := by
          rw [Nat.div_add_mod', Nat.div_add_mod']

theorem digit_of_mem_write {width : Nat} (inside : ch ∈ write width n) : ∃ m < 16, ch = digit m := by
  induction width generalizing n with
  | zero => cases inside
  | succ width ih =>
    rcases List.mem_append.mp inside with upper | last
    · exact ih upper
    · exact ⟨n % 16, Nat.mod_lt n (by decide), List.mem_singleton.mp last⟩

end Hex
