import Mathlib.Data.Nat.Notation
import Mathlib.Tactic.Common

/-! Lexicographic comparison: of lists that begin with parts of one length, of numbers
by their digits, and of integers with zero, as C functions report an order. -/
namespace Lexicographic

section Lists
variable {α : Type} [Ord α] {xs ys : List α}

theorem compare_append (length : xs.length = ys.length) (xs' ys' : List α) :
    compare (xs ++ xs') (ys ++ ys') = (compare xs ys).then (compare xs' ys') := by
  induction xs generalizing ys with
  | nil =>
    obtain rfl := List.eq_nil_of_length_eq_zero length.symm
    rfl
  | cons x xs ih =>
    obtain ⟨y, ys, rfl⟩ := List.exists_cons_of_length_eq_add_one length.symm
    rw [List.cons_append, List.cons_append, List.compare_cons_cons, List.compare_cons_cons,
      ih (by simpa using length), Ordering.then_assoc]

@[simp] theorem compare_singleton (x y : α) : compare [x] [y] = compare x y := by
  rw [List.compare_cons_cons, List.compare_nil_nil, Ordering.then_eq]

end Lists

theorem compare_toNat (b c : UInt8) : compare b.toNat c.toNat = compare b c := by
  rcases Nat.lt_trichotomy b.toNat c.toNat with less | same | greater
  · rw [Nat.compare_eq_lt.mpr less, Std.compare_eq_lt.mpr (UInt8.lt_iff_toNat_lt.mpr less)]
  · rw [Nat.compare_eq_eq.mpr same, UInt8.toNat_inj.mp same, Std.compare_self]
  · rw [Nat.compare_eq_gt.mpr greater, Std.compare_eq_gt.mpr (UInt8.lt_iff_toNat_lt.mpr greater)]

/-- Numbers compare by what stands above their last digit, and then by that. -/
theorem compare_mul_add {base a b : Nat} (small : a < base) (small' : b < base) (n m : Nat) :
    compare (n * base + a) (m * base + b) = (compare n m).then (compare a b) := by
  rcases Nat.lt_trichotomy n m with less | rfl | greater
  · have step : (n + 1) * base ≤ m * base := Nat.mul_le_mul_right base less
    rw [Nat.succ_mul] at step
    rw [Nat.compare_eq_lt.mpr (show n * base + a < m * base + b by omega), Nat.compare_eq_lt.mpr less]
    rfl
  · rw [Nat.compare_eq_eq.mpr rfl, Ordering.eq_then]
    rcases Nat.lt_trichotomy a b with less | rfl | greater
    · rw [Nat.compare_eq_lt.mpr less, Nat.compare_eq_lt.mpr (by omega)]
    · rw [Nat.compare_eq_eq.mpr rfl, Nat.compare_eq_eq.mpr rfl]
    · rw [Nat.compare_eq_gt.mpr greater, Nat.compare_eq_gt.mpr (by omega)]
  · have step : (m + 1) * base ≤ n * base := Nat.mul_le_mul_right base greater
    rw [Nat.succ_mul] at step
    rw [Nat.compare_eq_gt.mpr (show m * base + b < n * base + a by omega),
      Nat.compare_eq_gt.mpr greater]
    rfl

/-! ## Signs -/

/-- The order that an integer tells by its sign. -/
def sign (r : Int) : Ordering := if r < 0 then .lt else if r = 0 then .eq else .gt

theorem sign_eq_lt {r : Int} : sign r = .lt ↔ r < 0 := by
  unfold sign
  split
  · simp [*]
  split <;> simp [*]

theorem sign_eq_eq {r : Int} : sign r = .eq ↔ r = 0 := by
  unfold sign
  split
  · simp only [reduceCtorEq, false_iff]
    omega
  split <;> simp [*]

theorem sign_eq_gt {r : Int} : sign r = .gt ↔ 0 < r := by
  unfold sign
  split
  · simp only [reduceCtorEq, false_iff]
    omega
  split
  · simp [*]
  · simp only [true_iff]
    omega

theorem sign_isLE {r : Int} : (sign r).isLE = true ↔ r ≤ 0 := by
  unfold sign
  split
  · simp only [Ordering.isLE_lt, true_iff]
    omega
  split
  · simp [*]
  · simp only [Ordering.isLE_gt, Bool.false_eq_true, false_iff]
    omega

/-- The difference of two numbers, as `memcmp` gives it. -/
theorem sign_sub (n m : Nat) : sign ((n : Int) - m) = compare n m := by
  unfold sign
  split
  · rw [Nat.compare_eq_lt.mpr (by omega)]
  split
  · rw [Nat.compare_eq_eq.mpr (by omega)]
  · rw [Nat.compare_eq_gt.mpr (by omega)]

/-- One comparison of several: what follows decides if the numbers are equal. -/
theorem sign_branch (n m : Nat) (r : Int) :
    sign (if n ≠ m then if n < m then -1 else 1 else r) = (compare n m).then (sign r) := by
  rcases Nat.lt_trichotomy n m with less | rfl | greater
  · rw [if_pos (Nat.ne_of_lt less), if_pos less, Nat.compare_eq_lt.mpr less]
    rfl
  · rw [if_neg (fun other => other rfl), Nat.compare_eq_eq.mpr rfl, Ordering.eq_then]
  · rw [if_pos (Nat.ne_of_gt greater), if_neg (Nat.lt_asymm greater), Nat.compare_eq_gt.mpr greater]
    rfl

end Lexicographic
