import Mathlib.Data.Nat.Notation
import Mathlib.Tactic.Common

/-! The base64 code of a string of bytes: three bytes become four digits, and a
group that is not full is padded. Decoding gives back what was encoded. -/
namespace Base64

/-- The digit of a number below 64. -/
def digit (n : Nat) : UInt8 :=
  if n < 26 then .ofNat (n + 65)
  else if n < 52 then .ofNat (n + 71)
  else if n < 62 then .ofNat (n - 4)
  else if n = 62 then 43
  else 47

/-- The number a digit stands for. -/
def value (ch : UInt8) : Option Nat :=
  if 65 ≤ ch ∧ ch ≤ 90 then some (ch.toNat - 65)
  else if 97 ≤ ch ∧ ch ≤ 122 then some (ch.toNat - 71)
  else if 48 ≤ ch ∧ ch ≤ 57 then some (ch.toNat + 4)
  else if ch = 43 then some 62
  else if ch = 47 then some 63
  else none

/-- `'='`. -/
def pad : UInt8 := 61

def encode : List UInt8 → List UInt8
  | [] => []
  | [a] => [digit (a.toNat / 4), digit (a.toNat % 4 * 16), pad, pad]
  | [a, b] =>
    [digit (a.toNat / 4), digit (a.toNat % 4 * 16 + b.toNat / 16), digit (b.toNat % 16 * 4), pad]
  | a :: b :: c :: rest =>
    digit (a.toNat / 4) :: digit (a.toNat % 4 * 16 + b.toNat / 16) ::
      digit (b.toNat % 16 * 4 + c.toNat / 64) :: digit (c.toNat % 64) :: encode rest

def decode : List UInt8 → Option (List UInt8)
  | [] => some []
  | p :: q :: r :: s :: rest => do
    let a ← value p
    let b ← value q
    if s = pad ∧ rest = [] then
      if r = pad then return [.ofNat (a * 4 + b / 16)]
      let c ← value r
      return [.ofNat (a * 4 + b / 16), .ofNat (b % 16 * 16 + c / 4)]
    let c ← value r
    let d ← value s
    let more ← decode rest
    return .ofNat (a * 4 + b / 16) :: .ofNat (b % 16 * 16 + c / 4) :: .ofNat (c % 4 * 64 + d) :: more
  | _ => none

theorem value_digit : ∀ n < 64, value (digit n) = some n := by decide

theorem digit_ne_pad : ∀ n < 64, digit n ≠ pad := by decide

theorem digit_ne_zero : ∀ n < 64, digit n ≠ 0 := by decide

private theorem ofNat_eq {a : UInt8} {n : Nat} (same : n = a.toNat) : UInt8.ofNat n = a := by
  rw [same, UInt8.ofNat_toNat]

/-- Decoding inverts encoding. -/
theorem decode_encode (data : List UInt8) : decode (encode data) = some data := by
  induction data using encode.induct with
  | case1 => rfl
  | case2 a =>
    have bound := a.toNat_lt
    have first := value_digit (a.toNat / 4) (by omega)
    have second := value_digit (a.toNat % 4 * 16) (by omega)
    have whole : UInt8.ofNat (a.toNat / 4 * 4 + a.toNat % 4 * 16 / 16) = a := ofNat_eq (by omega)
    simp only [encode, decode, first, second, whole, Option.bind_eq_bind, Option.bind_some, and_self,
      ↓reduceIte, Option.pure_def]
  | case3 a b =>
    have boundA := a.toNat_lt
    have boundB := b.toNat_lt
    have first := value_digit (a.toNat / 4) (by omega)
    have second := value_digit (a.toNat % 4 * 16 + b.toNat / 16) (by omega)
    have third := value_digit (b.toNat % 16 * 4) (by omega)
    have full := digit_ne_pad (b.toNat % 16 * 4) (by omega)
    have wholeA : UInt8.ofNat (a.toNat / 4 * 4 + (a.toNat % 4 * 16 + b.toNat / 16) / 16) = a :=
      ofNat_eq (by omega)
    have wholeB : UInt8.ofNat ((a.toNat % 4 * 16 + b.toNat / 16) % 16 * 16 +
        b.toNat % 16 * 4 / 4) = b := ofNat_eq (by omega)
    simp only [encode, decode, first, second, third, full, wholeA, wholeB, Option.bind_eq_bind,
      Option.bind_some, and_self, ↓reduceIte, Option.pure_def]
  | case4 a b c rest ih =>
    have boundA := a.toNat_lt
    have boundB := b.toNat_lt
    have boundC := c.toNat_lt
    have first := value_digit (a.toNat / 4) (by omega)
    have second := value_digit (a.toNat % 4 * 16 + b.toNat / 16) (by omega)
    have third := value_digit (b.toNat % 16 * 4 + c.toNat / 64) (by omega)
    have fourth := value_digit (c.toNat % 64) (by omega)
    have full := digit_ne_pad (c.toNat % 64) (by omega)
    have wholeA : UInt8.ofNat (a.toNat / 4 * 4 + (a.toNat % 4 * 16 + b.toNat / 16) / 16) = a :=
      ofNat_eq (by omega)
    have wholeB : UInt8.ofNat ((a.toNat % 4 * 16 + b.toNat / 16) % 16 * 16 +
        (b.toNat % 16 * 4 + c.toNat / 64) / 4) = b := ofNat_eq (by omega)
    have wholeC : UInt8.ofNat ((b.toNat % 16 * 4 + c.toNat / 64) % 4 * 64 + c.toNat % 64) = c :=
      ofNat_eq (by omega)
    simp only [encode, decode, first, second, third, fourth, full, ih, wholeA, wholeB, wholeC,
      Option.bind_eq_bind, Option.bind_some, false_and, ↓reduceIte, Option.pure_def]

/-- A code consists of digits and padding. -/
theorem not_mem_encode {ch : UInt8} (other : ∀ n < 64, digit n ≠ ch) (unpadded : pad ≠ ch)
    (data : List UInt8) : ch ∉ encode data := by
  have digit_ne (n : Nat) (bound : n < 64) : ch ≠ digit n := (other n bound).symm
  induction data using encode.induct with
  | case1 => simp [encode]
  | case2 a =>
    have bound := a.toNat_lt
    have first := digit_ne (a.toNat / 4) (by omega)
    have second := digit_ne (a.toNat % 4 * 16) (by omega)
    simp [encode, unpadded.symm, first, second]
  | case3 a b =>
    have boundA := a.toNat_lt
    have boundB := b.toNat_lt
    have first := digit_ne (a.toNat / 4) (by omega)
    have second := digit_ne (a.toNat % 4 * 16 + b.toNat / 16) (by omega)
    have third := digit_ne (b.toNat % 16 * 4) (by omega)
    simp [encode, unpadded.symm, first, second, third]
  | case4 a b c rest ih =>
    have boundA := a.toNat_lt
    have boundB := b.toNat_lt
    have boundC := c.toNat_lt
    have first := digit_ne (a.toNat / 4) (by omega)
    have second := digit_ne (a.toNat % 4 * 16 + b.toNat / 16) (by omega)
    have third := digit_ne (b.toNat % 16 * 4 + c.toNat / 64) (by omega)
    have fourth := digit_ne (c.toNat % 64) (by omega)
    simp [encode, first, second, third, fourth, ih]

/-- A code has no zero byte, so it can be handed on as a C string. -/
theorem zero_not_mem_encode (data : List UInt8) : 0 ∉ encode data :=
  not_mem_encode digit_ne_zero (by decide) data

theorem encode_eq_nil {data : List UInt8} : encode data = [] ↔ data = [] := by
  cases data using encode.induct <;> simp [encode]

end Base64
