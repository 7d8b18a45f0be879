import LinearFcgi.UuidTextProofs

/-! `uuid_compare` puts uuids into the order of their bytes, which is the order of
their texts, too. -/
namespace LinearFcgi

/-- `memcmp`, for two pieces of memory of one size. -/
def memcmp : Bytes → Bytes → Int
  | b :: rest, b' :: rest' => if b = b' then memcmp rest rest' else b.toNat - b'.toNat
  | _, _ => 0

namespace Uuid

/-- `_uuid_compare`. -/
def compare_ (u1 u2 : Fields) : Int :=
  if u1.timeLow ≠ u2.timeLow then if u1.timeLow < u2.timeLow then -1 else 1
  else if u1.timeMid ≠ u2.timeMid then if u1.timeMid < u2.timeMid then -1 else 1
  else if u1.timeHiAndVersion ≠ u2.timeHiAndVersion then
    if u1.timeHiAndVersion < u2.timeHiAndVersion then -1 else 1
  else if u1.clockSeqHiAndReserved ≠ u2.clockSeqHiAndReserved then
    if u1.clockSeqHiAndReserved < u2.clockSeqHiAndReserved then -1 else 1
  else if u1.clockSeqLow ≠ u2.clockSeqLow then if u1.clockSeqLow < u2.clockSeqLow then -1 else 1
  else memcmp u1.node.toList u2.node.toList

/-- `uuid_compare`. -/
def compare (uu1 uu2 : Uuid) : Int := compare_ (unpack uu1) (unpack uu2)

open Lexicographic

theorem sign_memcmp {bytes bytes' : Bytes} (length : bytes.length = bytes'.length) :
    sign (memcmp bytes bytes') = Ord.compare bytes bytes' := by
  induction bytes generalizing bytes' with
  | nil =>
    obtain rfl := List.eq_nil_of_length_eq_zero length.symm
    rfl
  | cons b bytes ih =>
    obtain ⟨b', bytes', rfl⟩ := List.exists_cons_of_length_eq_add_one length.symm
    rw [memcmp, List.compare_cons_cons]
    split
    · rename_i same
      rw [same, Std.compare_self, Ordering.eq_then, ih (by simpa using length)]
    · rename_i other
      have differ : Ord.compare b b' ≠ .eq := fun same => other (Std.LawfulEqOrd.eq_of_compare same)
      rw [sign_sub, compare_toNat]
      cases order : Ord.compare b b' with
      | eq => exact absurd order differ
      | lt => rfl
      | gt => rfl

/-- The fields are compared one after the other. -/
theorem sign_compare_ (u1 u2 : Fields) : sign (compare_ u1 u2) =
    (Ord.compare u1.timeLow.toNat u2.timeLow.toNat).then
      ((Ord.compare u1.timeMid.toNat u2.timeMid.toNat).then
        ((Ord.compare u1.timeHiAndVersion.toNat u2.timeHiAndVersion.toNat).then
          ((Ord.compare u1.clockSeqHiAndReserved u2.clockSeqHiAndReserved).then
            ((Ord.compare u1.clockSeqLow u2.clockSeqLow).then
              (Ord.compare u1.node.toList u2.node.toList))))) := by
  rw [compare_]
  simp only [ne_eq, UInt32.lt_iff_toNat_lt, UInt16.lt_iff_toNat_lt, UInt8.lt_iff_toNat_lt,
    ← UInt32.toNat_inj, ← UInt16.toNat_inj, ← UInt8.toNat_inj, ← compare_toNat]
  rw [sign_branch, sign_branch, sign_branch, sign_branch, sign_branch, sign_memcmp (by simp)]

/-! ## Bytes -/

theorem compare_byte (n m : Nat) (b c : UInt8) :
    Ord.compare (n * 16 ^ 2 + b.toNat) (m * 16 ^ 2 + c.toNat) =
      (Ord.compare n m).then (Ord.compare b c) := by
  have bound : b.toNat < 16 ^ 2 := b.toNat_lt
  have bound' : c.toNat < 16 ^ 2 := c.toNat_lt
  rw [compare_mul_add bound bound', compare_toNat]

theorem compare_word (b₀ b₁ b₂ b₃ c₀ c₁ c₂ c₃ : UInt8) :
    Ord.compare (unpackWord [b₀, b₁, b₂, b₃]).toNat (unpackWord [c₀, c₁, c₂, c₃]).toNat =
      (Ord.compare b₀ c₀).then ((Ord.compare b₁ c₁).then
        ((Ord.compare b₂ c₂).then (Ord.compare b₃ c₃))) := by
  rw [unpackWord_toNat, unpackWord_toNat, compare_byte, compare_byte, compare_byte, compare_toNat,
    Ordering.then_assoc, Ordering.then_assoc]

theorem compare_half (b₀ b₁ c₀ c₁ : UInt8) :
    Ord.compare (unpackHalf [b₀, b₁]).toNat (unpackHalf [c₀, c₁]).toNat =
      (Ord.compare b₀ c₀).then (Ord.compare b₁ c₁) := by
  rw [unpackHalf_toNat, unpackHalf_toNat, compare_byte, compare_toNat]

/-- The fields hold the bytes from the upper end on. -/
theorem sign_compare (uu1 uu2 : Uuid) :
    sign (compare uu1 uu2) = Ord.compare uu1.toList uu2.toList := by
  match uu1, uu2 with
  | ⟨⟨[b₀, b₁, b₂, b₃, b₄, b₅, b₆, b₇, b₈, b₉, b₁₀, b₁₁, b₁₂, b₁₃, b₁₄, b₁₅]⟩, _⟩,
    ⟨⟨[c₀, c₁, c₂, c₃, c₄, c₅, c₆, c₇, c₈, c₉, c₁₀, c₁₁, c₁₂, c₁₃, c₁₄, c₁₅]⟩, _⟩ =>
    rw [compare, sign_compare_]
    simp [unpack, compare_word, compare_half, Ordering.then_assoc]

/-! ## Texts -/

theorem compare_layoutFrom {bytes bytes' : Bytes} (length : bytes.length = bytes'.length) (i : Nat) :
    Ord.compare (layoutFrom i bytes) (layoutFrom i bytes') = Ord.compare bytes bytes' := by
  induction bytes generalizing bytes' i with
  | nil =>
    obtain rfl := List.eq_nil_of_length_eq_zero length.symm
    rfl
  | cons b bytes ih =>
    obtain ⟨b', bytes', rfl⟩ := List.exists_cons_of_length_eq_add_one length.symm
    have bound : b.toNat < 16 ^ 2 := b.toNat_lt
    rw [layoutFrom, layoutFrom, compare_append (by simp), compare_append (by simp), Std.compare_self,
      Ordering.then_eq, Hex.compare_write bound b'.toNat_lt, compare_toNat, List.compare_cons_cons,
      ih (by simpa using length)]

/-- The sign of `uuid_compare` is that of comparing the bytes, or the texts, from the
front. So it is a total order, with 0 for equal uuids only. -/
theorem uuid_compare_order (a b : Uuid) :
    sign (compare a b) = Ord.compare a.toList b.toList ∧
    sign (compare a b) = Ord.compare (unparse a) (unparse b) ∧
    (compare a b = 0 ↔ a = b) ∧ (compare a b < 0 ↔ 0 < compare b a) ∧
    (compare a b ≤ 0 ∨ compare b a ≤ 0) ∧
    ∀ c, compare a b ≤ 0 → compare b c ≤ 0 → compare a c ≤ 0 := by
  have swap : Ord.compare b.toList a.toList = (Ord.compare a.toList b.toList).swap :=
    Std.OrientedOrd.eq_swap
  refine ⟨sign_compare a b, ?_, ?_, ?_, ?_, ?_⟩
  · rw [sign_compare, unparse_eq_layout, unparse_eq_layout, layout, layout,
      compare_layoutFrom (by simp)]
  · rw [← sign_eq_eq, sign_compare, Std.compare_eq_iff_eq, Vector.toList_inj]
  · rw [← sign_eq_lt, ← sign_eq_gt, sign_compare, sign_compare, swap, Ordering.swap_eq_gt]
  · rw [← sign_isLE, ← sign_isLE, sign_compare, sign_compare, swap]
    cases Ord.compare a.toList b.toList <;> simp
  · intro c below below'
    rw [← sign_isLE, sign_compare] at below below' ⊢
    exact Std.TransOrd.isLE_trans below below'

end Uuid
end LinearFcgi
