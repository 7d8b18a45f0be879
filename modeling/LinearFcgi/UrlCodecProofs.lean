import LinearFcgi.Library.Hex
import LinearFcgi.UrlCodec

/-! `url_decode` reads back whatever was written in the form encoding, in all of
the ways it leaves open, and `url_encode` writes it in one of them. -/
namespace LinearFcgi

/-- The text writes these bytes one by one: as they are if the encoding leaves them
be, a space as `'+'`, any byte as `'%'` and two digits of either case. -/
inductive Encodes (literal : UInt8 → Prop) : Bytes → Bytes → Prop where
  | nil : Encodes literal [] []
  | literal {b : UInt8} {s e : Bytes} (kept : literal b) (rest : Encodes literal s e) :
      Encodes literal (b :: s) (b :: e)
  | plus {s e : Bytes} (rest : Encodes literal s e) : Encodes literal (32 :: s) (43 :: e)
  | escape {b hi lo : UInt8} {s e : Bytes} (high : Hex.value hi = some (b.toNat / 16))
      (low : Hex.value lo = some (b.toNat % 16)) (rest : Encodes literal s e) :
      Encodes literal (b :: s) (37 :: hi :: lo :: e)

/-- What may stand for itself. -/
def Verbatim (b : UInt8) : Prop := b ≠ 37 ∧ b ≠ 43

/-- What `url_encode` leaves as it is. -/
def Unreserved (b : UInt8) : Prop := isalnum b ∨ b = 45 ∨ b = 95 ∨ b = 46

variable {s e : Bytes} {literal : UInt8 → Prop}

theorem Encodes.mono {more : UInt8 → Prop} (wider : ∀ b, literal b → more b)
    (encodes : Encodes literal s e) : Encodes more s e := by
  induction encodes with
  | nil => exact .nil
  | literal kept rest ih => exact .literal (wider _ kept) ih
  | plus rest ih => exact .plus ih
  | escape high low rest ih => exact .escape high low ih

theorem verbatim_of_unreserved (b : UInt8) (kept : Unreserved b) : Verbatim b := by
  constructor
  · rintro rfl
    exact absurd kept (by simp [Unreserved, isalnum, isdigit])
  · rintro rfl
    exact absurd kept (by simp [Unreserved, isalnum, isdigit])

/-! ## Digits -/

theorem unreserved_of_value {ch : UInt8} {n : Nat} (read : Hex.value ch = some n) :
    Unreserved ch := by
  have shape := Hex.value_eq_some.mp read
  left
  simp only [isalnum, isdigit, Bool.or_eq_true, Bool.and_eq_true, decide_eq_true_eq,
    UInt8.le_iff_toNat_le, UInt8.reduceToNat]
  omega

theorem fromHex_of_value {ch : UInt8} {n : Nat} (read : Hex.value ch = some n) :
    (fromHex ch).toNat = n := by
  have shape := Hex.value_eq_some.mp read
  simp only [fromHex, Hex.lower, isdigit, Bool.and_eq_true, decide_eq_true_eq,
    UInt8.le_iff_toNat_le, UInt8.reduceToNat]
  split
  · simp [UInt8.toNat_sub]
    omega
  · split
    · simp [UInt8.toNat_sub, UInt8.toNat_add]
      omega
    · simp [UInt8.toNat_sub, UInt8.toNat_add]
      omega

/-- Two digits make up the byte again. -/
theorem fromHex_pair {b hi lo : UInt8} (high : Hex.value hi = some (b.toNat / 16))
    (low : Hex.value lo = some (b.toNat % 16)) : fromHex hi <<< 4 ||| fromHex lo = b := by
  have bound := b.toNat_lt
  have shifted : (b.toNat / 16) <<< 4 % 2 ^ 8 = (b.toNat / 16) <<< 4 := by
    rw [Nat.shiftLeft_eq]
    omega
  apply UInt8.toNat_inj.mp
  calc (fromHex hi <<< 4 ||| fromHex lo).toNat
      = (b.toNat / 16) <<< 4 % 2 ^ 8 ||| b.toNat % 16 := by
        rw [UInt8.toNat_or, UInt8.toNat_shiftLeft, fromHex_of_value high, fromHex_of_value low]
        rfl
    _ = (b.toNat / 16) <<< 4 + b.toNat % 16 := by
        rw [shifted, Nat.shiftLeft_add_eq_or_of_lt (by omega)]
    _ = b.toNat := by
        rw [Nat.shiftLeft_eq]
        omega

/-- The shift of a signed `char` leaves the upper half of the byte to the mask. -/
theorem toHex_high (b : UInt8) : toHex (b.toInt8 >>> 4).toUInt8 = Hex.digit (b.toNat / 16) := by
  have table : ∀ n < 256, toHex ((UInt8.ofNat n).toInt8 >>> (4 : Int8)).toUInt8 =
      Hex.digit (n / 16) := by decide +kernel
  have row := table b.toNat b.toNat_lt
  rwa [UInt8.ofNat_toNat] at row

theorem toHex_low (b : UInt8) : toHex (b &&& 15) = Hex.digit (b.toNat % 16) := by
  have table : ∀ n < 256, toHex (UInt8.ofNat n &&& 15) = Hex.digit (n % 16) := by decide +kernel
  have row := table b.toNat b.toNat_lt
  rwa [UInt8.ofNat_toNat] at row

/-! ## Strings -/

theorem urlDecode_encodes (encodes : Encodes Verbatim s e) : urlDecode e = s := by
  induction encodes with
  | nil => rfl
  | literal kept rest ih =>
    rw [urlDecode, ih]
    · exact fun _ _ _ percent => absurd percent kept.1
    · exact kept.1
    · exact kept.2
  | plus rest ih => rw [urlDecode, ih]
  | escape high low rest ih => rw [urlDecode, ih, fromHex_pair high low]

theorem encodes_urlEncode (s : Bytes) : Encodes Unreserved s (urlEncode s) := by
  induction s with
  | nil => exact .nil
  | cons b s ih =>
    rw [urlEncode]
    split
    · rename_i kept
      exact .literal kept ih
    split
    · rename_i space
      rw [space]
      exact .plus ih
    · have bound := b.toNat_lt
      rw [toHex_high, toHex_low]
      exact .escape (Hex.value_digit (by omega)) (Hex.value_digit (by omega)) ih

theorem digit_ne_zero {ch : UInt8} {n : Nat} (read : Hex.value ch = some n) : ch ≠ 0 := by
  rintro rfl
  cases read

theorem Encodes.nulFree (encodes : Encodes literal s e) (text : 0 ∉ s) : 0 ∉ e := by
  induction encodes with
  | nil => exact text
  | literal kept rest ih =>
    rw [List.mem_cons, not_or] at text ⊢
    exact ⟨text.1, ih text.2⟩
  | plus rest ih =>
    rw [List.mem_cons, not_or] at text ⊢
    exact ⟨by decide, ih text.2⟩
  | escape high low rest ih =>
    simp only [List.mem_cons, not_or] at text ⊢
    exact ⟨by decide, (digit_ne_zero high).symm, (digit_ne_zero low).symm, ih text.2⟩

/-- Every `'%'` is an escape: nothing else is written beside it but the digits. -/
theorem Encodes.chars (encodes : Encodes Unreserved s e) :
    ∀ ch ∈ e, Unreserved ch ∨ ch = 43 ∨ ch = 37 := by
  induction encodes with
  | nil => simp
  | literal kept rest ih => exact List.forall_mem_cons.mpr ⟨.inl kept, ih⟩
  | plus rest ih => exact List.forall_mem_cons.mpr ⟨.inr (.inl rfl), ih⟩
  | escape high low rest ih =>
    rw [List.forall_mem_cons, List.forall_mem_cons, List.forall_mem_cons]
    exact ⟨.inr (.inr rfl), .inl (unreserved_of_value high), .inl (unreserved_of_value low), ih⟩

/-- `url_decode` inverts every encoding of a C string. What `url_encode` writes is one
that leaves only alphanumerics, `'-'`, `'_'` and `'.'` as they are, so decoding gives
back the string and no two strings are encoded alike. -/
theorem url_codec (s : Bytes) (text : 0 ∉ s) :
    (∀ e, Encodes Verbatim s e → 0 ∉ e ∧ urlDecode e = s) ∧
    Encodes Verbatim s (urlEncode s) ∧ Encodes Unreserved s (urlEncode s) ∧
    (∀ ch ∈ urlEncode s, Unreserved ch ∨ ch = 43 ∨ ch = 37) ∧
    urlDecode (urlEncode s) = s ∧
    ∀ s', 0 ∉ s' → urlEncode s' = urlEncode s → s' = s := by
  have decodes (s : Bytes) : urlDecode (urlEncode s) = s :=
    urlDecode_encodes ((encodes_urlEncode s).mono verbatim_of_unreserved)
  refine ⟨?_, (encodes_urlEncode s).mono verbatim_of_unreserved, encodes_urlEncode s,
    (encodes_urlEncode s).chars, decodes s, ?_⟩
  · intro e encodes
    exact ⟨encodes.nulFree text, urlDecode_encodes encodes⟩
  · intro s' _ same
    rw [← decodes s', same, decodes s]

/-- All of the three ways, and digits of both cases, for a space and a byte above 127. -/
theorem url_codec_ways : urlDecode (ascii "%20+ %c3%C3") = [32, 32, 32, 0xc3, 0xc3] :=
  ((url_codec [32, 32, 32, 0xc3, 0xc3] (by decide)).1 _
    (.escape rfl rfl (.plus (.literal (by simp [Verbatim])
      (.escape rfl rfl (.escape rfl rfl .nil)))))).2

end LinearFcgi
