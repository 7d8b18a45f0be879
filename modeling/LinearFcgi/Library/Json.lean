import LinearFcgi.Library.Hex

/-! JSON text, as far as an object with one string in it needs it: the characters of a
string with all of their escapes, over the bytes of UTF-8. -/
namespace Json

/-- The bytes of a character. -/
abbrev utf8 (c : Char) : List UInt8 := String.utf8EncodeChar c

/-- A character that may stand in a string as it is. -/
def Unescaped (c : Char) : Prop := 0x20 ≤ c.toNat ∧ c.toNat ≠ 0x22 ∧ c.toNat ≠ 0x5c

/-- The letters that follow a backslash, with what they stand for there. -/
def escapes : List (UInt8 × UInt8) :=
  [(0x22, 0x22), (0x5c, 0x5c), (0x2f, 0x2f), (0x62, 0x08), (0x66, 0x0c), (0x6e, 0x0a), (0x72, 0x0d),
    (0x74, 0x09)]

/-- Four digits and the number they make up. -/
def FourDigits (digits : List UInt8) (n : Nat) : Prop :=
  digits.length = 4 ∧ (∀ ch ∈ digits, (Hex.value ch).isSome) ∧ Hex.number digits = n

/-- What stands between the quotation marks of a string, and the text that it is. -/
inductive Chars : List UInt8 → List UInt8 → Prop where
  | nil : Chars [] []
  | plain {c : Char} {t v : List UInt8} (allowed : Unescaped c) (rest : Chars t v) :
      Chars (utf8 c ++ t) (utf8 c ++ v)
  | short {letter b : UInt8} {t v : List UInt8} (known : (letter, b) ∈ escapes)
      (rest : Chars t v) : Chars (0x5c :: letter :: t) (b :: v)
  | unicode {digits t v : List UInt8} {c : Char} (number : FourDigits digits c.toNat)
      (rest : Chars t v) : Chars (0x5c :: 0x75 :: (digits ++ t)) (utf8 c ++ v)
  /-- a character beyond 16 bits is written as two surrogates -/
  | pair {high low t v : List UInt8} {n m : Nat} {c : Char} (upper : FourDigits high (0xd800 + n))
      (lower : FourDigits low (0xdc00 + m)) (small : n < 0x400) (small' : m < 0x400)
      (number : c.toNat = 0x10000 + n * 0x400 + m) (rest : Chars t v) :
      Chars (0x5c :: 0x75 :: (high ++ 0x5c :: 0x75 :: (low ++ t))) (utf8 c ++ v)

/-- Blanks may stand before and after every mark. -/
def Spaces (w : List UInt8) : Prop := ∀ b ∈ w, b = 0x20 ∨ b = 0x09 ∨ b = 0x0a ∨ b = 0x0d

/-- The text is an object whose only member has this name, and for its value this string. -/
inductive Single : List UInt8 → List UInt8 → List UInt8 → Prop where
  | mk {w₁ w₂ w₃ w₄ w₅ w₆ n v name value : List UInt8}
      (spaces : ∀ w ∈ [w₁, w₂, w₃, w₄, w₅, w₆], Spaces w) (named : Chars n name)
      (valued : Chars v value) :
      Single (w₁ ++ 0x7b :: (w₂ ++ 0x22 :: (n ++ 0x22 :: (w₃ ++ 0x3a :: (w₄ ++ 0x22 :: (v ++ 0x22 ::
        (w₅ ++ 0x7d :: w₆))))))) name value

/-- The text can stand in a string as it is. -/
def Plain (s : List UInt8) : Prop := ∃ cs : List Char, (∀ c ∈ cs, Unescaped c) ∧ s = cs.flatMap utf8

/-! ## Bytes -/

variable {c : Char} {b : UInt8} {t v s w p name rest rest' : List UInt8}

/-- A byte below 128 is a character of its own. -/
theorem toNat_of_mem (inside : b ∈ utf8 c) (ascii : b.toNat < 128) : c.toNat = b.toNat := by
  have val : c.val.toNat = c.toNat := rfl
  have other (n : Nat) (high : 128 ≤ n) (byte : n < 256) : b ≠ UInt8.ofNat n := by
    rintro rfl
    rw [UInt8.toNat_ofNat'] at ascii
    omega
  simp only [utf8, String.utf8EncodeChar, val] at inside
  split at inside
  · rw [List.mem_singleton.mp inside, UInt8.toNat_ofNat']
    omega
  split at inside
  · simp only [List.mem_cons, List.not_mem_nil, or_false] at inside
    rcases inside with first | second
    · exact absurd first (other _ (by omega) (by omega))
    · exact absurd second (other _ (by omega) (by omega))
  split at inside
  · simp only [List.mem_cons, List.not_mem_nil, or_false] at inside
    rcases inside with first | second | third
    · exact absurd first (other _ (by omega) (by omega))
    · exact absurd second (other _ (by omega) (by omega))
    · exact absurd third (other _ (by omega) (by omega))
  · simp only [List.mem_cons, List.not_mem_nil, or_false] at inside
    rcases inside with first | second | third | fourth
    · exact absurd first (other _ (by omega) (by omega))
    · exact absurd second (other _ (by omega) (by omega))
    · exact absurd third (other _ (by omega) (by omega))
    · exact absurd fourth (other _ (by omega) (by omega))

theorem length_utf8_le (c : Char) : (utf8 c).length ≤ 4 := by
  rw [String.length_utf8EncodeChar]
  exact Char.utf8Size_le_four c

/-- Neither a quotation mark nor a backslash is among the bytes of an unescaped character. -/
theorem Unescaped.not_mem (allowed : Unescaped c) : 0x22 ∉ utf8 c ∧ 0x5c ∉ utf8 c :=
  ⟨fun quote => allowed.2.1 (toNat_of_mem quote (by decide)),
    fun backslash => allowed.2.2 (toNat_of_mem backslash (by decide))⟩

theorem Plain.not_mem (plain : Plain s) : 0x22 ∉ s ∧ 0x5c ∉ s := by
  obtain ⟨cs, allowed, rfl⟩ := plain
  simp only [List.mem_flatMap, not_exists, not_and]
  exact ⟨fun c member => (allowed c member).not_mem.1, fun c member => (allowed c member).not_mem.2⟩

/-! ## Strings -/

theorem Plain.chars (plain : Plain s) : Chars s s := by
  obtain ⟨cs, allowed, rfl⟩ := plain
  induction cs with
  | nil => exact .nil
  | cons c cs ih =>
    rw [List.forall_mem_cons] at allowed
    rw [List.flatMap_cons]
    exact .plain allowed.1 (ih allowed.2)

theorem Chars.length_le (chars : Chars t v) : v.length ≤ t.length := by
  induction chars with
  | nil => exact Nat.le_refl _
  | plain allowed rest ih =>
    simp only [List.length_append]
    omega
  | short known rest ih =>
    simp only [List.length_cons]
    omega
  | @unicode digits t v c number rest ih =>
    have bound := length_utf8_le c
    have four := number.1
    simp only [List.length_append, List.length_cons]
    omega
  | @pair high low t v n m c upper lower small small' number rest ih =>
    have bound := length_utf8_le c
    have four := upper.1
    simp only [List.length_append, List.length_cons]
    omega

/-- Text that is no longer than what it stands for has no escape in it. -/
theorem Chars.eq_of_length (chars : Chars t v) (same : t.length ≤ v.length) : t = v ∧ Plain v := by
  induction chars with
  | nil => exact ⟨rfl, [], nofun, rfl⟩
  | @plain c t v allowed rest ih =>
    rw [List.length_append, List.length_append] at same
    obtain ⟨rfl, cs, all, rfl⟩ := ih (by omega)
    exact ⟨rfl, c :: cs, List.forall_mem_cons.mpr ⟨allowed, all⟩, List.flatMap_cons.symm⟩
  | short known rest ih =>
    have shorter := rest.length_le
    simp only [List.length_cons] at same
    omega
  | @unicode digits t v c number rest ih =>
    have shorter := rest.length_le
    have bound := length_utf8_le c
    have four := number.1
    simp only [List.length_append, List.length_cons] at same
    omega
  | @pair high low t v n m c upper lower small small' number rest ih =>
    have shorter := rest.length_le
    have bound := length_utf8_le c
    have four := upper.1
    simp only [List.length_append, List.length_cons] at same
    omega

theorem backslash_ne (backslash : 0x5c ∉ p) : 0x5c :: t ≠ p ++ 0x22 :: rest := by
  intro same
  cases p with
  | nil => cases (List.cons.inj same).1
  | cons b p => exact (List.ne_and_not_mem_of_not_mem_cons backslash).1 (List.cons.inj same).1

/-- A string ends at the first quotation mark that no backslash comes before. -/
theorem Chars.ends (chars : Chars t v) (quote : 0x22 ∉ p) (backslash : 0x5c ∉ p)
    (same : t ++ 0x22 :: rest = p ++ 0x22 :: rest') : t = p := by
  induction chars generalizing p with
  | nil =>
    cases p with
    | nil => rfl
    | cons b p => exact absurd (List.cons.inj same).1 (List.ne_and_not_mem_of_not_mem_cons quote).1
  | @plain c t v allowed chars ih =>
    obtain ⟨p', rfl⟩ : ∃ p', p = utf8 c ++ p' := by
      rw [List.append_assoc] at same
      rcases List.append_eq_append_iff.mp same with ⟨p', whole, -⟩ | ⟨cut, whole, same⟩
      · exact ⟨p', whole⟩
      · cases cut with
        | nil => exact ⟨[], by simpa using whole.symm⟩
        | cons b cut =>
          obtain rfl : 0x22 = b := (List.cons.inj same).1
          exact absurd (by simp [whole]) allowed.not_mem.1
    rw [List.append_assoc, List.append_assoc] at same
    rw [List.mem_append, not_or] at quote backslash
    rw [ih quote.2 backslash.2 (List.append_cancel_left same)]
  | short known chars ih => exact absurd same (backslash_ne backslash)
  | unicode number chars ih => exact absurd same (backslash_ne backslash)
  | pair upper lower small small' number chars ih => exact absurd same (backslash_ne backslash)

/-! ## Objects -/

theorem Spaces.eq_nil (spaces : Spaces w) (mark : b ≠ 0x20 ∧ b ≠ 0x09 ∧ b ≠ 0x0a ∧ b ≠ 0x0d)
    (same : w ++ rest = b :: rest') : w = [] := by
  cases w with
  | nil => rfl
  | cons first w =>
    obtain rfl : first = b := (List.cons.inj same).1
    have blank := spaces first (by simp)
    grind

/-- Between quotation marks, text stands for itself exactly if it is plain. -/
theorem single_spliced (named : Plain name) : Single (0x7b :: 0x22 :: (name ++ 0x22 :: 0x3a :: 0x22 ::
    (s ++ [0x22, 0x7d]))) name s ↔ Plain s := by
  constructor
  · intro single
    generalize same : 0x7b :: 0x22 :: (name ++ 0x22 :: 0x3a :: 0x22 :: (s ++ [0x22, 0x7d])) = text at single
    cases single with
    | @mk w₁ w₂ w₃ w₄ w₅ w₆ n v _ _ spaces named' valued =>
      simp only [List.forall_mem_cons, List.not_mem_nil] at spaces
      obtain ⟨spaces₁, spaces₂, spaces₃, spaces₄, -⟩ := spaces
      obtain rfl := spaces₁.eq_nil (by decide) same.symm
      have same := (List.cons.inj same).2
      obtain rfl := spaces₂.eq_nil (by decide) same.symm
      have same := (List.cons.inj same).2
      obtain rfl := named'.ends named.not_mem.1 named.not_mem.2 same.symm
      have same := (List.cons.inj (List.append_cancel_left same)).2
      obtain rfl := spaces₃.eq_nil (by decide) same.symm
      have same := (List.cons.inj same).2
      obtain rfl := spaces₄.eq_nil (by decide) same.symm
      -- what is left is as long as the text it stands for, with nothing behind it
      have lengths := congrArg List.length (List.cons.inj same).2
      simp only [List.length_append, List.length_cons, List.length_nil] at lengths
      exact (valued.eq_of_length (by omega)).2
  · intro plain
    have spliced : Single ([] ++ 0x7b :: ([] ++ 0x22 :: (name ++ 0x22 :: ([] ++ 0x3a :: ([] ++ 0x22 ::
        (s ++ 0x22 :: ([] ++ 0x7d :: []))))))) name s :=
      .mk (by simp [Spaces]) named.chars plain.chars
    exact spliced

end Json
