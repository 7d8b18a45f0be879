import LinearFcgi.UuidText
import Mathlib.Tactic.IntervalCases

/-! `uuid_unparse` writes the bytes of a uuid in order, and `uuid_parse` reads them back
from any text that begins with a uuid. It does not ask where that text ends. -/
namespace LinearFcgi

/-! ## `strtoul` -/

theorem isxdigit_iff {ch : UInt8} : isxdigit ch = true ↔ (Hex.value ch).isSome = true := by
  simp only [isxdigit, isdigit, Hex.value, Bool.or_eq_true, Bool.and_eq_true, decide_eq_true_eq]
  split
  · simp [*]
  split
  · simp [*]
  split
  · simp [*]
  · simp [*]

/-- What a digit is not. -/
theorem of_isxdigit {ch : UInt8} (digit : isxdigit ch = true) :
    isspace ch = false ∧ ch ≠ 0 ∧ ch ≠ 43 ∧ ch ≠ 45 ∧ ch ≠ 88 ∧ ch ≠ 120 := by
  have ne (other : UInt8) (not_ : isxdigit other = false) : ch ≠ other := by
    rintro rfl
    rw [digit] at not_
    cases not_
  refine ⟨?_, ne 0 rfl, ne 43 rfl, ne 45 rfl, ne 88 rfl, ne 120 rfl⟩
  obtain ⟨n, value⟩ := Option.isSome_iff_exists.mp (isxdigit_iff.mp digit)
  have shape := Hex.value_eq_some.mp value
  simp only [isspace, Bool.or_eq_false_iff, Bool.and_eq_false_iff, beq_eq_false_iff_ne, ne_eq,
    ← UInt8.toNat_inj, decide_eq_false_iff_not, UInt8.le_iff_toNat_le, UInt8.reduceToNat]
  omega

variable {digits rest : Bytes}

theorem takeWhile_digits (read : ∀ ch ∈ digits, isxdigit ch) (stop : ∀ ch ∈ rest.head?, ch = 45) :
    (digits ++ rest).takeWhile isxdigit = digits := by
  rw [List.takeWhile_append_of_pos read]
  cases rest with
  | nil => simp
  | cons ch rest =>
    obtain rfl := stop ch rfl
    simp [List.takeWhile, isxdigit, isdigit]

theorem skipPrefix_digits (read : ∀ ch ∈ digits, isxdigit ch) (some_ : digits ≠ [])
    (stop : ∀ ch ∈ rest.head?, ch = 45) : skipPrefix (digits ++ rest) = digits ++ rest := by
  unfold skipPrefix
  split
  · rename_i x ch more same
    have not_x : x ≠ 120 ∧ x ≠ 88 := by
      match digits, some_, read, same with
      | [_], _, _, same =>
        have tail : rest = x :: ch :: more := (List.cons.inj same).2
        obtain rfl := stop x (by rw [tail]; rfl)
        decide
      | _ :: second :: _, _, read, same =>
        have facts := of_isxdigit (read second (by simp))
        rw [← (List.cons.inj (List.cons.inj same).2).1]
        exact ⟨facts.2.2.2.2.2, facts.2.2.2.2.1⟩
    rw [same]
    exact if_neg fun prefixed => prefixed.1.elim not_x.1 not_x.2
  · rfl

/-- A number of at most 64 bits is read up to a hyphen or the end. -/
theorem strtoul_digits (read : ∀ ch ∈ digits, isxdigit ch) (some_ : digits ≠ [])
    (stop : ∀ ch ∈ rest.head?, ch = 45) (short : digits.length < 16) :
    strtoul (digits ++ rest) = (Hex.number digits).toUInt64 := by
  have bound : Hex.number digits < 2 ^ 64 := by
    have below := Hex.number_lt fun ch inside => isxdigit_iff.mp (read ch inside)
    have width := Nat.pow_le_pow_right (show 0 < 16 by decide) short.le
    exact lt_of_lt_of_le below width
  have start : (digits ++ rest).dropWhile isspace = digits ++ rest ∧
      ∀ ch more, digits ++ rest = ch :: more → ch ≠ 43 ∧ ch ≠ 45 := by
    obtain ⟨first, more, rfl⟩ := List.exists_cons_of_ne_nil some_
    have facts := of_isxdigit (read first (by simp))
    refine ⟨by simp [facts.1], fun ch more same => ?_⟩
    rw [← (List.cons.inj same).1]
    exact ⟨facts.2.2.1, facts.2.2.2.1⟩
  have unsigned : strtoulDigits (digits ++ rest) = (false, digits) := by
    rw [strtoulDigits, start.1]
    split
    · rename_i same
      exact absurd rfl (start.2 _ _ same).2
    · rename_i same
      exact absurd rfl (start.2 _ _ same).1
    · rw [skipPrefix_digits read some_ stop, takeWhile_digits read stop]
  rw [strtoul, unsigned]
  simp only [Nat.not_le.mpr bound, Bool.false_eq_true, ↓reduceIte]

namespace Uuid

/-! ## The loop -/

variable {t : Bytes} {i p w : Nat}

/-- What stands at this place in the text of a uuid. -/
def Fits (t : Bytes) (j : Nat) : Prop :=
  ∃ ch, t[j]? = some ch ∧ if isHyphen j then ch = 45 else isxdigit ch = true

/-- The text begins with one. -/
def BeginsWithUuid (t : Bytes) : Prop := ∀ j < 36, Fits t j

theorem charAt_of_lt (inside : i < t.length) : charAt t i = t[i]? := by
  rw [charAt, List.getElem?_append_left inside]

theorem charAt_terminator : charAt t t.length = some 0 := by
  simp [charAt]

theorem Fits.lt (fits : Fits t i) : i < t.length := by
  obtain ⟨ch, found, -⟩ := fits
  exact (List.getElem?_eq_some_iff.mp found).1

/-- One character: it is looked at if what stands before it has not been rejected. -/
theorem check_succ (left : Nat) (inside : i ≤ t.length) :
    (Fits t i ∧ check t (left + 1) i = check t left (i + 1)) ∨
      (¬ Fits t i ∧ check t (left + 1) i = some false) := by
  rcases inside.lt_or_eq with before | rfl
  · obtain ⟨ch, found⟩ : ∃ ch, t[i]? = some ch := ⟨_, List.getElem?_eq_getElem before⟩
    have fits : Fits t i ↔ if isHyphen i then ch = 45 else isxdigit ch = true := by
      simp [Fits, found]
    rw [fits, check, charAt_of_lt before, found, Option.bind_eq_bind, Option.bind_some]
    split
    · by_cases hyphen : ch = 45
      · simp [hyphen]
      · simp [hyphen]
    · by_cases digit : isxdigit ch = true
      · simp [digit]
      · simp [digit]
  · right
    refine ⟨fun fits => absurd fits.lt (Nat.lt_irrefl _), ?_⟩
    rw [check, charAt_terminator]
    split <;> rfl

/-- The loop never gets behind the terminator, which fits at no place. -/
theorem check_spec (left : Nat) (inside : i ≤ t.length) :
    ∃ accepted, check t left i = some accepted ∧
      (accepted = true ↔ ∀ j, i ≤ j → j < i + left → Fits t j) := by
  induction left generalizing i with
  | zero => exact ⟨true, rfl, fun _ j from_ before => by omega, fun _ => rfl⟩
  | succ left ih =>
    rcases check_succ left inside with ⟨fits, goes⟩ | ⟨misfit, stops⟩
    · obtain ⟨accepted, rest, iff_⟩ := ih fits.lt
      refine ⟨accepted, goes.trans rest, iff_.trans ⟨fun all j from_ before => ?_, ?_⟩⟩
      · rcases from_.lt_or_eq with later | rfl
        · exact all j later (by omega)
        · exact fits
      · exact fun all j from_ before => all j (by omega) (by omega)
    · refine ⟨false, stops, fun impossible => (by cases impossible), fun all => ?_⟩
      exact absurd (all i (Nat.le_refl i) (by omega)) misfit

/-! ## Groups of digits -/

/-- So many characters from there on. -/
def group (t : Bytes) (p w : Nat) : Bytes := (t.drop p).take w

theorem group_add (t : Bytes) (p w v : Nat) :
    group t p (w + v) = group t p w ++ group t (p + w) v := by
  rw [group, List.take_add, List.drop_drop, group, group]

theorem group_hyphen (wellformed : BeginsWithUuid t) (small : p < 36) (hyphen : isHyphen p = true) :
    group t p 1 = [45] := by
  obtain ⟨ch, found, fits⟩ := wellformed p small
  rw [if_pos hyphen] at fits
  obtain ⟨before, rfl⟩ := List.getElem?_eq_some_iff.mp found
  rw [group, List.drop_eq_getElem_cons before, fits]
  rfl

/-- There is no hyphen from there on for so many places. -/
structure Digits (p w : Nat) : Prop where
  inside : p + w ≤ 36
  digits : ∀ k < w, isHyphen (p + k) = false

/-- And there is one behind them. -/
structure Group (p w : Nat) : Prop extends Digits p w where
  positive : 0 < w
  short : w ≤ 8
  before : p + w < 36
  hyphen : isHyphen (p + w) = true

theorem groups : Group 0 8 ∧ Group 9 4 ∧ Group 14 4 ∧ Group 19 4 := by
  refine ⟨?_, ?_, ?_, ?_⟩ <;>
    exact ⟨⟨by decide, by decide⟩, by decide, by decide, by decide, rfl⟩

theorem length_of_begins (wellformed : BeginsWithUuid t) : 36 ≤ t.length :=
  (wellformed 35 (by decide)).lt

theorem Digits.group_spec (place : Digits p w) (wellformed : BeginsWithUuid t) :
    (group t p w).length = w ∧ ∀ ch ∈ group t p w, isxdigit ch := by
  have length := length_of_begins wellformed
  have inside := place.inside
  constructor
  · rw [group, List.length_take, List.length_drop]
    omega
  · intro ch member
    obtain ⟨k, before, rfl⟩ := List.mem_iff_getElem.mp member
    rw [group, List.length_take, List.length_drop] at before
    obtain ⟨ch, found, fits⟩ := wellformed (p + k) (by omega)
    rw [place.digits k (by omega)] at fits
    have same : (group t p w)[k]? = some ch := by
      rw [group, List.getElem?_take_of_lt (by omega), List.getElem?_drop, found]
    rw [← Option.some_inj.mp ((List.getElem?_eq_getElem _).symm.trans same)] at fits
    simpa using fits

theorem Digits.number_lt (place : Digits p w) (wellformed : BeginsWithUuid t) :
    Hex.number (group t p w) < 16 ^ w := by
  obtain ⟨length, read⟩ := place.group_spec wellformed
  have below := Hex.number_lt fun ch member => isxdigit_iff.mp (read ch member)
  rwa [length] at below

/-- Written out again, they are the same but for their case. -/
theorem Digits.write_number (place : Digits p w) (wellformed : BeginsWithUuid t) :
    Hex.write w (Hex.number (group t p w)) = (group t p w).map Hex.lower := by
  obtain ⟨length, read⟩ := place.group_spec wellformed
  have again := Hex.write_number fun ch member => isxdigit_iff.mp (read ch member)
  rwa [length] at again

/-- `strtoul` stops at the hyphen behind a group. -/
theorem Group.strtoul_eq (place : Group p w) (wellformed : BeginsWithUuid t) :
    strtoul (t.drop p) = (Hex.number (group t p w)).toUInt64 := by
  obtain ⟨length, read⟩ := place.toDigits.group_spec wellformed
  have positive := place.positive
  have short := place.short
  have split : t.drop p = group t p w ++ t.drop (p + w) := by
    rw [group, ← List.drop_drop, List.take_append_drop]
  have some_ : group t p w ≠ [] := List.ne_nil_of_length_pos (by omega)
  rw [split]
  refine strtoul_digits read some_ (fun ch next => ?_) (by omega)
  obtain ⟨ch', found, fits⟩ := wellformed (p + w) place.before
  rw [if_pos place.hyphen] at fits
  rw [List.head?_drop, found] at next
  rw [← Option.some_inj.mp next, fits]

/-- A byte of the node is read from two digits. -/
theorem nodeByte_spec (wellformed : BeginsWithUuid t) (small : i < 6) :
    ∃ b, nodeByte t i = some b ∧ Hex.write 2 b.toNat = (group t (24 + 2 * i) 2).map Hex.lower := by
  have length := length_of_begins wellformed
  have place : Digits (24 + 2 * i) 2 := by
    refine ⟨by omega, fun k _ => ?_⟩
    simp only [isHyphen, Bool.or_eq_false_iff, decide_eq_false_iff_not]
    omega
  obtain ⟨-, read⟩ := place.group_spec wellformed
  have below := place.number_lt wellformed
  have again := place.write_number wellformed
  have pair : group t (24 + 2 * i) 2 = [t[24 + 2 * i], t[24 + 2 * i + 1]] := by
    rw [group, List.drop_eq_getElem_cons (by omega), List.drop_eq_getElem_cons (by omega)]
    rfl
  rw [pair] at read below again ⊢
  have text : cString [t[24 + 2 * i], t[24 + 2 * i + 1]] = [t[24 + 2 * i], t[24 + 2 * i + 1]] :=
    cString_of_nulFree fun zero => absurd rfl (of_isxdigit (read 0 zero)).2.1
  have number : strtoul ([t[24 + 2 * i], t[24 + 2 * i + 1]] ++ []) = _ :=
    strtoul_digits read (by simp) (by simp) (by simp)
  rw [List.append_nil] at number
  refine ⟨(Hex.number [t[24 + 2 * i], t[24 + 2 * i + 1]]).toUInt64.toUInt8, ?_, ?_⟩
  · rw [nodeByte, charAt_of_lt (by omega), charAt_of_lt (by omega), List.getElem?_eq_getElem,
      List.getElem?_eq_getElem, Option.bind_eq_bind, Option.bind_some, Option.bind_some,
      text, number]
    · rfl
    · omega
    · omega
  · rw [← again]
    congr 1
    simp
    omega

/-! ## Whole texts -/

/-- The 36 characters, group by group. -/
theorem take_groups (wellformed : BeginsWithUuid t) : t.take 36 =
    group t 0 8 ++ [45] ++ group t 9 4 ++ [45] ++ group t 14 4 ++ [45] ++ group t 19 4 ++ [45] ++
      (group t 24 2 ++ group t 26 2 ++ group t 28 2 ++ group t 30 2 ++ group t 32 2 ++
        group t 34 2) := by
  have whole : t.take 36 = group t 0 (8 + 1 + 4 + 1 + 4 + 1 + 4 + 1 + (2 + 2 + 2 + 2 + 2 + 2)) := rfl
  rw [whole]
  repeat rw [group_add]
  simp only [Nat.reduceAdd, group_hyphen wellformed (p := 8) (by decide) rfl,
    group_hyphen wellformed (p := 13) (by decide) rfl,
    group_hyphen wellformed (p := 18) (by decide) rfl,
    group_hyphen wellformed (p := 23) (by decide) rfl, List.append_assoc]

theorem suffix_of_le (inside : i ≤ t.length) : suffix t i = some (t.drop i) := if_pos inside

theorem masked (n : Nat) : (n &&& 0xff00) >>> 8 = n / 2 ^ 8 % 2 ^ 8 := by
  calc (n &&& 0xff00) >>> 8 = n >>> 8 &&& 255 := Nat.shiftRight_and_distrib
    _ = n / 2 ^ 8 % 2 ^ 8 := by rw [and_255, Nat.shiftRight_eq_div_pow]

/-- The two bytes of a clock sequence are the two pairs of its four digits. -/
theorem clockSeq_text {n : Nat} (bound : n < 16 ^ 4) :
    Hex.write 2 ((n.toUInt64 &&& 0xff00) >>> 8).toUInt8.toNat ++
      Hex.write 2 (n.toUInt64 &&& 0x0ff).toUInt8.toNat = Hex.write 4 n := by
  have upper : ((n.toUInt64 &&& 0xff00) >>> 8).toUInt8.toNat = n / 16 ^ 2 := by
    simp only [UInt64.toNat_toUInt8, UInt64.toNat_shiftRight, UInt64.toNat_and, UInt64.reduceToNat,
      Nat.reduceMod, masked, Nat.toUInt64, UInt64.toNat_ofNat']
    omega
  have lower : (n.toUInt64 &&& 0x0ff).toUInt8.toNat = n % 256 := by
    simp [and_255]
  rw [upper, lower, Hex.write_add 2 2]
  exact congrArg _ (Hex.write_mod 2 n)

/-- What the groups of digits make up, but for the node. -/
def read (t : Bytes) (node : Node) : Fields where
  timeLow := (Hex.number (group t 0 8)).toUInt64.toUInt32
  timeMid := (Hex.number (group t 9 4)).toUInt64.toUInt16
  timeHiAndVersion := (Hex.number (group t 14 4)).toUInt64.toUInt16
  clockSeqHiAndReserved := (((Hex.number (group t 19 4)).toUInt64 &&& 0xff00) >>> 8).toUInt8
  clockSeqLow := ((Hex.number (group t 19 4)).toUInt64 &&& 0x0ff).toUInt8
  node

/-- The node is made of the last six pairs. -/
theorem parse_read (wellformed : BeginsWithUuid t) : ∃ node, parse_ t = some (some (read t node)) ∧
    (node.toList.flatMap fun b => Hex.write 2 b.toNat) = (group t 24 2 ++ group t 26 2 ++ group t 28 2 ++
      group t 30 2 ++ group t 32 2 ++ group t 34 2).map Hex.lower := by
  have length := length_of_begins wellformed
  obtain ⟨accepted, checked, iff_⟩ := check_spec (t := t) 36 (Nat.zero_le _)
  obtain rfl : accepted = true := iff_.mpr fun j _ before => wellformed j (by omega)
  obtain ⟨b₀, read₀, text₀⟩ := nodeByte_spec wellformed (i := 0) (by decide)
  obtain ⟨b₁, read₁, text₁⟩ := nodeByte_spec wellformed (i := 1) (by decide)
  obtain ⟨b₂, read₂, text₂⟩ := nodeByte_spec wellformed (i := 2) (by decide)
  obtain ⟨b₃, read₃, text₃⟩ := nodeByte_spec wellformed (i := 3) (by decide)
  obtain ⟨b₄, read₄, text₄⟩ := nodeByte_spec wellformed (i := 4) (by decide)
  obtain ⟨b₅, read₅, text₅⟩ := nodeByte_spec wellformed (i := 5) (by decide)
  obtain ⟨low, mid, high, seq⟩ := groups
  refine ⟨#v[b₀, b₁, b₂, b₃, b₄, b₅], ?_, ?_⟩
  · rw [parse_, stringSize, checked]
    simp only [Option.bind_eq_bind, Option.bind_some, ↓reduceIte,
      suffix_of_le (Nat.zero_le t.length), suffix_of_le (show 9 ≤ t.length by omega),
      suffix_of_le (show 14 ≤ t.length by omega), suffix_of_le (show 19 ≤ t.length by omega),
      low.strtoul_eq wellformed, mid.strtoul_eq wellformed, high.strtoul_eq wellformed,
      seq.strtoul_eq wellformed, read₀, read₁, read₂, read₃, read₄, read₅]
    rfl
  · simp [List.flatMap, text₀, text₁, text₂, text₃, text₄, text₅]

/-- Each group is written again from the field that was read from it. -/
theorem unparse_read {node : Node} (wellformed : BeginsWithUuid t) : unparse_ (read t node) =
    (group t 0 8 ++ [45] ++ group t 9 4 ++ [45] ++ group t 14 4 ++ [45] ++ group t 19 4 ++ [45]).map
      Hex.lower ++ node.toList.flatMap fun b => Hex.write 2 b.toNat := by
  obtain ⟨low, mid, high, seq⟩ := groups
  have dash : [45].map Hex.lower = ascii "-" := by decide
  have timeLow : (read t node).timeLow.toNat = Hex.number (group t 0 8) := by
    have bound := low.number_lt wellformed
    simp [read]
    omega
  have timeMid : (read t node).timeMid.toNat = Hex.number (group t 9 4) := by
    have bound := mid.number_lt wellformed
    simp [read]
    omega
  have timeHigh : (read t node).timeHiAndVersion.toNat = Hex.number (group t 14 4) := by
    have bound := high.number_lt wellformed
    simp [read]
    omega
  have clockSeq : Hex.write 2 (read t node).clockSeqHiAndReserved.toNat ++
      Hex.write 2 (read t node).clockSeqLow.toNat = Hex.write 4 (Hex.number (group t 19 4)) :=
    clockSeq_text (seq.number_lt wellformed)
  rw [unparse_, timeLow, timeMid, timeHigh,
    List.append_assoc _ (Hex.write 2 (read t node).clockSeqHiAndReserved.toNat), clockSeq]
  simp only [List.map_append, dash, low.write_number wellformed,
    mid.write_number wellformed, high.write_number wellformed, seq.write_number wellformed]
  rfl

/-- What the text says is read, and written again in lower case. -/
theorem parse_wellformed (wellformed : BeginsWithUuid t) :
    ∃ u, parse_ t = some (some u) ∧ unparse_ u = (t.take 36).map Hex.lower := by
  obtain ⟨node, parsed, text⟩ := parse_read wellformed
  refine ⟨_, parsed, ?_⟩
  rw [unparse_read wellformed, text, ← List.map_append, take_groups wellformed]

/-- Any other text is rejected before anything is read from it. -/
theorem parse_misfit (misfit : ¬ BeginsWithUuid t) : parse_ t = some none := by
  obtain ⟨accepted, checked, iff_⟩ := check_spec (t := t) 36 (Nat.zero_le _)
  have rejected : accepted = false :=
    Bool.eq_false_iff.mpr fun all => misfit fun j before => iff_.mp all j (Nat.zero_le j) (by omega)
  rw [parse_, stringSize, checked, rejected]
  rfl

/-! ## Layout -/

/-- The bytes from the `i`-th on: a pair of lower-case digits each, and a hyphen
after the fourth, sixth, eighth and tenth. -/
def layoutFrom (i : Nat) : Bytes → Bytes
  | [] => []
  | b :: rest => Hex.write 2 b.toNat ++ (if i = 4 ∨ i = 6 ∨ i = 8 ∨ i = 10 then [45] else []) ++
      layoutFrom (i + 1) rest

/-- A uuid as text. -/
def layout (uu : Uuid) : Bytes := layoutFrom 1 uu.toList

theorem unpackWord_toNat (b₀ b₁ b₂ b₃ : UInt8) : (unpackWord [b₀, b₁, b₂, b₃]).toNat =
    ((b₀.toNat * 16 ^ 2 + b₁.toNat) * 16 ^ 2 + b₂.toNat) * 16 ^ 2 + b₃.toNat := by
  have bound₀ := b₀.toNat_lt
  have bound₁ := b₁.toNat_lt
  have bound₂ := b₂.toNat_lt
  have bound₃ := b₃.toNat_lt
  simp [unpackWord, Nat.shiftLeft_eq]
  omega

theorem unpackHalf_toNat (b₀ b₁ : UInt8) :
    (unpackHalf [b₀, b₁]).toNat = b₀.toNat * 16 ^ 2 + b₁.toNat := by
  have bound₀ := b₀.toNat_lt
  have bound₁ := b₁.toNat_lt
  simp [unpackHalf, Nat.shiftLeft_eq]
  omega

theorem write_byte (width n : Nat) (b : UInt8) : Hex.write (width + 2) (n * 16 ^ 2 + b.toNat) =
    Hex.write width n ++ Hex.write 2 b.toNat := Hex.write_append b.toNat_lt n

theorem write_word (b₀ b₁ b₂ b₃ : UInt8) : Hex.write 8 (unpackWord [b₀, b₁, b₂, b₃]).toNat =
    Hex.write 2 b₀.toNat ++ Hex.write 2 b₁.toNat ++ Hex.write 2 b₂.toNat ++ Hex.write 2 b₃.toNat := by
  rw [unpackWord_toNat, write_byte 6, write_byte 4, write_byte 2]

theorem write_half (b₀ b₁ : UInt8) : Hex.write 4 (unpackHalf [b₀, b₁]).toNat =
    Hex.write 2 b₀.toNat ++ Hex.write 2 b₁.toNat := by
  rw [unpackHalf_toNat, write_byte 2]

theorem unparse_eq_layout (uu : Uuid) : unparse uu = layout uu := by
  have dash : ascii "-" = [45] := by decide
  match uu with
  | ⟨⟨[b₀, b₁, b₂, b₃, b₄, b₅, b₆, b₇, b₈, b₉, b₁₀, b₁₁, b₁₂, b₁₃, b₁₄, b₁₅]⟩, _⟩ =>
    simp [unparse, unparse_, unpack, write_word, write_half, dash, layout, layoutFrom]

variable {bytes bytes' : Bytes}

theorem layoutFrom_inj (length : bytes.length = bytes'.length)
    (same : layoutFrom i bytes = layoutFrom i bytes') : bytes = bytes' := by
  induction bytes generalizing bytes' i with
  | nil => exact (List.eq_nil_of_length_eq_zero length.symm).symm
  | cons b bytes ih =>
    obtain ⟨b', bytes', rfl⟩ := List.exists_cons_of_length_eq_add_one length.symm
    rw [layoutFrom, layoutFrom] at same
    obtain ⟨front, rest⟩ := List.append_inj same (by simp)
    have pair := List.append_inj_left' front rfl
    have bound : b.toNat < 16 ^ 2 := b.toNat_lt
    have byte : b.toNat = b'.toNat := by
      rw [← Hex.number_write bound, pair, Hex.number_write b'.toNat_lt]
    rw [UInt8.toNat_inj.mp byte, ih (by simpa using length) rest]

theorem mem_layoutFrom {ch : UInt8} (inside : ch ∈ layoutFrom i bytes) :
    ch = 45 ∨ ∃ m < 16, ch = Hex.digit m := by
  induction bytes generalizing i with
  | nil => cases inside
  | cons b bytes ih =>
    rw [layoutFrom, List.append_assoc, List.mem_append, List.mem_append] at inside
    rcases inside with pair | hyphen | rest
    · exact .inr (Hex.digit_of_mem_write pair)
    · left
      split at hyphen
      · exact List.mem_singleton.mp hyphen
      · cases hyphen
    · exact ih rest

theorem isxdigit_digit {m : Nat} (small : m < 16) : isxdigit (Hex.digit m) = true := by
  rw [isxdigit_iff, Hex.value_digit small]
  rfl

/-- A uuid's text is in lower case and a C string, and of the form that is accepted. -/
theorem layout_lower (uu : Uuid) : (layout uu).map Hex.lower = layout uu := by
  refine (List.map_congr_left fun ch inside => ?_).trans (List.map_id _)
  rcases mem_layoutFrom inside with rfl | ⟨m, small, rfl⟩
  · rfl
  · exact Hex.lower_digit small

theorem layout_nulFree (uu : Uuid) : 0 ∉ layout uu := by
  intro inside
  rcases mem_layoutFrom inside with zero | ⟨m, small, zero⟩
  · cases zero
  · exact absurd zero.symm (of_isxdigit (isxdigit_digit small)).2.1

theorem layout_begins (uu : Uuid) : (layout uu).length = 36 ∧ BeginsWithUuid (layout uu) := by
  have digit (n : Nat) : isxdigit (Hex.digit (n % 16)) = true :=
    isxdigit_digit (Nat.mod_lt n (by decide))
  match uu with
  | ⟨⟨[b₀, b₁, b₂, b₃, b₄, b₅, b₆, b₇, b₈, b₉, b₁₀, b₁₁, b₁₂, b₁₃, b₁₄, b₁₅]⟩, _⟩ =>
    refine ⟨rfl, fun j small => ?_⟩
    interval_cases j <;> exact ⟨_, rfl, by first | rfl | exact digit _⟩

theorem layout_inj {uu uu' : Uuid} (same : layout uu = layout uu') : uu = uu' :=
  Vector.toList_inj.mp (layoutFrom_inj (by simp) same)

/-! ## Both directions -/

theorem parse_begins (wellformed : BeginsWithUuid t) (out : Uuid) :
    ∃ uu, parse t out = some (0, uu) ∧ unparse uu = (t.take 36).map Hex.lower := by
  obtain ⟨u, parsed, text⟩ := parse_wellformed wellformed
  refine ⟨pack u, ?_, ?_⟩
  · rw [parse, parsed]
    rfl
  · rw [unparse, unpack_pack, text]

theorem parse_rejects (misfit : ¬ BeginsWithUuid t) (out : Uuid) : parse t out = some (-1, out) := by
  rw [parse, parse_misfit misfit]
  rfl

theorem begins_of_parse {out uu : Uuid} (accepted : parse t out = some (0, uu)) :
    BeginsWithUuid t := by
  by_contra misfit
  rw [parse_rejects misfit] at accepted
  cases accepted

theorem parse_layout (uu out : Uuid) : parse (layout uu) out = some (0, uu) := by
  obtain ⟨length, wellformed⟩ := layout_begins uu
  obtain ⟨uu', parsed, text⟩ := parse_begins wellformed out
  have whole : (layout uu).take 36 = layout uu := List.take_of_length_le length.le
  rw [whole, layout_lower, unparse_eq_layout] at text
  rw [parsed, layout_inj text]

/-- `uuid_unparse` writes the 16 bytes in order and its terminator into a buffer of 37,
`uuid_parse` reads them back, and of any text that it accepts the first 36
characters are what `uuid_unparse` writes for the result, but for their case. -/
theorem uuid_text :
    (∀ uu : Uuid, unparse uu = layout uu ∧ (layout uu).length = 36 ∧
      unparseBuffer uu = layout uu ++ [0] ∧ (unparseBuffer uu).length = stringSize ∧
      cString (unparseBuffer uu) = layout uu ∧
      ∀ out, parse (cString (unparseBuffer uu)) out = some (0, uu)) ∧
    ∀ t out uu, parse t out = some (0, uu) → unparse uu = (t.take 36).map Hex.lower := by
  constructor
  · intro uu
    obtain ⟨length, -⟩ := layout_begins uu
    have whole : (layout uu).take 36 = layout uu := List.take_of_length_le length.le
    have buffer : unparseBuffer uu = layout uu ++ [0] := by
      rw [unparseBuffer, snprintf, stringSize, unparse_eq_layout, whole]
    have text : cString (unparseBuffer uu) = layout uu := by
      rw [buffer, cString_terminated, cString_of_nulFree (layout_nulFree uu)]
    refine ⟨unparse_eq_layout uu, length, buffer, ?_, text, fun out => ?_⟩
    · rw [buffer, List.length_append, length]
      rfl
    · rw [text, parse_layout]
  · intro t out uu accepted
    obtain ⟨uu', parsed, text⟩ := parse_begins (begins_of_parse accepted) out
    rw [accepted] at parsed
    cases parsed
    exact text

/-- Letters of either case are read. -/
theorem uuid_text_upper : unparse #v[0x01, 0x23, 0x45, 0x67, 0x89, 0xab, 0xcd, 0xef, 0x01, 0x23,
    0x12, 0x34, 0x12, 0x34, 0x12, 0x34] = ascii "01234567-89ab-cdef-0123-123412341234" :=
  uuid_text.2 (ascii "01234567-89AB-cdEF-0123-123412341234") null _ rfl

/-- The whole text is that of a uuid. -/
def IsUuidText (t : Bytes) : Prop := t.length = 36 ∧ BeginsWithUuid t

/-- `uuid_parse` stays within the string, accepts it exactly if its first 36 characters
are the text of a uuid, whatever follows, and leaves `out` alone if it does not. -/
theorem uuid_parse_accepts (t : Bytes) (out : Uuid) :
    ∃ r out', parse t out = some (r, out') ∧ (r = 0 ∨ r = -1) ∧ (r = 0 ↔ BeginsWithUuid t) ∧
      (t.length < stringSize → (r = 0 ↔ IsUuidText t)) ∧ (r = -1 → out' = out) := by
  by_cases wellformed : BeginsWithUuid t
  · obtain ⟨uu, parsed, -⟩ := parse_begins wellformed out
    refine ⟨0, uu, parsed, .inl rfl, iff_of_true rfl wellformed, fun short => ?_, nofun⟩
    have length := length_of_begins wellformed
    exact iff_of_true rfl ⟨Nat.le_antisymm (Nat.le_of_lt_succ short) length, wellformed⟩
  · refine ⟨-1, out, parse_rejects wellformed out, .inr rfl, iff_of_false (by decide) wellformed,
      fun _ => iff_of_false (by decide) fun whole => wellformed whole.2, fun _ => rfl⟩

/-- So a longer string is accepted, too. -/
theorem uuid_parse_longer : ∃ t, 0 ∉ t ∧ ¬ IsUuidText t ∧
    parse t null = some (0, #v[0x01, 0x23, 0x45, 0x67, 0x89, 0xab, 0xcd, 0xef, 0x01, 0x23, 0x12, 0x34,
      0x12, 0x34, 0x12, 0x34]) :=
  ⟨ascii "01234567-89ab-CDEF-0123-1234123412345", by decide, fun whole => absurd whole.1 (by decide),
    rfl⟩

end Uuid
end LinearFcgi
