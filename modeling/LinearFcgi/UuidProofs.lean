import LinearFcgi.System
import LinearFcgi.Uuid
import Mathlib.Data.List.Induction

/-! When two uuids of one process are equal. A uuid tells the time it was made
at and its number modulo 2¹⁴, so it can come again only with the same reading of
the clock, and then only after 2¹⁴ others. -/
namespace LinearFcgi

/-- The time in units of 100 ns since 1582. -/
def Timeval.count (tv : Timeval) : Int :=
  0x01b21dd213814000 + tv.usec.toInt * 10 + tv.sec.toInt * 10000000

/-- A reading the timestamp has room for. -/
structure Timeval.Valid (tv : Timeval) : Prop where
  sec_nonneg : 0 ≤ tv.sec.toInt
  usec_nonneg : 0 ≤ tv.usec.toInt
  usec_lt : tv.usec.toInt < 1000000
  count_lt : tv.count < 2 ^ 60

/-- Valid readings with the same count are the same. -/
theorem Timeval.Valid.eq_iff {tv tv' : Timeval} (valid : tv.Valid) (valid' : tv'.Valid) :
    tv = tv' ↔ tv.count = tv'.count := by
  constructor
  · rintro rfl
    rfl
  · intro same
    obtain ⟨-, nonneg, below, -⟩ := valid
    obtain ⟨-, nonneg', below', -⟩ := valid'
    simp only [Timeval.count] at same
    have sec : tv.sec = tv'.sec := Int64.toInt_inj.mp (by omega)
    have usec : tv.usec = tv'.usec := Int64.toInt_inj.mp (by omega)
    cases tv
    cases tv'
    exact congr (congrArg Timeval.mk sec) usec

namespace Uuid

/-! ## One uuid -/

/-- The sum in `_uuid_get_time` does not overflow. -/
theorem uutime_toNat {tv : Timeval} (valid : tv.Valid) :
    ((timeOffset + (tv.usec.toUInt64 * 10 + tv.sec.toUInt64 * 10000000)).toNat : Int) =
      tv.count := by
  obtain ⟨secNonneg, usecNonneg, usecBelow, below⟩ := valid
  have sec : tv.sec.toUInt64.toNat = tv.sec.toInt.toNat :=
    Int64.toNat_toUInt64_of_le (Int64.le_iff_toInt_le.mpr secNonneg)
  have usec : tv.usec.toUInt64.toNat = tv.usec.toInt.toNat :=
    Int64.toNat_toUInt64_of_le (Int64.le_iff_toInt_le.mpr usecNonneg)
  have offset : timeOffset.toNat = 0x01b21dd213814000 := rfl
  simp only [Timeval.count] at below ⊢
  rw [UInt64.toNat_add, UInt64.toNat_add, UInt64.toNat_mul, UInt64.toNat_mul, sec, usec, offset]
  simp only [UInt64.toNat_ofNat]
  omega

/-- `_uuid_get_time` cuts the count into three. -/
theorem getTime_toNat {tv : Timeval} {count : Nat} (counted : tv.count = count)
    (valid : tv.Valid) : (getTime tv).1.toNat = count % 2 ^ 32 ∧
      (getTime tv).2.1.toNat = count / 2 ^ 32 % 2 ^ 16 ∧
      (getTime tv).2.2.toNat = count / 2 ^ 48 := by
  have below := valid.count_lt
  have time := uutime_toNat valid
  rw [counted, Int.natCast_inj] at time
  have low (n : Nat) : n &&& 0xffffffff = n % 2 ^ 32 := Nat.and_two_pow_sub_one_eq_mod n 32
  have mid (n : Nat) : n &&& 0xffff = n % 2 ^ 16 := Nat.and_two_pow_sub_one_eq_mod n 16
  have high (n : Nat) : n &&& 0x0fff = n % 2 ^ 12 := Nat.and_two_pow_sub_one_eq_mod n 12
  simp only [getTime, UInt64.toNat_toUInt32, UInt64.toNat_toUInt16, UInt64.toNat_and,
    UInt64.toNat_shiftRight, UInt64.toNat_ofNat, time, Nat.shiftRight_eq_div_pow, Nat.reduceMod,
    Nat.reducePow]
  refine ⟨?_, ?_, ?_⟩
  · rw [low]
    omega
  · rw [mid]
    omega
  · rw [high]
    omega

theorem getClock_low (clock : Clock) (entropy : Entropy) : (getClock clock entropy).1.1.toNat =
    (clock.next entropy).toUInt64.toNat % 2 ^ 8 := by
  have mask : (0xff : Int64).toUInt64.toNat = 255 := rfl
  simp only [getClock]
  rw [UInt64.toNat_toUInt8, Int64.toUInt64_and, UInt64.toNat_and, mask, and_255, Nat.mod_mod]

/-- The shift keeps the sign, but the mask takes it away again. -/
theorem getClock_high (clock : Clock) (entropy : Entropy) : (getClock clock entropy).1.2.toNat =
    (clock.next entropy).toUInt64.toNat / 2 ^ 8 % 2 ^ 6 := by
  generalize drawn : clock.next entropy = seq
  have mask : (0x3f : Int64).toUInt64.toNat = 63 := rfl
  have bits (n : Nat) : n &&& 63 = n % 2 ^ 6 := Nat.and_two_pow_sub_one_eq_mod n 6
  have bound := seq.toBitVec.isLt
  have shifted : (seq >>> 8).toUInt64.toNat = (seq.toBitVec.sshiftRight 8).toNat := rfl
  have same : seq.toUInt64.toNat = seq.toBitVec.toNat := rfl
  simp only [getClock, drawn]
  rw [UInt64.toNat_toUInt8, Int64.toUInt64_and, UInt64.toNat_and, mask, bits, shifted, same,
    BitVec.toNat_sshiftRight, Nat.shiftRight_eq_div_pow, Nat.shiftRight_eq_div_pow]
  split <;> omega

/-- A bit above all the others is added by setting it. -/
theorem or_two_pow {n i : Nat} (below : n < 2 ^ i) : n ||| 2 ^ i = 2 ^ i + n := by
  have split := Nat.two_pow_add_eq_or_of_lt below 1
  rw [Nat.mul_one] at split
  rw [split, Nat.or_comm]

/-- What `_uuid_generate` puts in a uuid. -/
theorem generate_spec {call : Call} {node : Node} (clock : Clock) (found : call.node = some node)
    (valid : call.tv.Valid) : ∃ u, generate_ call clock = (some u, ⟨true, clock.next call.entropy⟩) ∧
      u.version = 1 ∧ u.variant = 2 ∧ (u.timestamp : Int) = call.tv.count ∧
      u.sequence = (clock.next call.entropy).toUInt64.toNat % 2 ^ 14 ∧ u.node = node := by
  obtain ⟨count, counted⟩ : ∃ count : Nat, call.tv.count = count :=
    ⟨_, (uutime_toNat valid).symm⟩
  have below := valid.count_lt
  obtain ⟨low, mid, high⟩ := getTime_toNat counted valid
  have seqLow := getClock_low clock call.entropy
  have seqHigh := getClock_high clock call.entropy
  have highBelow : (getTime call.tv).2.2.toNat < 2 ^ 12 := by omega
  have seqBelow : (getClock clock call.entropy).1.2.toNat < 2 ^ 7 := by omega
  have versioned : ((getTime call.tv).2.2 ||| 0x1000).toNat = 2 ^ 12 + count / 2 ^ 48 := by
    rw [UInt16.toNat_or, ← high]
    exact or_two_pow highBelow
  have reserved : ((getClock clock call.entropy).1.2 ||| 0x80).toNat =
      2 ^ 7 + (clock.next call.entropy).toUInt64.toNat / 2 ^ 8 % 2 ^ 6 := by
    rw [UInt8.toNat_or, ← seqHigh]
    exact or_two_pow seqBelow
  refine ⟨⟨(getTime call.tv).1, (getTime call.tv).2.1, (getTime call.tv).2.2 ||| 0x1000,
    (getClock clock call.entropy).1.2 ||| 0x80, (getClock clock call.entropy).1.1, node⟩,
    by rw [generate_, found]; rfl, ?_, ?_, ?_, ?_, rfl⟩
  · simp only [Fields.version, versioned]
    omega
  · simp only [Fields.variant, reserved]
    omega
  · simp only [Fields.timestamp, versioned, low, mid, counted]
    omega
  · simp only [Fields.sequence, reserved, seqLow]
    omega

/-! ## A run of calls -/

/-- The call gets as far as making a uuid. -/
def Call.succeeds (call : Call) : Bool := call.locks && call.node.isSome

/-- The static variables after these calls. -/
def Clock.after (calls : List Call) : Clock :=
  calls.foldl (fun clock call => (generate call clock).2) .start

/-- What the `i`-th call of the process leaves in its argument. -/
def result (calls : List Call) (i : Fin calls.length) : Uuid :=
  (generate calls[i] (Clock.after (calls.take i))).1

/-- How many of the calls before the `i`-th have succeeded. -/
def served (calls : List Call) (i : Nat) : Nat := (calls.take i).countP Call.succeeds

/-- The number of the first uuid. -/
def initialSeq (calls : List Call) : Int64 :=
  match calls.find? Call.succeeds with
  | some call => call.entropy.seq
  | none => 0

section

variable {calls : List Call} {call : Call}

theorem generate_failed (failed : call.succeeds = false) (clock : Clock) :
    generate call clock = (null, clock) := by
  unfold generate
  split
  · rfl
  · rename_i locks
    have unfound : call.node = none := by simpa [Call.succeeds, not_not.mp locks] using failed
    rw [generate_, unfound]

theorem generate_succeeded {node : Node} {clock : Clock} (locks : call.locks = true)
    (found : call.node = some node) (valid : call.tv.Valid) :
    ∃ u, generate call clock = (pack u, ⟨true, clock.next call.entropy⟩) ∧
      u.version = 1 ∧ u.variant = 2 ∧ (u.timestamp : Int) = call.tv.count ∧
      u.sequence = (clock.next call.entropy).toUInt64.toNat % 2 ^ 14 ∧ u.node = node := by
  obtain ⟨u, made, facts⟩ := generate_spec clock found valid
  refine ⟨u, ?_, facts⟩
  simp [generate, locks, made]

theorem clock_after (call : Call) (clock : Clock) : (generate call clock).2 =
    if call.succeeds then ⟨true, clock.next call.entropy⟩ else clock := by
  cases succeeds : call.succeeds with
  | false => rw [generate_failed succeeds]; rfl
  | true =>
    obtain ⟨locks, some_⟩ : call.locks = true ∧ call.node.isSome = true := by
      simpa [Call.succeeds] using succeeds
    obtain ⟨node, found⟩ := Option.isSome_iff_exists.mp some_
    simp only [generate, locks, generate_, found, not_true_eq_false, ↓reduceIte]
    rfl

/-- The static variables are as if only the successful calls had been made. -/
structure Clock.Counts (clock : Clock) (first : Int64) (n : Nat) : Prop where
  fresh : clock.isInitialized = true ↔ 0 < n
  counted : 0 < n → (clock.seq + 1).toUInt64.toNat = (first.toUInt64.toNat + n) % 2 ^ 64

theorem Clock.Counts.next {clock : Clock} {first : Int64} {n : Nat} (counts : clock.Counts first n)
    {entropy : Entropy} (drawn : n = 0 → entropy.seq = first) :
    (clock.next entropy).toUInt64.toNat = (first.toUInt64.toNat + n) % 2 ^ 64 := by
  unfold Clock.next
  by_cases some_ : 0 < n
  · rw [if_pos (counts.fresh.mpr some_)]
    exact counts.counted some_
  · have zero : n = 0 := by omega
    have bound := first.toUInt64.toNat_lt
    rw [if_neg fun set => some_ (counts.fresh.mp set), drawn zero, zero]
    omega

/-- The first call that succeeds gives the first number. -/
theorem initialSeq_eq {before rest : List Call} (first : before.countP Call.succeeds = 0)
    (succeeds : call.succeeds = true) : initialSeq (before ++ call :: rest) = call.entropy.seq := by
  have missing : before.find? Call.succeeds = none := by
    rw [List.find?_eq_none]
    exact List.countP_eq_zero.mp first
  simp [initialSeq, List.find?_append, missing, succeeds]

theorem counts_after (before rest : List Call) :
    (Clock.after before).Counts (initialSeq (before ++ rest)) (before.countP Call.succeeds) := by
  induction before using List.reverseRecOn generalizing rest with
  | nil => exact ⟨by simp [Clock.after, Clock.start], by simp⟩
  | append_singleton before call ih =>
    have after : Clock.after (before ++ [call]) = (generate call (Clock.after before)).2 := by
      simp [Clock.after]
    have counts := ih (call :: rest)
    rw [after, clock_after, List.append_assoc, List.singleton_append, List.countP_append,
      List.countP_singleton]
    cases succeeds : call.succeeds with
    | false => exact counts
    | true =>
      have number := counts.next fun first => (initialSeq_eq first succeeds).symm
      refine ⟨by simp, fun _ => ?_⟩
      simp only [↓reduceIte, Int64.toUInt64_add, UInt64.toNat_add, number]
      rw [show (1 : Int64).toUInt64.toNat = 1 from rfl]
      omega

/-- Modulo 2¹⁴ it does not matter whether a number is taken for signed. -/
theorem toInt_emod (x : Int64) (n : Nat) :
    (x.toInt + n) % 2 ^ 14 = ((x.toUInt64.toNat + n) % 2 ^ 14 : Nat) := by
  have signed : x.toInt = x.toBitVec.toInt := rfl
  have unsigned : x.toUInt64.toNat = x.toBitVec.toNat := rfl
  have bound := x.toBitVec.isLt
  rw [signed, unsigned, BitVec.toInt_eq_toNat_cond]
  split <;> omega

/-- Each successful call uses the next number. -/
theorem result_spec {node : Node} (fixed : ∀ call ∈ calls, ∀ n, call.node = some n → n = node)
    (readings : ∀ call ∈ calls, call.tv.Valid) (i : Fin calls.length)
    (succeeds : calls[i].succeeds = true) : ∃ u, result calls i = pack u ∧
      u.version = 1 ∧ u.variant = 2 ∧ (u.timestamp : Int) = calls[i].tv.count ∧
      (u.sequence : Int) = ((initialSeq calls).toInt + served calls i) % 2 ^ 14 ∧
      u.node = node := by
  have member : calls[i] ∈ calls := List.getElem_mem i.isLt
  have split : calls.take i ++ calls[i] :: calls.drop (i + 1) = calls := by
    have rest : calls.drop i = calls[i] :: calls.drop (i + 1) := List.drop_eq_getElem_cons i.isLt
    rw [← rest, List.take_append_drop]
  obtain ⟨locks, some_⟩ : calls[i].locks = true ∧ calls[i].node.isSome = true := by
    simpa [Call.succeeds] using succeeds
  obtain ⟨n, found⟩ := Option.isSome_iff_exists.mp some_
  obtain ⟨u, made, version, variant, timestamp, sequence, same⟩ :=
    @generate_succeeded calls[i] n (Clock.after (calls.take i)) locks found (readings _ member)
  have counts := counts_after (calls.take i) (calls[i] :: calls.drop (i + 1))
  have number := counts.next fun first => (initialSeq_eq first succeeds).symm
  rw [split] at number
  refine ⟨u, by rw [result, made], version, variant, timestamp, ?_, same.trans (fixed _ member n found)⟩
  rw [toInt_emod, sequence, number, served]
  omega

/-- In every process whose network interface stays the same, and whatever the
first number is: a uuid gives back the time it was made at, its number modulo
2¹⁴ and the node; a call that fails leaves the null uuid; and two calls make the
same uuid exactly if their clock readings are equal and their numbers agree
modulo 2¹⁴. The numbers count the calls, if none fails. -/
theorem uuid_unique {node : Node} (fixed : ∀ call ∈ calls, ∀ n, call.node = some n → n = node)
    (readings : ∀ call ∈ calls, call.tv.Valid) :
    (∀ i : Fin calls.length, calls[i].succeeds = true →
      (unpack (result calls i)).version = 1 ∧ (unpack (result calls i)).variant = 2 ∧
      isNull (result calls i) = false ∧
      ((unpack (result calls i)).timestamp : Int) = calls[i].tv.count ∧
      ((unpack (result calls i)).sequence : Int) =
        ((initialSeq calls).toInt + served calls i) % 2 ^ 14 ∧
      (unpack (result calls i)).node = node) ∧
    (∀ i : Fin calls.length, calls[i].succeeds = false →
      result calls i = null ∧ isNull (result calls i) = true) ∧
    (∀ i j : Fin calls.length, calls[i].succeeds = true → calls[j].succeeds = true →
      (result calls i = result calls j ↔ calls[i].tv = calls[j].tv ∧
        served calls i % 2 ^ 14 = served calls j % 2 ^ 14)) ∧
    ((∀ call ∈ calls, call.succeeds = true) → ∀ i : Fin calls.length, served calls i = i) := by
  refine ⟨?_, ?_, ?_, ?_⟩
  · intro i succeeds
    obtain ⟨u, made, version, variant, timestamp, sequence, same⟩ :=
      result_spec fixed readings i succeeds
    rw [made, unpack_pack]
    refine ⟨version, variant, Bool.eq_false_iff.mpr fun nothing => ?_, timestamp, sequence, same⟩
    have blank : u = unpack null := by rw [← isNull_iff.mp nothing, unpack_pack]
    rw [blank] at version
    exact absurd version (by decide)
  · intro i fails
    have nothing : result calls i = null := by rw [result, generate_failed fails]
    exact ⟨nothing, isNull_iff.mpr nothing⟩
  · intro i j succeeds succeeds'
    obtain ⟨u, made, version, variant, timestamp, sequence, same⟩ :=
      result_spec fixed readings i succeeds
    obtain ⟨u', made', version', variant', timestamp', sequence', same'⟩ :=
      result_spec fixed readings j succeeds'
    have valid : calls[i].tv.Valid := readings _ (List.getElem_mem i.isLt)
    have valid' : calls[j].tv.Valid := readings _ (List.getElem_mem j.isLt)
    rw [made, made', pack_inj, Fields.eq_iff, version, version', variant, variant', same, same',
      valid.eq_iff valid']
    constructor
    · rintro ⟨-, -, time, number, -⟩
      exact ⟨by omega, by omega⟩
    · rintro ⟨time, number⟩
      exact ⟨rfl, rfl, by omega, by omega, rfl⟩
  · intro all i
    have every : ∀ call ∈ calls.take i, call.succeeds = true := fun call inside =>
      all call (List.mem_of_mem_take inside)
    rw [served, List.countP_eq_length.mpr every, List.length_take, Nat.min_eq_left i.isLt.le]

end

/-- The process accepts a request with whatever `uuid_generate` leaves. -/
theorem accepts_sessionId (h : Host) {s : Sys} (alive : s.fault = false) (idle : s.server = .accept)
    (req : Request) (uu : Uuid) : (step h s (.accept req (sessionId uu))).isSome := by
  have written : ¬ (sessionId uu).any (·.length ≠ 36) = true := by
    cases made : sessionId uu with
    | none => simp
    | some id => simp [length_sessionId uu id made]
  simp only [step, alive, Bool.false_eq_true, ↓reduceIte, written, idle]
  split <;> rfl

/-- Three calls within the same microsecond, the second of which fails. The
first number is negative. -/
def Sample.calls : List Call :=
  let call : Call := ⟨true, some #v[2, 66, 172, 17, 0, 2], ⟨1700000000, 999999⟩, .urandom (-1) (-2)⟩
  [call, { call with node := none }, call]

/-- Still they make different uuids. -/
theorem uuid_unique_sample :
    result Sample.calls ⟨0, by decide⟩ ≠ result Sample.calls ⟨2, by decide⟩ ∧
    result Sample.calls ⟨1, by decide⟩ = null := by
  have valid : (⟨1700000000, 999999⟩ : Timeval).Valid := by
    constructor <;> decide
  have fixed : ∀ call ∈ Sample.calls, ∀ n, call.node = some n → n = #v[2, 66, 172, 17, 0, 2] := by
    intro call member n found
    simp only [Sample.calls, List.mem_cons, List.not_mem_nil, or_false] at member
    rcases member with rfl | rfl | rfl <;> cases found <;> rfl
  have readings : ∀ call ∈ Sample.calls, call.tv.Valid := by simp [Sample.calls, valid]
  obtain ⟨-, fails, same, -⟩ := uuid_unique fixed readings
  refine ⟨fun again => ?_, (fails ⟨1, by decide⟩ rfl).1⟩
  exact absurd ((same ⟨0, by decide⟩ ⟨2, by decide⟩ rfl rfl).mp again).2 (by decide)

end Uuid

end LinearFcgi
