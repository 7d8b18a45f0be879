import LinearFcgi.Library.Hex
import LinearFcgi.Bytes

/-! `uuid`: time-based session ids. A uuid is made of the clock's reading in
units of 100 ns since 1582, a sequence number that is counted up with every uuid
of the process, and the address of a network interface. -/
namespace LinearFcgi

/-- `uuid_node_t`. -/
abbrev Node := Vector UInt8 6

/-- `uuid_t`. -/
abbrev Uuid := Vector UInt8 16

/-- `struct timeval`. -/
structure Timeval where
  sec : Int64
  usec : Int64
  deriving DecidableEq

namespace Uuid

/-- `_uuid_t`. -/
@[ext] structure Fields where
  timeLow : UInt32
  timeMid : UInt16
  timeHiAndVersion : UInt16
  clockSeqHiAndReserved : UInt8
  clockSeqLow : UInt8
  node : Node

/-- The static variables of `_uuid_get_clock`. -/
structure Clock where
  isInitialized : Bool
  seq : Int64

def Clock.start : Clock := ⟨false, 0⟩

/-- Where `_uuid_get_clock` gets its first number from. -/
inductive Entropy where
  /-- two bytes of `/dev/urandom`, which a `char` takes for signed -/
  | urandom (buf₀ buf₁ : Int8)
  /-- `random()`, when they cannot be read -/
  | random (n : Int64)

def Entropy.seq : Entropy → Int64
  | .urandom buf₀ buf₁ => (buf₀.toInt64 <<< 8) + buf₁.toInt64
  | .random n => n

/-- `__TIME_OFFSET`: the beginning of 1970. -/
def timeOffset : UInt64 := 0x01b21dd213814000

/-- `_uuid_get_time`, for what `gettimeofday` gives. -/
def getTime (tv : Timeval) : UInt32 × UInt16 × UInt16 :=
  let uutime := timeOffset + (tv.usec.toUInt64 * 10 + tv.sec.toUInt64 * 10000000)
  ((uutime &&& 0xffffffff).toUInt32, ((uutime >>> 32) &&& 0xffff).toUInt16,
    ((uutime >>> 32 >>> 16) &&& 0x0fff).toUInt16)

/-- The number `_uuid_get_clock` uses. -/
def Clock.next (clock : Clock) (entropy : Entropy) : Int64 :=
  if clock.isInitialized then clock.seq + 1 else entropy.seq

/-- `_uuid_get_clock`, with its lower part first. -/
def getClock (clock : Clock) (entropy : Entropy) : (UInt8 × UInt8) × Clock :=
  let seq := clock.next entropy
  (((seq &&& 0xff).toUInt64.toUInt8, ((seq >>> 8) &&& 0x3f).toUInt64.toUInt8), ⟨true, seq⟩)

/-- One call of `uuid_generate`, and what it finds. -/
structure Call where
  /-- `pthread_mutex_lock` succeeds -/
  locks : Bool
  /-- what `_uuid_get_node` gives, unless it fails -/
  node : Option Node
  tv : Timeval
  entropy : Entropy

/-- `_uuid_generate`. -/
def generate_ (call : Call) (clock : Clock) : Option Fields × Clock :=
  match call.node with
  | none => (none, clock)
  | some node =>
    let (timeLow, timeMid, timeHi) := getTime call.tv
    let ((seqLow, seqHi), clock) := getClock clock call.entropy
    (some ⟨timeLow, timeMid, timeHi ||| 0x1000, seqHi ||| 0x80, seqLow, node⟩, clock)

/-- `_uuid_pack`. -/
def pack (src : Fields) : Uuid :=
  #v[((src.timeLow >>> 24) &&& 0xff).toUInt8, ((src.timeLow >>> 16) &&& 0xff).toUInt8,
    ((src.timeLow >>> 8) &&& 0xff).toUInt8, (src.timeLow &&& 0xff).toUInt8,
    ((src.timeMid >>> 8) &&& 0xff).toUInt8, (src.timeMid &&& 0xff).toUInt8,
    ((src.timeHiAndVersion >>> 8) &&& 0xff).toUInt8, (src.timeHiAndVersion &&& 0xff).toUInt8,
    src.clockSeqHiAndReserved, src.clockSeqLow,
    src.node[0], src.node[1], src.node[2], src.node[3], src.node[4], src.node[5]]

/-- The loop of `_uuid_unpack` over the bytes of `time_low`. -/
def unpackWord (src : List UInt8) : UInt32 := src.foldl (fun n b => (n <<< 8) + b.toUInt32) 0

/-- Its loops over those of `time_mid` and of `time_hi_and_version`. -/
def unpackHalf (src : List UInt8) : UInt16 := src.foldl (fun n b => (n <<< 8) + b.toUInt16) 0

/-- `_uuid_unpack`. -/
def unpack (src : Uuid) : Fields where
  timeLow := unpackWord [src[0], src[1], src[2], src[3]]
  timeMid := unpackHalf [src[4], src[5]]
  timeHiAndVersion := unpackHalf [src[6], src[7]]
  clockSeqHiAndReserved := src[8]
  clockSeqLow := src[9]
  node := #v[src[10], src[11], src[12], src[13], src[14], src[15]]

/-- What `uuid_clear` makes of a uuid. -/
def null : Uuid := Vector.replicate 16 0

/-- `uuid_is_null`. -/
def isNull (uu : Uuid) : Bool := uu.all (· = 0)

/-- `uuid_generate`. -/
def generate (call : Call) (clock : Clock) : Uuid × Clock :=
  if ¬ call.locks then (null, clock)
  else match generate_ call clock with
    | (none, clock) => (null, clock)
    | (some u, clock) => (pack u, clock)

/-- `_uuid_unparse`; `%08x` and the like are `Hex.write`. -/
def unparse_ (uu : Fields) : Bytes :=
  Hex.write 8 uu.timeLow.toNat ++ ascii "-" ++ Hex.write 4 uu.timeMid.toNat ++ ascii "-" ++
    Hex.write 4 uu.timeHiAndVersion.toNat ++ ascii "-" ++
    Hex.write 2 uu.clockSeqHiAndReserved.toNat ++ Hex.write 2 uu.clockSeqLow.toNat ++
    ascii "-" ++ uu.node.toList.flatMap fun b => Hex.write 2 b.toNat

/-- `uuid_unparse`. -/
def unparse (uu : Uuid) : Bytes := unparse_ (unpack uu)

/-- The session id `onConnect` makes of what `uuid_generate` leaves. -/
def sessionId (uu : Uuid) : Option Bytes := if isNull uu then none else some (unparse uu)

/-! ## What a uuid says -/

namespace Fields

def version (u : Fields) : Nat := u.timeHiAndVersion.toNat / 2 ^ 12

/-- The two upper bits. -/
def variant (u : Fields) : Nat := u.clockSeqHiAndReserved.toNat / 2 ^ 6

def timestamp (u : Fields) : Nat :=
  u.timeLow.toNat + u.timeMid.toNat * 2 ^ 32 + u.timeHiAndVersion.toNat % 2 ^ 12 * 2 ^ 48

def sequence (u : Fields) : Nat :=
  u.clockSeqHiAndReserved.toNat % 2 ^ 6 * 2 ^ 8 + u.clockSeqLow.toNat

/-- Their values and the node make up a uuid. -/
theorem eq_iff {u v : Fields} : u = v ↔ u.version = v.version ∧ u.variant = v.variant ∧
    u.timestamp = v.timestamp ∧ u.sequence = v.sequence ∧ u.node = v.node := by
  constructor
  · rintro rfl
    exact ⟨rfl, rfl, rfl, rfl, rfl⟩
  · rintro ⟨version, variant, timestamp, sequence, node⟩
    have lows := u.timeLow.toNat_lt
    have mids := u.timeMid.toNat_lt
    have seqs := u.clockSeqLow.toNat_lt
    have lows' := v.timeLow.toNat_lt
    have mids' := v.timeMid.toNat_lt
    have seqs' := v.clockSeqLow.toNat_lt
    simp only [Fields.version, Fields.variant, Fields.timestamp, Fields.sequence] at *
    have timeLow : u.timeLow = v.timeLow := UInt32.toNat_inj.mp (by omega)
    have timeMid : u.timeMid = v.timeMid := UInt16.toNat_inj.mp (by omega)
    have timeHi : u.timeHiAndVersion = v.timeHiAndVersion := UInt16.toNat_inj.mp (by omega)
    have seqHi : u.clockSeqHiAndReserved = v.clockSeqHiAndReserved :=
      UInt8.toNat_inj.mp (by omega)
    have seqLow : u.clockSeqLow = v.clockSeqLow := UInt8.toNat_inj.mp (by omega)
    exact Fields.ext timeLow timeMid timeHi seqHi seqLow node

end Fields

/-! ## Bytes -/

theorem and_255 (n : Nat) : n &&& 255 = n % 2 ^ 8 := Nat.and_two_pow_sub_one_eq_mod n 8

theorem unpackWord_bytes (x : UInt32) :
    unpackWord [((x >>> 24) &&& 0xff).toUInt8, ((x >>> 16) &&& 0xff).toUInt8,
      ((x >>> 8) &&& 0xff).toUInt8, (x &&& 0xff).toUInt8] = x := by
  apply UInt32.toNat_inj.mp
  have bound := x.toNat_lt
  simp [unpackWord, Nat.shiftRight_eq_div_pow, Nat.shiftLeft_eq, and_255]
  omega

theorem unpackHalf_bytes (x : UInt16) :
    unpackHalf [((x >>> 8) &&& 0xff).toUInt8, (x &&& 0xff).toUInt8] = x := by
  apply UInt16.toNat_inj.mp
  have bound := x.toNat_lt
  simp [unpackHalf, Nat.shiftRight_eq_div_pow, Nat.shiftLeft_eq, and_255]
  omega

/-- Nothing is lost between the fields and the bytes. -/
theorem unpack_pack (u : Fields) : unpack (pack u) = u := by
  have low : (unpack (pack u)).timeLow = u.timeLow := unpackWord_bytes u.timeLow
  have mid : (unpack (pack u)).timeMid = u.timeMid := unpackHalf_bytes u.timeMid
  have high : (unpack (pack u)).timeHiAndVersion = u.timeHiAndVersion :=
    unpackHalf_bytes u.timeHiAndVersion
  have node : (unpack (pack u)).node = u.node := by
    ext i inside
    match i, inside with
    | 0, _ | 1, _ | 2, _ | 3, _ | 4, _ | 5, _ => rfl
  exact Fields.ext low mid high rfl rfl node

theorem pack_inj {u v : Fields} : pack u = pack v ↔ u = v :=
  ⟨fun same => by rw [← unpack_pack u, same, unpack_pack v], congrArg pack⟩

/-- A uuid is null exactly if all of its bytes are. -/
theorem isNull_iff {uu : Uuid} : isNull uu = true ↔ uu = null := by
  rw [isNull, Vector.all_eq_true, null, Vector.ext_iff]
  simp

/-! ## Text -/

/-- A session id has 36 characters. -/
theorem length_sessionId (uu : Uuid) : ∀ id ∈ sessionId uu, id.length = 36 := by
  intro id made
  obtain rfl : unparse uu = id := by
    unfold sessionId at made
    split at made
    · cases made
    · exact Option.some.inj made
  have dash : (ascii "-").length = 1 := rfl
  simp [unparse, unparse_, Hex.length_write, dash, List.length_flatMap, List.map_const']

end Uuid

end LinearFcgi
