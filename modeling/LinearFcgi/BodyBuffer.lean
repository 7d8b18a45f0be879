import LinearFcgi.RequestProofs
import Mathlib.Data.List.Induction

/-! The buffer a body is read into. Its size is the announced length and one
more, computed modulo 2⁶⁴; the one length for which this wraps is that of a
`CONTENT_LENGTH` that reads as `-1`, and then `malloc` is asked for no bytes. -/
namespace LinearFcgi

/-- What `getQueryString` does with its buffer: the bytes it allocates, clears
and has read, and the index it terminates the text at. -/
structure Buffer where
  allocated : Nat
  cleared : Nat
  read : Nat
  terminator : Nat
  deriving DecidableEq

/-- The buffer of `getQueryString`, once the length is in range and `malloc` has
not returned `NULL`. -/
def Request.buffer (p : Process) (i : Incoming) : Option Buffer :=
  match i.method with
  | .post =>
    let (length, overflow) := strtol (i.envs .contentLength)
    let siz := toSize length
    if overflow ∨ p.errno = ERANGE then none
    else if ¬ i.malloc ((siz + 1) % 2 ^ 64) then none
    else some ⟨(siz + 1) % 2 ^ 64, siz, siz, siz⟩
  | .get | .unknown => none

/-- More is allocated than is cleared and read, and the terminator is inside. -/
structure Buffer.Fits (b : Buffer) : Prop where
  cleared : b.cleared < b.allocated
  read : b.read < b.allocated
  terminator : b.terminator < b.allocated

/-- Blanks, a minus, any zeros, a one and no further digit. -/
def MinusOne (s : Bytes) : Prop :=
  ∃ blanks zeros rest, s = blanks ++ 45 :: (zeros ++ 49 :: rest) ∧
    (∀ c ∈ blanks, isspace c = true) ∧ (∀ c ∈ zeros, c = 48) ∧ ∀ c ∈ rest.head?, isdigit c = false

/-! ## Numbers -/

theorem decimal_append (digits : Bytes) (d : UInt8) :
    decimal (digits ++ [d]) = 10 * decimal digits + (d.toNat - 48) := by
  simp [decimal]

theorem digit_bounds {d : UInt8} (digit : isdigit d = true) : 48 ≤ d.toNat ∧ d.toNat ≤ 57 := by
  simpa [isdigit, UInt8.le_iff_toNat_le] using digit

theorem decimal_eq_zero_iff {digits : Bytes} (all : ∀ d ∈ digits, isdigit d = true) :
    decimal digits = 0 ↔ ∀ d ∈ digits, d = 48 := by
  induction digits using List.reverseRecOn with
  | nil => simp [decimal]
  | append_singleton digits d ih =>
    simp only [List.mem_append, List.mem_singleton] at all ⊢
    have bounds := digit_bounds (all d (.inr rfl))
    have last : d.toNat - 48 = 0 ↔ d = 48 := by
      rw [← UInt8.toNat_inj]
      simp
      omega
    rw [decimal_append, Nat.add_eq_zero_iff, last]
    rw [show 10 * decimal digits = 0 ↔ decimal digits = 0 by omega,
      ih fun d inside => all d (.inl inside)]
    constructor
    · rintro ⟨zeros, rfl⟩ d (inside | rfl)
      · exact zeros d inside
      · rfl
    · intro zeros
      exact ⟨fun d inside => zeros d (.inl inside), zeros d (.inr rfl)⟩

theorem decimal_eq_one_iff {digits : Bytes} (all : ∀ d ∈ digits, isdigit d = true) :
    decimal digits = 1 ↔ ∃ zeros, digits = zeros ++ [49] ∧ ∀ d ∈ zeros, d = 48 := by
  rcases List.eq_nil_or_concat digits with rfl | ⟨front, d, rfl⟩
  · simp [decimal]
  rw [List.concat_eq_append] at *
  simp only [List.mem_append, List.mem_singleton] at all
  have bounds := digit_bounds (all d (.inr rfl))
  have last : d.toNat - 48 = 1 ↔ d = 49 := by
    rw [← UInt8.toNat_inj]
    simp
    omega
  have zeros := decimal_eq_zero_iff fun d inside => all d (.inl inside)
  rw [decimal_append]
  constructor
  · intro one
    exact ⟨front, by rw [last.mp (by omega)], zeros.mp (by omega)⟩
  · rintro ⟨zeros', same, blank⟩
    obtain ⟨rfl, one⟩ := List.append_inj' same rfl
    have none_ := zeros.mpr blank
    have unit := last.mpr (List.cons.inj one).1
    omega

theorem strtol_range (s : Bytes) : -2 ^ 63 ≤ (strtol s).1 ∧ (strtol s).1 < 2 ^ 63 := by
  unfold strtol
  split <;> dsimp only <;> split <;> omega

/-- The cast of a `long` is the greatest `size_t` only for `-1`. -/
theorem toSize_strtol (s : Bytes) :
    toSize (strtol s).1 = 2 ^ 64 - 1 ↔ (strtol s).1 = -1 := by
  have range := strtol_range s
  unfold toSize
  omega

theorem toSize_lt (n : Int) : toSize n < 2 ^ 64 := by
  unfold toSize
  omega

/-- The texts that read as `-1`. -/
theorem strtol_eq_neg_one_iff (s : Bytes) : (strtol s).1 = -1 ↔ MinusOne s := by
  constructor
  · intro read
    have split := List.takeWhile_append_dropWhile (p := isspace) (l := s)
    unfold strtol at read
    split at read
    · rename_i rest negative
      have one : decimal (rest.takeWhile isdigit) = 1 := by
        dsimp only at read
        split at read <;> omega
      rw [decimal_eq_one_iff fun d inside => List.mem_takeWhile_imp inside] at one
      obtain ⟨zeros, digits, blank⟩ := one
      have after := List.takeWhile_append_dropWhile (p := isdigit) (l := rest)
      refine ⟨s.takeWhile isspace, zeros, rest.dropWhile isdigit, ?_,
        fun c inside => List.mem_takeWhile_imp inside, blank, ?_⟩
      · rw [digits, List.append_assoc, List.singleton_append] at after
        rw [after, ← negative, split]
      · intro c first
        have stops := List.head?_dropWhile_not isdigit rest
        rw [Option.mem_def.mp first] at stops
        simpa using stops
    all_goals
      dsimp only at read
      split at read <;> omega
  · rintro ⟨blanks, zeros, rest, rfl, spaces, blank, stops⟩
    have skipped : (blanks ++ 45 :: (zeros ++ 49 :: rest)).dropWhile isspace =
        45 :: (zeros ++ 49 :: rest) := by
      rw [List.dropWhile_append_of_pos spaces]
      rfl
    have digits : (zeros ++ 49 :: rest).takeWhile isdigit = zeros ++ [49] := by
      rw [List.takeWhile_append_of_pos fun c inside => by rw [blank c inside]; rfl,
        List.takeWhile_cons_of_pos (by rfl)]
      cases rest with
      | nil => rfl
      | cons c rest => rw [List.takeWhile_cons_of_neg (by simpa using stops c rfl)]
    have one : decimal (zeros ++ [49]) = 1 := by
      rw [decimal_append, (decimal_eq_zero_iff fun d inside => by rw [blank d inside]; rfl).mpr blank]
      rfl
    unfold strtol
    rw [skipped]
    simp [digits, one]

/-- They are in range. -/
theorem strtol_in_range {s : Bytes} (negative : MinusOne s) : (strtol s).2 = false := by
  have read := (strtol_eq_neg_one_iff s).mpr negative
  unfold strtol at read ⊢
  split at read <;> dsimp only at read ⊢ <;> split at read <;> simp_all

/-! ## The buffer -/

section

variable {fread : Nat → Bytes → Option Bytes} {p : Process} {i : Incoming} {b : Buffer}

theorem buffer_eq_some : Request.buffer p i = some b ↔
    i.method = .post ∧ i.length.2 = false ∧ p.errno ≠ ERANGE ∧
      i.malloc ((i.length.1 + 1) % 2 ^ 64) = true ∧
      b = ⟨(i.length.1 + 1) % 2 ^ 64, i.length.1, i.length.1, i.length.1⟩ := by
  unfold Request.buffer Incoming.length
  cases method : i.method with
  | get | unknown => simp
  | post =>
    by_cases stopped : (strtol (i.envs .contentLength)).2 = true ∨ p.errno = ERANGE
    · simp only [stopped, ↓reduceIte, reduceCtorEq, false_iff, not_and]
      intro _ range clear
      rcases stopped with overflow | stale
      · rw [range] at overflow
        cases overflow
      · exact absurd stale clear
    · obtain ⟨range, clear⟩ := not_or.mp stopped
      have range : (strtol (i.envs .contentLength)).2 = false := by simpa using range
      by_cases room : i.malloc ((toSize (strtol (i.envs .contentLength)).1 + 1) % 2 ^ 64) = true
      · simp only [range, clear, room, Bool.false_eq_true, or_self, not_true_eq_false, ↓reduceIte,
          Option.some_inj, ne_eq, not_false_eq_true, true_and]
        exact eq_comm
      · simp only [range, clear, room, Bool.false_eq_true, or_self, not_false_eq_true, ↓reduceIte,
          reduceCtorEq, false_and, and_false]

/-- Without a buffer the answer is the text kept from an earlier body. -/
theorem getQueryString_unbuffered (method : i.method = .post)
    (unbuffered : Request.buffer p i = none) :
    ∃ p', Request.getQueryString fread p i = some (p.data, p') := by
  simp only [Request.buffer, method] at unbuffered
  simp only [Request.getQueryString, method]
  by_cases overflow : (strtol (i.envs .contentLength)).2 = true
  · exact ⟨{ p with errno := ERANGE }, by simp [overflow]⟩
  by_cases stale : p.errno = ERANGE
  · exact ⟨p, by simp [overflow, stale]⟩
  simp only [overflow, stale, Bool.false_eq_true, or_self, ↓reduceIte] at unbuffered ⊢
  split at unbuffered
  · rename_i full
    exact ⟨{ p with errno := ENOMEM }, by rw [if_pos full]⟩
  · cases unbuffered

/-- With one, the body is read into it, if clearing it stays inside. -/
theorem getQueryString_buffered (buffered : Request.buffer p i = some b) :
    Request.getQueryString fread p i = if b.allocated < b.cleared then none
      else match fread b.read i.stdin with
        | none => some (p.data, p)
        | some query_string => some (cString query_string, { p with data := cString query_string }) := by
  obtain ⟨method, range, clear, room, rfl⟩ := buffer_eq_some.mp buffered
  simp only [Incoming.length] at range room ⊢
  simp only [Request.getQueryString, method, range, clear, room, Bool.false_eq_true,
    not_true_eq_false, ↓reduceIte]
  rfl

/-- The buffer a POST gets is large enough, for every `CONTENT_LENGTH` and
whatever `malloc` does, unless the length reads as `-1` while `errno` is not
`ERANGE`, and `malloc` returns something for no bytes. -/
theorem buffer_fits_iff (p : Process) (i : Incoming) :
    (∀ b, Request.buffer p i = some b → b.Fits) ↔
      ¬ (i.method = .post ∧ p.errno ≠ ERANGE ∧ MinusOne (i.envs .contentLength) ∧
        i.malloc 0 = true) := by
  have below : i.length.1 < 2 ^ 64 := toSize_lt _
  have greatest : i.length.1 = 2 ^ 64 - 1 ↔ (strtol (i.envs .contentLength)).1 = -1 :=
    toSize_strtol _
  rw [strtol_eq_neg_one_iff] at greatest
  constructor
  · rintro fits ⟨method, clear, negative, room⟩
    have length := greatest.mpr negative
    have wraps : (i.length.1 + 1) % 2 ^ 64 = 0 := by omega
    have range : i.length.2 = false := strtol_in_range negative
    have buffered := buffer_eq_some.mpr ⟨method, range, clear, by rwa [wraps], rfl⟩
    have inside := (fits _ buffered).cleared
    dsimp only at inside
    omega
  · intro elsewhere b buffered
    obtain ⟨method, range, clear, room, rfl⟩ := buffer_eq_some.mp buffered
    have length : i.length.1 ≠ 2 ^ 64 - 1 := by
      intro wraps
      rw [wraps] at room
      exact elsewhere ⟨method, clear, greatest.mp wraps, room⟩
    have exact_ : (i.length.1 + 1) % 2 ^ 64 = i.length.1 + 1 := Nat.mod_eq_of_lt (by omega)
    rw [exact_]
    exact ⟨Nat.lt_succ_self _, Nat.lt_succ_self _, Nat.lt_succ_self _⟩

end

/-- A POST that announces `-1` bytes, where `malloc` never fails. -/
def Sample.minusOne : Incoming where
  getenv name := if name = "REQUEST_METHOD" then some (ascii "POST")
    else if name = "CONTENT_LENGTH" then some (ascii "-1") else none
  stdin := ascii "sid=7"
  malloc _ := true
  errno := none

/-- Nothing is allocated, and almost the whole address space is cleared. -/
theorem buffer_wraps : ∃ b, Request.buffer .start Sample.minusOne = some b ∧ b.allocated = 0 ∧
    b.cleared = 2 ^ 64 - 1 ∧ ¬ b.Fits := by
  refine ⟨⟨0, 2 ^ 64 - 1, 2 ^ 64 - 1, 2 ^ 64 - 1⟩, by decide, rfl, rfl, fun fits => ?_⟩
  exact absurd fits.cleared (by decide)

end LinearFcgi
