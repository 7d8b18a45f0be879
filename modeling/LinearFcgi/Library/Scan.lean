import LinearFcgi.Library.TraceMachine
import Mathlib.Algebra.Ring.Nat

/-! Functions that translate a string. One pointer walks along it up to its
terminator, another fills a new buffer, and the body of the loop says how. Every
access to the string and to the buffer is an event, so what a call touches is a
property of its history. -/
namespace Scan

open TraceMachine

variable {α β : Type}

/-- A string in memory. What comes behind its terminator may be anything. -/
structure CString (α : Type) (nul : α) where
  char : Nat → α
  strlen : Nat
  nonzero : ∀ i < strlen, char i ≠ nul
  terminator : char strlen = nul

inductive Access (α : Type) where
  | load (i : Nat)
  | store (i : Nat) (ch : α)
  deriving DecidableEq

/-- How far the pointers are from the beginning of the string and of the buffer. -/
structure Pointers where
  pstr : Nat
  pbuf : Nat
  deriving DecidableEq

/-- Code that has the pointers: its result, where it leaves them, and its accesses. -/
def Code (α β : Type) : Type := (Nat → α) → Pointers → β × Pointers × List (Access α)

instance : Monad (Code α) where
  pure b := fun _ p => (b, p, [])
  bind code next := fun str p =>
    let (b, p, out) := code str p
    let (c, p, later) := next b str p
    (c, p, out ++ later)

/-- `pstr[k]` -/
def peek (k : Nat) : Code α α := fun str p => (str (p.pstr + k), p, [.load (p.pstr + k)])

/-- `pstr += n` -/
def skip (n : Nat) : Code α Unit := fun _ p => ((), { p with pstr := p.pstr + n }, [])

/-- `*pbuf = ch` -/
def put (ch : α) : Code α Unit := fun _ p => ((), p, [.store p.pbuf ch])

/-- `*pbuf++ = ch` -/
def emit (ch : α) : Code α Unit := fun _ p =>
  ((), { p with pbuf := p.pbuf + 1 }, [.store p.pbuf ch])

variable (str : Nat → α) (p : Pointers)

@[simp] theorem pure_run (b : β) : (pure b : Code α β) str p = (b, p, []) := rfl

@[simp] theorem bind_run {γ : Type} (code : Code α β) (next : β → Code α γ) :
    (code >>= next) str p =
      ((next (code str p).1 str (code str p).2.1).1, (next (code str p).1 str (code str p).2.1).2.1,
        (code str p).2.2 ++ (next (code str p).1 str (code str p).2.1).2.2) := rfl

@[simp] theorem peek_run (k : Nat) :
    peek k str p = (str (p.pstr + k), p, [.load (p.pstr + k)]) := rfl

@[simp] theorem skip_run (n : Nat) :
    skip n str p = ((), { p with pstr := p.pstr + n }, []) := rfl

@[simp] theorem put_run (ch : α) : put ch str p = ((), p, [.store p.pbuf ch]) := rfl

@[simp] theorem emit_run (ch : α) :
    emit ch str p = ((), { p with pbuf := p.pbuf + 1 }, [.store p.pbuf ch]) := rfl

/-! ## Strings and histories -/

def loads (trace : List (Access α)) : List Nat :=
  trace.filterMap fun | .load i => some i | .store _ _ => none

/-- What was stored, with the places in the buffer. -/
def stores (trace : List (Access α)) : List (α × Nat) :=
  trace.filterMap fun | .load _ => none | .store i ch => some (ch, i)

@[simp] theorem loads_append (trace out : List (Access α)) :
    loads (trace ++ out) = loads trace ++ loads out := List.filterMap_append

@[simp] theorem stores_append (trace out : List (Access α)) :
    stores (trace ++ out) = stores trace ++ stores out := List.filterMap_append

@[simp] theorem loads_nil : loads ([] : List (Access α)) = [] := rfl

@[simp] theorem stores_nil : stores ([] : List (Access α)) = [] := rfl

@[simp] theorem loads_cons_load (i : Nat) (trace : List (Access α)) :
    loads (.load i :: trace) = i :: loads trace := rfl

@[simp] theorem stores_cons_load (i : Nat) (trace : List (Access α)) :
    stores (.load i :: trace) = stores trace := rfl

@[simp] theorem loads_cons_store (i : Nat) (ch : α) (trace : List (Access α)) :
    loads (.store i ch :: trace) = loads trace := rfl

@[simp] theorem stores_cons_store (i : Nat) (ch : α) (trace : List (Access α)) :
    stores (.store i ch :: trace) = (ch, i) :: stores trace := rfl

theorem loads_map_load (is : List Nat) : loads (is.map .load : List (Access α)) = is := by
  rw [loads, List.filterMap_map]
  exact List.filterMap_some

theorem stores_map_load (is : List Nat) : stores (is.map .load : List (Access α)) = [] := by
  rw [stores, List.filterMap_map]
  exact List.filterMap_eq_nil_iff.mpr fun _ _ => rfl

namespace CString

variable {nul : α} (str : CString α nul)

/-- The string from one of its places on. -/
def drop (i : Nat) : List α := (List.range' i (str.strlen - i)).map str.char

def text : List α := str.drop 0

/-- This text, its terminator, and whatever else. -/
def ofText (text : List α) (nulFree : nul ∉ text) (behind : Nat → α) : CString α nul where
  char i := (text ++ [nul])[i]?.getD (behind i)
  strlen := text.length
  nonzero i before := by
    rw [List.getElem?_append_left before, List.getElem?_eq_getElem before, Option.getD_some]
    exact fun zero => nulFree (zero ▸ List.getElem_mem before)
  terminator := by simp

theorem drop_of_lt {i : Nat} (before : i < str.strlen) :
    str.drop i = str.char i :: str.drop (i + 1) := by
  have left : str.strlen - i = str.strlen - (i + 1) + 1 := by omega
  rw [drop, left, List.range'_succ, List.map_cons, drop]

theorem drop_strlen : str.drop str.strlen = [] := by
  rw [drop, Nat.sub_self]
  rfl

/-- The place behind a character is the terminator's or another character's. -/
theorem next {i : Nat} (before : i < str.strlen) :
    str.char (i + 1) = nul ∧ i + 1 = str.strlen ∨ str.char (i + 1) ≠ nul ∧ i + 1 < str.strlen := by
  rcases Nat.lt_or_eq_of_le (show i + 1 ≤ str.strlen from before) with inside | behind
  · exact .inr ⟨str.nonzero _ inside, inside⟩
  · left
    rw [behind]
    exact ⟨str.terminator, rfl⟩

end CString

/-! ## Bodies -/

variable {nul : α}

/-- With the pointers here, the body reads no more than `look` places ahead, moves on by
`moved` and writes `chars`, one behind the other. -/
structure Writes (body : Code α Unit) (str : Nat → α) (p : Pointers) (look moved : Nat)
    (chars : List α) : Prop where
  pointers : (body str p).2.1 = ⟨p.pstr + moved, p.pbuf + chars.length⟩
  looked : ∀ i ∈ loads (body str p).2.2, i ≤ p.pstr + look
  stored : stores (body str p).2.2 = chars.zipIdx p.pbuf

/-- Wherever the body is in the string, it writes what `f` makes of the characters it
moves behind, at most `rate` for each; it looks no further than to the terminator and
stays before it. -/
structure Translates (f : List α → List α) (rate : Nat) (body : Code α Unit)
    (str : CString α nul) : Prop where
  empty : f [] = []
  each : ∀ p : Pointers, p.pstr < str.strlen → ∃ look moved chars,
    Writes body str.char p look moved chars ∧ p.pstr + look ≤ str.strlen ∧
    p.pstr + moved < str.strlen ∧ chars.length ≤ rate * (moved + 1) ∧
    f (str.drop p.pstr) = chars ++ f (str.drop (p.pstr + (moved + 1)))

/-- How far a loop has come: what it has written is the translation of what it has read. -/
structure Translated (f : List α → List α) (rate : Nat) (str : CString α nul) (p : Pointers)
    (trace : List (Access α)) (written : List α) : Prop where
  looked : ∀ i ∈ loads trace, i ≤ str.strlen
  stored : stores trace = written.zipIdx
  pstr : p.pstr ≤ str.strlen
  pbuf : p.pbuf = written.length
  slow : written.length ≤ rate * p.pstr
  rest : f str.text = written ++ f (str.drop p.pstr)

variable {f : List α → List α} {rate : Nat} {str : CString α nul} {p : Pointers}
  {trace : List (Access α)} {written : List α}

theorem Translated.pbuf_le (sofar : Translated f rate str p trace written) :
    p.pbuf ≤ rate * str.strlen := by
  rw [sofar.pbuf]
  exact Nat.le_trans sofar.slow (Nat.mul_le_mul_left rate sofar.pstr)

theorem Translated.stored_lt {ch : α} {i : Nat} (sofar : Translated f rate str p trace written)
    (stored : (ch, i) ∈ stores trace) : i < p.pbuf := by
  rw [sofar.stored] at stored
  have inside := List.snd_lt_of_mem_zipIdx stored
  rwa [Nat.add_zero, ← sofar.pbuf] at inside

theorem Translated.length_stores (sofar : Translated f rate str p trace written) :
    (stores trace).length = p.pbuf := by
  rw [sofar.stored, List.length_zipIdx, sofar.pbuf]

/-- `strlen` reads the string and its terminator. -/
theorem translated_nil (f : List α → List α) (rate : Nat) (str : CString α nul) :
    Translated f rate str ⟨0, 0⟩ ((List.range (str.strlen + 1)).map .load) [] where
  looked i looks := by
    rw [loads_map_load, List.mem_range] at looks
    exact Nat.le_of_lt_succ looks
  stored := stores_map_load _
  pstr := Nat.zero_le _
  pbuf := rfl
  slow := Nat.zero_le _
  rest := rfl

/-! ## Calls -/

variable [DecidableEq α]

/-- `while (*pstr) { body; pstr++; } *pbuf = '\0';`, the next round of it, and whether
there is another. -/
def round (nul : α) (body : Code α Unit) : Code α Bool := do
  if (← peek 0) = nul then
    put nul
    return false
  else
    body
    skip 1
    return true

/-- Where a call stands: before `malloc`, in the loop, or back, with `NULL` or the
buffer. -/
inductive Pc where
  | malloc
  | loop
  | failed
  | returned
  deriving DecidableEq

structure State where
  pc : Pc
  pointers : Pointers
  /-- how much `malloc` was asked for -/
  size : Nat
  deriving DecidableEq

def State.start : State := ⟨.malloc, ⟨0, 0⟩, 0⟩

/-- One step of a call: `malloc(size(strlen(str)))`, which succeeds or not, then a round
at a time. -/
def call (size : Nat → Nat) (body : Code α Unit) (str : CString α nul) :
    Step State Bool (Access α) := fun s succeeds =>
  match s.pc with
  | .malloc =>
    some (⟨if succeeds then .loop else .failed, s.pointers, size str.strlen⟩,
      (List.range (str.strlen + 1)).map .load)
  | .loop =>
    let (more, pointers, out) := round nul body str.char s.pointers
    some ({ s with pc := if more then .loop else .returned, pointers }, out)
  | .failed | .returned => none

variable {size : Nat → Nat} {body : Code α Unit} {s s' : State} {out : List (Access α)}

theorem round_last (at_ : p.pstr = str.strlen) : round nul body str.char p =
    (false, p, [.load str.strlen, .store p.pbuf nul]) := by
  simp [round, at_, str.terminator]

theorem round_next {look moved : Nat} {chars : List α} (before : p.pstr < str.strlen)
    (writes : Writes body str.char p look moved chars) : round nul body str.char p =
      (true, ⟨p.pstr + (moved + 1), p.pbuf + chars.length⟩,
        .load p.pstr :: (body str.char p).2.2) := by
  simp [round, str.nonzero _ before, writes.pointers, Nat.add_assoc]

/-- A round moves on by some characters and writes their translation. -/
theorem Translated.round (translates : Translates f rate body str)
    (sofar : Translated f rate str p trace written) (before : p.pstr < str.strlen) :
    ∃ p' out written', round nul body str.char p = (true, p', out) ∧ p.pstr < p'.pstr ∧
      Translated f rate str p' (trace ++ out) written' := by
  obtain ⟨look, moved, chars, writes, looked, inside, few, rest⟩ := translates.each p before
  refine ⟨_, _, written ++ chars, round_next before writes, by simp, ?_⟩
  refine ⟨fun i looks => ?_, ?_, inside, by simp [sofar.pbuf], ?_, ?_⟩
  · rw [loads_append, List.mem_append, loads_cons_load, List.mem_cons] at looks
    rcases looks with earlier | rfl | ahead
    · exact sofar.looked i earlier
    · exact Nat.le_of_lt before
    · exact Nat.le_trans (writes.looked i ahead) looked
  · rw [stores_append, stores_cons_load, sofar.stored, writes.stored, sofar.pbuf,
      List.zipIdx_append, Nat.zero_add]
  · have slow := sofar.slow
    rw [List.length_append, Nat.mul_add]
    omega
  · rw [sofar.rest, rest, List.append_assoc]

/-- The rounds come to an end. -/
theorem Translated.returns {k : Nat} {succeeds : Bool} (translates : Translates f rate body str)
    (sofar : Translated f rate str p trace written) :
    ∃ n ≤ str.strlen - p.pstr + 1, ∃ s out,
      exec (call size body str) ⟨.loop, p, k⟩ (List.replicate n succeeds) = some (s, out) ∧
        s.pc = .returned := by
  induction left : str.strlen - p.pstr using Nat.strong_induction_on
    generalizing p trace written with
  | _ left ih =>
    rcases Nat.lt_or_eq_of_le sofar.pstr with before | at_
    · obtain ⟨p', out, written', went, ahead, sofar'⟩ := sofar.round translates before
      obtain ⟨n, few, s, later, ran, returned⟩ := ih _ (by omega) sofar' rfl
      refine ⟨n + 1, by omega, s, out ++ later, ?_, returned⟩
      simp only [List.replicate_succ, exec, call, went, ↓reduceIte, Option.bind_some, ran,
        Option.map_some]
    · refine ⟨1, by omega, ⟨.returned, p, k⟩, [.load str.strlen, .store p.pbuf nul], ?_, rfl⟩
      simp [exec, call, round_last at_]

/-! ## Whole calls -/

/-- What a call has done by the time it gets somewhere. -/
inductive Progress (f : List α → List α) (rate : Nat) (size : Nat → Nat) (str : CString α nul) :
    State → List (Access α) → Prop where
  | malloc : Progress f rate size str .start []
  | failed {trace : List (Access α)} (looked : ∀ i ∈ loads trace, i ≤ str.strlen)
      (stored : stores trace = []) :
      Progress f rate size str ⟨.failed, ⟨0, 0⟩, size str.strlen⟩ trace
  | loop {p : Pointers} {trace : List (Access α)} {written : List α}
      (sofar : Translated f rate str p trace written) :
      Progress f rate size str ⟨.loop, p, size str.strlen⟩ trace
  | returned {p : Pointers} {trace : List (Access α)} {written : List α}
      (sofar : Translated f rate str p trace written) (at_ : p.pstr = str.strlen) :
      Progress f rate size str ⟨.returned, p, size str.strlen⟩
        (trace ++ [.load str.strlen, .store p.pbuf nul])

theorem Progress.step (translates : Translates f rate body str) {succeeds : Bool}
    (progress : Progress f rate size str s trace)
    (stepped : call size body str s succeeds = some (s', out)) :
    Progress f rate size str s' (trace ++ out) := by
  cases progress with
  | malloc =>
    cases stepped
    rw [List.nil_append]
    have begun := translated_nil f rate str
    cases succeeds with
    | false => exact .failed begun.looked begun.stored
    | true => exact .loop begun
  | failed => cases stepped
  | @loop p trace written sofar =>
    rcases Nat.lt_or_eq_of_le sofar.pstr with before | at_
    · obtain ⟨p', out', written', went, -, sofar'⟩ := sofar.round translates before
      simp only [call, went] at stepped
      cases stepped
      exact .loop sofar'
    · simp only [call, round_last at_] at stepped
      cases stepped
      exact .returned sofar at_
  | returned => cases stepped

/-- A call returns, with the buffer if there is one. -/
theorem returns (translates : Translates f rate body str) (succeeds : Bool) :
    ∃ n ≤ str.strlen + 2, ∃ s trace,
      exec (call size body str) .start (List.replicate n succeeds) = some (s, trace) ∧
        s.pc = if succeeds then .returned else .failed := by
  cases succeeds with
  | false => exact ⟨1, by omega, _, _, rfl, rfl⟩
  | true =>
    obtain ⟨n, few, s, out, ran, returned⟩ : ∃ n ≤ str.strlen + 1, ∃ s out,
        exec (call size body str) ⟨.loop, ⟨0, 0⟩, size str.strlen⟩ (List.replicate n true) =
          some (s, out) ∧ s.pc = .returned := (translated_nil f rate str).returns translates
    refine ⟨n + 1, Nat.succ_le_succ few, s, (List.range (str.strlen + 1)).map .load ++ out, ?_,
      returned⟩
    simp only [List.replicate_succ, exec, call, State.start, ↓reduceIte, Option.bind_some, ran,
      Option.map_some]

theorem progress (translates : Translates f rate body str)
    (run : Reaches (call size body str) .start s trace) : Progress f rate size str s trace := by
  refine run.invariant (I := Progress f rate size str) .malloc ?_
  intro s trace succeeds s' out _ progress _ stepped
  exact progress.step translates stepped

/-- Nothing a call touches, and nowhere its pointers go, is outside the string with its
terminator or the first `limit` places of the buffer. -/
structure InBounds (str : CString α nul) (limit : Nat) (s : State) (trace : List (Access α)) :
    Prop where
  pstr : s.pointers.pstr ≤ str.strlen
  pbuf : s.pointers.pbuf < limit
  looked : ∀ i ∈ loads trace, i ≤ str.strlen
  count : (stores trace).length ≤ limit
  stored : ∀ ch i, (ch, i) ∈ stores trace → i < limit

/-- A call stays in bounds from beginning to end. -/
theorem inBounds (translates : Translates f rate body str)
    (run : Reaches (call size body str) .start s trace) :
    InBounds str (rate * str.strlen + 1) s trace := by
  cases progress translates run with
  | malloc => exact ⟨Nat.zero_le _, Nat.succ_pos _, nofun, Nat.zero_le _, nofun⟩
  | failed looked stored =>
    exact ⟨Nat.zero_le _, Nat.succ_pos _, looked, by simp [stored], by simp [stored]⟩
  | loop sofar =>
    have room := Nat.lt_succ_of_le sofar.pbuf_le
    refine ⟨sofar.pstr, room, sofar.looked, ?_, fun ch i stored => ?_⟩
    · rw [sofar.length_stores]
      exact Nat.le_of_lt room
    · exact Nat.lt_trans (sofar.stored_lt stored) room
  | @returned p trace written sofar at_ =>
    have room := Nat.lt_succ_of_le sofar.pbuf_le
    refine ⟨sofar.pstr, room, fun i looked => ?_, ?_, fun ch i stored => ?_⟩
    · rw [loads_append, List.mem_append] at looked
      rcases looked with earlier | last
      · exact sofar.looked i earlier
      · exact Nat.le_of_eq (List.mem_singleton.mp last)
    · rw [stores_append, List.length_append, sofar.length_stores]
      exact room
    · rw [stores_append, List.mem_append] at stored
      rcases stored with earlier | last
      · exact Nat.lt_trans (sofar.stored_lt earlier) room
      · cases List.mem_singleton.mp last
        exact room

/-- Where the size does not wrap, the buffer that `malloc` gives has room. -/
theorem stored_lt_size (translates : Translates f rate body str)
    (run : Reaches (call size body str) .start s trace)
    (fits : size str.strlen = rate * str.strlen + 1) {ch : α} {i : Nat}
    (stored : (ch, i) ∈ stores trace) : i < s.size := by
  have inside := (inBounds translates run).stored ch i stored
  cases progress translates run with
  | malloc => cases stored
  | failed | loop | returned => exact fits ▸ inside

/-- The buffer is never ahead of the string by more than the rate. -/
theorem pbuf_le (translates : Translates f rate body str)
    (run : Reaches (call size body str) .start s trace) :
    s.pointers.pbuf ≤ rate * s.pointers.pstr := by
  cases progress translates run with
  | malloc | failed => exact Nat.zero_le _
  | loop sofar | returned sofar =>
    rw [sofar.pbuf]
    exact sofar.slow

/-- What a call that returns has stored, place by place. -/
theorem stores_returned (translates : Translates f rate body str)
    (run : Reaches (call size body str) .start s trace) (returned : s.pc = .returned) :
    stores trace = (f str.text ++ [nul]).zipIdx := by
  cases progress translates run with
  | malloc | failed | loop => cases returned
  | @returned p trace written sofar at_ =>
    have rest := sofar.rest
    rw [at_, str.drop_strlen, translates.empty, List.append_nil] at rest
    rw [stores_append, sofar.stored, sofar.pbuf, rest, List.zipIdx_append, Nat.zero_add]
    rfl

end Scan
