import LinearFcgi.Uplink
import LinearFcgi.Library.Heap

/-! The memory of the requests that `_connect` and `_write` make. libuv keeps them,
and what is to be written, until it calls back; the callback frees them. Only libuv
knows of a request in between, so one that was allocated but never handed over is
lost. -/
namespace LinearFcgi

open Heap TraceMachine

/-- What a block may hold: text, or a pointer to another. -/
inductive Cell where
  | byte (b : UInt8)
  | ptr (p : Ptr)
  deriving DecidableEq

/-- The terminator of a string. -/
def Cell.isNul (c : Cell) : Bool := c = .byte 0

/-- The text in some cells. -/
def text (cells : List Cell) : Bytes :=
  cells.filterMap fun
    | .byte b => some b
    | .ptr _ => none

/-- What `uv_write` was called with: `write_req`, and where `buf.base` leads. -/
structure UvWrite where
  req : Ptr
  base : Ptr
  payload : Bytes
  deriving DecidableEq

/-- What `uv_tcp_connect` was called with: `connect_req`, and its `data`. -/
structure UvConnect where
  req : Ptr
  client : Ptr
  deriving DecidableEq

section

variable (grants : Nat → Bool)

/-- `url_decode`, with the string it leaves. -/
def urlDecodeString (data : Bytes) : Code Cell (Option Ptr) := do
  let buf ← malloc grants ((cString data).length + 1)
  if buf = none then pure none
  else
    store buf 0 ((urlDecode (cString data) ++ [0]).map .byte)
    pure buf

/-- `Client::_write`, for what it consumes; whether `uv_write` takes a payload is
told beside it. It is given `mod_websocket_base64_decode`, which is a library's. -/
def write_ (base64Decode : Option Ptr → Code Cell (Option (Ptr × Nat))) :
    List (Bytes × Bool) → Code Cell (List UvWrite)
  | [] => pure []
  | (data, takes) :: queue => do
    let urldecoded ← urlDecodeString grants data
    if urldecoded = none then pure []
    else
      let decoded ← base64Decode urldecoded
      free urldecoded
      match decoded with
      | none => pure []
      | some (base, len) =>
        match ← malloc grants 1 with
        | none =>
          free (some base)
          pure []
        | some req =>
          store (some req) 0 [.ptr base]
          let payload ← load (some base) len
          if takes then
            let later ← write_ base64Decode queue
            pure (⟨req, base, text payload⟩ :: later)
          else
            free (some req)
            free (some base)
            write_ base64Decode queue

/-- `Client::_connect`, with what `uv_tcp_init`, `getaddrinfo` and `uv_tcp_connect`
come to. -/
def connect_ (client : Ptr) (inits resolves starts : Bool) : Code Cell (Option UvConnect) :=
  if ¬ inits then pure none
  else do
    match ← malloc grants 1 with
    | none => pure none
    | some req =>
      store (some req) 0 [.ptr client]
      -- the source returns here without `free(connect_req)`
      if ¬ resolves then pure none
      else if starts then pure (some ⟨req, client⟩)
      else
        free (some req)
        pure none

/-- The pointer in the `data` of a request. -/
def requestData (req : Ptr) : Code Cell Ptr := do
  match ← load (some req) 1 with
  | [.ptr data] => pure data
  | _ => ⟨fun _ => .error .uninitialised⟩

/-- `Loop::onWrite`. -/
def onWrite (req : Ptr) : Code Cell Unit := do
  let data ← requestData req
  free (some data)
  free (some req)

/-- `Loop::onConnect`, which gives the client its `onConnect`. -/
def onConnect (req : Ptr) : Code Cell Ptr := do
  let client ← requestData req
  free (some req)
  pure client

end

/-- The memory of the requests, and those that libuv has not called back yet. -/
structure Uv where
  memory : Memory Cell
  connects : List UvConnect
  writes : List UvWrite
  fault : Option Fault

inductive UvAction where
  | connect_ (client : Ptr) (inits resolves starts : Bool)
  | onConnect (c : UvConnect)
  | write_ (queue : List (Bytes × Bool))
  | onWrite (w : UvWrite)

inductive UvEvent where
  /-- `getaddrinfo` failed -/
  | unresolved
  /-- `onConnect` was called for the client -/
  | connected (client : Ptr)
  /-- `uv_write` was given this -/
  | wrote (payload : Bytes)
  deriving DecidableEq

namespace Uv

/-- Run some code; the loop thread is at an end if it does what is undefined. -/
def call {α : Type} (u : Uv) (code : Code Cell α) (next : α → Uv × List UvEvent) :
    Option (Uv × List UvEvent) :=
  match code.run u.memory with
  | .error fault => some ({ u with fault := some fault }, [])
  | .ok (x, m) => some ({ (next x).1 with memory := m }, (next x).2)

/-- A callback comes at most once for a request, and for none that was not made. -/
def step (base64Decode : Option Ptr → Code Cell (Option (Ptr × Nat))) (grants : Nat → Bool) :
    Step Uv UvAction UvEvent := fun u a =>
  if u.fault.isSome then none else match a with
  | .connect_ client inits resolves starts =>
    u.call (LinearFcgi.connect_ grants client inits resolves starts) fun c =>
      ({ u with connects := u.connects ++ c.toList },
        if inits ∧ ¬ resolves then [.unresolved] else [])
  | .onConnect c =>
    if c ∈ u.connects then u.call (LinearFcgi.onConnect c.req) fun client =>
      ({ u with connects := u.connects.erase c }, [.connected client])
    else none
  | .write_ queue => u.call (LinearFcgi.write_ grants base64Decode queue) fun writes =>
    ({ u with writes := u.writes ++ writes }, writes.map (.wrote ·.payload))
  | .onWrite w =>
    if w ∈ u.writes then u.call (LinearFcgi.onWrite w.req) fun _ =>
      ({ u with writes := u.writes.erase w }, [])
    else none

/-- Before the first request. -/
def start (m : Memory Cell) : Uv := ⟨m, [], [], none⟩

end Uv

def UvWrite.blocks (w : UvWrite) : List (Ptr × List (Option Cell)) :=
  [(w.req, [some (.ptr w.base)]), (w.base, (w.payload.map Cell.byte).map some)]

def UvConnect.block (c : UvConnect) : Ptr × List (Option Cell) := (c.req, [some (.ptr c.client)])

/-- What is relied on of `mod_websocket_base64_decode`: it reads the string and
leaves what it says in a block of its own, or it fails, where it says nothing or
there is no memory, and leaves nothing. -/
def DecodesInMemory (decode : Bytes → Option Bytes) (grants : Nat → Bool)
    (base64Decode : Option Ptr → Code Cell (Option (Ptr × Nat))) : Prop :=
  ∀ (m : Memory Cell) (base : Ptr → Option (List (Option Cell)))
    (l : List (Ptr × List (Option Cell))) (q : Ptr) (s : Bytes) (junk : List (Option Cell)),
    Extends base m ((q, ((cString s).map Cell.byte).map some ++ some (.byte 0) :: junk) :: l) →
    (base64Decode (some q)).Does m fun decoded m' =>
      decoded = none ∧ (decode (cString s) = none ∨ ∃ k, grants k = false) ∧
          Extends base m' ((q, ((cString s).map Cell.byte).map some ++ some (.byte 0) :: junk) :: l) ∨
        ∃ p payload, decoded = some (p, payload.length) ∧ decode (cString s) = some payload ∧
          Extends base m' ((q, ((cString s).map Cell.byte).map some ++ some (.byte 0) :: junk) ::
            (p, (payload.map Cell.byte).map some) :: l)

section

variable {h : Host} {grants : Nat → Bool} {m : Memory Cell}
  {base : Ptr → Option (List (Option Cell))} {l : List (Ptr × List (Option Cell))}
  {data : Bytes} {queue : List (Bytes × Bool)}
  {base64Decode : Option Ptr → Code Cell (Option (Ptr × Nat))}

@[simp] theorem text_byte (s : Bytes) : text (s.map .byte) = s := by
  simp [text, List.filterMap_map]

theorem length_urlDecode (s : Bytes) : (urlDecode s).length ≤ s.length := by
  fun_induction urlDecode s <;> grind

/-- What was decoded is in a block of its own. -/
theorem urlDecodeString_does (extends_ : Extends base m l) (data : Bytes) :
    (urlDecodeString grants data).Does m fun p m' =>
      p = none ∧ (∃ k, grants k = false) ∧ Extends base m' l ∨
        ∃ q junk, p = some q ∧ Extends base m'
          ((q, ((cString (urlDecode (cString data))).map Cell.byte).map some ++
            some (.byte 0) :: junk) :: l) := by
  refine (malloc_does extends_).bind fun p m' done => ?_
  rcases done with ⟨rfl, refused, extends_⟩ | ⟨q, rfl, extends_⟩
  · rw [if_pos rfl]
    exact .pure (.inl ⟨rfl, refused, extends_⟩)
  · rw [if_neg (by simp)]
    have fits : ((urlDecode (cString data) ++ [0]).map Cell.byte).length ≤
        (cString data).length + 1 := by
      simpa using length_urlDecode (cString data)
    refine (store_does extends_ fits).bind fun _ m' extends_ => .pure (.inr ?_)
    obtain ⟨junk, split⟩ := cString_split (urlDecode (cString data))
    rw [split] at extends_
    exact ⟨q, _, rfl, by simpa using extends_⟩

/-- The payloads that are taken, of all that can be decoded. -/
def takes (h : Host) (queue : List (Bytes × Bool)) : List Bytes :=
  (queue.filter Prod.snd).filterMap fun x => payload h x.1

theorem takes_all (q : List Bytes) : takes h (q.map (·, true)) = q.filterMap (payload h) := by
  have kept : (q.map (·, true)).filter Prod.snd = q.map (·, true) := by simp
  rw [takes, kept, List.filterMap_map]
  rfl

/-- A call of `_write` keeps nothing for itself. -/
theorem write_does (codec : DecodesInMemory h.decode grants base64Decode)
    (queue : List (Bytes × Bool)) (extends_ : Extends base m l) :
    (write_ grants base64Decode queue).Does m fun writes m' =>
      Extends base m' (writes.flatMap UvWrite.blocks ++ l) ∧
      writes.map UvWrite.payload <+: takes h queue ∧
      ((∀ k, grants k = true) → writes.map UvWrite.payload =
        takes h (queue.takeWhile fun x => (payload h x.1).isSome)) := by
  induction queue generalizing m l with
  | nil => exact .pure ⟨extends_, by simp, by simp [takes]⟩
  | cons x queue ih =>
    obtain ⟨data, taken⟩ := x
    rw [write_]
    refine (urlDecodeString_does extends_ data).bind fun p m' done => ?_
    rcases done with ⟨rfl, ⟨k, refused⟩, extends_⟩ | ⟨q, junk, rfl, extends_⟩
    · rw [if_pos rfl]
      exact .pure ⟨extends_, by simp, fun granted => by simp [granted] at refused⟩
    rw [if_neg (by simp)]
    refine (codec _ _ _ _ _ _ extends_).bind fun decoded m' done => ?_
    rcases done with ⟨rfl, failed, extends_⟩ | ⟨p, bytes, rfl, coded, extends_⟩
    · refine (free_does extends_).bind fun _ m' extends_ => .pure ⟨extends_, by simp, ?_⟩
      intro granted
      rcases failed with failed | ⟨k, refused⟩
      · have undecoded : payload h data = none := failed
        simp [takes, undecoded]
      · simp [granted] at refused
    refine (free_does extends_).bind fun _ m' extends_ => ?_
    refine (malloc_does extends_).bind fun req m' done => ?_
    rcases done with ⟨rfl, ⟨k, refused⟩, extends_⟩ | ⟨req, rfl, extends_⟩
    · exact (free_does extends_).bind fun _ m' extends_ =>
        .pure ⟨extends_, by simp, fun granted => by simp [granted] at refused⟩
    refine (store_does extends_ (by simp)).bind fun _ m' extends_ => ?_
    replace extends_ : Extends base m' (UvWrite.blocks ⟨req, p, bytes⟩ ++ l) := by
      simpa [UvWrite.blocks] using extends_
    have reads := load_does extends_ (p := p) (bytes.map Cell.byte) [] (by simp [UvWrite.blocks])
    rw [List.length_map] at reads
    refine reads.bind fun chars m'' same => ?_
    obtain ⟨rfl, rfl⟩ := same
    rw [text_byte]
    have decoded : payload h data = some bytes := coded
    cases taken with
    | true =>
      refine (ih extends_).bind fun writes m' done => .pure ?_
      obtain ⟨extends_, front, all⟩ := done
      refine ⟨extends_.perm ?_, ?_, fun granted => ?_⟩
      · rw [List.flatMap_cons, ← List.append_assoc]
        exact List.perm_append_comm.append_right l
      · simpa [takes, decoded] using front
      · simpa [takes, decoded] using all granted
    | false =>
      refine (free_does extends_).bind fun _ m' extends_ => ?_
      refine (free_does extends_).bind fun _ m' extends_ => ?_
      obtain ⟨writes, m'', ran, extends_, front, all⟩ := ih extends_
      refine ⟨writes, m'', ran, extends_, by simpa [takes] using front, fun granted => ?_⟩
      simpa [takes, decoded] using all granted

theorem requestData_does (extends_ : Extends base m l) {req : Ptr} (data : Ptr)
    (member : (req, [some (Cell.ptr data)]) ∈ l) :
    (requestData req).Does m fun p m' => p = data ∧ m' = m := by
  have reads := load_does extends_ [Cell.ptr data] [] member
  refine reads.bind fun cells m' same => ?_
  obtain ⟨rfl, rfl⟩ := same
  exact .pure ⟨rfl, rfl⟩

theorem onWrite_does {w : UvWrite} (extends_ : Extends base m (w.blocks ++ l)) :
    (onWrite w.req).Does m fun _ m' => Extends base m' l := by
  refine (requestData_does extends_ w.base (by simp [UvWrite.blocks])).bind ?_
  rintro _ _ ⟨rfl, rfl⟩
  exact (free_does (extends_.perm (.swap ..))).bind fun _ m' extends_ => free_does extends_

theorem onConnect_does {c : UvConnect} (extends_ : Extends base m (c.block :: l)) :
    (onConnect c.req).Does m fun client m' => client = c.client ∧ Extends base m' l := by
  refine (requestData_does extends_ c.client List.mem_cons_self).bind ?_
  rintro _ _ ⟨rfl, rfl⟩
  exact (free_does extends_).bind fun _ m' extends_ => .pure ⟨rfl, extends_⟩

/-- `connect_req` is with libuv, or freed, or lost where the name did not resolve. -/
theorem connect_does (extends_ : Extends base m l) (client : Ptr) (inits resolves starts : Bool) :
    (connect_ grants client inits resolves starts).Does m fun c m' =>
      ∃ lost : List UvConnect,
        Extends base m' (c.toList.map UvConnect.block ++ (lost.map UvConnect.block ++ l)) ∧
        (lost ≠ [] → inits = true ∧ resolves = false ∧ lost.length = 1) ∧
        ((∀ k, grants k = true) → inits = true → resolves = false → lost ≠ []) := by
  rw [connect_]
  cases inits with
  | false => exact .pure ⟨[], by simpa using extends_, by simp, by simp⟩
  | true =>
    rw [if_neg (by simp)]
    refine (malloc_does extends_).bind fun p m' done => ?_
    rcases done with ⟨rfl, ⟨k, refused⟩, extends_⟩ | ⟨req, rfl, extends_⟩
    · exact .pure ⟨[], by simpa using extends_, by simp,
        fun granted => by simp [granted] at refused⟩
    refine (store_does extends_ (by simp)).bind fun _ m' extends_ => ?_
    replace extends_ : Extends base m' (UvConnect.block ⟨req, client⟩ :: l) := by
      simpa [UvConnect.block] using extends_
    cases resolves with
    | false => exact .pure ⟨[⟨req, client⟩], by simpa using extends_, by simp, by simp⟩
    | true =>
      rw [if_neg (by simp)]
      cases starts with
      | true => exact .pure ⟨[], by simpa using extends_, by simp, by simp⟩
      | false =>
        exact (free_does extends_).bind fun _ m' extends_ =>
          .pure ⟨[], by simpa using extends_, by simp, by simp⟩

/-- `_write` goes on behind what can be decoded. -/
theorem Transition.unqueues {s s' : Sys} {a : Action} {out : List Event} {c : Addr}
    (t : Transition h s a s' out) (calls : s.loop = .write c) :
    unqueued c out = [] ∨ ∃ data, unqueued c out = [data] ∧
      (s'.loop = .write c → (payload h data).isSome) := by
  cases t
  case writeDrop o d data queue cl at_ live oldest dropped =>
    obtain rfl : d = c := by simpa [at_] using calls
    exact .inr ⟨data, by simp [unqueued], by simp⟩
  case writeSome o d data sent queue cl at_ live oldest decoded =>
    obtain rfl : d = c := by simpa [at_] using calls
    exact .inr ⟨data, by simp [unqueued], by simp [decoded]⟩
  case destroy o d cl at_ live =>
    cases (s.storage.destroy cl.id).2 <;> exact .inl rfl
  all_goals exact .inl rfl

/-- In the process, one call of `_write` hands over what can be decoded before it
meets a string that cannot. -/
theorem uvWrites_of_call {s₀ s : Sys} {c : Addr} {during : List Event}
    (run : Run (LinearFcgi.step h) (fun s a => s.loop = .write c ∧ a.allocates = true)
      s₀ s during) :
    uvWrites c during =
      ((unqueued c during).takeWhile fun data => (payload h data).isSome).filterMap (payload h) ∧
    (s.loop = .write c → ∀ data ∈ unqueued c during, (payload h data).isSome) := by
  refine run.invariant (I := fun s during => uvWrites c during =
      ((unqueued c during).takeWhile fun data => (payload h data).isSome).filterMap (payload h) ∧
    (s.loop = .write c → ∀ data ∈ unqueued c during, (payload h data).isSome)) ?_ ?_
  · exact ⟨rfl, by simp [unqueued]⟩
  · rintro s during a s' out - ⟨written, decodable⟩ ⟨calls, allocates⟩ stepped
    have t := (step_cases stepped).2
    have now := uvWrites_step t allocates c
    have split : unqueued c (during ++ out) = unqueued c during ++ unqueued c out :=
      List.filterMap_append
    have split' : uvWrites c (during ++ out) = uvWrites c during ++ uvWrites c out :=
      List.filterMap_append
    have whole : (unqueued c during).takeWhile (fun data => (payload h data).isSome) =
        unqueued c during := List.takeWhile_eq_self_iff.mpr (decodable calls)
    rw [split, split', List.takeWhile_append_of_pos (decodable calls), List.filterMap_append, now,
      written, whole]
    rcases t.unqueues calls with silent | ⟨data, one, more⟩
    · rw [silent]
      exact ⟨rfl, fun _ => by simpa using decodable calls⟩
    · rw [one]
      constructor
      · cases decoded : payload h data <;> simp [decoded]
      · intro on data' member
        rcases List.mem_append.mp member with earlier | last
        · exact decodable calls data' earlier
        · rw [List.mem_singleton.mp last]
          exact more on

/-- As a program in memory, `_write` hands over what it does in the process. -/
theorem write_agrees (codec : DecodesInMemory h.decode grants base64Decode) {s₀ s : Sys} {c : Addr}
    {during : List Event}
    (run : Run (LinearFcgi.step h) (fun s a => s.loop = .write c ∧ a.allocates = true)
      s₀ s during)
    (granted : ∀ k, grants k = true) (sound : m.Sound) :
    (write_ grants base64Decode ((unqueued c during).map (·, true))).Does m fun writes m' =>
      writes.map UvWrite.payload = uvWrites c during ∧
        Extends m.blocks m' (writes.flatMap UvWrite.blocks) := by
  obtain ⟨writes, m', ran, extends_, -, all⟩ := write_does codec
    ((unqueued c during).map (·, true)) (.nil sound)
  refine ⟨writes, m', ran, ?_, by simpa using extends_⟩
  rw [all granted, (uvWrites_of_call run).1, List.takeWhile_map]
  exact takes_all _

/-! ## In any order -/

/-- What is in memory: the requests libuv has, and those that are lost. -/
structure Uv.Accounts (grants : Nat → Bool) (base : Ptr → Option (List (Option Cell)))
    (u : Uv) (trace : List UvEvent) (lost : List UvConnect) : Prop where
  alive : u.fault = none
  memory : Extends base u.memory
    (u.writes.flatMap UvWrite.blocks ++ (u.connects ++ lost).map UvConnect.block)
  few : lost.length ≤ trace.count .unresolved
  all : (∀ k, grants k = true) → lost.length = trace.count .unresolved

theorem Uv.call_does {α : Type} {u u' : Uv} {code : Code Cell α} {next : α → Uv × List UvEvent}
    {out : List UvEvent} {Q : α → Memory Cell → Prop} (does_ : code.Does u.memory Q)
    (called : u.call code next = some (u', out)) :
    ∃ x m', Q x m' ∧ u' = { (next x).1 with memory := m' } ∧ out = (next x).2 := by
  obtain ⟨x, m', ran, holds⟩ := does_
  simp only [Uv.call, ran, Option.some.injEq, Prod.mk.injEq] at called
  exact ⟨x, m', holds, called.1.symm, called.2.symm⟩

theorem Uv.accounts_step (codec : DecodesInMemory h.decode grants base64Decode) {u u' : Uv}
    {a : UvAction} {out trace : List UvEvent} {lost : List UvConnect}
    (accounts : u.Accounts grants base trace lost)
    (stepped : Uv.step base64Decode grants u a = some (u', out)) :
    ∃ lost', u'.Accounts grants base (trace ++ out) lost' := by
  obtain ⟨alive, memory, few, all⟩ := accounts
  have goes : u.fault.isSome = false := by simp [alive]
  cases a with
  | connect_ client inits resolves starts =>
    simp only [Uv.step, goes, Bool.false_eq_true, ↓reduceIte] at stepped
    obtain ⟨c, m', ⟨lost', extends_, cause, certain⟩, rfl, rfl⟩ :=
      Uv.call_does (connect_does memory client inits resolves starts) stepped
    refine ⟨lost' ++ lost, alive, extends_.perm ?_, ?_, fun granted => ?_⟩
    · rw [List.perm_iff_count]
      intro x
      simp only [List.map_append, List.count_append]
      omega
    · rw [List.length_append, List.count_append, Nat.add_comm]
      refine Nat.add_le_add few ?_
      by_cases none_ : lost' = []
      · simp [none_]
      · obtain ⟨rfl, rfl, one⟩ := cause none_
        simp [one]
    · rw [List.length_append, List.count_append, Nat.add_comm, all granted]
      congr 1
      by_cases fails : inits = true ∧ resolves = false
      · obtain ⟨rfl, rfl⟩ := fails
        simp [(cause (certain granted rfl rfl)).2.2]
      · have none_ : lost' = [] := by
          by_contra some_
          exact fails ⟨(cause some_).1, (cause some_).2.1⟩
        rw [if_neg (by simpa using fails)]
        simp [none_]
  | onConnect c =>
    simp only [Uv.step, goes, Bool.false_eq_true, ↓reduceIte] at stepped
    split at stepped
    case isFalse => cases stepped
    rename_i flying
    have split : (u.writes.flatMap UvWrite.blocks ++ (u.connects ++ lost).map UvConnect.block).Perm
        (c.block :: (u.writes.flatMap UvWrite.blocks ++
          (u.connects.erase c ++ lost).map UvConnect.block)) :=
      ((((List.perm_cons_erase flying).append_right lost).map _).append_left _).trans
        List.perm_middle
    obtain ⟨client, m', ⟨rfl, extends_⟩, rfl, rfl⟩ :=
      Uv.call_does (onConnect_does (memory.perm split)) stepped
    exact ⟨lost, alive, extends_, by simpa using few, by simpa using all⟩
  | write_ queue =>
    simp only [Uv.step, goes, Bool.false_eq_true, ↓reduceIte] at stepped
    obtain ⟨writes, m', ⟨extends_, -⟩, rfl, rfl⟩ :=
      Uv.call_does (write_does codec queue memory) stepped
    have silent : (writes.map (UvEvent.wrote ·.payload)).count .unresolved = 0 := by
      simp [List.count_eq_zero]
    refine ⟨lost, alive, extends_.perm ?_, by simpa [silent] using few, by simpa [silent] using all⟩
    simp only [List.flatMap_append, ← List.append_assoc]
    exact List.perm_append_comm.append_right _
  | onWrite w =>
    simp only [Uv.step, goes, Bool.false_eq_true, ↓reduceIte] at stepped
    split at stepped
    case isFalse => cases stepped
    rename_i flying
    have split : (u.writes.flatMap UvWrite.blocks ++ (u.connects ++ lost).map UvConnect.block).Perm
        (w.blocks ++ ((u.writes.erase w).flatMap UvWrite.blocks ++
          (u.connects ++ lost).map UvConnect.block)) := by
      rw [← List.append_assoc, ← List.flatMap_cons]
      exact ((List.perm_cons_erase flying).flatMap_right _).append_right _
    obtain ⟨_, m', extends_, rfl, rfl⟩ := Uv.call_does (onWrite_does (memory.perm split)) stepped
    exact ⟨lost, alive, extends_, by simpa using few, by simpa using all⟩

theorem Uv.accounts_of_run (codec : DecodesInMemory h.decode grants base64Decode) {u : Uv}
    {trace : List UvEvent} (sound : m.Sound)
    (run : Reaches (Uv.step base64Decode grants) (.start m) u trace) :
    ∃ lost, u.Accounts grants m.blocks trace lost := by
  refine run.invariant (I := fun u trace => ∃ lost, u.Accounts grants m.blocks trace lost) ?_ ?_
  · exact ⟨[], rfl, .nil sound, by simp, by simp⟩
  · rintro u trace a u' out - ⟨lost, accounts⟩ - stepped
    exact Uv.accounts_step codec accounts stepped

/-- Whatever memory is refused and whatever fails, however the calls and callbacks
follow each other: nothing undefined is done with the memory of the requests; each
payload stays where it is until its callback; and once libuv has called back all
of them, all memory is given back but one `connect_req` for each name that did not
resolve. -/
theorem requests_freed_once (codec : DecodesInMemory h.decode grants base64Decode) {u : Uv}
    {trace : List UvEvent} (sound : m.Sound)
    (run : Reaches (Uv.step base64Decode grants) (.start m) u trace) :
    u.fault = none ∧
    (∀ w ∈ u.writes, u.memory.blocks w.base = some ((w.payload.map Cell.byte).map some)) ∧
    ∃ lost : List UvConnect, lost.length ≤ trace.count .unresolved ∧
      ((∀ k, grants k = true) → lost.length = trace.count .unresolved) ∧
      (lost.map UvConnect.req).Nodup ∧
      (∀ c ∈ lost, m.blocks c.req = none ∧ u.memory.blocks c.req = some [some (.ptr c.client)]) ∧
      (u.writes = [] → u.connects = [] → ∀ q, q ∉ lost.map UvConnect.req →
        u.memory.blocks q = m.blocks q) := by
  obtain ⟨lost, alive, memory, few, all⟩ := Uv.accounts_of_run codec sound run
  refine ⟨alive, fun w flying => ?_, lost, few, all, ?_, fun c gone => ?_,
    fun written connected q kept => ?_⟩
  · exact memory.held (w.base, _) (List.mem_append_left _
      (List.mem_flatMap.mpr ⟨w, flying, by simp [UvWrite.blocks]⟩))
  · have nodup := memory.nodup
    simp only [List.map_append, List.map_map, ← List.append_assoc] at nodup
    exact (List.nodup_append.mp nodup).2.1
  · have member : c.block ∈ u.writes.flatMap UvWrite.blocks ++
        (u.connects ++ lost).map UvConnect.block := by
      simp only [List.mem_append, List.map_append]
      exact .inr (.inr (List.mem_map_of_mem gone))
    exact ⟨memory.new _ member, memory.held _ member⟩
  · rw [written, connected] at memory
    exact memory.rest q (by simpa [UvConnect.block] using kept)

end

/-- A decoder that asks for the memory of what the string says. -/
def Sample.base64Decode (decode : Bytes → Option Bytes) (grants : Nat → Bool) (src : Option Ptr) :
    Code Cell (Option (Ptr × Nat)) := do
  let chars ← loadUntil Cell.isNul src
  match decode (text chars) with
  | none => pure none
  | some payload => do
    match ← malloc grants payload.length with
    | none => pure none
    | some dst =>
      store (some dst) 0 (payload.map .byte)
      pure (some (dst, payload.length))

theorem Sample.decodesInMemory (decode : Bytes → Option Bytes) (grants : Nat → Bool) :
    DecodesInMemory decode grants (Sample.base64Decode decode grants) := by
  intro m base l q s junk extends_
  have goes : ∀ x ∈ (cString s).map Cell.byte, x.isNul = false := by
    simp only [List.mem_map, forall_exists_index, and_imp]
    rintro x b member rfl
    simpa [Cell.isNul] using ne_zero_of_cString member
  refine (loadUntil_does extends_ List.mem_cons_self goes rfl).bind fun chars m' same => ?_
  obtain ⟨rfl, rfl⟩ := same
  rw [text_byte]
  cases coded : decode (cString s) with
  | none => exact .pure (.inl ⟨rfl, .inl rfl, extends_⟩)
  | some payload =>
    refine (malloc_does extends_).bind fun p m' done => ?_
    rcases done with ⟨rfl, refused, extends_⟩ | ⟨p, rfl, extends_⟩
    · exact .pure (.inl ⟨rfl, .inr refused, extends_⟩)
    · refine (store_does extends_ (by simp)).bind fun _ m' extends_ => .pure (.inr ?_)
      refine ⟨p, payload, rfl, rfl, ?_⟩
      simp only [List.length_map, Nat.sub_self, List.replicate_zero, List.append_nil] at extends_
      exact extends_.perm (.swap ..)

/-- Two backends, one of which has no address, and a message. -/
def Sample.requested : List UvAction :=
  [.connect_ 7 true true true, .connect_ 8 true false true, .write_ [(ascii "aGk%3D", true)],
    .onConnect ⟨0, 7⟩, .onWrite ⟨4, 3, ascii "hi"⟩]

/-- Everything is called back, and one request stays behind. -/
theorem requests_freed_once_requested : ∃ u trace,
    exec (Uv.step (Sample.base64Decode Sample.host.decode fun _ => true) fun _ => true)
      (.start ⟨fun _ => none, 0, 0⟩) Sample.requested = some (u, trace) ∧
    ∃ lost : List UvConnect, lost.length = 1 ∧
      ∀ q, q ∉ lost.map UvConnect.req → u.memory.blocks q = none := by
  have ran : exec (Uv.step (Sample.base64Decode Sample.host.decode fun _ => true) fun _ => true)
      (.start ⟨fun _ => none, 0, 0⟩) Sample.requested = some (_, [.unresolved, .wrote (ascii "hi"), .connected 7]) := rfl
  have empty : (⟨fun _ => none, 0, 0⟩ : Memory Cell).Sound := fun _ _ => rfl
  obtain ⟨-, -, lost, -, all, -, -, kept⟩ :=
    requests_freed_once (Sample.decodesInMemory _ _) empty (reaches_of_exec ran)
  exact ⟨_, _, ran, lost, all fun _ => rfl, kept rfl rfl⟩

end LinearFcgi
