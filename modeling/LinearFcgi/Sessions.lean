import LinearFcgi.Threads

/-! The session store by itself: what any sequence of its operations makes of
it. In the process other steps change the clients, but only these operations
change which of them are registered. -/
namespace LinearFcgi

open TraceMachine

namespace ClientStorage

/-- A call of one of the operations. -/
inductive Op where
  | create (id : Bytes) (allowOrigins : List Bytes) (timeout : Int) (alloc : Bool)
  | destroy (id : Bytes)
  | get (id : Bytes)

/-- A call and what it returned. -/
inductive Returned where
  | create (id : Bytes) (c : Option Addr)
  | destroy (id : Bytes)
  | get (id : Bytes) (c : Option Addr)

/-- One call. -/
def call : Step ClientStorage Op Returned
  | st, .create id allowOrigins timeout alloc =>
    match st.create id allowOrigins timeout alloc with
    | none => some (st, [.create id none])
    | some (c, st') => some (st', [.create id (some c)])
  | st, .destroy id => some ((st.destroy id).1, [.destroy id])
  | st, .get id => some (st, [.get id (st.get id)])

/-- `client_map_.size()`. -/
def size (st : ClientStorage) : Nat := st.clientMap.keys.length

/-- One entry is there that was not there before, for a client that was not
allocated; every other entry and client is as it was. -/
structure Adds (st st' : ClientStorage) (id : Bytes) (c : Addr) (cl : Client) : Prop where
  fresh : st.heap c = none
  get : ∀ id', st'.get id' = if id' = id then some c else st.get id'
  heap : ∀ d, st'.heap d = if d = c then some cl else st.heap d
  size : st'.size = st.size + 1

/-- One entry is gone, and its client with it; every other entry and client is
as it was. -/
structure Removes (st st' : ClientStorage) (id : Bytes) (c : Addr) : Prop where
  get : ∀ id', st'.get id' = if id' = id then none else st.get id'
  heap : ∀ d, st'.heap d = if d = c then none else st.heap d
  size : st'.size + 1 = st.size

/-- The latest `create` of the id that returned a client returned this one, and
no `destroy` of the id came after it. -/
def Latest (trace : List Returned) (id : Bytes) (c : Addr) : Prop :=
  ∃ before after, trace = before ++ .create id (some c) :: after ∧
    (∀ d, .create id (some d) ∉ after) ∧ .destroy id ∉ after

variable {st st' : ClientStorage} {trace out : List Returned} {maxClients : Nat}

/-! ## One call -/

section Map

variable {α : Type*} {β : α → Type*} [DecidableEq α]

theorem size_insert {m : AList β} {a : α} (b : β a) (absent : a ∉ m) :
    (m.insert a b).keys.length = m.keys.length + 1 := by
  rw [AList.keys_insert, List.erase_of_not_mem (AList.mem_keys.not.mp absent)]
  rfl

theorem size_erase {m : AList β} {a : α} (present : a ∈ m) :
    (m.erase a).keys.length + 1 = m.keys.length := by
  rw [AList.keys_erase]
  exact List.length_erase_add_one (AList.mem_keys.mp present)

end Map

theorem Sound.adds (sound : st.Sound) {id : Bytes} (cl : Client) (unknown : st.get id = none) :
    Adds st (st.insert id cl) id st.next cl where
  fresh := by
    by_contra taken
    obtain ⟨dl, live⟩ := Option.ne_none_iff_exists'.mp taken
    exact absurd (sound.fresh _ dl live) (Nat.lt_irrefl _)
  get id' := by
    by_cases same : id' = id
    · subst same
      rw [if_pos rfl]
      exact AList.lookup_insert _
    · rw [if_neg same]
      exact AList.lookup_insert_ne same
  heap := st.insert_heap id cl
  size := size_insert _ (AList.lookup_eq_none.mp unknown)

theorem removes_of_get {id : Bytes} {c : Addr} (found : st.get id = some c) :
    Removes st (st.erase id c) id c where
  get id' := by
    by_cases same : id' = id
    · subst same
      rw [if_pos rfl]
      exact AList.lookup_erase _ _
    · rw [if_neg same]
      exact AList.lookup_erase_ne same
  heap := st.erase_heap id c
  size := size_erase (AList.lookup_isSome.mp (Option.isSome_iff_exists.mpr ⟨c, found⟩))

/-- A call of `create` adds a new client, or does nothing if it must not. -/
theorem Sound.create_spec (sound : st.Sound) (id : Bytes) (allowOrigins : List Bytes)
    (timeout : Int) (alloc : Bool) :
    if st.size < st.maxClients ∧ st.get id = none ∧ alloc = true then
      ∃ c st', call st (.create id allowOrigins timeout alloc) =
          some (st', [.create id (some c)]) ∧
        Adds st st' id c (Client.new id allowOrigins timeout)
    else call st (.create id allowOrigins timeout alloc) = some (st, [.create id none]) := by
  split
  · rename_i may
    obtain ⟨room, unknown, allocated⟩ := may
    refine ⟨st.next, st.insert id (Client.new id allowOrigins timeout), ?_,
      sound.adds _ unknown⟩
    have made : st.create id allowOrigins timeout alloc = some (st.next, _) :=
      create_eq_some.mpr ⟨room, unknown, allocated, rfl, rfl⟩
    simp only [call, made]
  · rename_i mustNot
    have refused : st.create id allowOrigins timeout alloc = none := by
      refine Option.eq_none_iff_forall_ne_some.mpr fun ⟨c, st'⟩ made => mustNot ?_
      obtain ⟨room, unknown, allocated, -⟩ := create_eq_some.mp made
      exact ⟨room, unknown, allocated⟩
    simp only [call, refused]

/-- A call of `destroy` removes the entry, if there is one. -/
theorem destroy_spec (st : ClientStorage) (id : Bytes) :
    ∃ st', call st (.destroy id) = some (st', [.destroy id]) ∧
      (st.get id = none → st' = st) ∧ ∀ c, st.get id = some c → Removes st st' id c := by
  refine ⟨(st.destroy id).1, rfl, ?_, ?_⟩
  · intro unknown
    have missing : st.clientMap.lookup id = none := unknown
    simp only [destroy, missing]
  · intro c found
    have present : st.clientMap.lookup id = some c := found
    simp only [destroy, present]
    exact removes_of_get found

/-- What any call does to the map. -/
theorem call_cases {op : Op} (sound : st.Sound) (called : call st op = some (st', out)) :
    (∃ id c cl, out = [.create id (some c)] ∧ st.size < st.maxClients ∧ st.get id = none ∧
      cl.id = id ∧ st' = st.insert id cl ∧ Adds st st' id c cl) ∨
    (∃ id c cl, out = [.destroy id] ∧ st.heap c = some cl ∧ cl.id = id ∧ st' = st.erase id c ∧
      Removes st st' id c) ∨
    (st' = st ∧ ∃ id, out = [.create id none] ∨ (out = [.destroy id] ∧ st.get id = none) ∨
      ∃ c, out = [.get id c]) := by
  cases op with
  | create id allowOrigins timeout alloc =>
    simp only [call] at called
    split at called
    · cases called
      exact .inr (.inr ⟨rfl, id, .inl rfl⟩)
    · rename_i c st₁ made
      obtain ⟨room, unknown, -, rfl, rfl⟩ := create_eq_some.mp made
      cases called
      exact .inl ⟨id, _, _, rfl, room, unknown, rfl, rfl, sound.adds _ unknown⟩
  | destroy id =>
    cases called
    cases found : st.get id with
    | none =>
      have missing : st.clientMap.lookup id = none := found
      refine .inr (.inr ⟨by simp only [destroy, missing], id, .inr (.inl ⟨rfl, found⟩)⟩)
    | some c =>
      have present : st.clientMap.lookup id = some c := found
      obtain ⟨cl, live, named⟩ := sound.allocated id c present
      have gone : (st.destroy id).1 = st.erase id c := by simp only [destroy, present]
      exact .inr (.inl ⟨id, c, cl, rfl, live, named, gone, gone ▸ removes_of_get found⟩)
  | get id =>
    cases called
    exact .inr (.inr ⟨rfl, id, .inr (.inr ⟨_, rfl⟩)⟩)

/-! ## Any sequence of calls -/

/-- The store after any sequence of calls. -/
structure Kept (maxClients : Nat) (st : ClientStorage) (trace : List Returned) : Prop where
  sound : st.Sound
  limit : st.maxClients = maxClients
  room : st.size ≤ maxClients
  latest : ∀ id c, st.get id = some c ↔ Latest trace id c

theorem latest_append {e : Returned} {id : Bytes} {c : Addr} :
    Latest (trace ++ [e]) id c ↔ e = .create id (some c) ∨
      (∀ d, e ≠ .create id (some d)) ∧ e ≠ .destroy id ∧ Latest trace id c := by
  constructor
  · rintro ⟨before, after, split, latest, kept⟩
    rcases List.eq_nil_or_concat after with rfl | ⟨after, x, rfl⟩
    · exact .inl (List.cons.inj (List.append_inj' split rfl).2).1
    · rw [List.concat_eq_append, ← List.cons_append, ← List.append_assoc] at split
      obtain ⟨rfl, same⟩ := List.append_inj' split rfl
      obtain rfl := (List.cons.inj same).1
      simp only [List.concat_eq_append, List.mem_append, List.mem_singleton, not_or] at latest kept
      exact .inr ⟨fun d same => (latest d).2 same.symm, fun same => kept.2 same.symm, before, after,
        rfl, fun d => (latest d).1, kept.1⟩
  · rintro (rfl | ⟨other, kept, before, after, rfl, latest, kept'⟩)
    · exact ⟨trace, [], rfl, by simp, by simp⟩
    · refine ⟨before, after ++ [e], by simp, fun d => ?_, ?_⟩
      · simpa using ⟨latest d, fun same => other d same.symm⟩
      · simpa using ⟨kept', fun same => kept same.symm⟩

theorem new_kept (maxClients : Nat) : Kept maxClients (.new maxClients) [] where
  sound := new_sound maxClients
  limit := rfl
  room := Nat.zero_le _
  latest id c := by
    constructor
    · intro found
      cases found
    · rintro ⟨before, after, split, -⟩
      simp at split

theorem Kept.call (kept : Kept maxClients st trace) {op : Op} (called : call st op = some (st', out)) :
    Kept maxClients st' (trace ++ out) := by
  obtain ⟨sound, limit, room, latest⟩ := kept
  rcases call_cases sound called with ⟨id, c, cl, rfl, short, unknown, rfl, rfl, adds⟩ |
    ⟨id, c, cl, rfl, live, rfl, rfl, removes⟩ | ⟨rfl, id, idle⟩
  · refine ⟨sound.insert unknown, limit, ?_, fun id' d => ?_⟩
    · rw [adds.size, ← limit]
      exact short
    · rw [latest_append, adds.get]
      by_cases same : id' = cl.id
      · subst same
        simp [← latest, unknown]
      · simp [same, Ne.symm same, latest]
  · refine ⟨sound.erase live, limit, ?_, fun id' d => ?_⟩
    · have size := removes.size
      omega
    · rw [latest_append, removes.get]
      by_cases same : id' = cl.id
      · simp [same]
      · simp [same, Ne.symm same, latest]
  · refine ⟨sound, limit, room, fun id' d => ?_⟩
    rcases idle with rfl | ⟨rfl, unknown⟩ | ⟨c, rfl⟩
    · simp [latest_append, latest]
    · rw [latest_append]
      by_cases same : id' = id
      · simp [same, unknown]
      · simp [Ne.symm same, latest]
    · simp [latest_append, latest]

theorem kept_of_run (run : Reaches ClientStorage.call (.new maxClients) st trace) :
    Kept maxClients st trace := by
  refine run.invariant (I := fun st trace => Kept maxClients st trace) (new_kept maxClients) ?_
  intro st trace op st' out _ kept _ called
  exact kept.call called

/-- After any sequence of calls, whatever `max_clients` is: there are no more
sessions than that; each id leads to the client of the latest `create` that has
not been destroyed, whose own id it is; `create` adds one new client exactly if
there is room, the id is unknown and there is memory, and does nothing
otherwise; `destroy` removes exactly the one that is named, if it is there. -/
theorem session_store (run : Reaches ClientStorage.call (.new maxClients) st trace) :
    st.size ≤ maxClients ∧
    (∀ id c, st.get id = some c → ∃ cl, st.heap c = some cl ∧ cl.id = id) ∧
    (∀ id allowOrigins timeout alloc,
      if st.size < maxClients ∧ st.get id = none ∧ alloc = true then
        ∃ c st', call st (.create id allowOrigins timeout alloc) =
            some (st', [.create id (some c)]) ∧
          (Client.new id allowOrigins timeout).state = .disconnected ∧
          Adds st st' id c (Client.new id allowOrigins timeout)
      else call st (.create id allowOrigins timeout alloc) = some (st, [.create id none])) ∧
    (∀ id, ∃ st', call st (.destroy id) = some (st', [.destroy id]) ∧
      (st.get id = none → st' = st) ∧ ∀ c, st.get id = some c → Removes st st' id c) ∧
    ∀ id, call st (.get id) = some (st, [.get id (st.get id)]) ∧
      ∀ c, st.get id = some c ↔ Latest trace id c := by
  obtain ⟨sound, limit, room, latest⟩ := kept_of_run run
  refine ⟨room, sound.allocated, ?_, destroy_spec st, fun id => ⟨rfl, latest id⟩⟩
  intro id allowOrigins timeout alloc
  have spec := sound.create_spec id allowOrigins timeout alloc
  rw [limit] at spec
  split
  · rename_i may
    rw [if_pos may] at spec
    obtain ⟨c, st', called, adds⟩ := spec
    exact ⟨c, st', called, rfl, adds⟩
  · rename_i mustNot
    rwa [if_neg mustNot] at spec

end ClientStorage

/-! ## The process -/

section

variable {h : Host} {s s' : Sys} {a : Action} {out trace : List Event}

/-- A step of the process changes the clients, or makes one of these calls. -/
theorem Transition.calls (t : Transition h s a s' out) :
    (s'.storage.clientMap = s.storage.clientMap ∧ s'.storage.maxClients = s.storage.maxClients) ∨
      ∃ op returned, ClientStorage.call s.storage op = some (s'.storage, returned) := by
  cases t
  case create o backend at_ unknown room alloc =>
    have made : s.storage.create s.uuid backend.origins h.timeout true =
        some (s.storage.next, _) :=
      ClientStorage.create_eq_some.mpr ⟨room, unknown, rfl, rfl, rfl⟩
    refine .inr ⟨.create s.uuid backend.origins h.timeout true,
      [.create s.uuid (some s.storage.next)], ?_⟩
    simp only [ClientStorage.call, made]
  case destroy o c cl at_ live => exact .inr ⟨.destroy cl.id, _, rfl⟩
  all_goals exact .inl ⟨rfl, rfl⟩

/-- So the process never has more sessions than it may. -/
theorem size_le_of_run {guard : Sys → Action → Prop} (run : Run (step h) guard (.start h) s trace) :
    s.storage.size ≤ h.maxClients := by
  have bounded : s.storage.size ≤ s.storage.maxClients ∧ s.storage.maxClients = h.maxClients := by
    refine run.invariant (I := fun s _ => s.storage.size ≤ s.storage.maxClients ∧
      s.storage.maxClients = h.maxClients) ⟨Nat.zero_le _, rfl⟩ ?_
    rintro s trace a s' out before ⟨room, limit⟩ - stepped
    have sane := sane_of_run before
    rcases (step_cases stepped).2.calls with ⟨same, limit'⟩ | ⟨op, returned, called⟩
    · rw [limit', ClientStorage.size, same]
      exact ⟨room, limit⟩
    · rcases ClientStorage.call_cases sane.sound called with
        ⟨id, c, cl, -, short, -, -, kept, adds⟩ | ⟨id, c, cl, -, -, -, kept, removes⟩ | ⟨kept, -⟩
      · have same : s'.storage.maxClients = s.storage.maxClients := by rw [kept]; rfl
        rw [adds.size, same]
        exact ⟨short, limit⟩
      · have same : s'.storage.maxClients = s.storage.maxClients := by rw [kept]; rfl
        have size := removes.size
        rw [same]
        exact ⟨by omega, limit⟩
      · rw [kept]
        exact ⟨room, limit⟩
  exact bounded.2 ▸ bounded.1

end

/-- There is room for one session: the second has to wait until the first is
destroyed. -/
theorem ClientStorage.session_store_one : ∃ st trace,
    exec ClientStorage.call (.new 1) [.create (ascii "a") [] 30 true, .create (ascii "b") [] 30 true,
      .destroy (ascii "a"), .create (ascii "b") [] 30 true] = some (st, trace) ∧
    st.size ≤ 1 ∧ st.get (ascii "b") = some 1 ∧ ClientStorage.Latest trace (ascii "b") 1 := by
  have ran : exec ClientStorage.call (.new 1) [.create (ascii "a") [] 30 true,
    .create (ascii "b") [] 30 true, .destroy (ascii "a"), .create (ascii "b") [] 30 true] =
      some (_, _) := rfl
  obtain ⟨room, -, -, -, gets⟩ := session_store (reaches_of_exec ran)
  exact ⟨_, _, ran, room, rfl, ((gets (ascii "b")).2 1).mp rfl⟩

end LinearFcgi
