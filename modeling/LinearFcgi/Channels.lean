import LinearFcgi.Threads

/-! A session has two queues, one in each direction. Each of them, seen from
its two ends, is the abstract queue: the system as a whole refines it, once for
every session. What comes out is what went in, in order, less what is inside. -/
namespace LinearFcgi

open TraceMachine

/-- The step does not run out of memory. -/
def Action.allocates : Action → Bool
  | .server o | .loop o => o ≠ .noMemory
  | _ => true

/-- The operations on the queue of chunks that came from the backend of `c`. -/
def observeReads (c : Addr) : Event → Option (Fifo.Event Bytes)
  | .received d chunk => if d = c then some (.pushed chunk) else none
  | .taken _ d chunk => if d = c then some (.popped chunk) else none
  | .empty _ d => if d = c then some .empty else none
  | _ => none

/-- The operations on the queue of strings that are to go to the backend. -/
def observeWrites (c : Addr) : Event → Option (Fifo.Event Bytes)
  | .written _ d data => if d = c then some (.pushed data) else none
  | .unqueued d data => if d = c then some (.popped data) else none
  | _ => none

/-- The chunks `onRead` enqueued for the session. -/
def received (c : Addr) (trace : List Event) : List Bytes :=
  trace.filterMap fun | .received d chunk => if d = c then some chunk else none | _ => none

/-- The chunks polls removed from the session's read queue. -/
def taken (c : Addr) (trace : List Event) : List Bytes :=
  trace.filterMap fun | .taken _ d chunk => if d = c then some chunk else none | _ => none

@[simp] theorem received_append (c : Addr) (trace out : List Event) :
    received c (trace ++ out) = received c trace ++ received c out := List.filterMap_append

@[simp] theorem taken_append (c : Addr) (trace out : List Event) :
    taken c (trace ++ out) = taken c trace ++ taken c out := List.filterMap_append

/-- The requests made to the loop thread. -/
def asked (trace : List Event) : List LoopRequest :=
  trace.filterMap fun | .requested _ r => some r | _ => none

@[simp] theorem asked_append (trace out : List Event) :
    asked (trace ++ out) = asked trace ++ asked out := List.filterMap_append

/-- The strings `Client::write` accepted for the session. -/
def written (c : Addr) (trace : List Event) : List Bytes :=
  trace.filterMap fun | .written _ d data => if d = c then some data else none | _ => none

/-- The strings `Client::_write` consumed. -/
def unqueued (c : Addr) (trace : List Event) : List Bytes :=
  trace.filterMap fun | .unqueued d data => if d = c then some data else none | _ => none

/-- One of the queues of the client at `c` holds `q`. Before the client is
created nothing can be in it, and after it is deleted nobody can tell. -/
structure Carries (queue : Client → List Bytes) (c : Addr) (s : Sys) (q : List Bytes) : Prop where
  sane : Sane s
  holds : ∀ cl, s.storage.heap c = some cl → queue cl = q
  unborn : s.storage.next ≤ c → q = []

theorem start_carries (h : Host) (queue : Client → List Bytes) (c : Addr) :
    Carries queue c (.start h) [] := ⟨start_sane h, nofun, fun _ => rfl⟩

/-- A live client was created, so its address is not one still to be used. -/
theorem Sane.born {s : Sys} (sane : Sane s) {c : Addr} {cl : Client}
    (live : s.storage.heap c = some cl) : ¬ s.storage.next ≤ c :=
  Nat.not_le.mpr (sane.sound.fresh c cl live)

/-- What is in a queue of a client after the step was in it before. -/
def Keeps (queue : Client → List Bytes) (s s' : Sys) : Prop :=
  ∀ c cl', s'.storage.heap c = some cl' → (s.storage.next ≤ c ∧ queue cl' = []) ∨
    ∃ cl, s.storage.heap c = some cl ∧ queue cl' = queue cl

section Keeps

variable {queue : Client → List Bytes} {s s' : Sys} {c : Addr} {cl cl' : Client}

theorem keeps_of_eq (same : s'.storage = s.storage) : Keeps queue s s' := by
  intro c cl' live
  rw [same] at live
  exact .inr ⟨cl', live, rfl⟩

theorem keeps_of_set (live : s.storage.heap c = some cl)
    (same : s'.storage = s.storage.set c cl') (kept : queue cl' = queue cl) :
    Keeps queue s s' := by
  intro d dl held
  rw [same, ClientStorage.set_heap] at held
  split at held
  · rename_i self
    cases held
    exact .inr ⟨cl, self ▸ live, kept⟩
  · exact .inr ⟨dl, held, rfl⟩

theorem keeps_of_insert {id : Bytes} (same : s'.storage = s.storage.insert id cl)
    (empty : queue cl = []) : Keeps queue s s' := by
  intro d dl held
  rw [same, ClientStorage.insert_heap] at held
  split at held
  · rename_i new
    cases held
    exact .inl ⟨Nat.le_of_eq new.symm, empty⟩
  · exact .inr ⟨dl, held, rfl⟩

theorem keeps_of_destroy (sane : Sane s) (live : s.storage.heap c = some cl)
    (same : s'.storage = (s.storage.destroy cl.id).1) : Keeps queue s s' := by
  intro d dl held
  rw [same, sane.sound.destroy_eq live, ClientStorage.erase_heap] at held
  split at held
  · cases held
  · exact .inr ⟨dl, held, rfl⟩

end Keeps

section Simulate

variable {s : Sys} {c d : Addr} {q : List Bytes} {cl : Client}

/-- A step on no queue, or on the other one. -/
private theorem Carries.keep {queue : Client → List Bytes} (carries : Carries queue c s q)
    {s' : Sys} (sane' : Sane s') (keeps : Keeps queue s s')
    (grows : s.storage.next ≤ s'.storage.next) : Carries queue c s' q where
  sane := sane'
  holds := by
    intro cl' live
    rcases keeps c cl' live with ⟨new, empty⟩ | ⟨cl, before, same⟩
    · rw [empty, carries.unborn new]
    · rw [same, carries.holds cl before]
  unborn unborn := carries.unborn (grows.trans unborn)

/-- A step on one client leaves the queues of another as they are. -/
private theorem Carries.other {queue : Client → List Bytes} (carries : Carries queue c s q)
    {s' : Sys} (sane' : Sane s') (distinct : d ≠ c) (same : s'.storage = s.storage.set d cl) :
    Carries queue c s' q where
  sane := sane'
  holds := by
    rw [same]
    intro cl' live
    rw [ClientStorage.set_heap, if_neg distinct.symm] at live
    exact carries.holds cl' live
  unborn := by
    rw [same]
    exact carries.unborn

/-- A step on the client itself makes its queue what the step says. -/
private theorem Carries.self {queue : Client → List Bytes} (sane : Sane s)
    (live : s.storage.heap c = some cl) {s' : Sys} (sane' : Sane s') {cl' : Client}
    (same : s'.storage = s.storage.set c cl') : Carries queue c s' (queue cl') where
  sane := sane'
  holds := by
    rw [same]
    intro dl held
    rw [ClientStorage.set_heap, if_pos rfl] at held
    cases held
    rfl
  unborn := by
    rw [same]
    exact fun unborn => absurd unborn (sane.born live)

theorem reads_simulate (h : Host) (c : Addr) :
    Simulation (step h) always Fifo.step always (observeReads c) (Carries Client.readQueue c) where
  follow s q a s' out carries any stepped := by
    have t := (step_cases stepped).2
    have sane := carries.sane
    have sane' := sane.step t
    have grows := t.next_le
    clear any stepped
    cases t
    case readStore o d chunk cl at_ live room copied =>
      by_cases same : d = c
      · subst same
        refine ⟨_, .self sane live sane' rfl, .inr ⟨.push chunk, trivial, ?_⟩⟩
        simp [observeReads, Fifo.step, carries.holds cl live]
      · exact ⟨q, carries.other sane' same rfl, .inl ⟨rfl, by simp [observeReads, same]⟩⟩
    case pollTake o d data chunk queue cl at_ live oldest nonempty copied =>
      by_cases same : d = c
      · subst same
        refine ⟨_, .self sane live sane' rfl, .inr ⟨.pop, trivial, ?_⟩⟩
        simp [observeReads, Fifo.step, ← carries.holds cl live, oldest]
      · exact ⟨q, carries.other sane' same rfl, .inl ⟨rfl, by simp [observeReads, same]⟩⟩
    case pollBlank o d data queue cl at_ live oldest =>
      by_cases same : d = c
      · subst same
        refine ⟨_, .self sane live sane' rfl, .inr ⟨.pop, trivial, ?_⟩⟩
        simp [observeReads, Fifo.step, ← carries.holds cl live, oldest]
      · exact ⟨q, carries.other sane' same rfl, .inl ⟨rfl, by simp [observeReads, same]⟩⟩
    case pollEmpty o d data cl at_ live drained =>
      refine ⟨q, ⟨sane', carries.holds, carries.unborn⟩, ?_⟩
      by_cases same : d = c
      · subst same
        have empty : q = [] := by rw [← carries.holds cl live, drained]
        exact .inr ⟨.pop, trivial, by simp [observeReads, Fifo.step, empty]⟩
      · exact .inl ⟨rfl, by simp [observeReads, same]⟩
    case create o backend at_ unknown room alloc =>
      exact ⟨q, carries.keep sane' (keeps_of_insert rfl rfl) grows, .inl ⟨rfl, rfl⟩⟩
    case connect_ o d cl at_ live free =>
      have kept := connect_readQueue cl o
      exact ⟨q, carries.keep sane' (keeps_of_set live rfl kept) grows, .inl ⟨rfl, rfl⟩⟩
    case destroy o d cl at_ live =>
      refine ⟨q, carries.keep sane' (keeps_of_destroy sane live rfl) grows, .inl ⟨rfl, ?_⟩⟩
      simp [sane.sound.destroy_eq live, observeReads]
    all_goals
      refine ⟨q, carries.keep sane' ?_ grows, .inl ⟨rfl, rfl⟩⟩
      first
      | exact keeps_of_eq rfl
      | refine keeps_of_set (by assumption) rfl ?_
        rfl

theorem writes_simulate (h : Host) (c : Addr) :
    Simulation (step h) always Fifo.step always (observeWrites c)
      (Carries Client.writeQueue c) where
  follow s q a s' out carries any stepped := by
    have t := (step_cases stepped).2
    have sane := carries.sane
    have sane' := sane.step t
    have grows := t.next_le
    clear any stepped
    cases t
    case writeProduce o d data cl at_ live =>
      by_cases same : d = c
      · subst same
        refine ⟨_, .self sane live sane' rfl, .inr ⟨.push data, trivial, ?_⟩⟩
        simp [observeWrites, Fifo.step, carries.holds cl live]
      · exact ⟨q, carries.other sane' same rfl, .inl ⟨rfl, by simp [observeWrites, same]⟩⟩
    case writeDrop o d data queue cl at_ live oldest dropped =>
      by_cases same : d = c
      · subst same
        refine ⟨_, .self sane live sane' rfl, .inr ⟨.pop, trivial, ?_⟩⟩
        simp [observeWrites, Fifo.step, ← carries.holds cl live, oldest]
      · exact ⟨q, carries.other sane' same rfl, .inl ⟨rfl, by simp [observeWrites, same]⟩⟩
    case writeSome o d data sent queue cl at_ live oldest decoded =>
      by_cases same : d = c
      · subst same
        refine ⟨_, .self sane live sane' rfl, .inr ⟨.pop, trivial, ?_⟩⟩
        simp [observeWrites, Fifo.step, ← carries.holds cl live, oldest]
      · exact ⟨q, carries.other sane' same rfl, .inl ⟨rfl, by simp [observeWrites, same]⟩⟩
    case create o backend at_ unknown room alloc =>
      exact ⟨q, carries.keep sane' (keeps_of_insert rfl rfl) grows, .inl ⟨rfl, rfl⟩⟩
    case connect_ o d cl at_ live free =>
      have kept := connect_writeQueue cl o
      exact ⟨q, carries.keep sane' (keeps_of_set live rfl kept) grows, .inl ⟨rfl, rfl⟩⟩
    case destroy o d cl at_ live =>
      refine ⟨q, carries.keep sane' (keeps_of_destroy sane live rfl) grows, .inl ⟨rfl, ?_⟩⟩
      simp [sane.sound.destroy_eq live, observeWrites]
    all_goals
      refine ⟨q, carries.keep sane' ?_ grows, .inl ⟨rfl, rfl⟩⟩
      first
      | exact keeps_of_eq rfl
      | refine keeps_of_set (by assumption) rfl ?_
        rfl

end Simulate

theorem pushed_reads (c : Addr) (trace : List Event) :
    Fifo.pushed (trace.filterMap (observeReads c)) = received c trace := by
  rw [Fifo.pushed, received, List.filterMap_filterMap]
  congr 1
  funext e
  cases e <;> simp only [observeReads] <;> first | rfl | (split <;> rfl)

theorem popped_reads (c : Addr) (trace : List Event) :
    Fifo.popped (trace.filterMap (observeReads c)) = taken c trace := by
  rw [Fifo.popped, taken, List.filterMap_filterMap]
  congr 1
  funext e
  cases e <;> simp only [observeReads] <;> first | rfl | (split <;> rfl)

theorem pushed_writes (c : Addr) (trace : List Event) :
    Fifo.pushed (trace.filterMap (observeWrites c)) = written c trace := by
  rw [Fifo.pushed, written, List.filterMap_filterMap]
  congr 1
  funext e
  cases e <;> simp only [observeWrites] <;> first | rfl | (split <;> rfl)

theorem popped_writes (c : Addr) (trace : List Event) :
    Fifo.popped (trace.filterMap (observeWrites c)) = unqueued c trace := by
  rw [Fifo.popped, unqueued, List.filterMap_filterMap]
  congr 1
  funext e
  cases e <;> simp only [observeWrites] <;> first | rfl | (split <;> rfl)

section Run

variable {h : Host} {guard : Sys → Action → Prop} {s : Sys} {trace : List Event}

/-- The chunks received for a session are those polls have taken, in order,
followed by those in its read queue. -/
theorem reads_conserved (run : Run (step h) guard (.start h) s trace) (c : Addr) :
    ∃ q, received c trace = taken c trace ++ q ∧
      ∀ cl, s.storage.heap c = some cl → cl.readQueue = q := by
  obtain ⟨q, carries, abstract⟩ :=
    (reads_simulate h c).run (start_carries h Client.readQueue c) run.reaches
  refine ⟨q, ?_, carries.holds⟩
  rw [← pushed_reads, ← popped_reads]
  exact Fifo.conserved abstract

/-- What is in the session's read queue, as the history tells. -/
def queued (c : Addr) (trace : List Event) : List Bytes :=
  (received c trace).drop (taken c trace).length

theorem queued_of_run (run : Run (step h) guard (.start h) s trace) {c : Addr} {cl : Client}
    (live : s.storage.heap c = some cl) : cl.readQueue = queued c trace := by
  obtain ⟨q, conserved, holds⟩ := reads_conserved run c
  rw [queued, conserved, List.drop_left, holds cl live]

/-- The strings accepted for a session are those `_write` has consumed, in
order, followed by those in its write queue. -/
theorem writes_conserved (run : Run (step h) guard (.start h) s trace) (c : Addr) :
    ∃ q, written c trace = unqueued c trace ++ q ∧
      ∀ cl, s.storage.heap c = some cl → cl.writeQueue = q := by
  obtain ⟨q, carries, abstract⟩ :=
    (writes_simulate h c).run (start_carries h Client.writeQueue c) run.reaches
  refine ⟨q, ?_, carries.holds⟩
  rw [← pushed_writes, ← popped_writes]
  exact Fifo.conserved abstract

end Run

end LinearFcgi
