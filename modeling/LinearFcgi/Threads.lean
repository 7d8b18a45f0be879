import LinearFcgi.Transitions

/-! What always holds of the two threads: who has the storage lock and a
client's mutex follows from where the threads stand, and every client a thread
is working on is still allocated. Only a request in the queue may outlive its
client. -/
namespace LinearFcgi

open TraceMachine

/-- Between `client_storage_.lock()` and `client_storage_.unlock()`. -/
def ServerPc.holdsStorage : ServerPc → Bool
  | .accept | .lock _ | .pollEncode _ _ => false
  | .locked _ | .disconnectReturn | .postReturn => true
  | .connectBegin _ _ | .connectEnqueue _ | .connectSend _ | .connectPublish _
  | .connectWait _ _ | .connectReturn _ _ => true
  | .disconnectBegin _ _ | .disconnectEnqueue _ _ | .disconnectSend _ _ => true
  | .pollTest _ _ | .pollTouch _ _ | .pollConsume _ _ | .pollStore _ _ _ => true
  | .writeTest _ _ | .writeProduce _ _ | .writeEnqueue _ | .writeSend _ => true

/-- The client whose `state_mutex_` the server thread keeps between steps. -/
def ServerPc.mutex : ServerPc → Option Addr
  | .connectEnqueue c | .connectSend c | .connectPublish c => some c
  | .accept | .lock _ | .locked _ | .disconnectReturn | .postReturn => none
  | .connectBegin _ _ | .connectWait _ _ | .connectReturn _ _ => none
  | .disconnectBegin _ _ | .disconnectEnqueue _ _ | .disconnectSend _ _ => none
  | .pollTest _ _ | .pollTouch _ _ | .pollConsume _ _ | .pollStore _ _ _ => none
  | .pollEncode _ _ | .writeTest _ _ | .writeProduce _ _ | .writeEnqueue _ | .writeSend _ => none

def LoopPc.holdsStorage : LoopPc → Bool
  | .timerScan _ | .destroy _ => true
  | .idle | .drain | .dispatch _ | .write _ | .connectTail _ | .readTail _ _ | .timerLock
  | .closeLock _ => false

/-- The clients the loop thread is working on. A request it has dequeued and
not looked at yet is not among them. -/
def LoopPc.held : LoopPc → List Addr
  | .write c | .connectTail c | .readTail c _ | .closeLock c | .destroy c => [c]
  | .timerScan clients => clients
  | .idle | .drain | .timerLock | .dispatch _ => []

def LoopPc.dispatching : LoopPc → List LoopRequest
  | .dispatch r => [r]
  | .idle | .drain | .write _ | .connectTail _ | .readTail _ _ | .timerLock | .timerScan _
  | .closeLock _ | .destroy _ => []

/-- The requests still to be carried out, the oldest first. -/
def Sys.pending (s : Sys) : List LoopRequest := s.loop.dispatching ++ s.requestQueue

structure Sane (s : Sys) : Prop where
  sound : s.storage.Sound
  serverHolds : s.storageLock = some .server ↔ s.server.holdsStorage = true
  loopHolds : s.storageLock = some .loop ↔ s.loop.holdsStorage = true
  serverClient : ∀ c, s.server.client = some c → ∃ cl, s.storage.heap c = some cl
  loopClients : ∀ c ∈ s.loop.held, ∃ cl, s.storage.heap c = some cl
  mutex : ∀ c cl, s.storage.heap c = some cl → (cl.stateMutex = true ↔ s.server.mutex = some c)
  known : ∀ r ∈ s.pending, r.client < s.storage.next

attribute [grind =] ServerPc.holdsStorage ServerPc.mutex ServerPc.client LoopPc.holdsStorage
  LoopPc.clients LoopPc.held LoopPc.dispatching Sys.pending Fifo.push Client.new Client.prepare
  Client.await
attribute [grind →] ClientStorage.Sound.fresh

section

variable (s : Sys) (c d : Addr) (cl : Client) (caller : Caller) (o : Outcome)

@[simp, grind =] theorem disconnect_storage : (s.disconnect_ c cl).storage =
    s.storage.set c { cl with handle := .closing } := rfl

@[simp, grind =] theorem disconnect_storageLock :
    (s.disconnect_ c cl).storageLock = s.storageLock := rfl

@[simp, grind =] theorem disconnect_requestQueue :
    (s.disconnect_ c cl).requestQueue = s.requestQueue := rfl

@[simp, grind =] theorem disconnect_asyncPending :
    (s.disconnect_ c cl).asyncPending = s.asyncPending := rfl

@[simp, grind =] theorem disconnect_server : (s.disconnect_ c cl).server = s.server := rfl

@[simp, grind =] theorem disconnect_loop : (s.disconnect_ c cl).loop = s.loop := rfl

@[simp, grind =] theorem disconnect_clock : (s.disconnect_ c cl).clock = s.clock := rfl

@[simp, grind =] theorem disconnect_exchange : (s.disconnect_ c cl).exchange = s.exchange := rfl

@[simp, grind =] theorem disconnect_request : (s.disconnect_ c cl).request = s.request := rfl

@[simp, grind =] theorem connect_id : (cl.connect_ o).id = cl.id := by cases o <;> rfl

@[simp, grind =] theorem connect_stateMutex : (cl.connect_ o).stateMutex = cl.stateMutex := by
  cases o <;> rfl

@[simp, grind =] theorem connect_readQueue : (cl.connect_ o).readQueue = cl.readQueue := by
  cases o <;> rfl

@[simp, grind =] theorem connect_writeQueue : (cl.connect_ o).writeQueue = cl.writeQueue := by
  cases o <;> rfl

@[simp, grind =] theorem connect_lastAccess : (cl.connect_ o).lastAccess = cl.lastAccess := by
  cases o <;> rfl

@[simp, grind =] theorem connect_allowOrigins :
    (cl.connect_ o).allowOrigins = cl.allowOrigins := by cases o <;> rfl

@[simp, grind =] theorem resume_holdsStorage : (caller.resume c).holdsStorage = true := by
  cases caller <;> rfl

@[simp, grind =] theorem resume_mutex : (caller.resume c).mutex = none := by cases caller <;> rfl

@[simp, grind =] theorem resume_client :
    (caller.resume c).client = some d ↔ caller = .connect ∧ c = d := by
  cases caller <;> simp [Caller.resume, ServerPc.client]

end

theorem Handler.Enters.spec {req : Request} {c : Addr} {handler : Handler} {pc : ServerPc}
    (enters : handler.Enters req c pc) :
    pc.holdsStorage = true ∧ pc.client = some c ∧ pc.mutex = none := by
  cases enters <;> exact ⟨rfl, rfl, rfl⟩

theorem Handler.Skips.spec {req : Request} {handler : Handler} {pc : ServerPc}
    (skips : handler.Skips req pc) :
    pc.holdsStorage = true ∧ pc.client = none ∧ pc.mutex = none := by
  cases skips <;> exact ⟨rfl, rfl, rfl⟩

/-- A pointer the server thread uses was got under the storage lock, and the
lock is still held. -/
theorem ServerPc.holdsStorage_of_client {pc : ServerPc} {c : Addr} (uses : pc.client = some c) :
    pc.holdsStorage = true := by
  cases pc <;> first | rfl | cases uses

theorem ServerPc.client_of_mutex {pc : ServerPc} {c : Addr} (keeps : pc.mutex = some c) :
    pc.client = some c := by
  cases pc <;> first | exact keeps | cases keeps

attribute [grind →] Handler.Enters.spec Handler.Skips.spec ServerPc.holdsStorage_of_client
  ServerPc.client_of_mutex

theorem ClientStorage.Sound.clients {st : ClientStorage} (sound : st.Sound) :
    ∀ c ∈ st.clients, ∃ cl, st.heap c = some cl := by
  intro c member
  obtain ⟨entry, inside, rfl⟩ := List.mem_map.mp member
  obtain ⟨cl, live, -⟩ := sound.allocated entry.1 entry.2 (AList.mem_lookup_iff.mpr inside)
  exact ⟨cl, live⟩

theorem start_sane (h : Host) : Sane (.start h) where
  sound := ClientStorage.new_sound _
  serverHolds := by simp [Sys.start, ServerPc.holdsStorage]
  loopHolds := by simp [Sys.start, LoopPc.holdsStorage]
  serverClient := nofun
  loopClients := nofun
  mutex := nofun
  known := nofun

section Step

variable {h : Host} {s s' : Sys} {a : Action} {out : List Event}

private theorem sound_step (sane : Sane s) (t : Transition h s a s' out) : s'.storage.Sound := by
  have sound := sane.sound
  cases t
  case create backend at_ unknown room alloc =>
    exact sound.insert (show s.storage.clientMap.lookup (Client.new s.uuid _ _).id = none from unknown)
  case destroy at_ live => simpa [sound.destroy_eq live] using sound.erase live
  case connect_ at_ live free => exact sound.set live (by simp)
  all_goals first | exact sound | (apply sound.set; assumption; rfl)

private theorem lock_step (sane : Sane s) (t : Transition h s a s' out) :
    (s'.storageLock = some .server ↔ s'.server.holdsStorage = true) ∧
      (s'.storageLock = some .loop ↔ s'.loop.holdsStorage = true) := by
  have server := sane.serverHolds
  have loop := sane.loopHolds
  clear sane
  cases t <;> grind

private theorem serverClient_step (sane : Sane s) (t : Transition h s a s' out) :
    ∀ c, s'.server.client = some c → ∃ cl, s'.storage.heap c = some cl := by
  obtain ⟨sound, server, loop, client, -, -, -⟩ := sane
  cases t
  case create backend at_ unknown room alloc =>
    intro c uses
    obtain rfl : s.storage.next = c := by simpa [ServerPc.client] using uses
    exact ⟨Client.new s.uuid backend.origins h.timeout, by simp [ClientStorage.insert_heap]⟩
  case destroy at_ live =>
    -- the loop thread has the storage lock, so the server thread uses no client
    have := sound.destroy_eq live
    grind
  case enter at_ found enters =>
    obtain ⟨cl, live, -⟩ := sound.allocated _ _ found
    grind
  all_goals clear sound server loop; grind

private theorem loopClients_step (sane : Sane s) (t : Transition h s a s' out) :
    ∀ c ∈ s'.loop.held, ∃ cl, s'.storage.heap c = some cl := by
  obtain ⟨sound, -, -, -, clients, -, -⟩ := sane
  cases t
  case timerLock at_ free => exact sound.clients
  case create at_ unknown room alloc =>
    intro c held
    obtain ⟨cl, live⟩ := clients c held
    have other := (sound.fresh c cl live).ne
    exact ⟨cl, by simpa [ClientStorage.insert_heap, other] using live⟩
  all_goals clear sound; grind

private theorem mutex_step (sane : Sane s) (t : Transition h s a s' out) : ∀ c cl,
    s'.storage.heap c = some cl → (cl.stateMutex = true ↔ s'.server.mutex = some c) := by
  obtain ⟨sound, -, -, -, -, mutex, -⟩ := sane
  cases t
  case create at_ unknown room alloc => grind
  case destroy at_ live =>
    have := sound.destroy_eq live
    grind
  all_goals clear sound; grind

private theorem known_step (sane : Sane s) (t : Transition h s a s' out) :
    ∀ r ∈ s'.pending, r.client < s'.storage.next := by
  obtain ⟨sound, -, -, client, -, -, known⟩ := sane
  have used (c : Addr) (at_ : s.server.client = some c) : c < s.storage.next := by
    obtain ⟨cl, live⟩ := client c at_
    exact sound.fresh c cl live
  cases t
  case connectEnqueue c at_ => have := used c (by rw [at_]; rfl); grind
  case disconnectEnqueue caller c at_ => have := used c (by rw [at_]; rfl); grind
  case writeEnqueue c at_ => have := used c (by rw [at_]; rfl); grind
  case destroy at_ live =>
    have := sound.destroy_eq live
    grind
  all_goals clear sound client used; grind

theorem Sane.step (sane : Sane s) (t : Transition h s a s' out) : Sane s' where
  sound := sound_step sane t
  serverHolds := (lock_step sane t).1
  loopHolds := (lock_step sane t).2
  serverClient := serverClient_step sane t
  loopClients := loopClients_step sane t
  mutex := mutex_step sane t
  known := known_step sane t

end Step

/-- Addresses are used up. -/
theorem Transition.next_le {h : Host} {s s' : Sys} {a : Action} {out : List Event}
    (t : Transition h s a s' out) : s.storage.next ≤ s'.storage.next := by
  cases t
  case create => exact Nat.le_succ _
  case destroy o c cl at_ live =>
    unfold ClientStorage.destroy
    split <;> exact Nat.le_refl _
  all_goals exact Nat.le_refl _

/-- A client keeps its id and its origins for as long as it is there; one that
is new was created for the session id at hand, with the origins of its backend. -/
theorem client_step {h : Host} {s s' : Sys} {a : Action} {out : List Event} (sane : Sane s)
    (t : Transition h s a s' out) {c : Addr} {cl' : Client}
    (live' : s'.storage.heap c = some cl') :
    (∃ cl, s.storage.heap c = some cl ∧ cl.id = cl'.id ∧ cl.allowOrigins = cl'.allowOrigins) ∨
    ∃ backend, s.server = .locked (.connect backend) ∧ out = [.created s.exchange c cl'.id] ∧
      cl'.id = s.uuid ∧ cl'.allowOrigins = backend.origins := by
  have sound := sane.sound
  clear sane
  cases t
  case create o backend at_ unknown room alloc =>
    by_cases new : c = s.storage.next
    · right
      simp only [new, ClientStorage.insert_heap, ↓reduceIte, Option.some.injEq] at live'
      subst live'
      exact ⟨backend, at_, by rw [new]; rfl, rfl, rfl⟩
    · left
      simp only [new, ClientStorage.insert_heap, ↓reduceIte] at live'
      exact ⟨cl', live', rfl, rfl⟩
  case destroy at_ live =>
    have := sound.destroy_eq live
    clear sound
    grind
  all_goals clear sound; grind

/-- A client that is gone was destroyed, by the close callback, and its id with it. -/
theorem destroyed_step {h : Host} {s s' : Sys} {a : Action} {out : List Event} (sane : Sane s)
    (t : Transition h s a s' out) {c : Addr} {cl : Client} (live : s.storage.heap c = some cl)
    (dead : s'.storage.heap c = none) :
    .destroyed c ∈ out ∧ s'.storage.get cl.id = none := by
  have sound := sane.sound
  clear sane
  cases t
  case destroy o d cl' at_ live' =>
    have gone := sound.destroy_eq live'
    clear sound
    obtain rfl : c = d := by grind
    rw [live] at live'
    cases live'
    simp [gone, ClientStorage.get, ClientStorage.erase, AList.lookup_erase]
  all_goals clear sound; grind

section Stray

variable {s : Sys} {c : Addr}

/-- The server thread has no way to a client that is gone. -/
theorem Sane.server_tracks (sane : Sane s) (dead : s.storage.heap c = none) :
    ¬ (s.server.client = some c ∨ s.storage.Registered c) := by
  rintro (held | ⟨id, found⟩)
  · obtain ⟨cl, live⟩ := sane.serverClient c held
    rw [dead] at live
    cases live
  · obtain ⟨cl, live, -⟩ := sane.sound.allocated id c found
    rw [dead] at live
    cases live

/-- The loop thread has one only through a request it has just dequeued. -/
theorem Sane.loop_tracks (sane : Sane s) (dead : s.storage.heap c = none)
    (used : s.loop.clients.head? = some c) : ∃ type, s.loop = .dispatch ⟨type, c⟩ := by
  by_contra held
  obtain ⟨cl, live⟩ : ∃ cl, s.storage.heap c = some cl := by
    apply sane.loopClients c
    cases at_ : s.loop with
    | timerScan clients =>
      rw [at_] at used
      exact List.mem_of_mem_head? used
    | dispatch r =>
      rw [at_] at used
      cases used
      exact absurd ⟨r.type, at_⟩ held
    | _ => simp_all [LoopPc.clients, LoopPc.held]
  rw [dead] at live
  cases live

end Stray

/-- Whatever the threads do, in whatever order, they stay sane. -/
theorem sane_of_run {h : Host} {guard : Sys → Action → Prop} {s : Sys} {trace : List Event}
    (run : Run (step h) guard (.start h) s trace) : Sane s := by
  refine run.invariant (I := fun s _ => Sane s) (start_sane h) ?_
  intro s trace a s' out _ sane _ stepped
  exact sane.step (step_cases stepped).2

end LinearFcgi
