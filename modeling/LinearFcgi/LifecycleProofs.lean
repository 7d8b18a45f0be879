import LinearFcgi.Lifecycle
import LinearFcgi.Threads

/-! The process runs one abstract connection for every session: reading a
session's life off the process turns each step of either thread into at most
one step of that life. What is proved of the abstract machine then holds of
every client the process ever had. -/
namespace LinearFcgi

open TraceMachine

/-- Where the server thread stands with the client at `c`. -/
def ServerPc.stage (c : Addr) : ServerPc → Life.Stage
  | .connectBegin d _ | .connectEnqueue d => if d = c then .unasked else .none
  | .connectSend d | .connectPublish d => if d = c then .asked else .none
  | .connectWait d _ | .disconnectBegin .connect d => if d = c then .awaiting else .none
  | .disconnectEnqueue _ d => if d = c then .leaving else .none
  | .writeProduce d _ | .writeEnqueue d => if d = c then .writing else .none
  | .accept | .lock _ | .locked _ | .disconnectReturn | .postReturn => .none
  | .connectReturn _ _ | .disconnectBegin .handler _ | .disconnectSend _ _ => .none
  | .pollTest _ _ | .pollTouch _ _ | .pollConsume _ _ | .pollStore _ _ _ => .none
  | .pollEncode _ _ | .writeTest _ _ | .writeSend _ => .none

/-- The loop thread is in the close callback of the client at `c`. -/
def LoopPc.dying (c : Addr) : LoopPc → Bool
  | .closeLock d | .destroy d => d = c
  | .idle | .drain | .dispatch _ | .write _ | .connectTail _ | .readTail _ _ | .timerLock
  | .timerScan _ => false

def Client.core (cl : Client) : Life.Core := ⟨cl.state, cl.handle, cl.connectReq⟩

/-- The requests for the client at `c` that are still to be carried out. -/
def Sys.requests (s : Sys) (c : Addr) : List RequestType :=
  (s.pending.filter (·.client = c)).map (·.type)

/-- The life of the client at `c`, read off the process. -/
def Sys.life (s : Sys) (c : Addr) : Life where
  stage := s.server.stage c
  core := (s.storage.heap c).map Client.core
  born := c < s.storage.next
  dying := s.loop.dying c
  requests := s.requests c

/-- What of the process's events belongs to the life of the client at `c`. -/
def observeLife (c : Addr) : Event → Option Life.Event
  | .connected d => if d = c then some .connected else none
  | .disconnecting _ d => if d = c then some .disconnecting else none
  | .hungUp d => if d = c then some .hungUp else none
  | .reaped d => if d = c then some .reaped else none
  | .closed d => if d = c then some .closed else none
  | .destroyed d => if d = c then some .destroyed else none
  | .live _ d => if d = c then some .live else none
  | .gone _ d => if d = c then some .gone else none
  | .useAfterFree d => if d = c then some .useAfterFree else none
  | _ => none

/-- Where the process stands when it takes the steps of a life that are not
always safe. -/
def Matches (c : Addr) (s : Sys) (a : Action) : Life.Action → Prop
  | .allow => ∃ o data, a = .server o ∧ s.server = .writeTest c data
  | .reap => ∃ o clients, a = .loop o ∧ s.loop = .timerScan (c :: clients)
  | .callback => a = .onDisconnect c
  | _ => True

section

variable {h : Host} {s s' : Sys} {c : Addr} {a : Action} {out : List Event}

theorem mem_requests {type : RequestType} {c : Addr} :
    type ∈ s.requests c ↔ ⟨type, c⟩ ∈ s.pending := by
  simp only [Sys.requests, List.mem_map, List.mem_filter, decide_eq_true_eq]
  constructor
  · rintro ⟨r, ⟨member, rfl⟩, rfl⟩
    exact member
  · intro member
    exact ⟨⟨type, c⟩, ⟨member, rfl⟩, rfl⟩

/-- What a life consists of. -/
theorem Sys.life_eq (stage : s'.server.stage c = s.server.stage c)
    (core : (s'.storage.heap c).map Client.core = (s.storage.heap c).map Client.core)
    (born : c < s'.storage.next ↔ c < s.storage.next)
    (dying : s'.loop.dying c = s.loop.dying c) (requests : s'.requests c = s.requests c) :
    s'.life c = s.life c := by
  simp only [Sys.life, stage, core, born, dying, requests]

attribute [grind =] ServerPc.stage LoopPc.dying Client.core Sys.requests

theorem ServerPc.client_of_stage {pc : ServerPc} (stands : pc.stage c ≠ .none) :
    pc.client = some c := by
  cases pc with
  | disconnectBegin caller d => cases caller <;> grind
  | _ => grind

theorem ServerPc.mutex_of_asked {pc : ServerPc} (asked : pc.stage c = .asked) :
    pc.mutex = some c := by
  cases pc with
  | disconnectBegin caller d => cases caller <;> grind
  | _ => grind

/-- While the loop thread has the storage lock, the server thread stands
nowhere with any client. -/
theorem Sane.stage_none (sane : Sane s) (holds : s.loop.holdsStorage = true) :
    s.server.stage c = .none := by
  by_contra stands
  have server := sane.serverHolds.mpr
    (ServerPc.holdsStorage_of_client (ServerPc.client_of_stage stands))
  have loop := sane.loopHolds.mpr holds
  rw [server] at loop
  cases loop

/-- The mutex is only kept where a CONNECT request was just made. -/
theorem Sane.not_asked (sane : Sane s) {cl : Client} (live : s.storage.heap c = some cl)
    (free : cl.stateMutex = false) : s.server.stage c ≠ .asked := by
  intro asked
  have held := (sane.mutex c cl live).mpr (ServerPc.mutex_of_asked asked)
  rw [free] at held
  cases held

theorem Handler.Enters.stage {req : Request} {d : Addr} {handler : Handler} {pc : ServerPc}
    (enters : handler.Enters req d pc) : pc.stage c = .none := by
  cases enters <;> rfl

theorem Handler.Skips.stage {req : Request} {handler : Handler} {pc : ServerPc}
    (skips : handler.Skips req pc) : pc.stage c = .none := by
  cases skips <;> rfl

@[simp, grind =] theorem resume_stage (caller : Caller) (d : Addr) :
    (caller.resume d).stage c = .none := by
  cases caller <;> rfl

/-- The client an action is about. -/
def Sys.actor (s : Sys) : Action → Option Addr
  | .server _ => match s.server with
    | .locked (.connect _) => some s.storage.next
    | pc => pc.client
  | .loop _ => s.loop.clients.head?
  | .onConnect c _ | .onRead c _ | .onDisconnect c => some c
  | .accept _ _ | .onAsync | .onTimer | .clock _ => none

/-- A step is no part of the life of a client it is not about. -/
theorem life_other (sane : Sane s) (t : Transition h s a s' out) (other : s.actor a ≠ some c) :
    s'.life c = s.life c ∧ out.filterMap (observeLife c) = [] := by
  have sound := sane.sound
  have client := sane.serverClient
  have tracks (d : Addr) := @Sane.server_tracks s d sane
  clear sane
  unfold Sys.actor at other
  constructor
  · cases t
    case destroy at_ live =>
      have := sound.destroy_eq live
      refine Sys.life_eq ?_ ?_ ?_ ?_ ?_ <;> clear sound client tracks <;> grind
    case enter o handler d next allowed at_ found enters =>
      exact Sys.life_eq (by rw [at_]; exact enters.stage) rfl .rfl rfl rfl
    case skip o handler next at_ skips =>
      exact Sys.life_eq (by rw [at_]; exact skips.stage) rfl .rfl rfl rfl
    case disconnectIdle o caller d cl at_ live free idle =>
      refine Sys.life_eq ?_ rfl .rfl rfl rfl
      cases caller <;> clear sound client tracks <;> grind
    case disconnectMark o caller d cl at_ live free busy =>
      refine Sys.life_eq ?_ ?_ .rfl rfl rfl <;> cases caller <;> clear sound client tracks <;> grind
    all_goals
      refine Sys.life_eq ?_ ?_ ?_ ?_ ?_ <;> clear sound client tracks <;>
        first
        | rfl
        | exact .rfl
        | grind
  · cases t
    case destroy at_ live =>
      have := sound.destroy_eq live
      clear sound client tracks
      grind [observeLife]
    case serverStray d dead used => exact absurd used (tracks d dead)
    all_goals
      clear sound client tracks
      first
      | rfl
      | grind [observeLife]

/-- `_connect` fails before or behind `uv_tcp_init`, or leaves a request with
libuv. -/
private theorem connect_core (cl : Client) (o : Outcome) (open_ : cl.handle ≠ .closing) :
    ∃ (handle : Client.Handle) (asks : Bool), handle ≠ .closing ∧ (cl.connect_ o).core =
      if asks then { cl.core with handle := .init, connectReq := true }
      else { cl.core with handle := handle, state := .failConnect } := by
  cases o with
  | noHandle => exact ⟨cl.handle, false, open_, rfl⟩
  | noMemory => exact ⟨.init, false, nofun, rfl⟩
  | noAddress => exact ⟨.init, false, nofun, rfl⟩
  | refused => exact ⟨.init, false, nofun, rfl⟩
  | ok => exact ⟨.init, true, nofun, rfl⟩
  | noCopy => exact ⟨.init, true, nofun, rfl⟩
  | timedOut => exact ⟨.init, true, nofun, rfl⟩
  | word n => exact ⟨.init, true, nofun, rfl⟩

private theorem requests_push {type : RequestType} {pc : ServerPc} :
    Sys.requests { s with requestQueue := Fifo.push s.requestQueue ⟨type, c⟩, server := pc } c =
      s.requests c ++ [type] := by
  simp [Sys.requests, Sys.pending, Fifo.push]

/-- The request the loop thread looks at is the oldest of its client's. -/
private theorem requests_dispatch {type : RequestType} (at_ : s.loop = .dispatch ⟨type, c⟩) :
    s.requests c = type :: (s.requestQueue.filter (·.client = c)).map (·.type) := by
  simp [Sys.requests, Sys.pending, at_, LoopPc.dispatching]

/-- A step about a client is at most one step of its life. -/
theorem life_self (sane : Sane s) (phase : Life.Phase (s.life c))
    (t : Transition h s a s' out) (acts : s.actor a = some c) :
    s'.life c = s.life c ∧ out.filterMap (observeLife c) = [] ∨
      ∃ b, Matches c s a b ∧
        Life.step (s.life c) b = some (s'.life c, out.filterMap (observeLife c)) := by
  have alive {d : Addr} {cl : Client} (live : s.storage.heap d = some cl) : d < s.storage.next :=
    sane.sound.fresh d cl live
  cases t
  case create o backend at_ unknown room alloc =>
    obtain rfl : s.storage.next = c := by simpa [Sys.actor, at_] using acts
    have absent : s.storage.heap s.storage.next = none := by
      cases live : s.storage.heap s.storage.next with
      | none => rfl
      | some cl => exact absurd (alive live) (Nat.lt_irrefl _)
    refine .inr ⟨.create, trivial, ?_⟩
    simp [Life.step, Sys.life, absent, at_, ServerPc.stage, ClientStorage.insert_heap,
      Client.new, Client.core, Sys.requests, Sys.pending, observeLife]
  case connectEnqueue o d at_ =>
    obtain rfl : d = c := by simpa [Sys.actor, at_, ServerPc.client] using acts
    obtain ⟨cl, live⟩ := sane.serverClient d (by rw [at_]; rfl)
    refine .inr ⟨.ask, trivial, ?_⟩
    simp [Life.step, Sys.life, live, at_, ServerPc.stage, requests_push, observeLife]
  case connectPublish o d cl at_ live =>
    obtain rfl : d = c := by simpa [Sys.actor, at_, ServerPc.client] using acts
    refine .inr ⟨.publish, trivial, ?_⟩
    simp [Life.step, Sys.life, live, at_, ServerPc.stage, Sys.requests, Sys.pending,
      ClientStorage.set_heap, Client.core, Client.await, observeLife]
    rfl
  case wakeReturn o d deadline cl f at_ live free state =>
    obtain rfl : d = c := by simpa [Sys.actor, at_, ServerPc.client] using acts
    refine .inr ⟨.wake, trivial, ?_⟩
    cases f <;> simp [Life.step, Sys.life, live, at_, ServerPc.stage, Sys.requests, Sys.pending,
      Client.core, observeLife, state]
  case disconnectIdle o caller d cl at_ live free idle =>
    obtain rfl : d = c := by simpa [Sys.actor, at_, ServerPc.client] using acts
    cases caller with
    | handler =>
      exact .inl ⟨Sys.life_eq (by rw [at_]; rfl) rfl .rfl rfl rfl, rfl⟩
    | connect =>
      have state : cl.state ≠ .connecting := by
        intro state
        simp [Client.idle, state] at idle
      refine .inr ⟨.wake, trivial, ?_⟩
      simp [Life.step, Sys.life, live, at_, ServerPc.stage, Sys.requests, Sys.pending,
        Client.core, observeLife, state, Caller.resume]
  case disconnectMark o caller d cl at_ live free busy =>
    obtain rfl : d = c := by simpa [Sys.actor, at_, ServerPc.client] using acts
    have state : cl.state = .connecting ∨ cl.state = .connected := by
      cases state : cl.state <;> simp [Client.idle, state] at busy ⊢
    refine .inr ⟨.mark, trivial, ?_⟩
    cases caller <;> simp [Life.step, Sys.life, live, at_, ServerPc.stage, Sys.requests, Sys.pending,
        Client.core, observeLife, state, ClientStorage.set_heap] <;> rfl
  case disconnectEnqueue o caller d at_ =>
    obtain rfl : d = c := by simpa [Sys.actor, at_, ServerPc.client] using acts
    obtain ⟨cl, live⟩ := sane.serverClient d (by rw [at_]; rfl)
    refine .inr ⟨.leave, trivial, ?_⟩
    simp [Life.step, Sys.life, live, at_, ServerPc.stage, requests_push, observeLife]
  case pollLive o d data cl at_ live free readable =>
    obtain rfl : d = c := by simpa [Sys.actor, at_, ServerPc.client] using acts
    have state : cl.state = .connecting ∨ cl.state = .connected := by
      simpa [Client.readable] using readable
    refine .inr ⟨.live, trivial, ?_⟩
    simp [Life.step, Sys.life, live, at_, ServerPc.stage, Sys.requests, Sys.pending, Client.core,
      observeLife, state]
  case pollGone o d data cl at_ live free unreadable =>
    obtain rfl : d = c := by simpa [Sys.actor, at_, ServerPc.client] using acts
    have state : cl.state ≠ .connecting ∧ cl.state ≠ .connected := by
      simpa [Client.readable] using unreadable
    refine .inr ⟨.gone, trivial, ?_⟩
    simp [Life.step, Sys.life, live, at_, ServerPc.stage, Sys.requests, Sys.pending, Client.core,
      observeLife, state]
  case writeAllow o d data cl at_ live free writable =>
    obtain rfl : d = c := by simpa [Sys.actor, at_, ServerPc.client] using acts
    have state : cl.state ≠ .disconnecting ∧ cl.state ≠ .disconnected := by
      simpa [Client.writable] using writable
    refine .inr ⟨.allow, ⟨_, _, rfl, at_⟩, ?_⟩
    simp [Life.step, Sys.life, live, at_, ServerPc.stage, Sys.requests, Sys.pending, Client.core,
      observeLife, state]
  case writeEnqueue o d at_ =>
    obtain rfl : d = c := by simpa [Sys.actor, at_, ServerPc.client] using acts
    obtain ⟨cl, live⟩ := sane.serverClient d (by rw [at_]; rfl)
    refine .inr ⟨.write, trivial, ?_⟩
    simp [Life.step, Sys.life, live, at_, ServerPc.stage, requests_push, observeLife]
  case ignore o d at_ =>
    obtain rfl : d = c := by simpa [Sys.actor, at_, LoopPc.clients] using acts
    have requests := requests_dispatch at_
    refine .inr ⟨.drop, trivial, ?_⟩
    simp [Life.step, Sys.life, requests, at_, LoopPc.dying, observeLife]
    simp [Sys.requests, Sys.pending, LoopPc.dispatching]
  case connect_ o d cl at_ live free =>
    obtain rfl : d = c := by simpa [Sys.actor, at_, LoopPc.clients] using acts
    have requests := requests_dispatch at_
    have unasked := sane.not_asked live free
    have core : (s.life d).core = some cl.core := by simp [Sys.life, live]
    have unset : cl.handle = .unset := by
      obtain ⟨-, phase, -⟩ := phase.present _ core
      have asked : .connect ∈ (s.life d).requests := by simp [Sys.life, requests]
      exact (phase.asked asked).1
    have open_ : cl.handle ≠ .closing := by
      rw [unset]
      intro closing
      cases closing
    obtain ⟨handle, asks, open_, result⟩ := connect_core cl o open_
    refine .inr ⟨.connect handle asks, trivial, ?_⟩
    cases asks <;> simp [Life.step, Sys.life, live, requests, unasked, open_, result, at_,
      LoopPc.dying, ClientStorage.set_heap, observeLife] <;>
    exact ⟨rfl, by simp [Sys.requests, Sys.pending, LoopPc.dispatching]⟩
  case disconnect_ o d cl at_ live =>
    obtain rfl : d = c := by simpa [Sys.actor, at_, LoopPc.clients] using acts
    have requests := requests_dispatch at_
    refine .inr ⟨.close, trivial, ?_⟩
    simp [Life.step, Sys.life, requests, live, at_, LoopPc.dying, observeLife, Client.core,
      ClientStorage.set_heap]
    exact ⟨rfl, by simp [Sys.requests, Sys.pending, LoopPc.dispatching]⟩
  case write_ o d cl at_ live =>
    obtain rfl : d = c := by simpa [Sys.actor, at_, LoopPc.clients] using acts
    have requests := requests_dispatch at_
    refine .inr ⟨.drop, trivial, ?_⟩
    simp [Life.step, Sys.life, requests, at_, LoopPc.dying, observeLife]
    simp [Sys.requests, Sys.pending, LoopPc.dispatching]
  case onConnectFail d status cl at_ live requested free fails =>
    obtain rfl : d = c := by simpa [Sys.actor] using acts
    refine .inr ⟨.failed, trivial, ?_⟩
    simp [Life.step, Sys.life, live, at_, observeLife, Client.core, ClientStorage.set_heap, requested,
       Sys.requests, Sys.pending]
    rfl
  case onConnect d status cl at_ live requested open_ free connects =>
    obtain rfl : d = c := by simpa [Sys.actor] using acts
    have state : cl.state = .connecting := by
      simp only [Client.connects, Bool.and_eq_true, decide_eq_true_eq] at connects
      exact connects.2
    refine .inr ⟨.connected, trivial, ?_⟩
    simp [Life.step, Sys.life, live, at_, observeLife, Client.core, ClientStorage.set_heap, requested,
      open_, state, LoopPc.dying, LoopPc.dispatching, Sys.requests, Sys.pending]
    rfl
  case onReadHangUp d cl at_ live reading open_ connected =>
    obtain rfl : d = c := by simpa [Sys.actor] using acts
    refine .inr ⟨.hangUp, trivial, ?_⟩
    simp [Life.step, Sys.life, live, at_, observeLife, Client.core, ClientStorage.set_heap,
      open_, connected, Sys.requests, Sys.pending]
    rfl
  case timerReap o d clients cl word at_ live free expired =>
    obtain rfl : d = c := by simpa [Sys.actor, at_, LoopPc.clients] using acts
    have away : s.server.stage d = .none := sane.stage_none (by rw [at_]; rfl)
    have state : cl.state = .connected ∨ cl.state = .connecting ∨ cl.state = .failConnect := by
      simp only [Client.expired, Bool.or_eq_true, Bool.and_eq_true, decide_eq_true_eq] at expired
      tauto
    refine .inr ⟨.reap, ⟨_, _, rfl, at_⟩, ?_⟩
    simp [Life.step, Sys.life, live, at_, observeLife, Client.core, ClientStorage.set_heap,
      away, state, LoopPc.dying, LoopPc.dispatching, Sys.requests, Sys.pending]
    rfl
  case onDisconnect d cl at_ live closing finished =>
    obtain rfl : d = c := by simpa [Sys.actor] using acts
    refine .inr ⟨.callback, rfl, ?_⟩
    simp [Life.step, Sys.life, live, at_, observeLife, Client.core,
      closing, finished, LoopPc.dying, LoopPc.dispatching, Sys.requests, Sys.pending]
  case destroy o d cl at_ live =>
    obtain rfl : d = c := by simpa [Sys.actor, at_, LoopPc.clients] using acts
    have away : s.server.stage d = .none := sane.stage_none (by rw [at_]; rfl)
    refine .inr ⟨.destroy, trivial, ?_⟩
    simp [Life.step, Sys.life, live, at_, observeLife, away, sane.sound.destroy_eq live,
      ClientStorage.erase_heap, LoopPc.dying, LoopPc.dispatching, Sys.requests, Sys.pending]
  case loopStray o d dead used =>
    obtain rfl : d = c := by simpa [Sys.actor, used] using acts
    obtain ⟨type, at_⟩ := sane.loop_tracks dead used
    refine .inr ⟨.stray, trivial, ?_⟩
    simp [Life.step, Sys.life, dead, observeLife, requests_dispatch at_]
    simp [Sys.requests, Sys.pending, at_, LoopPc.dispatching]
  case serverStray o d dead used => exact absurd used (sane.server_tracks dead)
  case connectSettled o d backend cl f at_ live free settled =>
    -- a client is always new when `connect` is called
    obtain rfl : d = c := by simpa [Sys.actor, at_, ServerPc.client] using acts
    obtain ⟨-, phase, -⟩ := phase.present cl.core (by simp [Sys.life, live])
    have state : cl.state = .disconnected :=
      phase.opening.mpr (.inl (by simp [Sys.life, at_, ServerPc.stage]))
    simp [Client.settled, state] at settled
  case enter o handler d next allowed at_ found enters =>
    exact .inl ⟨Sys.life_eq (by rw [at_]; exact enters.stage) rfl .rfl rfl rfl, rfl⟩
  case skip o handler next at_ skips =>
    exact .inl ⟨Sys.life_eq (by rw [at_]; exact skips.stage) rfl .rfl rfl rfl, rfl⟩
  all_goals
    refine .inl ⟨Sys.life_eq ?_ ?_ ?_ ?_ ?_, rfl⟩ <;> clear sane phase acts alive <;> grind

/-- A step of the process is at most one step of each client's life. -/
theorem life_step (sane : Sane s) (phase : Life.Phase (s.life c)) (t : Transition h s a s' out) :
    s'.life c = s.life c ∧ out.filterMap (observeLife c) = [] ∨
      ∃ b, Matches c s a b ∧
        Life.step (s.life c) b = some (s'.life c, out.filterMap (observeLife c)) := by
  by_cases acts : s.actor a = some c
  · exact life_self sane phase t acts
  · exact .inl (life_other sane t acts)

/-- What no step of a life destroys, no step of the process destroys. -/
theorem life_keeps {P : Life → Prop}
    (kept : ∀ l b l' out, Life.Phase l → P l → Life.Transition l b l' out → P l')
    (sane : Sane s) (phase : Life.Phase (s.life c)) (t : Transition h s a s' out)
    (holds : P (s.life c)) : P (s'.life c) := by
  rcases life_step sane phase t with ⟨same, -⟩ | ⟨b, -, lived⟩
  · rw [same]
    exact holds
  · exact kept _ b _ _ phase holds (Life.step_cases lived)

/-- The process refines the abstract connection, once for every client, under
any condition on its steps that keeps the unsafe steps of the life in bounds. -/
theorem life_simulates {guard : Sys → Action → Prop} {allow : Life → Life.Action → Prop}
    (bounds : ∀ s a b, Sane s → guard s a → Matches c s a b →
      Life.Phase (s.life c) → allow (s.life c) b) :
    Simulation (step h) guard Life.step allow (observeLife c)
      (fun s l => Sane s ∧ s.life c = l ∧ Life.Phase l) where
  follow s l a s' out related met stepped := by
    obtain ⟨sane, rfl, phase⟩ := related
    have t := (step_cases stepped).2
    have sane' := sane.step t
    rcases life_step sane phase t with ⟨same, silent⟩ | ⟨b, matched, lived⟩
    · exact ⟨s.life c, ⟨sane', same, phase⟩, .inl ⟨rfl, silent⟩⟩
    · exact ⟨_, ⟨sane', rfl, phase.step (Life.step_cases lived)⟩,
        .inr ⟨b, bounds s a b sane met matched phase, lived⟩⟩

@[simp] theorem observeLife_disconnecting {e : Event} :
    observeLife c e = some .disconnecting ↔ ∃ n, e = .disconnecting n c := by
  cases e <;> simp [observeLife]

@[simp] theorem observeLife_hungUp {e : Event} :
    observeLife c e = some .hungUp ↔ e = .hungUp c := by
  cases e <;> simp [observeLife]

@[simp] theorem observeLife_reaped {e : Event} :
    observeLife c e = some .reaped ↔ e = .reaped c := by
  cases e <;> simp [observeLife]

@[simp] theorem observeLife_useAfterFree {e : Event} :
    observeLife c e = some .useAfterFree ↔ e = .useAfterFree c := by
  cases e <;> simp [observeLife]

theorem start_life : (Sys.start h).life c = Life.unborn := by
  simp [Sys.life, Sys.start, Life.unborn, ServerPc.stage, ClientStorage.new, LoopPc.dying,
    Sys.requests, Sys.pending, LoopPc.dispatching]

/-- Every run of the process is, for each client, a run of its life. -/
theorem life_of_run {guard : Sys → Action → Prop} {allow : Life → Life.Action → Prop}
    {trace : List Event}
    (bounds : ∀ s a b, Sane s → guard s a → Matches c s a b →
      Life.Phase (s.life c) → allow (s.life c) b)
    (run : Run (step h) guard (.start h) s trace) :
    Run Life.step allow Life.unborn (s.life c) (trace.filterMap (observeLife c)) := by
  obtain ⟨l, ⟨-, rfl, -⟩, lived⟩ := (life_simulates bounds).run
    ⟨start_sane h, start_life, Life.unborn_phase⟩ run
  exact lived

/-- In every state reached, each client is in one of the phases. -/
theorem phase_of_reached {guard : Sys → Action → Prop} {trace : List Event}
    (run : Run (step h) guard (.start h) s trace) (c : Addr) : Life.Phase (s.life c) := by
  have lived : Run Life.step always Life.unborn (s.life c) (trace.filterMap (observeLife c)) :=
    life_of_run (fun _ _ _ _ _ _ _ => trivial) run
  exact Life.phase_of_run lived

/-- From there on, the life of a client goes on as the process does. -/
theorem life_goes_on {t : Sys} {trace later : List Event}
    (run : Reaches (step h) (.start h) s trace) (rest : Reaches (step h) s t later) (c : Addr) :
    Reaches Life.step (s.life c) (t.life c) (later.filterMap (observeLife c)) := by
  have sim : Simulation (step h) always Life.step always (observeLife c)
      (fun s l => Sane s ∧ s.life c = l ∧ Life.Phase l) :=
    life_simulates fun _ _ _ _ _ _ _ => trivial
  obtain ⟨l, ⟨-, rfl, -⟩, lived⟩ :=
    sim.run ⟨sane_of_run run, rfl, phase_of_reached run c⟩ rest
  exact lived

end
end LinearFcgi
