import LinearFcgi.Idling
import LinearFcgi.Liveness
import LinearFcgi.Origins
import LinearFcgi.Slots

/-! A session nobody uses any more is given back. `slot_accounted` says for every
state who will close the client; here libuv keeps calling the loop thread, the
clock goes on, and so it happens. -/
namespace LinearFcgi

open TraceMachine

namespace Life

/-- `uv_close` was called; `finished` if no connect request is out any more. -/
def Closes (finished : Bool) (l : Life) : Prop :=
  l.born = true ∧ ∀ k, l.core = some k → k.handle = .closing ∧ (finished = true → k.connectReq = false)

theorem Closes.step {finished : Bool} {l l' : Life} {b : Action} {out : List Event} (phase : Phase l)
    (closes : Closes finished l) (t : Transition l b l' out) : Closes finished l' := by
  obtain ⟨born, closes⟩ := closes
  have shows (k : Core) (here : l.core = some k) := (phase.present k here).2.1
  cases t
  case create => cases born
  case connect stage k _ dying rest handle unlocked =>
    -- a handle that is closing is not connected any more
    have unset := ((shows k rfl).asked List.mem_cons_self).1
    rw [(closes k rfl).1] at unset
    cases unset
  case connectFail stage k _ dying rest handle unlocked open_ =>
    have unset := ((shows k rfl).asked List.mem_cons_self).1
    rw [(closes k rfl).1] at unset
    cases unset
  case destroy => exact ⟨born, nofun⟩
  case drop | stray => exact ⟨born, closes⟩
  case connected k _ _ _ requested open_ state => exact absurd (closes k rfl).1 open_
  case failed k _ _ _ requested =>
    exact ⟨born, fun k' same => by cases same; exact ⟨(closes k rfl).1, fun _ => rfl⟩⟩
  all_goals
    refine ⟨born, fun k' same => ?_⟩
    have before := closes _ rfl
    cases same
    first
    | exact before
    | exact ⟨rfl, before.2⟩

/-- Whether the connection was established is decided. -/
def Settled (l : Life) : Prop :=
  l.born = true ∧ ∀ k, l.core = some k → k.state ≠ .disconnected ∧ k.state ≠ .connecting

theorem Settled.step {l l' : Life} {b : Action} {out : List Event} (phase : Phase l)
    (settled : Settled l) (t : Transition l b l' out) : Settled l' := by
  obtain ⟨born, settled⟩ := settled
  cases t
  case create => cases born
  case destroy => exact ⟨born, nofun⟩
  case drop | stray => exact ⟨born, settled⟩
  case publish k _ dying requests =>
    -- before `publish` the state is the initial one
    obtain ⟨-, shows, -⟩ := phase.present k rfl
    exact absurd (shows.opening.mpr (.inr rfl)) (settled k rfl).1
  all_goals
    refine ⟨born, fun k' same => ?_⟩
    have before := settled _ rfl
    cases same
    first
    | exact before
    | exact ⟨by simp, by simp⟩

end Life

/-- libuv calls the loop thread for all there is to call it for, the loop thread
catches up with the requests of the server thread again and again, and time
passes. -/
structure Attended {h : Host} (ρ : Forever h) : Prop extends Scheduled ρ where
  onAsync : ρ.Fair (· = .onAsync)
  onTimer : ρ.Fair (· = .onTimer)
  onConnect : ∀ c, ρ.Fair fun a => ∃ status, a = .onConnect c status
  onDisconnect : ∀ c, ρ.Fair (· = .onDisconnect c)
  catchesUp : Recurs fun n => (ρ.state n).loop.drains = false
  clock : ∀ t, ∃ n, ∀ m, n ≤ m → t ≤ (ρ.state m).clock

section

variable {h : Host} {s s' : Sys} {a : Action} {out : List Event} {ρ : Forever h} {c : Addr}

/-! ## The loop thread comes back -/

/-- The loop thread takes its next step from here. -/
def Forever.Leaves (ρ : Forever h) (pc : LoopPc) (n : Nat) : Prop :=
  (ρ.state n).loop = pc ∧ ∃ o, ρ.action n = .loop o

theorem Forever.loop_stays (ρ : Forever h) {pc : LoopPc} (busy : pc ≠ .idle) (n : Nat)
    (at_ : (ρ.state n).loop = pc) : ρ.Leaves pc n ∨ (ρ.state (n + 1)).loop = pc := by
  by_cases moves : ∃ o, ρ.action n = .loop o
  · exact .inl ⟨at_, moves⟩
  · have same := (ρ.transition n).keepsLoop (at_ ▸ busy) fun o same => moves ⟨o, same⟩
    exact .inr (same.trans at_)

/-- It does so if it can again and again. -/
theorem loop_leaves (fair : ρ.Fair fun a => ∃ o, a = .loop o) {pc : LoopPc} (busy : pc ≠ .idle)
    (enabled : Recurs fun n => (ρ.state n).loop = pc →
      Enabled (step h) (fun a => ∃ o, a = .loop o) (ρ.state n)) :
    LeadsTo (fun n => (ρ.state n).loop = pc) (ρ.Leaves pc) := by
  refine .of_never fun n at_ never => ?_
  have stays : ∀ m, n ≤ m → (ρ.state m).loop = pc := by
    intro m later
    induction m, later using Nat.le_induction with
    | base => exact at_
    | succ m later ih => exact (ρ.loop_stays busy m ih).resolve_left (never m later)
  have recurs : Recurs fun m => Enabled (step h) (fun a => ∃ o, a = .loop o) (ρ.state m) := by
    intro m
    obtain ⟨k, later, enabled⟩ := enabled (max n m)
    exact ⟨k, Nat.le_trans (Nat.le_max_right n m) later,
      enabled (stays k (Nat.le_trans (Nat.le_max_left n m) later))⟩
  obtain ⟨m, later, moves⟩ := fair recurs n
  exact never m later ⟨stays m later, moves⟩

/-- While the server thread is in `FCGI_Accept`, the storage is only locked
while the loop thread has locked it. -/
theorem Sane.storage_free (sane : Sane s) (idle : s.server = .accept)
    (away : s.loop.holdsStorage = false) : s.storageLock = none := by
  cases holder : s.storageLock with
  | none => rfl
  | some thread =>
    cases thread with
    | server =>
      rw [sane.serverHolds, idle] at holder
      cases holder
    | loop =>
      rw [sane.loopHolds, away] at holder
      cases holder

/-- A thread that waits for the storage lock gets it. -/
theorem lock_leaves (scheduled : Scheduled ρ) {pc : LoopPc}
    (waits : pc = .timerLock ∨ pc = .closeLock c) :
    LeadsTo (fun n => (ρ.state n).loop = pc) (ρ.Leaves pc) := by
  have busy : pc ≠ .idle := by rcases waits with rfl | rfl <;> nofun
  refine loop_leaves scheduled.loop busy ((server_returns scheduled).mono fun n idle at_ => ?_)
  have free : (ρ.state n).storageLock = none :=
    (ρ.sane n).storage_free idle (by rcases waits with rfl | rfl <;> rw [at_] <;> rfl)
  refine enabled_loop (o := .ok) (ρ.running n) ?_
  rcases waits with rfl | rfl <;> simp [Sys.loopStep, at_, free]

/-- A thread that has it goes on. -/
theorem holder_leaves (scheduled : Scheduled ρ) {pc : LoopPc} (holds : pc.holdsStorage = true) :
    LeadsTo (fun n => (ρ.state n).loop = pc) (ρ.Leaves pc) := by
  have busy : pc ≠ .idle := by rintro rfl; cases holds
  refine loop_leaves scheduled.loop busy fun n => ⟨n, Nat.le_refl n, fun at_ => ?_⟩
  have lock : (ρ.state n).storageLock = some .loop := (ρ.sane n).loopHolds.mpr (at_ ▸ holds)
  exact enabled_loop (o := .ok) (ρ.running n) (loop_moves (ρ.sane n) lock .ok)

/-- What the loop thread leaves with one step of its own. -/
theorem tail_leaves (scheduled : Scheduled ρ) {pc : LoopPc}
    (tail : pc = .connectTail c ∨ ∃ chunk, pc = .readTail c chunk) :
    LeadsTo (fun n => (ρ.state n).loop = pc) (ρ.Leaves pc) := by
  have busy : pc ≠ .idle := by rcases tail with rfl | ⟨chunk, rfl⟩ <;> nofun
  refine loop_leaves scheduled.loop busy fun n => ⟨n, Nat.le_refl n, fun at_ => ?_⟩
  obtain ⟨cl, live⟩ := (ρ.sane n).loopClients c (by
    rw [at_]
    rcases tail with rfl | ⟨chunk, rfl⟩ <;> exact List.mem_cons_self)
  refine enabled_loop (o := .ok) (ρ.running n) ?_
  rcases tail with rfl | ⟨chunk, rfl⟩ <;> simp [Sys.loopStep, at_, Sys.deref, live]

/-- What the loop thread's step leaves behind. -/
theorem Forever.left (ρ : Forever h) {pc : LoopPc} {n : Nat} (leaves : ρ.Leaves pc n) :
    (ρ.state n).loop = pc ∧
      ∃ o, Transition h (ρ.state n) (.loop o) (ρ.state (n + 1)) (ρ.out n) := by
  obtain ⟨at_, o, taken⟩ := leaves
  exact ⟨at_, o, taken ▸ ρ.transition n⟩

theorem Transition.returns {o : Outcome} (t : Transition h s (.loop o) s' out)
    (running : s'.fault = false)
    (last : s.loop = .timerScan [] ∨ s.loop = .connectTail c ∨ (∃ chunk, s.loop = .readTail c chunk) ∨
      s.loop = .destroy c) : s'.loop = .idle := by
  cases t <;> simp_all

theorem Transition.scans {o : Outcome} {clients : List Addr} (t : Transition h s (.loop o) s' out)
    (running : s'.fault = false) (at_ : s.loop = .timerScan (c :: clients)) :
    s'.loop = .timerScan clients := by
  cases t <;> simp_all

theorem Transition.locks {o : Outcome} (t : Transition h s (.loop o) s' out)
    (running : s'.fault = false) :
    (s.loop = .timerLock → s'.loop = .timerScan s.storage.clients) ∧
      (s.loop = .closeLock c → s'.loop = .destroy c) := by
  cases t <;> simp_all

theorem scan_returns (scheduled : Scheduled ρ) (clients : List Addr) :
    LeadsTo (fun n => (ρ.state n).loop = .timerScan clients) fun n => (ρ.state n).loop = .idle := by
  have leaves (clients : List Addr) := holder_leaves scheduled
    (show (LoopPc.timerScan clients).holdsStorage = true from rfl)
  induction clients with
  | nil =>
    refine (leaves []).trans fun n left => ⟨n + 1, Nat.le_succ n, ?_⟩
    obtain ⟨at_, o, t⟩ := ρ.left left
    exact t.returns (c := 0) (ρ.running (n + 1)) (.inl at_)
  | cons d clients ih =>
    refine ((leaves (d :: clients)).trans fun n left => ⟨n + 1, Nat.le_succ n, ?_⟩).trans ih
    obtain ⟨at_, o, t⟩ := ρ.left left
    exact t.scans (ρ.running (n + 1)) at_

theorem destroy_returns (scheduled : Scheduled ρ) (c : Addr) :
    LeadsTo (fun n => (ρ.state n).loop = .destroy c) fun n => (ρ.state n).loop = .idle := by
  refine (holder_leaves scheduled rfl).trans fun n left => ⟨n + 1, Nat.le_succ n, ?_⟩
  obtain ⟨at_, o, t⟩ := ρ.left left
  exact t.returns (ρ.running (n + 1)) (.inr (.inr (.inr at_)))

/-- The loop thread comes back to `uv_run`. -/
theorem loop_returns (attended : Attended ρ) : Recurs fun n => (ρ.state n).loop = .idle := by
  have scheduled := attended.toScheduled
  refine attended.catchesUp.then fun n (away : (ρ.state n).loop.drains = false) => ?_
  cases at_ : (ρ.state n).loop with
  | idle => exact ⟨n, Nat.le_refl n, at_⟩
  | drain | dispatch _ | write _ =>
    rw [at_] at away
    cases away
  | connectTail c =>
    refine ((tail_leaves scheduled (.inl rfl)).trans fun n left => ⟨n + 1, Nat.le_succ n, ?_⟩) n at_
    obtain ⟨at_, o, t⟩ := ρ.left left
    exact t.returns (ρ.running (n + 1)) (.inr (.inl at_))
  | readTail c chunk =>
    refine ((tail_leaves scheduled (.inr ⟨chunk, rfl⟩)).trans fun n left =>
      ⟨n + 1, Nat.le_succ n, ?_⟩) n at_
    obtain ⟨at_, o, t⟩ := ρ.left left
    exact t.returns (ρ.running (n + 1)) (.inr (.inr (.inl ⟨chunk, at_⟩)))
  | timerLock =>
    obtain ⟨m, later, left⟩ := lock_leaves (c := 0) scheduled (.inl rfl) n at_
    obtain ⟨at_, o, t⟩ := ρ.left left
    obtain ⟨k, later', idle⟩ := scan_returns scheduled _ (m + 1)
      ((t.locks (c := 0) (ρ.running (m + 1))).1 at_)
    exact ⟨k, by omega, idle⟩
  | timerScan clients => exact scan_returns scheduled clients n at_
  | closeLock c =>
    obtain ⟨m, later, left⟩ := lock_leaves scheduled (.inr rfl) n at_
    obtain ⟨at_, o, t⟩ := ρ.left left
    obtain ⟨k, later', idle⟩ := destroy_returns scheduled c (m + 1)
      ((t.locks (ρ.running (m + 1))).2 at_)
    exact ⟨k, by omega, idle⟩
  | destroy c => exact destroy_returns scheduled c n at_

/-! ## What is closing is deleted -/

theorem Forever.phase (ρ : Forever h) (n : Nat) (c : Addr) : Life.Phase ((ρ.state n).life c) :=
  phase_of_reached (ρ.reaches n) c

/-- What no step of a life destroys holds from then on. -/
theorem Forever.life_kept (ρ : Forever h) {P : Life → Prop}
    (kept : ∀ l b l' out, Life.Phase l → P l → Life.Transition l b l' out → P l') (n : Nat)
    (holds : P ((ρ.state n).life c)) : P ((ρ.state (n + 1)).life c) :=
  life_keeps kept (ρ.sane n) (ρ.phase n c) (ρ.transition n) holds

theorem Forever.closes_kept (ρ : Forever h) {finished : Bool} (n : Nat)
    (closes : Life.Closes finished ((ρ.state n).life c)) :
    Life.Closes finished ((ρ.state (n + 1)).life c) :=
  ρ.life_kept (fun _ _ _ _ phase closes t => closes.step phase t) n closes

theorem life_core {cl : Client} (live : s.storage.heap c = some cl) :
    (s.life c).core = some cl.core := by
  simp [Sys.life, live]

theorem Life.Closes.finish {finished : Bool} {cl : Client} (closes : Life.Closes finished (s.life c))
    (live : s.storage.heap c = some cl) (no : cl.connectReq = false) : Life.Closes true (s.life c) :=
  ⟨closes.1, fun k here => by
    rw [life_core live] at here
    cases here
    exact ⟨(closes.2 _ (life_core live)).1, fun _ => no⟩⟩

/-- The mutex of a client that is closing is free. -/
theorem Life.Closes.free {finished : Bool} {cl : Client} (sane : Sane s)
    (phase : Life.Phase (s.life c)) (closes : Life.Closes finished (s.life c))
    (live : s.storage.heap c = some cl) : cl.stateMutex = false := by
  refine Bool.eq_false_iff.mpr fun held => ?_
  have here := life_core live
  obtain ⟨-, shows, -⟩ := phase.present _ here
  have keeps := (sane.mutex c cl live).mp held
  have opening : (s.life c).stage = .unasked ∨ (s.life c).stage = .asked := by
    cases at_ : s.server <;> simp_all [ServerPc.mutex, Sys.life, ServerPc.stage]
  have unset := (shows.unset (shows.opening.mpr opening)).1
  have closing : cl.core.handle = .closing := (closes.2 _ here).1
  rw [unset] at closing
  cases closing

/-- libuv cancels the connect request of a handle that is closing. -/
theorem request_finishes (attended : Attended ρ) (c : Addr) :
    LeadsTo (fun n => Life.Closes false ((ρ.state n).life c))
      fun n => Life.Closes true ((ρ.state n).life c) := by
  refine (attended.onConnect c).leadsTo (fun n closes => .inr (ρ.closes_kept n closes)) ?_ ?_
  · rintro n closes ⟨status, taken⟩
    have closes' := ρ.closes_kept n closes
    have t := taken ▸ ρ.transition n
    generalize ρ.out n = out at t
    generalize ρ.state (n + 1) = s' at t closes' ⊢
    cases t
    case onConnectFail cl at_ live requested free fails =>
      exact closes'.finish (by simp [ClientStorage.set_heap]; rfl) rfl
    case onConnect cl at_ live requested open_ free connects =>
      exact closes'.finish (by simp [ClientStorage.set_heap]; rfl) rfl
  · intro n closes
    obtain ⟨m, later, idle⟩ := loop_returns attended n
    refine ⟨m, later, ?_⟩
    have closes := kept_on ρ.closes_kept closes m later
    cases live : (ρ.state m).storage.heap c with
    | none => exact .inl ⟨closes.1, by simp [Sys.life, live]⟩
    | some cl =>
      by_cases no : cl.connectReq = false
      · exact .inl (closes.finish live no)
      refine .inr ⟨.onConnect c (-1), ?_⟩
      have free := closes.free (ρ.sane m) (ρ.phase m c) live
      have running := ρ.running m
      simp [step, running, Sys.callback, idle, live, no, free, Client.connects]

/-- The close callback deletes the client. -/
theorem Transition.destroys {o : Outcome} (t : Transition h s (.loop o) s' out) (sane : Sane s)
    (running : s'.fault = false) (at_ : s.loop = .destroy c) : s'.storage.heap c = none := by
  cases t
  case destroy d cl at' live =>
    obtain rfl : c = d := by simpa [at_] using at'
    simp [sane.sound.destroy_eq live, ClientStorage.erase_heap]
  all_goals simp_all

/-- A client whose handle is closing is deleted. -/
theorem closing_deleted (attended : Attended ρ) (c : Addr) :
    LeadsTo (fun n => Life.Closes false ((ρ.state n).life c))
      fun n => (ρ.state n).storage.heap c = none := by
  have scheduled := attended.toScheduled
  have calls : LeadsTo (fun n => Life.Closes true ((ρ.state n).life c))
      fun n => (ρ.state n).storage.heap c = none ∨ (ρ.state n).loop = .closeLock c := by
    refine (attended.onDisconnect c).leadsTo (fun n closes => .inr (ρ.closes_kept n closes)) ?_ ?_
    · intro n closes taken
      have t := taken ▸ ρ.transition n
      generalize ρ.out n = out at t
      generalize ρ.state (n + 1) = s' at t ⊢
      cases t
      exact .inr rfl
    · intro n closes
      obtain ⟨m, later, idle⟩ := loop_returns attended n
      refine ⟨m, later, ?_⟩
      have closes := kept_on ρ.closes_kept closes m later
      cases live : (ρ.state m).storage.heap c with
      | none => exact .inl (.inl live)
      | some cl =>
        obtain ⟨closing, no⟩ := closes.2 _ (life_core live)
        have closing : cl.handle = .closing := closing
        have no : cl.connectReq = false := no rfl
        refine .inr ⟨.onDisconnect c, ?_⟩
        have running := ρ.running m
        simp [step, running, Sys.callback, idle, live, closing, no]
  have locks : LeadsTo (fun n => (ρ.state n).loop = .closeLock c)
      fun n => (ρ.state n).loop = .destroy c :=
    (lock_leaves scheduled (.inr rfl)).trans fun n left => by
      obtain ⟨at_, o, t⟩ := ρ.left left
      exact ⟨n + 1, Nat.le_succ n, (t.locks (ρ.running (n + 1))).2 at_⟩
  have deletes : LeadsTo (fun n => (ρ.state n).loop = .destroy c)
      fun n => (ρ.state n).storage.heap c = none :=
    (holder_leaves scheduled rfl).trans fun n left => by
      obtain ⟨at_, o, t⟩ := ρ.left left
      exact ⟨n + 1, Nat.le_succ n, t.destroys (ρ.sane n) (ρ.running (n + 1)) at_⟩
  exact (request_finishes attended c).trans
    (calls.trans (LeadsTo.or (.of_imp fun _ dead => dead) (locks.trans deletes)))

/-! ## What is asked to close is closed -/

/-- A request stays pending until it is carried out. -/
theorem pending_step (t : Transition h s a s' out) (running : s'.fault = false)
    (waits : ⟨.disconnect, c⟩ ∈ s.pending) :
    ⟨.disconnect, c⟩ ∈ s'.pending ∨ ∃ cl, s'.storage.heap c = some cl ∧ cl.handle = .closing := by
  cases t
  case disconnect_ o d cl at_ live =>
    by_cases same : d = c
    · subst same
      exact .inr ⟨_, by simp [ClientStorage.set_heap]; rfl, rfl⟩
    · left
      simpa [Sys.pending, at_, LoopPc.dispatching, Ne.symm same] using waits
  case connectEnqueue | disconnectEnqueue | writeEnqueue =>
    left
    simp only [Sys.pending, Fifo.push, List.mem_append] at waits ⊢
    tauto
  all_goals
    left
    simp_all [Sys.pending, LoopPc.dispatching]

/-- `onAsync` does not return before it has carried out all requests. -/
theorem drains_step (t : Transition h s a s' out) (waits : s.pending ≠ [])
    (drains : s.loop.drains = true) : s'.loop.drains = true ∨ s'.fault = true := by
  cases t <;> simp_all [LoopPc.drains, Sys.pending, LoopPc.dispatching]

/-- A signal is pending until `onAsync` runs. -/
theorem signal_step (t : Transition h s a s' out) (rung : s.asyncPending = true) :
    s'.asyncPending = true ∨ s'.loop.drains = true := by
  cases t <;> simp_all [LoopPc.drains]

theorem pending_of_asleep (asleep : s.loop.drains = false) : s.pending = s.requestQueue := by
  cases at_ : s.loop <;> simp_all [LoopPc.drains, Sys.pending, LoopPc.dispatching]

/-- A request in the queue has been rung for, or is about to be. -/
theorem noticed_of_reached {trace : List Event} (run : Reaches (step h) (.start h) s trace) :
    s.requestQueue ≠ [] → s.asyncPending = true ∨ s.loop.drains = true ∨ s.server.rings = true := by
  obtain ⟨d, rfl, rung⟩ :=
    (requests_simulate h).run (show (Sys.start h).doorbell = Doorbell.quiet from rfl) run
  exact Doorbell.noticed_of_run rung

/-- A request that is pending is carried out. -/
theorem request_carried_out (attended : Attended ρ) (c : Addr) :
    LeadsTo (fun n => ⟨.disconnect, c⟩ ∈ (ρ.state n).pending)
      fun n => ∃ cl, (ρ.state n).storage.heap c = some cl ∧ cl.handle = .closing := by
  refine .of_never fun n waits never => ?_
  have waits := kept_while (fun m waits => (pending_step (ρ.transition m) (ρ.running (m + 1)) waits).symm)
    waits never
  -- once `onAsync` runs, it runs for ever
  have asleep (m : Nat) (later : n ≤ m) : (ρ.state m).loop.drains = false := by
    refine Bool.eq_false_iff.mpr fun awake => ?_
    have stays : ∀ i, m ≤ i → (ρ.state i).loop.drains = true := by
      intro i after
      induction i, after using Nat.le_induction with
      | base => exact awake
      | succ i after ih =>
        have owes := List.ne_nil_of_mem (waits i (Nat.le_trans later after))
        exact (drains_step (ρ.transition i) owes ih).resolve_right (by simp [ρ.running (i + 1)])
    obtain ⟨i, after, caught⟩ := attended.catchesUp m
    rw [stays i after] at caught
    cases caught
  -- it has been rung for, or will have been when the server thread is done
  obtain ⟨k, after, idle⟩ := server_returns attended.toScheduled n
  have rung (m : Nat) (later : k ≤ m) : (ρ.state m).asyncPending = true := by
    induction m, later using Nat.le_induction with
    | base =>
      have queued : (ρ.state k).requestQueue ≠ [] := fun empty => by
        have awake := waits k after
        rw [pending_of_asleep (asleep k after), empty] at awake
        cases awake
      rcases noticed_of_reached (ρ.reaches k) queued with rung | awake | ringing
      · exact rung
      · rw [asleep k after] at awake
        cases awake
      · rw [idle] at ringing
        cases ringing
    | succ m later ih =>
      refine (signal_step (ρ.transition m) ih).resolve_right fun awake => ?_
      rw [asleep (m + 1) (by omega)] at awake
      cases awake
  have taken : Recurs fun m => ρ.action m = .onAsync := by
    refine attended.onAsync fun m => ?_
    obtain ⟨i, later, idle⟩ := loop_returns attended (max k m)
    have rung := rung i (Nat.le_trans (Nat.le_max_left k m) later)
    have running := ρ.running i
    refine ⟨i, Nat.le_trans (Nat.le_max_right k m) later, .onAsync, ?_⟩
    simp [step, running, idle, rung]
  obtain ⟨m, later, called⟩ := taken k
  have awake : (ρ.state (m + 1)).loop.drains = true := by
    have t := called ▸ ρ.transition m
    generalize ρ.out m = out at t
    generalize ρ.state (m + 1) = s' at t ⊢
    cases t
    rfl
  rw [asleep (m + 1) (by omega)] at awake
  cases awake

/-! ## What is there is visited by the timer -/

theorem ClientStorage.Sound.mem_clients {st : ClientStorage} (sound : st.Sound) {cl : Client}
    (live : st.heap c = some cl) : c ∈ st.clients :=
  List.mem_map.mpr ⟨⟨cl.id, c⟩, AList.mem_lookup_iff.mp (sound.registered c cl live), rfl⟩

/-- A round of the timer visits all its clients. -/
theorem scan_visits (scheduled : Scheduled ρ) {clients : List Addr} (member : c ∈ clients) :
    LeadsTo (fun n => (ρ.state n).loop = .timerScan clients)
      fun n => ∃ rest, ρ.Leaves (.timerScan (c :: rest)) n := by
  have leaves (clients : List Addr) := holder_leaves scheduled
    (show (LoopPc.timerScan clients).holdsStorage = true from rfl)
  induction clients with
  | nil => cases member
  | cons d clients ih =>
    by_cases same : c = d
    · subst same
      exact (leaves (c :: clients)).mono (fun _ at_ => at_) fun _ left => ⟨clients, left⟩
    · refine ((leaves (d :: clients)).trans fun n left => ⟨n + 1, Nat.le_succ n, ?_⟩).trans
        (ih (List.mem_of_ne_of_mem same member))
      obtain ⟨at_, o, t⟩ := ρ.left left
      exact t.scans (ρ.running (n + 1)) at_

/-- A client that is there at every round is visited again and again. -/
theorem visits_recur (attended : Attended ρ) {n : Nat}
    (lives : ∀ m, n ≤ m → (ρ.state m).storage.heap c ≠ none) (k : Nat) :
    ∃ m, k ≤ m ∧ ∃ rest, ρ.Leaves (.timerScan (c :: rest)) m := by
  have scheduled := attended.toScheduled
  have called : Recurs fun m => ρ.action m = .onTimer := by
    refine attended.onTimer ((loop_returns attended).mono fun m idle => ⟨.onTimer, ?_⟩)
    have running := ρ.running m
    simp [step, running, idle]
  obtain ⟨m, later, called⟩ := called (max n k)
  have waits : (ρ.state (m + 1)).loop = .timerLock := by
    have t := called ▸ ρ.transition m
    generalize ρ.out m = out at t
    generalize ρ.state (m + 1) = s' at t ⊢
    cases t
    rfl
  obtain ⟨i, after, left⟩ := lock_leaves (c := 0) scheduled (.inl rfl) (m + 1) waits
  obtain ⟨at_, o, t⟩ := ρ.left left
  obtain ⟨cl, live⟩ := Option.ne_none_iff_exists'.mp (lives i (by omega))
  obtain ⟨j, after', visit⟩ := scan_visits scheduled ((ρ.sane i).sound.mem_clients live) (i + 1)
    ((t.locks (c := 0) (ρ.running (i + 1))).1 at_)
  exact ⟨j, by omega, visit⟩

/-- A visit ends a client that is expired. -/
theorem Transition.visit {o : Outcome} {rest : List Addr} {cl : Client}
    (t : Transition h s (.loop o) s' out) (at_ : s.loop = .timerScan (c :: rest))
    (live : s.storage.heap c = some cl) (expired : ∀ word, cl.expired s.clock word = true) :
    ∃ cl', s'.storage.heap c = some cl' ∧ cl'.state = .disconnecting := by
  cases t
  case timerReap d clients cl' word at' live' free expired' =>
    obtain ⟨rfl, rfl⟩ : c = d ∧ rest = clients := by simpa [at_] using at'
    exact ⟨_, by simp [ClientStorage.set_heap]; rfl, rfl⟩
  case timerSkip d clients cl' word at' live' free fresh =>
    obtain ⟨rfl, rfl⟩ : c = d ∧ rest = clients := by simpa [at_] using at'
    rw [live] at live'
    cases live'
    rw [expired word] at fresh
    cases fresh
  case loopStray d dead used =>
    obtain rfl : c = d := by simpa [at_, LoopPc.clients] using used
    rw [live] at dead
    cases dead
  all_goals simp_all

/-! ## What is not used is marked as used no more -/

/-- What the timer compares stays the same. -/
theorem quiet_step (sane : Sane s) (t : Transition h s a s' out) (unpolled : s.server.touches c = false)
    (open_ : s.loop.touches c = false) (born : c < s.storage.next) {cl' : Client}
    (live' : s'.storage.heap c = some cl') : ∃ cl, s.storage.heap c = some cl ∧
      cl.lastAccess = cl'.lastAccess ∧ cl.timeout = cl'.timeout := by
  have sound := sane.sound
  clear sane
  cases t
  case create o backend at_ unknown room alloc =>
    have other : c ≠ s.storage.next := Nat.ne_of_lt born
    simp only [ClientStorage.insert_heap, other, ↓reduceIte] at live'
    exact ⟨cl', live', rfl, rfl⟩
  case pollTouch o d data cl at_ live =>
    have other : c ≠ d := by rintro rfl; simp [at_, ServerPc.touches] at unpolled
    simp only [ClientStorage.set_heap, other, ↓reduceIte] at live'
    exact ⟨cl', live', rfl, rfl⟩
  case connectTail o d cl at_ live =>
    have other : c ≠ d := by rintro rfl; simp [at_, LoopPc.touches] at open_
    simp only [ClientStorage.set_heap, other, ↓reduceIte] at live'
    exact ⟨cl', live', rfl, rfl⟩
  case connect_ o d cl at_ live free =>
    clear sound
    cases o <;> grind [Client.connect_]
  case destroy o d cl at_ live =>
    have := sound.destroy_eq live
    clear sound
    grind
  all_goals clear sound; grind

/-- Nobody is about to mark a client as used whose `read` passes no test. -/
theorem unpolled_step (t : Transition h s a s' out) (running : s'.fault = false)
    (refused : ∀ k, .live k c ∉ out) (unpolled : s.server.touches c = false) :
    s'.server.touches c = false := by
  cases t
  case enter enters => cases enters <;> rfl
  case skip skips => cases skips <;> rfl
  case disconnectIdle caller _ _ _ _ _ _ => cases caller <;> rfl
  case disconnectSend caller _ _ => cases caller <;> rfl
  case pollLive o d data cl at_ live free readable =>
    have other : d ≠ c := by rintro rfl; exact refused _ List.mem_cons_self
    simpa [ServerPc.touches] using other
  all_goals simp_all [ServerPc.touches]

/-- Nor is `onConnect`, if the connection is not to be established any more. -/
theorem untouched_step (t : Transition h s a s' out)
    (decided : ∀ cl, s.storage.heap c = some cl → cl.state ≠ .connecting)
    (open_ : s.loop.touches c = false) : s'.loop.touches c = false := by
  cases t
  case onConnect d status cl at_ live requested open' free connects =>
    have other : d ≠ c := by
      rintro rfl
      simp only [Client.connects, Bool.and_eq_true, decide_eq_true_eq] at connects
      exact decided cl live connects.2
    simpa [LoopPc.touches] using other
  all_goals simp_all [LoopPc.touches]

/-! ## What is not used is given back -/

theorem Forever.next_le (ρ : Forever h) {n m : Nat} (later : n ≤ m) :
    (ρ.state n).storage.next ≤ (ρ.state m).storage.next := by
  induction m, later using Nat.le_induction with
  | base => exact Nat.le_refl _
  | succ m later ih => exact Nat.le_trans ih (ρ.transition m).next_le

/-- A client that is disconnected is deleted. -/
theorem disconnecting_deleted (attended : Attended ρ) (c : Addr) :
    LeadsTo (fun n => ∃ cl, (ρ.state n).storage.heap c = some cl ∧ cl.state = .disconnecting)
      fun n => (ρ.state n).storage.heap c = none := by
  have closed : LeadsTo (fun n => ∃ cl, (ρ.state n).storage.heap c = some cl ∧ cl.handle = .closing)
      fun n => (ρ.state n).storage.heap c = none := by
    refine (closing_deleted attended c).mono ?_ fun _ dead => dead
    rintro n ⟨cl, live, closing⟩
    refine ⟨by simpa [Sys.life] using (ρ.sane n).sound.fresh c cl live, fun k here => ?_⟩
    rw [life_core live] at here
    cases here
    exact ⟨closing, by simp⟩
  have asked : LeadsTo (fun n => ⟨.disconnect, c⟩ ∈ (ρ.state n).pending)
      fun n => (ρ.state n).storage.heap c = none := (request_carried_out attended c).trans closed
  have leaves (caller : Caller) : LeadsTo (fun n => (ρ.state n).server = .disconnectEnqueue caller c)
      fun n => ⟨.disconnect, c⟩ ∈ (ρ.state n).pending := by
    refine (server_returns attended.toScheduled).meets (fun n at_ => ?_) fun n at_ idle => ?_
    · have t := ρ.transition n
      generalize ρ.out n = out at t
      generalize ρ.action n = a at t
      have running := ρ.running (n + 1)
      generalize ρ.state (n + 1) = s' at t running ⊢
      cases t <;> simp_all [Sys.pending, Fifo.push]
    · rw [at_] at idle
      cases idle
  rintro n ⟨cl, live, state⟩
  have lived : Run Life.step always Life.unborn ((ρ.state n).life c)
      ((ρ.history n).filterMap (observeLife c)) :=
    life_of_run (fun _ _ _ _ _ _ _ => trivial) (ρ.reaches n)
  rcases Life.ending_of_run lived cl.core (life_core live) state with leaving | waits | closing
  · obtain ⟨caller, at_⟩ := ServerPc.leaves_of_stage leaving
    exact (leaves caller).trans asked n at_
  · exact asked n (mem_requests.mp waits)
  · exact closed n ⟨cl, live, closing⟩

/-- Neither `CONNECTING` nor `DISCONNECTED` while the server thread is in
`FCGI_Accept`, and never again. -/
theorem settled_of_idle (ρ : Forever h) {n : Nat} (born : c < (ρ.state n).storage.next)
    (idle : (ρ.state n).server = .accept) {m : Nat} (later : n ≤ m) {cl : Client}
    (live : (ρ.state m).storage.heap c = some cl) :
    cl.state ≠ .disconnected ∧ cl.state ≠ .connecting := by
  have settled : Life.Settled ((ρ.state n).life c) := by
    refine ⟨by simpa [Sys.life] using born, fun k here => ?_⟩
    obtain ⟨-, shows, -⟩ := (ρ.phase n c).present k here
    have away : ((ρ.state n).life c).stage = .none := by simp [Sys.life, idle, ServerPc.stage]
    constructor
    · intro state
      rcases shows.opening.mp state with unasked | asked
      · rw [away] at unasked
        cases unasked
      · rw [away] at asked
        cases asked
    · intro state
      have awaiting := shows.connecting state
      rw [away] at awaiting
      cases awaiting
  have kept := kept_on (P := fun n => Life.Settled ((ρ.state n).life c))
    (fun n settled => ρ.life_kept (fun _ _ _ _ phase settled t => settled.step phase t) n settled)
    settled m later
  exact kept.2 _ (life_core live)

/-- What the timer compares is the same from some time on. -/
theorem quiet_in_the_end (attended : Attended ρ) {n : Nat} (born : c < (ρ.state n).storage.next)
    (idle : (ρ.state n).server = .accept) (unpolled : ∀ m, n ≤ m → ∀ k, .live k c ∉ ρ.out m)
    (lives : ∀ m, n ≤ m → (ρ.state m).storage.heap c ≠ none) :
    ∃ i last timeout, n ≤ i ∧ ∀ m cl, i ≤ m → (ρ.state m).storage.heap c = some cl →
      cl.lastAccess = last ∧ cl.timeout = timeout := by
  obtain ⟨i, after, returned⟩ := loop_returns attended n
  have untouched : ∀ m, i ≤ m → (ρ.state m).loop.touches c = false := by
    intro m later
    induction m, later using Nat.le_induction with
    | base => rw [returned]; rfl
    | succ m later ih =>
      exact untouched_step (ρ.transition m)
        (fun cl live => (settled_of_idle ρ born idle (Nat.le_trans after later) live).2) ih
  have unread : ∀ m, n ≤ m → (ρ.state m).server.touches c = false := by
    intro m later
    induction m, later using Nat.le_induction with
    | base => rw [idle]; rfl
    | succ m later ih =>
      exact unpolled_step (ρ.transition m) (ρ.running (m + 1)) (unpolled m later) ih
  obtain ⟨cl₀, live₀⟩ := Option.ne_none_iff_exists'.mp (lives i after)
  refine ⟨i, cl₀.lastAccess, cl₀.timeout, after, fun m cl later live => ?_⟩
  induction m, later using Nat.le_induction generalizing cl with
  | base =>
    rw [live₀] at live
    cases live
    exact ⟨rfl, rfl⟩
  | succ m later ih =>
    have late := Nat.le_trans after later
    obtain ⟨before, here, same, same'⟩ := quiet_step (ρ.sane m) (ρ.transition m) (unread m late)
      (untouched m later) (Nat.lt_of_lt_of_le born (ρ.next_le late)) live
    rw [← same, ← same']
    exact ih before here

theorem abandoned_deleted (attended : Attended ρ) {n : Nat} (born : c < (ρ.state n).storage.next)
    (idle : (ρ.state n).server = .accept) (unpolled : ∀ m, n ≤ m → ∀ k, .live k c ∉ ρ.out m) :
    ∃ m, n ≤ m ∧ (ρ.state m).storage.heap c = none := by
  by_contra never
  have lives (m : Nat) (later : n ≤ m) : (ρ.state m).storage.heap c ≠ none :=
    fun dead => never ⟨m, later, dead⟩
  have undisturbed (m : Nat) (later : n ≤ m) (cl : Client)
      (live : (ρ.state m).storage.heap c = some cl) : cl.state ≠ .disconnecting := fun state => by
    obtain ⟨i, after, dead⟩ := disconnecting_deleted attended c m ⟨cl, live, state⟩
    exact lives i (Nat.le_trans later after) dead
  -- so it is `CONNECTED` or `FAIL_CONNECT`, and no visit of the timer finds it expired
  have spared (m : Nat) (later : n ≤ m) (rest : List Addr) (visit : ρ.Leaves (.timerScan (c :: rest)) m)
      (cl : Client) (live : (ρ.state m).storage.heap c = some cl) :
      ¬ ∀ word, cl.expired (ρ.state m).clock word = true := fun expired => by
    obtain ⟨at_, o, t⟩ := ρ.left visit
    obtain ⟨cl', live', state⟩ := t.visit at_ live expired
    exact undisturbed (m + 1) (Nat.le_succ_of_le later) cl' live' state
  obtain ⟨i, last, timeout, after, quiet⟩ := quiet_in_the_end attended born idle unpolled lives
  have connected (m : Nat) (later : i ≤ m) (rest : List Addr)
      (visit : ρ.Leaves (.timerScan (c :: rest)) m) (cl : Client)
      (live : (ρ.state m).storage.heap c = some cl) : cl.state = .connected := by
    have late := Nat.le_trans after later
    obtain ⟨opened, established⟩ := settled_of_idle ρ born idle late live
    have undisturbed := undisturbed m late cl live
    have found : cl.state ≠ .failConnect := fun failed =>
      spared m late rest visit cl live fun word => by simp [Client.expired, failed]
    cases state : cl.state <;> simp_all
  obtain ⟨v, late, rest, visit⟩ := visits_recur attended lives i
  obtain ⟨cl, live⟩ := Option.ne_none_iff_exists'.mp (lives v (Nat.le_trans after late))
  obtain ⟨past, recorded⟩ := (ρ.reaches v).recorded readings
  obtain ⟨-, access, -, assigned, -⟩ :=
    access_of_visit recorded visit.1 live (.inl (connected v late rest visit cl live))
  obtain ⟨lastly, allowed⟩ := quiet v cl late live
  rw [assigned] at lastly
  -- the next visit after its time is up
  obtain ⟨w, up⟩ := attended.clock (access + timeout)
  obtain ⟨v', late', rest', visit'⟩ := visits_recur attended lives (max i w)
  have later : i ≤ v' := Nat.le_trans (Nat.le_max_left i w) late'
  have due := up v' (Nat.le_trans (Nat.le_max_right i w) late')
  obtain ⟨cl', live'⟩ := Option.ne_none_iff_exists'.mp (lives v' (Nat.le_trans after later))
  obtain ⟨lastly', allowed'⟩ := quiet v' cl' later live'
  refine spared v' (Nat.le_trans after later) rest' visit' cl' live' fun word => ?_
  have state := connected v' later rest' visit' cl' live'
  have idle : timeout ≤ (ρ.state v').clock - access := by omega
  simp [Client.expired, state, lastly', ← lastly, allowed', idle]

/-- A session that nobody polls any more is given back: its client is destroyed,
and its id is not known then. -/
theorem session_reclaimed (attended : Attended ρ) {n k : Nat} {id : Bytes}
    (created : .created k c id ∈ ρ.out n)
    (abandoned : ∃ i, ∀ m, i ≤ m → ∀ k, .live k c ∉ ρ.out m) :
    ∃ m, n ≤ m ∧ .destroyed c ∈ ρ.out m ∧ (ρ.state (m + 1)).storage.heap c = none ∧
      (ρ.state (m + 1)).storage.get id = none := by
  obtain ⟨i, unpolled⟩ := abandoned
  have new : c < (ρ.state (n + 1)).storage.next ∧ (ρ.state (n + 1)).storage.heap c ≠ none := by
    have t := ρ.transition n
    generalize ρ.state (n + 1) = s' at t ⊢
    generalize ρ.action n = a at t
    generalize ρ.out n = out at t created
    cases t <;> simp at created
    obtain ⟨-, rfl, -⟩ := created
    exact ⟨Nat.lt_succ_self _, by simp [ClientStorage.insert_heap]⟩
  obtain ⟨m, later, idle⟩ := server_returns attended.toScheduled (max (n + 1) i)
  have after : n + 1 ≤ m := Nat.le_trans (Nat.le_max_left _ i) later
  obtain ⟨j, after', dead⟩ := abandoned_deleted attended
    (Nat.lt_of_lt_of_le new.1 (ρ.next_le after)) idle
    fun m' later' => unpolled m' (Nat.le_trans (Nat.le_trans (Nat.le_max_right (n + 1) i) later) later')
  -- there is a step at which it goes
  obtain ⟨last, before, live, gone⟩ : ∃ last, n + 1 ≤ last ∧
      (ρ.state last).storage.heap c ≠ none ∧ (ρ.state (last + 1)).storage.heap c = none := by
    by_contra never
    have lives : ∀ m, n + 1 ≤ m → (ρ.state m).storage.heap c ≠ none := by
      intro m later
      induction m, later using Nat.le_induction with
      | base => exact new.2
      | succ m later ih => exact fun gone => never ⟨m, later, ih, gone⟩
    exact lives j (Nat.le_trans after after') dead
  obtain ⟨cl, live⟩ := Option.ne_none_iff_exists'.mp live
  have named : cl.id = id := by
    have earlier : .created k c id ∈ ρ.history last :=
      List.mem_flatMap.mpr ⟨n, List.mem_range.mpr before, created⟩
    obtain ⟨backend, opened, -⟩ := origins_of_run (ρ.reaches last) live
    obtain ⟨backend', opened'⟩ := opened_of_created (ρ.reaches last) earlier
    exact (opened.unique (ρ.reaches last) opened').1
  obtain ⟨destroyed, unknown⟩ := destroyed_step (ρ.sane last) (ρ.transition last) live gone
  exact ⟨last, Nat.le_of_succ_le before, destroyed, gone, named ▸ unknown⟩

end

/-- libuv has no client to call back for. -/
theorem Quiet.callback {h : Host} {s : Sys} (quiet : Quiet s) {ρ : Forever h} {k : Nat}
    (ends : Endless.EndsWith ρ k (quiet.endless (h := h))) (n : Nat) (c : Addr)
    (run : Client → Option (Sys × List Event)) :
    Sys.callback ((quiet.endless (h := h)).state n) c run = none := by
  have sane : Sane ((quiet.endless (h := h)).state n) := (ends n).1 ▸ ρ.sane (k + n)
  have none_ : ((quiet.endless (h := h)).state n).storage.clients = [] := quiet.clients
  unfold Sys.callback
  split
  · rfl
  split
  · rfl
  · rename_i cl live
    have member := sane.sound.mem_clients live
    rw [none_] at member
    cases member

theorem Quiet.attended {h : Host} {s : Sys} (quiet : Quiet s) {ρ : Forever h} {k : Nat}
    (ends : Endless.EndsWith ρ k (quiet.endless (h := h))) : Attended ρ where
  toScheduled := quiet.scheduled ends
  onAsync := by
    refine ends.fair_of_disabled ?_
    rintro n ⟨-, s', out, rfl, moved⟩
    have silent : ((quiet.endless (h := h)).state n).asyncPending = false := quiet.asyncPending
    simp [step, silent] at moved
  onTimer := ends.fair fun n => ⟨4 * n, by omega, by
    have now : (4 * n) % 4 = 0 := by omega
    simp [endless, action, now]⟩
  onConnect c := by
    refine ends.fair_of_disabled ?_
    rintro n ⟨-, s', out, ⟨status, rfl⟩, moved⟩
    simp [step, quiet.callback ends n] at moved
  onDisconnect c := by
    refine ends.fair_of_disabled ?_
    rintro n ⟨-, s', out, rfl, moved⟩
    simp [step, quiet.callback ends n] at moved
  catchesUp := ends.recurs (R := fun s _ => s.loop.drains = false) fun n => ⟨4 * n, by omega, by
    have now : (4 * n) % 4 = 0 := by omega
    simp [endless, state, now, LoopPc.drains]⟩
  clock t := by
    refine ⟨k + 4 * (t - s.clock).toNat, fun m late => ?_⟩
    obtain ⟨i, rfl⟩ := Nat.exists_eq_add_of_le (Nat.le_trans (Nat.le_add_right k _) late)
    rw [(ends i).1]
    simp only [endless, state]
    omega

/-- Nobody asks for the end of the session, and it ends. -/
theorem session_reclaimed_abandoned : ∃ (ρ : Forever Sample.host) (m : Nat),
    (∃ n, n ≤ m ∧ .created 1 0 Sample.uuid ∈ ρ.out n) ∧ .destroyed 0 ∈ ρ.out m := by
  obtain ⟨ρ, s, quiet, k, ends, ⟨n, created⟩, -⟩ := Sample.abandoned_forever
  have silent (m : Nat) (late : k ≤ m) (i : Nat) : .live i 0 ∉ ρ.out m := by
    have nothing : ρ.out m = [] := ends.all (R := fun _ _ out => out = []) (fun _ => rfl) late
    rw [nothing]
    exact List.not_mem_nil
  obtain ⟨m, later, destroyed, -⟩ := session_reclaimed (quiet.attended ends) created ⟨k, silent⟩
  exact ⟨ρ, m, ⟨n, later, created⟩, destroyed⟩

end LinearFcgi
