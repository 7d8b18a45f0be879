import LinearFcgi.Exchanges

/-! One iteration of `Server::run`, once the request is read: it is answered
once, the storage lock is taken and given back in between, and only the wait for
a connection can be prolonged. -/
namespace LinearFcgi

open TraceMachine

/-- The two ends of an iteration. -/
inductive Turn where
  | request (n : Nat)
  | answer (n : Nat)
  deriving DecidableEq

/-- The requests and answers in the history. -/
def turns (trace : List Event) : List Turn :=
  trace.filterMap fun
    | .accepted n _ => some (.request n)
    | .response n _ _ => some (.answer n)
    | _ => none

/-- Each of `k` requests with its answer behind it. -/
def dialogue (k : Nat) : List Turn := (List.range k).flatMap fun i => [.request (i + 1), .answer (i + 1)]

/-- The answer that is still to come. -/
def Sys.owed (s : Sys) : List Turn := if s.server = .accept then [] else [.answer s.exchange]

/-- The server thread's step locks the storage, if nobody has. -/
def Sys.Acquires (h : Host) (s : Sys) (o : Outcome) : Prop :=
  ∃ s' out, step h { s with storageLock := none } (.server o) = some (s', out) ∧
    s'.storageLock = some .server

/-- The server thread's step unlocks the storage, even if another has it. -/
def Sys.Releases (h : Host) (s : Sys) (o : Outcome) : Prop :=
  ∃ s' out, step h { s with storageLock := some .loop } (.server o) = some (s', out) ∧
    s'.storageLock = none

/-- The server thread is about to copy a chunk out of a read queue. -/
def Sys.copies (s : Sys) : Bool :=
  match s.server with
  | .pollConsume c _ => match s.storage.heap c with
    | some cl => cl.readQueue.head?.any (· ≠ [])
    | none => false
  | _ => false

/-- How many steps are left at most, if the wait for the connection ends. -/
def ServerPc.rank : ServerPc → Nat
  | .accept => 0
  | .connectReturn _ _ | .disconnectReturn | .pollEncode _ _ | .postReturn => 1
  | .disconnectSend _ _ | .writeSend _ => 2
  | .disconnectEnqueue _ _ | .writeEnqueue _ => 3
  | .disconnectBegin _ _ | .writeProduce _ _ => 4
  | .connectWait _ _ | .writeTest _ _ => 5
  | .connectPublish _ => 6
  | .connectSend _ => 7
  | .connectEnqueue _ => 8
  | .connectBegin _ _ => 9
  -- each round of `onPoll` gathers at least one byte
  | .pollStore _ data _ => 4 * (dataThreshold - data.length) + 2
  | .pollConsume _ data => 4 * (dataThreshold - data.length) + 3
  | .pollTouch _ data => 4 * (dataThreshold - data.length) + 4
  | .pollTest _ data => 4 * (dataThreshold - data.length) + 5
  | .locked _ => 4 * dataThreshold + 10
  | .lock _ => 4 * dataThreshold + 11

/-- How many steps the loop thread takes at most until it unlocks the storage. -/
def LoopPc.rank : LoopPc → Nat
  | .timerScan clients => clients.length + 1
  | .destroy _ => 1
  | .idle | .drain | .dispatch _ | .write _ | .connectTail _ | .readTail _ _ | .timerLock
  | .closeLock _ => 0

/-- Nothing else is accepted, and no wait ends for nothing. -/
def goesOn (s : Sys) (a : Action) : Prop :=
  (∀ req uuid, a ≠ .accept req uuid) ∧
  ∀ c deadline cl o, s.server = .connectWait c deadline → s.storage.heap c = some cl →
    a = .server o → o = .timedOut ∨ cl.state = .connected ∨ cl.state = .failConnect

/-- A wait does not time out before its deadline. -/
def Sys.May (s : Sys) (o : Outcome) : Prop :=
  ∀ c deadline, s.server = .connectWait c deadline → o = .timedOut → deadline ≤ s.clock

/-- The steps of the server thread, as they turn out. -/
def serverMoves (_ : Sys) : Action → List Outcome
  | .server o => [o]
  | _ => []

section

variable {h : Host} {s s' : Sys} {a : Action} {out trace : List Event}

@[simp] theorem turns_append (trace out : List Event) :
    turns (trace ++ out) = turns trace ++ turns out := List.filterMap_append

theorem dialogue_succ (k : Nat) :
    dialogue (k + 1) = dialogue k ++ [.request (k + 1), .answer (k + 1)] := by
  simp [dialogue, List.range_succ]

/-! ## One step -/

theorem turns_step (t : Transition h s a s' out) :
    s'.exchange = s.exchange ∧ turns out ++ s'.owed = s.owed ∨
    s'.exchange = s.exchange + 1 ∧ s.owed = [] ∧
      turns out ++ s'.owed = [.request (s.exchange + 1), .answer (s.exchange + 1)] := by
  cases t
  case refuse at_ routed => exact .inr ⟨rfl, by simp [Sys.owed, at_], by simp [turns, Sys.owed]⟩
  case proceed at_ routed => exact .inr ⟨rfl, by simp [Sys.owed, at_], by simp [turns, Sys.owed]⟩
  case destroy o c cl at_ live =>
    left
    refine ⟨rfl, ?_⟩
    cases (s.storage.destroy cl.id).2 <;> simp [turns, Sys.owed]
  case enter o handler c next allowed at_ found enters =>
    left
    cases enters <;> simp [turns, Sys.owed, at_]
  case skip o handler next at_ skips =>
    left
    cases skips <;> simp [turns, Sys.owed, at_]
  case disconnectIdle o caller c cl at_ live free idle =>
    left
    cases caller <;> simp [turns, Sys.owed, at_, Caller.resume]
  case disconnectSend o caller c at_ =>
    left
    cases caller <;> simp [turns, Sys.owed, at_, Caller.resume]
  all_goals
    left
    first
    | exact ⟨rfl, rfl⟩
    | simp [turns, Sys.owed, *]

/-- Only a thread that has the storage lock gives it back. -/
theorem holds_of_releases {o : Outcome} (sane : Sane s) (releases : s.Releases h o) :
    s.storageLock = some .server := by
  obtain ⟨s', out, stepped, free⟩ := releases
  rw [sane.serverHolds]
  have t := (step_cases stepped).2
  cases t
  all_goals
    first
    | rw [show s.server = _ from ‹_›]
      rfl
    | cases free

theorem not_holds_of_acquires {o : Outcome} (sane : Sane s) (acquires : s.Acquires h o) :
    s.storageLock ≠ some .server := by
  obtain ⟨s', out, stepped, taken⟩ := acquires
  rw [Ne, sane.serverHolds]
  have t := (step_cases stepped).2
  cases t
  case lock handler at_ free =>
    rw [show s.server = _ from at_]
    simp [ServerPc.holdsStorage]
  all_goals cases taken

/-- What `Client::read` takes is not empty, if the poll goes on with it. -/
theorem nonempty_of_run {guard : Sys → Action → Prop} (run : Run (step h) guard (.start h) s trace)
    {c : Addr} {data chunk : Bytes} (at_ : s.server = .pollStore c data chunk) : chunk ≠ [] := by
  refine run.invariant (I := fun s _ => ∀ c data chunk, s.server = .pollStore c data chunk →
    chunk ≠ []) ?_ ?_ c data chunk at_
  · intro c data chunk at_
    cases at_
  · rintro s trace a s' out - nonempty - stepped c data chunk at_
    have t := (step_cases stepped).2
    cases t
    case pollTake nonempty _ => cases at_; exact nonempty
    case enter enters => cases enters <;> cases at_
    case skip skips => cases skips <;> cases at_
    case disconnectIdle caller _ _ _ _ _ _ => cases caller <;> cases at_
    case disconnectSend caller _ _ => cases caller <;> cases at_
    all_goals first | exact nonempty c data chunk at_ | cases at_

theorem rank_step {o : Outcome} (sane : Sane s)
    (nonempty : ∀ c data chunk, s.server = .pollStore c data chunk → chunk ≠ [])
    (t : Transition h s (.server o) s' out) (alive : s'.fault = false) :
    s'.server.rank < s.server.rank ∨
    ∃ c deadline cl, s.server = .connectWait c deadline ∧ s.storage.heap c = some cl ∧
      o ≠ .timedOut ∧ cl.state ≠ .connected ∧ cl.state ≠ .failConnect := by
  cases t
  case wakeAgain c deadline cl at_ live connected failed woken =>
    exact .inr ⟨c, deadline, cl, at_, live, woken, connected, failed⟩
  case serverStray c dead used => exact absurd used (sane.server_tracks dead)
  case pollCrash c data chunk queue cl at_ live oldest nonempty => cases alive
  case enter handler c next allowed at_ found enters =>
    left
    rw [at_]
    cases enters <;> simp [ServerPc.rank]
  case skip handler next at_ skips =>
    left
    rw [at_]
    cases skips <;> simp [ServerPc.rank]
  case disconnectIdle caller c cl at_ live free idle =>
    left
    rw [at_]
    cases caller <;> simp [ServerPc.rank, Caller.resume]
  case disconnectSend caller c at_ =>
    left
    rw [at_]
    cases caller <;> simp [ServerPc.rank, Caller.resume]
  case pollMore c data chunk at_ room short =>
    left
    have some_ : 0 < chunk.length := List.length_pos_iff.mpr (nonempty c data chunk at_)
    have total : (data ++ chunk).length = data.length + chunk.length := List.length_append
    rw [at_]
    simp only [ServerPc.rank]
    omega
  all_goals
    left
    rw [show s.server = _ from ‹_›]
    simp [ServerPc.rank]

/-- Nothing that the server thread does ends the process, but the copy of a chunk
for which there is no memory. -/
theorem server_survives {o : Outcome} (sane : Sane s) (alive : s.fault = false)
    (t : Transition h s (.server o) s' out) :
    s'.fault = true ↔ o = .noCopy ∧ s.copies = true := by
  cases t
  case pollCrash c data chunk queue cl at_ live oldest nonempty =>
    simp [Sys.copies, at_, live, oldest, nonempty]
  case serverStray c dead used => exact absurd used (sane.server_tracks dead)
  case pollEmpty c data cl at_ live drained => simp [Sys.copies, at_, live, drained, alive]
  case pollBlank c data queue cl at_ live oldest => simp [Sys.copies, at_, live, oldest, alive]
  case pollTake c data chunk queue cl at_ live oldest nonempty copied => simp [copied, alive]
  case enter at_ found enters => simp [Sys.copies, show s.server = _ from at_, alive]
  case skip at_ skips => simp [Sys.copies, show s.server = _ from at_, alive]
  all_goals simp [Sys.copies, show s.server = _ from ‹_›, alive]

theorem deref_isSome {c : Addr} {cl : Client} {use : Client → Option (Sys × List Event)}
    (live : s.storage.heap c = some cl) (used : (use cl).isSome) : (s.deref c use).isSome := by
  simpa only [Sys.deref, live] using used

theorem lock_isSome {c : Addr} {cl : Client} {use : Client → Option (Sys × List Event)}
    (live : s.storage.heap c = some cl) (free : cl.stateMutex = false) (used : (use cl).isSome) :
    (s.lock c use).isSome := by
  refine deref_isSome live ?_
  simpa only [free, Bool.false_eq_true, ↓reduceIte] using used

theorem handle_isSome (sane : Sane s) (o : Outcome) (handler : Handler) :
    (s.handle h o handler).isSome := by
  cases handler with
  | connect backend =>
    simp only [Sys.handle]
    split <;> rfl
  | attach =>
    simp only [Sys.handle]
    split <;> rfl
  | disconnect =>
    simp only [Sys.handle]
    split <;> rfl
  | poll =>
    simp only [Sys.handle]
    split <;> rfl
  | post =>
    simp only [Sys.handle]
    split
    · rfl
    · rename_i c found
      obtain ⟨cl, live, -⟩ := sane.sound.allocated _ c found
      refine deref_isSome live ?_
      split
      · rfl
      · split <;> rfl

/-- The server thread can always take its next step, whatever the calls in it
return, unless it is to lock the storage and the loop thread has. -/
theorem server_moves (sane : Sane s) (busy : s.server ≠ .accept) {o : Outcome} (may : s.May o)
    (open_ : ∀ handler, s.server = .lock handler → s.storageLock ≠ some .loop) : (s.serverStep h o).isSome := by
  -- what the server thread works on is there, and nobody else has its mutex
  have client (c : Addr) (used : s.server.client = some c) (unlocked : s.server.mutex = none) :
      ∃ cl, s.storage.heap c = some cl ∧ cl.stateMutex = false := by
    obtain ⟨cl, live⟩ := sane.serverClient c used
    refine ⟨cl, live, Bool.eq_false_iff.mpr fun locked => ?_⟩
    rw [sane.mutex c cl live, unlocked] at locked
    cases locked
  cases at_ : s.server with
  | accept => exact absurd at_ busy
  | lock handler =>
    have free : s.storageLock = none := by
      cases holder : s.storageLock with
      | none => rfl
      | some thread =>
        cases thread with
        | loop => exact absurd holder (open_ handler at_)
        | server =>
          rw [sane.serverHolds, at_] at holder
          cases holder
    simp [Sys.serverStep, at_, free]
  | locked handler => simpa only [Sys.serverStep, at_] using handle_isSome sane o handler
  | connectBegin c backend =>
    obtain ⟨cl, live, free⟩ := client c (by rw [at_]; rfl) (by rw [at_]; rfl)
    simp only [Sys.serverStep, at_]
    refine lock_isSome live free ?_
    split <;> rfl
  | connectPublish c =>
    obtain ⟨cl, live⟩ := sane.serverClient c (by rw [at_]; rfl)
    simp only [Sys.serverStep, at_]
    exact deref_isSome live rfl
  | connectWait c deadline =>
    obtain ⟨cl, live, free⟩ := client c (by rw [at_]; rfl) (by rw [at_]; rfl)
    have punctual : ¬ (o = .timedOut ∧ s.clock < deadline) := by
      rintro ⟨timedOut, early⟩
      have due := may c deadline at_ timedOut
      omega
    simp only [Sys.serverStep, at_, punctual, ↓reduceIte]
    refine lock_isSome live free ?_
    split <;> rfl
  | connectReturn c f =>
    simp only [Sys.serverStep, at_]
    split <;> rfl
  | disconnectBegin caller c =>
    obtain ⟨cl, live, free⟩ := client c (by rw [at_]; rfl) (by rw [at_]; rfl)
    simp only [Sys.serverStep, at_]
    refine lock_isSome live free ?_
    split <;> rfl
  | pollTest c data =>
    obtain ⟨cl, live, free⟩ := client c (by rw [at_]; rfl) (by rw [at_]; rfl)
    simp only [Sys.serverStep, at_]
    refine lock_isSome live free ?_
    split <;> rfl
  | pollTouch c data =>
    obtain ⟨cl, live⟩ := sane.serverClient c (by rw [at_]; rfl)
    simp only [Sys.serverStep, at_]
    exact deref_isSome live rfl
  | pollConsume c data =>
    obtain ⟨cl, live⟩ := sane.serverClient c (by rw [at_]; rfl)
    simp only [Sys.serverStep, at_]
    refine deref_isSome live ?_
    split
    · rfl
    · split
      · rfl
      · split <;> rfl
  | pollStore c data chunk =>
    simp only [Sys.serverStep, at_]
    split
    · rfl
    · split <;> rfl
  | pollEncode c data =>
    simp only [Sys.serverStep, at_]
    split <;> rfl
  | writeTest c data =>
    obtain ⟨cl, live, free⟩ := client c (by rw [at_]; rfl) (by rw [at_]; rfl)
    simp only [Sys.serverStep, at_]
    refine lock_isSome live free ?_
    split <;> rfl
  | writeProduce c data =>
    obtain ⟨cl, live⟩ := sane.serverClient c (by rw [at_]; rfl)
    simp only [Sys.serverStep, at_]
    exact deref_isSome live rfl
  | _ => simp only [Sys.serverStep, at_, Option.isSome_some]

/-- So can the loop thread, if it has the storage lock. -/
theorem loop_moves (sane : Sane s) (holds : s.storageLock = some .loop) (o : Outcome) :
    (s.loopStep h o).isSome := by
  have holding := sane.loopHolds.mp holds
  -- the server thread keeps no mutex while it has not locked the storage
  have unlocked (c : Addr) : s.server.mutex ≠ some c := fun keeps => by
    have server := sane.serverHolds.mpr
      (ServerPc.holdsStorage_of_client (ServerPc.client_of_mutex keeps))
    rw [holds] at server
    cases server
  cases at_ : s.loop with
  | timerScan clients =>
    cases clients with
    | nil => simp only [Sys.loopStep, at_, Option.isSome_some]
    | cons c rest =>
      obtain ⟨cl, live⟩ := sane.loopClients c (by rw [at_]; exact List.mem_cons_self)
      have free : cl.stateMutex = false :=
        Bool.eq_false_iff.mpr fun locked => unlocked c ((sane.mutex c cl live).mp locked)
      simp only [Sys.loopStep, at_]
      refine lock_isSome live free ?_
      split <;> rfl
  | destroy c =>
    obtain ⟨cl, live⟩ := sane.loopClients c (by rw [at_]; exact List.mem_cons_self)
    simp only [Sys.loopStep, at_]
    exact deref_isSome live rfl
  | _ =>
    rw [at_] at holding
    cases holding

/-- And it gives the lock back. -/
theorem loop_rank_step {o : Outcome} (sane : Sane s) (holds : s.storageLock = some .loop)
    (t : Transition h s (.loop o) s' out) :
    s'.storageLock = none ∨ s'.storageLock = some .loop ∧ s'.loop.rank < s.loop.rank := by
  have holding := sane.loopHolds.mp holds
  cases t
  case timerReap c clients cl word at_ live free expired =>
    rw [at_]
    exact .inr ⟨holds, Nat.lt_succ_self _⟩
  case timerSkip c clients cl word at_ live free fresh =>
    rw [at_]
    exact .inr ⟨holds, Nat.lt_succ_self _⟩
  case loopStray c dead used =>
    obtain ⟨type, at_⟩ := sane.loop_tracks dead used
    rw [at_] at holding
    cases holding
  all_goals
    first
    | exact .inl rfl
    | rw [show s.loop = _ from ‹_›] at holding
      cases holding

theorem Transition.keepsServer (t : Transition h s a s' out) (moves : ∀ o, a ≠ .server o)
    (accepts : ∀ req uuid, a ≠ .accept req uuid) : s'.server = s.server := by
  cases t
  all_goals
    first
    | rfl
    | exact absurd rfl (moves _)
    | exact absurd rfl (accepts _ _)

/-! ## Whole runs -/

theorem turns_of_run (run : Reaches (step h) (.start h) s trace) :
    turns trace ++ s.owed = dialogue s.exchange := by
  refine run.invariant (I := fun s trace => turns trace ++ s.owed = dialogue s.exchange) rfl ?_
  intro s trace a s' out _ before _ stepped
  rw [turns_append, List.append_assoc]
  rcases turns_step (step_cases stepped).2 with ⟨same, kept⟩ | ⟨next, nothing, both⟩
  · rw [same, kept, before]
  · rw [nothing, List.append_nil] at before
    rw [both, before, next, dialogue_succ]

/-- A step lowers the rank of the server thread by what it counts, if nothing is
accepted, no wait ends for nothing and the server thread's step is survived. -/
theorem rank_counts (run : Reaches (step h) (.start h) s trace) (allowed : goesOn s a)
    (t : Transition h s a s' out) (survived : ∀ o, a = .server o → s'.fault = false) :
    (serverMoves s a).length + s'.server.rank ≤ s.server.rank := by
  obtain ⟨accepts, waits⟩ := allowed
  by_cases moves : ∃ o, a = .server o
  · obtain ⟨o, rfl⟩ := moves
    have lower : s'.server.rank < s.server.rank := by
      rcases rank_step (sane_of_run run) (fun c data chunk => nonempty_of_run run) t
          (survived o rfl) with lower | ⟨c, deadline, cl, at_, live, woken, connected, failed⟩
      · exact lower
      · rcases waits c deadline cl o at_ live rfl with late | yes | no
        · exact absurd late woken
        · exact absurd yes connected
        · exact absurd no failed
    have one : (serverMoves s (.server o)).length = 1 := rfl
    omega
  · have kept := t.keepsServer (fun o server => moves ⟨o, server⟩) accepts
    have none_ : (serverMoves s a).length = 0 := by
      cases a <;> first | rfl | exact absurd ⟨_, rfl⟩ moves
    rw [none_, kept, Nat.zero_add]

end

end LinearFcgi
