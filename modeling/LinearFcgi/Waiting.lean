import LinearFcgi.Threads

/-! How the two threads wait for each other. `Client::connect` keeps the storage
locked while it waits for the loop thread, and two callbacks of the loop thread
begin by locking the storage. -/
namespace LinearFcgi

open TraceMachine

/-- The loop thread is at a callback's first step, which locks the storage. -/
def LoopPc.wantsStorage : LoopPc → Bool
  | .timerLock | .closeLock _ => true
  | .idle | .drain | .dispatch _ | .write _ | .connectTail _ | .readTail _ _ | .timerScan _
  | .destroy _ => false

/-- The server thread has the storage locked and waits for a client that only
the loop thread can get out of `CONNECTING`, which waits for the storage. -/
def CircularWait (s : Sys) : Prop :=
  s.loop.wantsStorage = true ∧ ∃ c deadline cl, s.server = .connectWait c deadline ∧
    s.storage.heap c = some cl ∧ cl.state = .connecting

/-- The server thread waits like this, or is on its way to with the storage
locked. -/
def ServerPc.awaits (storage : ClientStorage) : ServerPc → Bool
  | .connectBegin _ _ | .connectEnqueue _ | .connectSend _ | .connectPublish _ => true
  | .connectWait c _ => (storage.heap c).any (·.state = .connecting)
  | .accept | .lock _ | .locked _ | .disconnectReturn | .postReturn | .connectReturn _ _ => false
  | .disconnectBegin _ _ | .disconnectEnqueue _ _ | .disconnectSend _ _ => false
  | .pollTest _ _ | .pollTouch _ _ | .pollConsume _ _ | .pollStore _ _ _ | .pollEncode _ _ => false
  | .writeTest _ _ | .writeProduce _ _ | .writeEnqueue _ | .writeSend _ => false

/-- Neither callback begins while the server thread awaits the loop thread, and
no client is created while one of them has begun. -/
def keepsApart (h : Host) (s : Sys) : Action → Bool
  | .onTimer | .onDisconnect _ => ¬ s.server.awaits s.storage
  | .server o => match s.server with
    | .locked (.connect backend) => ¬ s.loop.wantsStorage ||
        (s.storage.create s.uuid backend.origins h.timeout (o ≠ .noMemory)).isNone
    | _ => true
  | _ => true

/-- The threads are not about to wait for each other. -/
def Apart (s : Sys) : Prop := s.loop.wantsStorage = true → s.server.awaits s.storage = false

section

variable {h : Host} {s s' : Sys} {a : Action} {out trace : List Event}

attribute [grind =] LoopPc.wantsStorage ServerPc.awaits

theorem Apart.step (apart : Apart s) (keeps : keepsApart h s a = true)
    (t : Transition h s a s' out) : Apart s' := by
  unfold Apart at *
  cases t
  case create o backend at_ unknown room alloc =>
    have created : s.storage.create s.uuid backend.origins h.timeout (o ≠ .noMemory) = some (_, _) :=
      ClientStorage.create_eq_some.mpr ⟨room, unknown, decide_eq_true alloc, rfl, rfl⟩
    intro wants
    have wants : s.loop.wantsStorage = true := wants
    simp only [keepsApart, at_] at keeps
    rw [created] at keeps
    simp [wants] at keeps
  case onTimer at_ =>
    intro _
    simpa [keepsApart] using keeps
  case onDisconnect at_ live closing finished =>
    intro _
    simpa [keepsApart] using keeps
  case enter enters => cases enters <;> exact fun _ => rfl
  case skip skips => cases skips <;> exact fun _ => rfl
  case disconnectIdle caller _ _ _ _ _ _ => cases caller <;> exact fun _ => rfl
  case disconnectSend caller _ _ => cases caller <;> exact fun _ => rfl
  all_goals
    first
    | exact apart
    | intro wants
      cases wants
    | clear keeps
      grind -linarith

/-- In every run that keeps the threads apart, they never wait for each other. -/
theorem no_circular_wait
    (run : Run (step h) (fun s a => keepsApart h s a = true) (.start h) s trace) :
    ¬ CircularWait s := by
  have apart : Apart s := by
    refine run.invariant (I := fun s _ => Apart s) ?_ ?_
    · intro wants
      cases wants
    · intro s trace a s' out _ apart keeps stepped
      exact apart.step keeps (step_cases stepped).2
  rintro ⟨wants, c, deadline, cl, at_, live, state⟩
  have awaits := apart wants
  simp [at_, ServerPc.awaits, live, state] at awaits

end

/-- The timer fires while a session waits to be connected. -/
def Sample.timedOut : List Action := Sample.connecting ++ [.onTimer]

theorem circular_wait : ∃ s trace,
    exec (step Sample.host) (.start Sample.host) Sample.timedOut = some (s, trace) ∧
      CircularWait s := by
  obtain ⟨⟨s, trace⟩, ran, stuck⟩ := Option.map_eq_some_iff.mp
    (show (exec (step Sample.host) (.start Sample.host) Sample.timedOut).map (fun r =>
      (r.1.loop, r.1.server, (r.1.storage.heap 0).map Client.state)) =
        some (.timerLock, .connectWait 0 1, some .connecting) by decide +kernel)
  simp only [Prod.mk.injEq, Option.map_eq_some_iff] at stuck
  obtain ⟨blocked, waits, cl, live, state⟩ := stuck
  exact ⟨s, trace, ran, by rw [blocked]; rfl, 0, 1, cl, waits, live, state⟩

/-- The timer has done its round before the session is asked for. -/
def Sample.timedBefore : List Action := [.onTimer, .loop .ok, .loop .ok] ++ Sample.connecting

theorem no_circular_wait_timedBefore : ∃ s trace,
    exec (restrict (step Sample.host) fun s a => keepsApart Sample.host s a = true)
      (.start Sample.host) Sample.timedBefore = some (s, trace) ∧
    s.server = .connectWait 0 1 ∧ ¬ CircularWait s := by
  obtain ⟨⟨s, trace⟩, ran, waits⟩ := Option.map_eq_some_iff.mp
    (show (exec (restrict (step Sample.host) fun s a => keepsApart Sample.host s a = true)
      (.start Sample.host) Sample.timedBefore).map (·.1.server) = some (.connectWait 0 1) by
      decide +kernel)
  exact ⟨s, trace, ran, waits, no_circular_wait (run_of_exec ran)⟩

end LinearFcgi
