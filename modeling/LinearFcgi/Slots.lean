import LinearFcgi.LifecycleProofs

/-! Who will give back the slot of a registered client. Only the close callback
does, so a client that is not in use must be one the timer reclaims, or one
whose close is on the way. -/
namespace LinearFcgi

open TraceMachine

namespace Life

/-- A connection that is ending is about to ask for its close, has asked for
it, or is being closed. -/
def Ending (l : Life) : Prop := ∀ k, l.core = some k → k.state = .disconnecting →
  l.stage = .leaving ∨ .disconnect ∈ l.requests ∨ k.handle = .closing

theorem Ending.step {l l' : Life} {b : Action} {out : List Event} (phase : Phase l)
    (ending : Ending l) (t : Transition l b l' out) : Ending l' := by
  intro k' here state
  cases t
  case create => cases here; cases state
  case stray | destroy => cases here
  case mark => exact .inl rfl
  case close | hangUp | reap =>
    -- each of them leaves the handle closing
    cases here
    exact .inr (.inr rfl)
  case publish | connectFail | connected | failed =>
    -- and each of these leaves another state
    cases here
    cases state
  case drop stage core born dying r rest idle =>
    have other : RequestType.disconnect ≠ r := by rcases idle with rfl | rfl <;> nofun
    simpa [other] using ending k' here state
  case connect stage k born dying rest handle unlocked =>
    obtain ⟨-, shows, -⟩ := phase.present k rfl
    have unset : k.handle = .unset := (shows.asked List.mem_cons_self).1
    cases here
    have waits := ending k rfl state
    simp only [List.mem_cons, reduceCtorEq, false_or, unset, or_false] at waits
    rcases waits with leaving | waiting
    · exact .inl leaving
    · exact .inr (.inl waiting)
  case leave => exact .inr (.inl (List.mem_append_right _ List.mem_cons_self))
  case ask | write | wake | allow | live | gone =>
    rcases ending k' here state with leaving | waiting | closing
    · cases leaving
    · exact .inr (.inl (by simpa using waiting))
    · exact .inr (.inr closing)
  case callback => exact ending k' here state

theorem ending_of_run {allow : Life → Action → Prop} {l : Life} {trace : List Event}
    (run : Run step allow unborn l trace) : Ending l := by
  refine run.invariant (I := fun l _ => Ending l) ?_ ?_
  · intro k here
    cases here
  · intro l trace b l' out before ending _ stepped
    exact ending.step (phase_of_run before) (step_cases stepped)

end Life

/-- The server thread is creating the client at `c` or connecting it. -/
def ServerPc.opens (c : Addr) : ServerPc → Bool
  | .connectBegin d _ | .connectEnqueue d | .connectSend d | .connectPublish d
  | .connectWait d _ | .disconnectBegin .connect d => d = c
  | .accept | .lock _ | .locked _ | .disconnectReturn | .postReturn | .connectReturn _ _ => false
  | .disconnectBegin .handler _ | .disconnectEnqueue _ _ | .disconnectSend _ _ => false
  | .pollTest _ _ | .pollTouch _ _ | .pollConsume _ _ | .pollStore _ _ _ | .pollEncode _ _ => false
  | .writeTest _ _ | .writeProduce _ _ | .writeEnqueue _ | .writeSend _ => false

/-- Why the slot of the client `cl` at `c` is not lost. -/
inductive Accounted (s : Sys) (c : Addr) (cl : Client) : Prop where
  | opening (opens : s.server.opens c = true)
  /-- the timer reclaims it once it has been idle for long enough -/
  | connected (state : cl.state = .connected)
      (reclaimed : ∀ now word, cl.timeout ≤ now - cl.lastAccess.getD word →
        cl.expired now word = true)
  /-- the timer reclaims it on its next round -/
  | failed (state : cl.state = .failConnect) (reclaimed : ∀ now word, cl.expired now word = true)
  /-- `disconnect` is about to make its request -/
  | leaving (state : cl.state = .disconnecting) {caller : Caller}
      (runs : s.server = .disconnectEnqueue caller c)
  /-- `disconnect` has made it -/
  | asked (state : cl.state = .disconnecting) (waits : ⟨.disconnect, c⟩ ∈ s.pending)
  /-- `uv_close` was called -/
  | closing (state : cl.state = .disconnecting) (handle : cl.handle = .closing)

section

variable {h : Host} {s : Sys} {trace : List Event} {c : Addr}

theorem ServerPc.opens_of_stage {pc : ServerPc}
    (stands : pc.stage c = .unasked ∨ pc.stage c = .asked ∨ pc.stage c = .awaiting) :
    pc.opens c = true := by
  cases pc with
  | disconnectBegin caller d => cases caller <;> grind [ServerPc.opens]
  | _ => grind [ServerPc.opens]

theorem ServerPc.leaves_of_stage {pc : ServerPc} (leaving : pc.stage c = .leaving) :
    ∃ caller, pc = .disconnectEnqueue caller c := by
  cases pc with
  | disconnectBegin caller d => cases caller <;> grind
  | _ => grind

/-- No slot leaks: every registered client is being opened, is one the timer
reclaims, or has its close on the way; and none is left `CONNECTING` or
`DISCONNECTED` by the handler that created it. -/
theorem slot_accounted (run : Reaches (step h) (.start h) s trace) :
    ∀ id c, s.storage.get id = some c → ∃ cl, s.storage.heap c = some cl ∧ cl.id = id ∧
      Accounted s c cl ∧
      (s.server.opens c = false → cl.state ≠ .connecting ∧ cl.state ≠ .disconnected) := by
  intro id c registered
  obtain ⟨cl, live, named⟩ := (sane_of_run run).sound.allocated id c registered
  have here : (s.life c).core = some cl.core := by simp [Sys.life, live]
  have lived : Run Life.step always Life.unborn (s.life c) (trace.filterMap (observeLife c)) :=
    life_of_run (fun _ _ _ _ _ _ _ => trivial) run
  obtain ⟨-, shows, -⟩ := (Life.phase_of_run lived).present _ here
  have ending := Life.ending_of_run lived cl.core here
  have opening (state : cl.state = .disconnected) : s.server.opens c = true := by
    rcases shows.opening.mp state with unasked | asked
    · exact ServerPc.opens_of_stage (.inl unasked)
    · exact ServerPc.opens_of_stage (.inr (.inl asked))
  have connecting (state : cl.state = .connecting) : s.server.opens c = true :=
    ServerPc.opens_of_stage (.inr (.inr (shows.connecting state)))
  refine ⟨cl, live, named, ?_, ?_⟩
  · cases state : cl.state with
    | connecting => exact .opening (connecting state)
    | disconnected => exact .opening (opening state)
    | connected => exact .connected state fun now word idle => by simp [Client.expired, state, idle]
    | failConnect => exact .failed state fun now word => by simp [Client.expired, state]
    | disconnecting =>
      rcases ending state with leaving | waiting | closing
      · obtain ⟨caller, runs⟩ := ServerPc.leaves_of_stage leaving
        exact .leaving state runs
      · exact .asked state (mem_requests.mp waiting)
      · exact .closing state closing
  · intro away
    constructor
    · intro state
      rw [connecting state] at away
      cases away
    · intro state
      rw [opening state] at away
      cases away

end

/-- The backend hangs up on a session: its slot is still taken, and will be
given back. -/
theorem slot_accounted_hungUp : ∃ s trace,
    exec (step Sample.host) (.start Sample.host) (Sample.connected ++ [.onRead 0 none]) =
      some (s, trace) ∧
    s.storage.get Sample.uuid = some 0 ∧ ∃ cl, s.storage.heap 0 = some cl ∧ Accounted s 0 cl := by
  obtain ⟨⟨s, trace⟩, ran, registered⟩ := Option.map_eq_some_iff.mp
    (show (exec (step Sample.host) (.start Sample.host) (Sample.connected ++ [.onRead 0 none])).map
      (fun r => r.1.storage.get Sample.uuid) = some (some 0) by decide +kernel)
  have registered : s.storage.get Sample.uuid = some 0 := registered
  obtain ⟨cl, live, -, accounted, -⟩ := slot_accounted (reaches_of_exec ran) _ _ registered
  exact ⟨s, trace, ran, registered, cl, live, accounted⟩

end LinearFcgi
