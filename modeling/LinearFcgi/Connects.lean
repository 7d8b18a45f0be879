import LinearFcgi.Downlink

/-! What `Client::connect` tells its caller. It waits at most until the loop
thread has answered or its time is up, and a late answer may come at any moment
around that; but whatever it returns stays true. -/
namespace LinearFcgi

open TraceMachine

namespace Life

/-- A connection stands only if it was established. -/
theorem established_of_run {allow : Life → Action → Prop} {l : Life} {trace : List Event}
    (run : Run step allow unborn l trace) :
    ∀ k, l.core = some k → k.state = .connected → .connected ∈ trace := by
  refine run.invariant
    (I := fun l trace => ∀ k, l.core = some k → k.state = .connected → .connected ∈ trace) ?_ ?_
  · intro k here
    cases here
  · intro l trace b l' out _ established _ stepped k here state
    have t := step_cases stepped
    rw [List.mem_append]
    cases t
    case connected => exact .inr List.mem_cons_self
    case stray | destroy => cases here
    case create | publish | mark | connectFail | failed | hangUp | reap =>
      cases here
      cases state
    case close | connect =>
      cases here
      exact .inl (established _ rfl state)
    all_goals exact .inl (established k here state)

/-- A connection that is past all reading stays so, and is read no more. -/
theorem Spent.goes_on {l l' : Life} {trace : List Event} (phase : Phase l) (spent : Spent l)
    (rest : Reaches Life.step l l' trace) : Spent l' ∧ .live ∉ trace := by
  have kept : Phase l' ∧ Spent l' ∧ .live ∉ trace := by
    refine rest.invariant (I := fun l trace => Phase l ∧ Spent l ∧ .live ∉ trace) ?_ ?_
    · exact ⟨phase, spent, nofun⟩
    · rintro l trace b l' out - ⟨phase, spent, unread⟩ - stepped
      have t := step_cases stepped
      refine ⟨phase.step t, spent.step phase t, ?_⟩
      rw [List.mem_append]
      rintro (earlier | now)
      · exact unread earlier
      · cases t <;> simp at now
        case live k born dying requests state =>
          rcases spent.state k rfl with failed | leaving <;> rcases state with state | state <;>
            simp_all
  exact kept.2

end Life

/-- `Client::connect` has decided to return `false`. -/
def ServerPc.givesUp (c : Addr) : ServerPc → Bool
  | .connectReturn d f => d = c && !f
  | .disconnectEnqueue .connect d | .disconnectSend .connect d => d = c
  | .accept | .lock _ | .locked _ | .disconnectReturn | .postReturn => false
  | .connectBegin _ _ | .connectEnqueue _ | .connectSend _ | .connectPublish _
  | .connectWait _ _ => false
  | .disconnectBegin _ _ | .disconnectEnqueue .handler _ | .disconnectSend .handler _ => false
  | .pollTest _ _ | .pollTouch _ _ | .pollConsume _ _ | .pollStore _ _ _ | .pollEncode _ _ => false
  | .writeTest _ _ | .writeProduce _ _ | .writeEnqueue _ | .writeSend _ => false

section

variable {h : Host} {s s' : Sys} {a : Action} {out trace : List Event} {c : Addr}

/-- When `Client::connect` is called, the client is as it was created. -/
theorem unsettled_of_phase {cl : Client} {backend : Backend} (phase : Life.Phase (s.life c))
    (at_ : s.server = .connectBegin c backend) (live : s.storage.heap c = some cl) :
    cl.settled = none := by
  obtain ⟨-, shows, -⟩ := phase.present cl.core (by simp [Sys.life, live])
  have state : cl.state = .disconnected :=
    shows.opening.mpr (.inl (by simp [Sys.life, at_, ServerPc.stage]))
  simp [Client.settled, state]

/-- A client in such a state is past all reading. -/
private theorem spent_of_state {cl : Client} (sane : Sane s) (live : s.storage.heap c = some cl)
    (state : cl.state = .failConnect ∨ cl.state = .disconnecting) : Life.Spent (s.life c) where
  born := decide_eq_true (sane.sound.fresh c cl live)
  state := by
    intro k here
    simp only [Sys.life, live, Option.map_some, Option.some.injEq] at here
    exact here ▸ state

theorem givesUp_step (sane : Sane s) (phase : Life.Phase (s.life c))
    (spent : s.server.givesUp c = true → Life.Spent (s.life c)) (t : Transition h s a s' out) :
    s'.server.givesUp c = true → Life.Spent (s'.life c) := by
  intro gaveUp
  by_cases before : s.server.givesUp c = true
  · exact life_keeps (fun _ _ _ _ phase spent t => spent.step phase t) sane phase t (spent before)
  clear spent
  have sane' := sane.step t
  cases t
  case connectSettled o d backend cl f at_ live free settled =>
    obtain ⟨rfl, -⟩ : d = c ∧ f = false := by simpa [ServerPc.givesUp] using gaveUp
    rw [unsettled_of_phase phase at_ live] at settled
    cases settled
  case wakeReturn o d deadline cl f at_ live free state =>
    obtain ⟨rfl, rfl⟩ : d = c ∧ f = false := by simpa [ServerPc.givesUp] using gaveUp
    exact spent_of_state sane' live (.inl (by simpa using state))
  case disconnectIdle o caller d cl at_ live free idle =>
    cases caller with
    | handler => simp [Caller.resume, ServerPc.givesUp] at gaveUp
    | connect =>
      obtain rfl : d = c := by simpa [Caller.resume, ServerPc.givesUp] using gaveUp
      obtain ⟨-, shows, -⟩ := phase.present cl.core (by simp [Sys.life, live])
      have begun : cl.state ≠ .disconnected := by
        intro state
        have opening := shows.opening.mp state
        simp [Sys.life, at_, ServerPc.stage] at opening
      refine spent_of_state sane' live ?_
      cases state : cl.state <;> simp_all [Client.idle]
  case disconnectMark o caller d cl at_ live free busy =>
    cases caller with
    | handler => simp [ServerPc.givesUp] at gaveUp
    | connect =>
      obtain rfl : d = c := by simpa [ServerPc.givesUp] using gaveUp
      have marked : (s.storage.set d { cl with state := .disconnecting }).heap d =
          some { cl with state := .disconnecting } := by simp [ClientStorage.set_heap]
      exact spent_of_state sane' marked (.inr rfl)
  case disconnectEnqueue o caller d at_ =>
    cases caller <;> simp_all [ServerPc.givesUp]
  case disconnectSend o caller d at_ =>
    cases caller <;> simp_all [ServerPc.givesUp, Caller.resume]
  case enter o handler d next allowed at_ found enters => cases enters <;> simp [ServerPc.givesUp] at gaveUp
  case skip o handler next at_ skips => cases skips <;> simp [ServerPc.givesUp] at gaveUp
  all_goals simp_all [ServerPc.givesUp]

/-- Once `Client::connect` has decided to return `false`, the client is past all
reading. -/
theorem spent_of_givesUp (run : Reaches (step h) (.start h) s trace)
    (gaveUp : s.server.givesUp c = true) : Life.Spent (s.life c) := by
  refine run.invariant (I := fun s _ => s.server.givesUp c = true → Life.Spent (s.life c)) ?_ ?_
    gaveUp
  · intro gaveUp
    cases gaveUp
  · intro s trace a s' out before spent _ stepped
    exact givesUp_step (sane_of_run before) (phase_of_reached before c) spent (step_cases stepped).2

/-- A client is `CONNECTED` only if the loop thread has established the
connection. -/
theorem connected_of_state {guard : Sys → Action → Prop}
    (run : Run (step h) guard (.start h) s trace) {cl : Client}
    (live : s.storage.heap c = some cl) (state : cl.state = .connected) : .connected c ∈ trace := by
  have lived : Run Life.step always Life.unborn (s.life c) (trace.filterMap (observeLife c)) :=
    life_of_run (fun _ _ _ _ _ _ _ => trivial) run
  have established := Life.established_of_run lived cl.core (by simp [Sys.life, live]) state
  obtain ⟨e, member, seen⟩ := List.mem_filterMap.mp established
  cases e <;> simp [observeLife] at seen
  exact seen ▸ member

/-- When `Client::connect` returns `true`, the loop thread has established the
connection. -/
theorem connected_of_returns (run : Reaches (step h) (.start h) s trace)
    (returns : s.server = .connectReturn c true) : .connected c ∈ trace := by
  refine run.invariant
    (I := fun s trace => s.server = .connectReturn c true → .connected c ∈ trace) ?_ ?_ returns
  · intro returns
    cases returns
  · intro s trace a s' out before connected any stepped returns
    rw [List.mem_append]
    have phase := phase_of_reached before c
    have established (cl : Client) := @connected_of_state h s trace c _ before cl
    have t := (step_cases stepped).2
    clear any stepped before
    by_cases already : s.server = .connectReturn c true
    · exact .inl (connected already)
    left
    cases t
    case connectSettled o d backend cl f at_ live free settled =>
      cases returns
      rw [unsettled_of_phase phase at_ live] at settled
      cases settled
    case wakeReturn o d deadline cl f at_ live free state =>
      cases returns
      exact established cl live state
    case enter enters => cases enters <;> simp at returns
    case skip skips => cases skips <;> simp at returns
    case disconnectIdle o caller d cl at_ live free idle =>
      cases caller <;> simp [Caller.resume] at returns
    case disconnectSend o caller d at_ => cases caller <;> simp [Caller.resume] at returns
    all_goals simp_all

/-- `Client::connect` returns `true` only if `onConnect` ran with status 0 while
the client was `CONNECTING`; and once it returns `false`, the client is never
again `CONNECTED` or `CONNECTING`, and no `read` of it succeeds. -/
theorem connect_agrees (run : Reaches (step h) (.start h) s trace) (c : Addr) :
    (s.server = .connectReturn c true → ∃ s₀ before cl s₁ out after,
      Reaches (step h) (.start h) s₀ before ∧ s₀.storage.heap c = some cl ∧
      cl.state = .connecting ∧ step h s₀ (.onConnect c 0) = some (s₁, out) ∧
      Reaches (step h) s₁ s after ∧ trace = before ++ (out ++ after)) ∧
    (s.server = .connectReturn c false → ∀ t later, Reaches (step h) s t later →
      (∀ cl, t.storage.heap c = some cl → cl.state ≠ .connected ∧ cl.state ≠ .connecting) ∧
      ∀ n, .live n c ∉ later) := by
  constructor
  · intro returns
    obtain ⟨s₀, before, a, s₁, out, after, run₀, -, stepped, emitted, rest, split⟩ :=
      run.emitted (connected_of_returns run returns)
    have t := (step_cases stepped).2
    cases t <;> simp at emitted
    case onConnect d status cl at_ live requested open_ free connects =>
      subst emitted
      simp only [Client.connects, Bool.and_eq_true, decide_eq_true_eq] at connects
      obtain ⟨rfl, state⟩ := connects
      exact ⟨s₀, before, cl, _, _, after, run₀, live, state, stepped, rest, split⟩
  · intro returns t later rest
    have spent := spent_of_givesUp (c := c) run (by rw [returns]; simp [ServerPc.givesUp])
    obtain ⟨spent', unread⟩ :=
      spent.goes_on (phase_of_reached run c) (life_goes_on run rest c)
    constructor
    · intro cl live
      have state := spent'.state cl.core (by simp [Sys.life, live])
      rcases state with failed | leaving
      · exact ⟨by simp [show cl.state = .failConnect from failed],
          by simp [show cl.state = .failConnect from failed]⟩
      · exact ⟨by simp [show cl.state = .disconnecting from leaving],
          by simp [show cl.state = .disconnecting from leaving]⟩
    · intro n live
      exact unread (List.mem_filterMap.mpr ⟨_, live, by simp [observeLife]⟩)

end

/-- The backend answers too late: the session is given up, and stays so. -/
theorem connect_agrees_late : ∃ s trace,
    exec (step Sample.host) (.start Sample.host) (Sample.connecting ++
      [.clock 1, .server .timedOut, .onConnect 0 0, .loop .ok, .server .ok, .server .ok,
        .server .ok]) = some (s, trace) ∧
    s.server = .connectReturn 0 false ∧
    ∀ t later, Reaches (step Sample.host) s t later → ∀ n, .live n 0 ∉ later := by
  obtain ⟨⟨s, trace⟩, ran, returns⟩ := Option.map_eq_some_iff.mp
    (show (exec (step Sample.host) (.start Sample.host) (Sample.connecting ++
      [.clock 1, .server .timedOut, .onConnect 0 0, .loop .ok, .server .ok, .server .ok,
        .server .ok])).map (fun r => r.1.server) = some (.connectReturn 0 false) by decide +kernel)
  have returns : s.server = .connectReturn 0 false := returns
  exact ⟨s, trace, ran, returns, fun t later rest =>
    ((connect_agrees (reaches_of_exec ran) 0).2 returns t later rest).2⟩

end LinearFcgi
