import LinearFcgi.System

/-! The life of one session's connection, as an abstract machine: where the
server thread stands with it, which requests for it the loop thread has still
to carry out, and what libuv holds of it. Everything else of the process is
left out. What may happen to the connection, and what may not, is a matter of
this machine alone; `LifecycleProofs` shows that the process runs one of them
for every session. -/
namespace LinearFcgi

open TraceMachine

namespace Life

/-- Where the server thread stands with the client. -/
inductive Stage where
  /-- nowhere it would owe the client anything -/
  | none
  /-- in `Client::connect`, before the CONNECT request -/
  | unasked
  /-- behind it, with the mutex not yet released -/
  | asked
  /-- in the wait, or past it and about to call `Client::disconnect` -/
  | awaiting
  /-- in `Client::disconnect`, past its test and before the DISCONNECT request -/
  | leaving
  /-- in `Client::write`, past its test and before the WRITE request -/
  | writing
  deriving DecidableEq

/-- What the threads and libuv keep in a client. -/
structure Core where
  state : Client.State
  handle : Client.Handle
  connectReq : Bool
  deriving DecidableEq

inductive Event where
  | connected
  | disconnecting
  | hungUp
  | reaped
  | closed
  | destroyed
  | live
  | gone
  | useAfterFree
  deriving DecidableEq

inductive Action where
  | create
  | ask
  | publish
  | wake
  | mark
  | leave
  | allow
  | write
  | live
  | gone
  /-- the loop thread looks at a request and does nothing to the connection -/
  | drop
  /-- `_connect` leaves the handle like this; `true` if a connect request is out -/
  | connect (handle : Client.Handle) (requested : Bool)
  | close
  | stray
  | connected
  | failed
  | hangUp
  | reap
  /-- the close callback starts -/
  | callback
  | destroy
  deriving DecidableEq

end Life

/-- `core` is there as long as the client is; `born` stays. While `dying`, the
close callback waits for the storage lock. `requests` are those still to be
carried out, the oldest first. -/
structure Life where
  stage : Life.Stage
  core : Option Life.Core
  born : Bool
  dying : Bool
  requests : List RequestType
  deriving DecidableEq

namespace Life

def unborn : Life := ⟨.none, none, false, false, []⟩

/-- One step of a connection's life. -/
def step : Step Life Action Event := fun l b =>
  match b, l.core with
  | .create, none =>
    if l.born then none
    else some ({ l with stage := .unasked, born := true,
                        core := some ⟨.disconnected, .unset, false⟩ }, [])
  | .ask, some _ =>
    if l.stage = .unasked then
      some ({ l with stage := .asked, requests := l.requests ++ [.connect] }, [])
    else none
  | .publish, some k =>
    if l.stage = .asked then
      some ({ l with stage := .awaiting, core := some { k with state := .connecting } }, [])
    else none
  | .wake, some k =>
    if l.stage = .awaiting ∧ k.state ≠ .connecting then some ({ l with stage := .none }, [])
    else none
  | .mark, some k =>
    if (l.stage = .none ∨ l.stage = .awaiting) ∧ (k.state = .connecting ∨ k.state = .connected) then
      some ({ l with stage := .leaving, core := some { k with state := .disconnecting } },
        [.disconnecting])
    else none
  | .leave, some _ =>
    if l.stage = .leaving then
      some ({ l with stage := .none, requests := l.requests ++ [.disconnect] }, [])
    else none
  | .allow, some k =>
    if l.stage = .none ∧ k.state ≠ .disconnecting ∧ k.state ≠ .disconnected then
      some ({ l with stage := .writing }, [])
    else none
  | .write, some _ =>
    if l.stage = .writing then
      some ({ l with stage := .none, requests := l.requests ++ [.write] }, [])
    else none
  | .live, some k =>
    if l.stage = .none ∧ (k.state = .connecting ∨ k.state = .connected) then some (l, [.live])
    else none
  | .gone, some k =>
    if l.stage = .none ∧ k.state ≠ .connecting ∧ k.state ≠ .connected then some (l, [.gone])
    else none
  | .drop, _ => match l.requests with
    | r :: rest =>
      if r = .write ∨ r = .undefined then some ({ l with requests := rest }, []) else none
    | [] => none
  | .connect handle requested, some k => match l.requests with
    | .connect :: rest =>
      if l.stage = .asked ∨ handle = .closing then none
      else if requested then
        some ({ l with requests := rest, core := some { k with handle := .init
                                                               connectReq := true } }, [])
      else
        some ({ l with requests := rest, core := some { k with handle := handle
                                                               state := .failConnect } }, [])
    | _ => none
  | .close, some k => match l.requests with
    | .disconnect :: rest =>
      some ({ l with requests := rest, core := some { k with handle := .closing } }, [.closed])
    | _ => none
  | .stray, none => if l.requests ≠ [] then some (l, [.useAfterFree]) else none
  | .connected, some k =>
    if k.connectReq ∧ k.handle ≠ .closing ∧ k.state = .connecting then
      some ({ l with core := some { k with connectReq := false, state := .connected } },
        [.connected])
    else none
  | .failed, some k =>
    if k.connectReq then
      some ({ l with core := some { k with connectReq := false, state := .failConnect } }, [])
    else none
  | .hangUp, some k =>
    if k.handle ≠ .closing ∧ k.state = .connected then
      some ({ l with core := some { k with handle := .closing, state := .disconnecting } },
        [.hungUp, .closed])
    else none
  | .reap, some k =>
    if l.stage = .none ∧
        (k.state = .connected ∨ k.state = .connecting ∨ k.state = .failConnect) then
      some ({ l with core := some { k with handle := .closing, state := .disconnecting } },
        [.reaped, .closed])
    else none
  | .callback, some k =>
    if k.handle = .closing ∧ k.connectReq = false then some ({ l with dying := true }, []) else none
  | .destroy, some _ =>
    if l.stage = .none ∧ l.dying then
      some ({ l with core := none, dying := false }, [.destroyed])
    else none
  | _, _ => none

/-- What one step of a life can do: a constructor for every way through `step`. -/
inductive Transition : Life → Action → Life → List Event → Prop where
  | create {stage : Stage} {dying : Bool} {requests : List RequestType} :
      Transition ⟨stage, none, false, dying, requests⟩ .create
        ⟨.unasked, some ⟨.disconnected, .unset, false⟩, true, dying, requests⟩ []
  | ask {k : Core} {born dying : Bool} {requests : List RequestType} :
      Transition ⟨.unasked, some k, born, dying, requests⟩ .ask
        ⟨.asked, some k, born, dying, requests ++ [.connect]⟩ []
  | publish {k : Core} {born dying : Bool} {requests : List RequestType} :
      Transition ⟨.asked, some k, born, dying, requests⟩ .publish
        ⟨.awaiting, some { k with state := .connecting }, born, dying, requests⟩ []
  | wake {k : Core} {born dying : Bool} {requests : List RequestType}
      (settled : k.state ≠ .connecting) :
      Transition ⟨.awaiting, some k, born, dying, requests⟩ .wake
        ⟨.none, some k, born, dying, requests⟩ []
  | mark {stage : Stage} {k : Core} {born dying : Bool} {requests : List RequestType}
      (at_ : stage = .none ∨ stage = .awaiting)
      (state : k.state = .connecting ∨ k.state = .connected) :
      Transition ⟨stage, some k, born, dying, requests⟩ .mark
        ⟨.leaving, some { k with state := .disconnecting }, born, dying, requests⟩ [.disconnecting]
  | leave {k : Core} {born dying : Bool} {requests : List RequestType} :
      Transition ⟨.leaving, some k, born, dying, requests⟩ .leave
        ⟨.none, some k, born, dying, requests ++ [.disconnect]⟩ []
  | allow {k : Core} {born dying : Bool} {requests : List RequestType}
      (up : k.state ≠ .disconnecting) (begun : k.state ≠ .disconnected) :
      Transition ⟨.none, some k, born, dying, requests⟩ .allow
        ⟨.writing, some k, born, dying, requests⟩ []
  | write {k : Core} {born dying : Bool} {requests : List RequestType} :
      Transition ⟨.writing, some k, born, dying, requests⟩ .write
        ⟨.none, some k, born, dying, requests ++ [.write]⟩ []
  | live {k : Core} {born dying : Bool} {requests : List RequestType}
      (state : k.state = .connecting ∨ k.state = .connected) :
      Transition ⟨.none, some k, born, dying, requests⟩ .live
        ⟨.none, some k, born, dying, requests⟩ [.live]
  | gone {k : Core} {born dying : Bool} {requests : List RequestType}
      (settled : k.state ≠ .connecting) (down : k.state ≠ .connected) :
      Transition ⟨.none, some k, born, dying, requests⟩ .gone
        ⟨.none, some k, born, dying, requests⟩ [.gone]
  | drop {stage : Stage} {core : Option Core} {born dying : Bool} {r : RequestType}
      {rest : List RequestType} (idle : r = .write ∨ r = .undefined) :
      Transition ⟨stage, core, born, dying, r :: rest⟩ .drop ⟨stage, core, born, dying, rest⟩ []
  | connect {stage : Stage} {k : Core} {born dying : Bool} {rest : List RequestType}
      {handle : Client.Handle} (unlocked : stage ≠ .asked) :
      Transition ⟨stage, some k, born, dying, .connect :: rest⟩ (.connect handle true)
        ⟨stage, some { k with handle := .init, connectReq := true }, born, dying, rest⟩ []
  | connectFail {stage : Stage} {k : Core} {born dying : Bool} {rest : List RequestType}
      {handle : Client.Handle} (unlocked : stage ≠ .asked) (open_ : handle ≠ .closing) :
      Transition ⟨stage, some k, born, dying, .connect :: rest⟩ (.connect handle false)
        ⟨stage, some { k with handle := handle, state := .failConnect }, born, dying, rest⟩ []
  | close {stage : Stage} {k : Core} {born dying : Bool} {rest : List RequestType} :
      Transition ⟨stage, some k, born, dying, .disconnect :: rest⟩ .close
        ⟨stage, some { k with handle := .closing }, born, dying, rest⟩ [.closed]
  | stray {stage : Stage} {born dying : Bool} {requests : List RequestType}
      (owed : requests ≠ []) :
      Transition ⟨stage, none, born, dying, requests⟩ .stray
        ⟨stage, none, born, dying, requests⟩ [.useAfterFree]
  | connected {stage : Stage} {k : Core} {born dying : Bool} {requests : List RequestType}
      (requested : k.connectReq = true) (open_ : k.handle ≠ .closing)
      (state : k.state = .connecting) :
      Transition ⟨stage, some k, born, dying, requests⟩ .connected
        ⟨stage, some { k with connectReq := false, state := .connected }, born, dying, requests⟩
        [.connected]
  | failed {stage : Stage} {k : Core} {born dying : Bool} {requests : List RequestType}
      (requested : k.connectReq = true) :
      Transition ⟨stage, some k, born, dying, requests⟩ .failed
        ⟨stage, some { k with connectReq := false, state := .failConnect }, born, dying, requests⟩ []
  | hangUp {stage : Stage} {k : Core} {born dying : Bool} {requests : List RequestType}
      (open_ : k.handle ≠ .closing) (state : k.state = .connected) :
      Transition ⟨stage, some k, born, dying, requests⟩ .hangUp
        ⟨stage, some { k with handle := .closing, state := .disconnecting }, born, dying, requests⟩
        [.hungUp, .closed]
  | reap {k : Core} {born dying : Bool} {requests : List RequestType}
      (state : k.state = .connected ∨ k.state = .connecting ∨ k.state = .failConnect) :
      Transition ⟨.none, some k, born, dying, requests⟩ .reap
        ⟨.none, some { k with handle := .closing, state := .disconnecting }, born, dying, requests⟩
        [.reaped, .closed]
  | callback {stage : Stage} {k : Core} {born dying : Bool} {requests : List RequestType}
      (closing : k.handle = .closing) (finished : k.connectReq = false) :
      Transition ⟨stage, some k, born, dying, requests⟩ .callback
        ⟨stage, some k, born, true, requests⟩ []
  | destroy {k : Core} {born : Bool} {requests : List RequestType} :
      Transition ⟨.none, some k, born, true, requests⟩ .destroy
        ⟨.none, none, born, false, requests⟩ [.destroyed]

theorem step_cases {l l' : Life} {b : Action} {out : List Event}
    (stepped : step l b = some (l', out)) : Transition l b l' out := by
  obtain ⟨stage, core, born, dying, requests⟩ := l
  cases core <;> cases b <;> simp only [step, reduceCtorEq] at stepped
  case some.connect k handle asks =>
    split at stepped
    · split at stepped
      · cases stepped
      rename_i allowed
      simp only [not_or] at allowed
      cases asks <;> cases stepped
      · exact .connectFail allowed.1 allowed.2
      · exact .connect allowed.1
    · cases stepped
  case none.drop | some.drop =>
    split at stepped
    · split at stepped <;> cases stepped
      exact .drop ‹_›
    · cases stepped
  case some.close =>
    split at stepped <;> cases stepped
    exact .close
  case none.create =>
    obtain ⟨fresh, same⟩ := Option.ite_none_left_eq_some.mp stepped
    cases same
    obtain rfl := Bool.eq_false_iff.mpr fresh
    exact .create
  all_goals
    obtain ⟨allowed, same⟩ := Option.ite_none_right_eq_some.mp stepped
    cases same
  case none.stray => exact .stray allowed
  case some.ask => exact allowed ▸ .ask
  case some.publish => exact allowed ▸ .publish
  case some.wake =>
    obtain ⟨rfl, settled⟩ := allowed
    exact .wake settled
  case some.mark => exact .mark allowed.1 allowed.2
  case some.leave => exact allowed ▸ .leave
  case some.allow =>
    obtain ⟨rfl, up, begun⟩ := allowed
    exact .allow up begun
  case some.write => exact allowed ▸ .write
  case some.live =>
    obtain ⟨rfl, state⟩ := allowed
    exact .live state
  case some.gone =>
    obtain ⟨rfl, settled, down⟩ := allowed
    exact .gone settled down
  case some.connected =>
    obtain ⟨requested, open_, state⟩ := allowed
    exact .connected requested open_ state
  case some.failed => exact .failed allowed
  case some.hangUp => exact .hangUp allowed.1 allowed.2
  case some.reap =>
    obtain ⟨rfl, state⟩ := allowed
    exact .reap state
  case some.callback => exact .callback allowed.1 allowed.2
  case some.destroy =>
    obtain ⟨rfl, rfl⟩ := allowed
    exact .destroy

/-- The phases a connection goes through, as they show in the client. -/
structure Core.Phase (k : Core) (stage : Stage) (requests : List RequestType) : Prop where
  opening : k.state = .disconnected ↔ stage = .unasked ∨ stage = .asked
  unset : k.state = .disconnected → k.handle = .unset ∧ k.connectReq = false
  unasked : stage = .unasked → requests = []
  first : .connect ∉ requests.tail
  asked : .connect ∈ requests → k.handle = .unset ∧ k.connectReq = false ∧
    (k.state = .disconnected ∨ k.state = .connecting ∨ k.state = .disconnecting)
  connecting : k.state = .connecting → stage = .awaiting
  requested : k.connectReq = true →
    (k.state = .connecting ∨ k.state = .disconnecting) ∧ (k.handle = .init ∨ k.handle = .closing)
  connected : k.state = .connected → k.handle = .init
  closing : k.handle = .closing → k.state = .disconnecting ∨ k.state = .failConnect
  leaving : .disconnect ∈ requests ∨ stage = .leaving →
    k.state = .disconnecting ∨ k.state = .failConnect
  single : stage = .leaving → k.handle ≠ .closing ∧ .disconnect ∉ requests

/-- A client that is there is in one of these phases, and nothing is owed to
one that is not. -/
structure Phase (l : Life) : Prop where
  present : ∀ k, l.core = some k → l.born = true ∧ k.Phase l.stage l.requests ∧
    (l.dying = true → k.handle = .closing ∧ k.connectReq = false)
  absent : l.core = none → l.stage = .none ∧ l.dying = false ∧ .connect ∉ l.requests ∧
    (l.born = false → l.requests = [])

theorem unborn_phase : Phase unborn := by
  constructor <;> simp [unborn]

theorem Phase.of_core {k : Core} {stage : Stage} {dying : Bool} {requests : List RequestType}
    (phase : k.Phase stage requests)
    (last : dying = true → k.handle = .closing ∧ k.connectReq = false) :
    Phase ⟨stage, some k, true, dying, requests⟩ where
  present k' same := by
    cases same
    exact ⟨rfl, phase, last⟩
  absent := nofun

attribute [grind →] List.mem_of_mem_tail

/-- No step leaves the phases. -/
theorem Phase.step {l l' : Life} {b : Action} {out : List Event} (phase : Phase l)
    (t : Transition l b l' out) : Phase l' := by
  -- nothing here is arithmetic, and `linarith` would look for an order on `Bool` each time
  cases t
  case create stage dying requests =>
    obtain ⟨rfl, rfl, unasked, fresh⟩ := phase.absent rfl
    exact .of_core (by constructor <;> grind -linarith) nofun
  case live | gone | stray => exact phase
  case drop stage core born dying r rest idle =>
    cases core with
    | none =>
      obtain ⟨rfl, rfl, unasked, fresh⟩ := phase.absent rfl
      constructor <;> grind -linarith
    | some k =>
      obtain ⟨rfl, shows, last⟩ := phase.present k rfl
      clear phase
      obtain ⟨opening, unset, unasked, first, asked, connecting, requested, connected, closing,
        leaving, single⟩ := shows
      exact .of_core (by constructor <;> grind -linarith) last
  case destroy k born requests =>
    obtain ⟨rfl, shows, last⟩ := phase.present k rfl
    obtain ⟨opening, unset, unasked, first, asked, connecting, requested, connected, closing,
      leaving, single⟩ := shows
    clear phase
    constructor <;> grind -linarith
  all_goals
    obtain ⟨rfl, shows, last⟩ := phase.present _ rfl
    clear phase
    obtain ⟨opening, unset, unasked, first, asked, connecting, requested, connected, closing,
      leaving, single⟩ := shows
    exact .of_core (by constructor <;> grind -linarith) (by grind -linarith)

theorem phase_of_run {allow : Life → Action → Prop} {l : Life} {trace : List Event}
    (run : Run step allow unborn l trace) : Phase l := by
  refine run.invariant (I := fun l _ => Phase l) unborn_phase ?_
  intro l trace b l' out _ phase _ stepped
  exact phase.step (step_cases stepped)

end Life
end LinearFcgi
