import LinearFcgi.Channels
import LinearFcgi.Library.Doorbell

/-! The requests of the server thread to the loop thread. `Loop::execute` rings
for each of them, libuv answers any number of rings with one callback, and
`onAsync` empties the queue: the process refines a queue with a doorbell. -/
namespace LinearFcgi

open TraceMachine

/-- Between the `produce` and the `uv_async_send` of `Loop::execute`. -/
def ServerPc.rings : ServerPc → Bool
  | .connectSend _ | .disconnectSend _ _ | .writeSend _ => true
  | .accept | .lock _ | .locked _ | .disconnectReturn | .postReturn => false
  | .connectBegin _ _ | .connectEnqueue _ | .connectPublish _ => false
  | .connectWait _ _ | .connectReturn _ _ => false
  | .disconnectBegin _ _ | .disconnectEnqueue _ _ => false
  | .pollTest _ _ | .pollTouch _ _ | .pollConsume _ _ | .pollStore _ _ _ | .pollEncode _ _ => false
  | .writeTest _ _ | .writeProduce _ _ | .writeEnqueue _ => false

/-- In `onAsync`, which has not found the queue empty yet. -/
def LoopPc.drains : LoopPc → Bool
  | .drain | .dispatch _ | .write _ => true
  | .idle | .connectTail _ | .readTail _ _ | .timerLock | .timerScan _ | .closeLock _
  | .destroy _ => false

/-- The requests `onAsync` has taken from the queue. -/
def dispatched (trace : List Event) : List LoopRequest :=
  trace.filterMap fun | .dispatched r => some r | _ => none

/-- The operations on the request queue. -/
def observeRequests : Event → Option (Fifo.Event LoopRequest)
  | .requested _ r => some (.pushed r)
  | .dispatched r => some (.popped r)
  | _ => none

/-- The request queue with its `uv_async_t`, read off the process. -/
def Sys.doorbell (s : Sys) : Doorbell.State LoopRequest where
  queue := s.requestQueue
  rung := s.asyncPending
  awake := s.loop.drains
  ringing := s.server.rings

section

variable {h : Host} {s s' : Sys} {a : Action} {out trace : List Event}

theorem Handler.Enters.rings {req : Request} {c : Addr} {handler : Handler} {pc : ServerPc}
    (enters : handler.Enters req c pc) : pc.rings = false := by
  cases enters <;> rfl

theorem Handler.Skips.rings {req : Request} {handler : Handler} {pc : ServerPc}
    (skips : handler.Skips req pc) : pc.rings = false := by
  cases skips <;> rfl

@[simp] theorem resume_rings (caller : Caller) (c : Addr) : (caller.resume c).rings = false := by
  cases caller <;> rfl

/-- Every step is one step of the doorbell, or none of its business. -/
theorem doorbell_step (t : Transition h s a s' out) :
    s'.doorbell = s.doorbell ∧ out.filterMap observeRequests = [] ∨
      ∃ b, Doorbell.step s.doorbell b = some (s'.doorbell, out.filterMap observeRequests) := by
  cases t
  case connectEnqueue c at_ =>
    exact .inr ⟨.push ⟨.connect, c⟩, by simp [Doorbell.step, Sys.doorbell, at_, ServerPc.rings,
      observeRequests]⟩
  case disconnectEnqueue caller c at_ =>
    exact .inr ⟨.push ⟨.disconnect, c⟩, by simp [Doorbell.step, Sys.doorbell, at_, ServerPc.rings,
      observeRequests]⟩
  case writeEnqueue c at_ =>
    exact .inr ⟨.push ⟨.write, c⟩, by simp [Doorbell.step, Sys.doorbell, at_, ServerPc.rings,
      observeRequests]⟩
  case connectSend c at_ | writeSend c at_ =>
    exact .inr ⟨.ring, by simp [Doorbell.step, Sys.doorbell, at_, ServerPc.rings]⟩
  case disconnectSend caller c at_ =>
    have rings : s.server.rings = true := by rw [at_]; rfl
    exact .inr ⟨.ring, by simp [Doorbell.step, Sys.doorbell, rings]⟩
  case onAsync at_ pending =>
    exact .inr ⟨.wake, by simp [Doorbell.step, Sys.doorbell, at_, pending, LoopPc.drains]⟩
  case dequeue r queue at_ oldest =>
    exact .inr ⟨.take, by simp [Doorbell.step, Sys.doorbell, at_, oldest, LoopPc.drains,
      observeRequests]⟩
  case drained at_ drained =>
    exact .inr ⟨.rest, by simp [Doorbell.step, Sys.doorbell, at_, drained, LoopPc.drains]⟩
  case destroy o d cl at_ live =>
    left
    cases (s.storage.destroy cl.id).2 <;>
      simp [Sys.doorbell, at_, LoopPc.drains, observeRequests]
  case enter o handler d next allowed at_ found enters =>
    have still : s.server.rings = false := by rw [at_]; rfl
    exact .inl ⟨by simp [Sys.doorbell, still, enters.rings], rfl⟩
  case skip o handler next at_ skips =>
    have still : s.server.rings = false := by rw [at_]; rfl
    exact .inl ⟨by simp [Sys.doorbell, still, skips.rings], rfl⟩
  case disconnectIdle o caller d cl at_ live free idle =>
    have still : s.server.rings = false := by rw [at_]; rfl
    exact .inl ⟨by simp [Sys.doorbell, still], rfl⟩
  all_goals
    left
    simp_all [Sys.doorbell, ServerPc.rings, LoopPc.drains, observeRequests]

theorem requests_simulate (h : Host) :
    Simulation (step h) always Doorbell.step always observeRequests
      (fun s d => s.doorbell = d) where
  follow s d a s' out related _ stepped := by
    subst related
    rcases doorbell_step (step_cases stepped).2 with ⟨same, silent⟩ | ⟨b, followed⟩
    · exact ⟨_, rfl, .inl ⟨same, silent⟩⟩
    · exact ⟨_, rfl, .inr ⟨b, trivial, followed⟩⟩

theorem pushed_requests (trace : List Event) :
    Fifo.pushed (trace.filterMap observeRequests) = asked trace := by
  rw [Fifo.pushed, asked, List.filterMap_filterMap]
  congr 1
  funext e
  cases e <;> rfl

theorem popped_requests (trace : List Event) :
    Fifo.popped (trace.filterMap observeRequests) = dispatched trace := by
  rw [Fifo.popped, dispatched, List.filterMap_filterMap]
  congr 1
  funext e
  cases e <;> rfl

/-- A request in the queue has a signal on its way, is about to be found by
`onAsync`, or its own signal is about to be sent; and the requests executed are
those dispatched, in order, followed by those in the queue. So whenever the loop
thread is left alone with nothing to wake it, all of them have been dispatched. -/
theorem no_lost_wakeup (run : Reaches (step h) (.start h) s trace) :
    (s.requestQueue ≠ [] →
      s.asyncPending = true ∨ s.loop.drains = true ∨ s.server.rings = true) ∧
    asked trace = dispatched trace ++ s.requestQueue ∧
    (s.asyncPending = false → s.loop.drains = false → s.server.rings = false →
      dispatched trace = asked trace) := by
  obtain ⟨d, rfl, rung⟩ :=
    (requests_simulate h).run (show (Sys.start h).doorbell = Doorbell.quiet from rfl) run
  have noticed : Doorbell.Noticed s.doorbell := Doorbell.noticed_of_run rung
  have conserved : asked trace = dispatched trace ++ s.requestQueue := by
    rw [← pushed_requests, ← popped_requests]
    exact Doorbell.conserved rung
  refine ⟨noticed, conserved, fun unrung asleep sent => ?_⟩
  have drained : s.requestQueue = [] := by
    by_contra held
    rcases noticed held with rung | awake | ringing
    · exact absurd (show s.asyncPending = true from rung) (by simp [unrung])
    · exact absurd (show s.loop.drains = true from awake) (by simp [asleep])
    · exact absurd (show s.server.rings = true from ringing) (by simp [sent])
  rw [conserved, drained, List.append_nil]

end

theorem no_lost_wakeup_posted : ∃ s trace,
    exec (step Sample.host) (.start Sample.host) Sample.posted = some (s, trace) ∧
      asked trace = dispatched trace ++ [⟨.write, 0⟩] ∧ s.asyncPending = true := by
  obtain ⟨⟨s, trace⟩, ran, waiting⟩ := Option.map_eq_some_iff.mp
    (show (exec (step Sample.host) (.start Sample.host) Sample.posted).map
      (fun r => (r.1.requestQueue, r.1.asyncPending)) = some ([⟨.write, 0⟩], true) by
      decide +kernel)
  obtain ⟨waiting, pending⟩ := Prod.mk.inj waiting
  have conserved := (no_lost_wakeup (reaches_of_exec ran)).2.1
  rw [waiting] at conserved
  exact ⟨s, trace, ran, conserved, pending⟩

end LinearFcgi
