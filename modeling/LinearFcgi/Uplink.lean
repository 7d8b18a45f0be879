import LinearFcgi.Channels

/-! From the browser to the backend. Each message posts a request of its own,
and carrying one out may drain any number of messages, or stop at a bad one. A
count of the requests still due shows that nothing is left behind. -/
namespace LinearFcgi

open TraceMachine

/-- The payloads handed to `uv_write` for the client. -/
def uvWrites (c : Addr) (trace : List Event) : List Bytes :=
  trace.filterMap fun | .uvWrite d payload => if d = c then some payload else none | _ => none

/-- The calls of `Client::_write` still to come or under way: WRITE requests not
carried out, a `Client::write` between its two enqueues, a running `_write`. -/
def Sys.writesDue (s : Sys) (c : Addr) : Nat :=
  s.pending.count ⟨.write, c⟩ + (if s.server = .writeEnqueue c then 1 else 0) +
    (if s.loop = .write c then 1 else 0)

/-- No client has more messages waiting than there are calls due for it. -/
def Covered (s : Sys) : Prop :=
  ∀ c cl, s.storage.heap c = some cl → cl.writeQueue.length ≤ s.writesDue c

section

variable {h : Host} {s s' : Sys} {a : Action} {out trace : List Event}

/-- A step that no client's messages notice may only add calls. -/
theorem Covered.keep (covered : Covered s) (keeps : Keeps Client.writeQueue s s')
    (due : ∀ c, s.writesDue c ≤ s'.writesDue c) : Covered s' := by
  intro c cl' live
  rcases keeps c cl' live with ⟨-, empty⟩ | ⟨cl, before, same⟩
  · simp [empty]
  · rw [same]
    exact (covered c cl before).trans (due c)

/-- A step on one client's messages leaves the others' calls as many as they were. -/
theorem Covered.set (covered : Covered s) {d : Addr} {cl' : Client}
    (same : s'.storage = s.storage.set d cl') (self : cl'.writeQueue.length ≤ s'.writesDue d)
    (others : ∀ c ≠ d, s.writesDue c ≤ s'.writesDue c) : Covered s' := by
  intro c dl held
  rw [same, ClientStorage.set_heap] at held
  split at held
  · rename_i here
    cases held
    exact here ▸ self
  · rename_i elsewhere
    exact (covered c dl held).trans (others c elsewhere)

theorem Covered.step (sane : Sane s) (covered : Covered s) (t : Transition h s a s' out) :
    Covered s' := by
  cases t
  case create at_ unknown room alloc =>
    refine covered.keep (keeps_of_insert rfl rfl) fun c => ?_
    simp [Sys.writesDue, Sys.pending, at_]
  case enter handler c next allowed at_ found enters =>
    refine covered.keep (keeps_of_eq rfl) fun c => ?_
    cases enters <;> simp [Sys.writesDue, Sys.pending, at_]
  case skip handler next at_ skips =>
    refine covered.keep (keeps_of_eq rfl) fun c => ?_
    cases skips <;> simp [Sys.writesDue, Sys.pending, at_]
  case disconnectIdle | disconnectSend =>
    refine covered.keep (keeps_of_eq rfl) fun c => ?_
    simp [Sys.writesDue, Sys.pending, *]
  case writeProduce d data cl at_ live =>
    have before := covered d cl live
    refine covered.set rfl ?_ fun c _ => ?_
    · simp only [Sys.writesDue, Sys.pending, Fifo.push, at_, List.length_append,
        List.length_singleton, reduceCtorEq, ↓reduceIte] at before ⊢
      omega
    · simp [Sys.writesDue, Sys.pending, at_]
  case writeEnqueue c at_ =>
    refine covered.keep (keeps_of_eq rfl) fun d => ?_
    by_cases same : c = d
    · subst same
      simp only [Sys.writesDue, Sys.pending, Fifo.push, at_, List.count_append,
        List.count_singleton_self, reduceCtorEq, ↓reduceIte]
      omega
    · simp [Sys.writesDue, Sys.pending, Fifo.push, at_, same]
  case dequeue r queue at_ oldest =>
    refine covered.keep (keeps_of_eq rfl) fun d => ?_
    simp [Sys.writesDue, Sys.pending, LoopPc.dispatching, at_, oldest]
  case connect_ d cl at_ live free =>
    refine covered.keep (keeps_of_set live rfl (connect_writeQueue cl _)) fun c => ?_
    simp [Sys.writesDue, Sys.pending, LoopPc.dispatching, at_]
  case disconnect_ d cl at_ live =>
    refine covered.keep (keeps_of_set live rfl rfl) fun c => ?_
    simp [Sys.writesDue, Sys.pending, LoopPc.dispatching, at_]
    rfl
  case onReadHangUp d cl at_ live reading open_ connected =>
    refine covered.keep (keeps_of_set live rfl rfl) fun c => ?_
    simp [Sys.writesDue, Sys.pending, LoopPc.dispatching, at_]
    rfl
  case write_ c cl at_ live =>
    refine covered.keep (keeps_of_eq rfl) fun d => ?_
    by_cases same : c = d
    · subst same
      simp only [Sys.writesDue, Sys.pending, LoopPc.dispatching, at_, List.count_append,
        List.count_singleton_self, List.count_nil, reduceCtorEq, ↓reduceIte]
      omega
    · simp [Sys.writesDue, Sys.pending, LoopPc.dispatching, at_, same]
  case writeDone d cl at_ live drained =>
    intro c cl' live'
    by_cases same : d = c
    · subst same
      obtain rfl := Option.some_inj.mp (live.symm.trans live')
      simp [drained]
    · have before := covered c cl' live'
      simpa [Sys.writesDue, Sys.pending, LoopPc.dispatching, at_, same] using before
  case writeDrop d data queue cl at_ live oldest dropped =>
    have before := covered d cl live
    refine covered.set rfl ?_ fun c other => ?_
    · simp only [Sys.writesDue, Sys.pending, LoopPc.dispatching, at_, oldest, List.length_cons,
        reduceCtorEq, ↓reduceIte] at before ⊢
      omega
    · simp [Sys.writesDue, Sys.pending, LoopPc.dispatching, at_, Ne.symm other]
  case writeSome d data sent queue cl at_ live oldest decoded =>
    have before := covered d cl live
    rw [oldest] at before
    exact covered.set rfl (Nat.le_of_succ_le before) fun c _ => le_rfl
  case destroy d cl at_ live =>
    refine covered.keep (keeps_of_destroy sane live rfl) fun c => ?_
    simp [Sys.writesDue, Sys.pending, LoopPc.dispatching, at_]
  all_goals
    refine covered.keep ?_ fun c => ?_
    · first
        | exact keeps_of_eq rfl
        | refine keeps_of_set (by assumption) rfl ?_
          rfl
    · simp [Sys.writesDue, Sys.pending, LoopPc.dispatching, Fifo.push, *]

theorem covered_of_run {guard : Sys → Action → Prop} (run : Run (step h) guard (.start h) s trace) :
    Covered s := by
  refine run.invariant (I := fun s _ => Covered s) ?_ ?_
  · intro c cl live
    cases live
  · intro s trace a s' out before covered _ stepped
    exact covered.step (sane_of_run before) (step_cases stepped).2

/-- What a step hands to `uv_write` is the payload of what it consumed. -/
theorem uvWrites_step (t : Transition h s a s' out) (allocates : a.allocates = true) (c : Addr) :
    uvWrites c out = (unqueued c out).filterMap (payload h) := by
  cases t
  case writeDrop o d data queue cl at_ live oldest dropped =>
    have bad : payload h data = none := by
      rcases dropped with rfl | bad
      · cases allocates
      · exact bad
    by_cases same : d = c <;> simp [uvWrites, unqueued, same, bad]
  case writeSome o d data sent queue cl at_ live oldest decoded =>
    by_cases same : d = c <;> simp [uvWrites, unqueued, same, decoded]
  case destroy o d cl at_ live =>
    cases (s.storage.destroy cl.id).2 <;> rfl
  all_goals rfl

theorem uvWrites_of_run
    (run : Run (step h) (fun _ a => a.allocates = true) (.start h) s trace) (c : Addr) :
    uvWrites c trace = (unqueued c trace).filterMap (payload h) := by
  refine run.invariant
    (I := fun _ trace => uvWrites c trace = (unqueued c trace).filterMap (payload h)) rfl ?_
  intro s trace a s' out _ before allocates stepped
  have now := uvWrites_step (step_cases stepped).2 allocates c
  simp only [uvWrites, unqueued, List.filterMap_append] at before now ⊢
  rw [before, now]

/-- For every registered client, the messages accepted are those consumed, in
order, followed by those waiting; `uv_write` was given the payloads of those
consumed, less the malformed ones; and there are never more waiting than calls
of `_write` due, so none once none is due. -/
theorem uplink (run : Run (step h) (fun _ a => a.allocates = true) (.start h) s trace)
    {id : Bytes} {c : Addr} (registered : s.storage.get id = some c) :
    ∃ cl, s.storage.heap c = some cl ∧
      written c trace = unqueued c trace ++ cl.writeQueue ∧
      uvWrites c trace = (unqueued c trace).filterMap (payload h) ∧
      cl.writeQueue.length ≤ s.writesDue c ∧
      (s.writesDue c = 0 → cl.writeQueue = [] ∧
        uvWrites c trace = (written c trace).filterMap (payload h)) := by
  obtain ⟨cl, live, -⟩ := (sane_of_run run).sound.allocated id c registered
  obtain ⟨q, conserved, holds⟩ := writes_conserved run c
  have sent := uvWrites_of_run run c
  have bound := covered_of_run run c cl live
  obtain rfl := holds cl live
  refine ⟨cl, live, conserved, sent, bound, fun idle => ?_⟩
  have drained : cl.writeQueue = [] := by
    apply List.eq_nil_of_length_eq_zero
    omega
  rw [drained, List.append_nil] at conserved
  exact ⟨drained, by rw [sent, conserved]⟩

end

/-- Two messages are posted, and the first is malformed. -/
def Sample.postedTwice : List Action :=
  Sample.connected ++
    .accept (Sample.request "POST" "sid=123e4567-e89b-12d3-a456-426614174000&data=!") none ::
      List.replicate 7 (.server .ok) ++
    .accept Sample.message none :: List.replicate 7 (.server .ok) ++
    .onAsync :: List.replicate 8 (.loop .ok)

theorem uplink_postedTwice : ∃ s trace,
    exec (restrict (step Sample.host) fun _ a => a.allocates = true) (.start Sample.host)
      Sample.postedTwice = some (s, trace) ∧
    written 0 trace = [ascii "!", ascii "aGk="] ∧ uvWrites 0 trace = [ascii "hi"] := by
  obtain ⟨⟨s, trace⟩, ran, seen⟩ := Option.map_eq_some_iff.mp
    (show (exec (restrict (step Sample.host) fun _ a => a.allocates = true) (.start Sample.host)
      Sample.postedTwice).map (fun r => decide (r.1.storage.get Sample.uuid = some 0 ∧
        r.1.writesDue 0 = 0 ∧ written 0 r.2 = [ascii "!", ascii "aGk="])) = some true by decide +kernel)
  obtain ⟨registered, idle, posted⟩ := of_decide_eq_true seen
  obtain ⟨cl, -, -, -, -, sent⟩ := uplink (run_of_exec ran) registered
  refine ⟨s, trace, ran, posted, ?_⟩
  rw [(sent idle).2, posted]
  decide

end LinearFcgi
