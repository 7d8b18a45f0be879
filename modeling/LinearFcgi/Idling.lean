import LinearFcgi.Connects

/-! What the timer goes by. The constructor of `Client` leaves `last_access_`
unset, and `onConnect` sets it only behind its locked section; but the timer
runs on the same thread as `onConnect`, and with the storage locked, which
`Client::connect` and the reads of a poll have locked as well. So it never sees
a session between being used and being marked as used. -/
namespace LinearFcgi

open TraceMachine

/-- The calls of `time(NULL)` that assign `last_access_`: the one of `onConnect`
and the one of `read`, with the client and the clock reading. -/
def readings (s : Sys) : Action → List (Addr × Int)
  | .loop _ => match s.loop with
    | .connectTail c => [(c, s.clock)]
    | _ => []
  | .server _ => match s.server with
    | .pollTouch c _ => [(c, s.clock)]
    | _ => []
  | _ => []

/-- The clock readings at the accesses to the client at `c`. -/
def accesses (c : Addr) (past : List (Addr × Int)) : List Int :=
  past.filterMap fun x => if x.1 = c then some x.2 else none

/-- How often a connection of the client was established, or a `read` of it
passed its test. -/
def visits (c : Addr) (trace : List Event) : Nat :=
  trace.countP fun | .connected d => d = c | .live _ d => d = c | _ => false

/-- A `read` of the client at `c` is about to assign `last_access_`. -/
def ServerPc.touches (c : Addr) : ServerPc → Bool
  | .pollTouch d _ => d = c
  | .accept | .lock _ | .locked _ | .disconnectReturn | .postReturn => false
  | .connectBegin _ _ | .connectEnqueue _ | .connectSend _ | .connectPublish _ => false
  | .connectWait _ _ | .connectReturn _ _ => false
  | .disconnectBegin _ _ | .disconnectEnqueue _ _ | .disconnectSend _ _ => false
  | .pollTest _ _ | .pollConsume _ _ | .pollStore _ _ _ | .pollEncode _ _ => false
  | .writeTest _ _ | .writeProduce _ _ | .writeEnqueue _ | .writeSend _ => false

/-- `onConnect` is about to assign it. -/
def LoopPc.touches (c : Addr) : LoopPc → Bool
  | .connectTail d => d = c
  | .idle | .drain | .dispatch _ | .write _ | .readTail _ _ | .timerLock | .timerScan _
  | .closeLock _ | .destroy _ => false

/-- The accesses to the client that have begun and not read the clock yet. -/
def Sys.due (s : Sys) (c : Addr) : Nat :=
  (s.server.touches c).toNat + (s.loop.touches c).toNat

/-- `last_access_` is the latest clock reading of an access, and every access
has read the clock or is about to. -/
structure Clocked (c : Addr) (s : Sys) (past : List (Addr × Int)) (trace : List Event) : Prop where
  assigned : ∀ cl, s.storage.heap c = some cl → cl.lastAccess = (accesses c past).getLast?
  counted : (accesses c past).length + s.due c = visits c trace
  unborn : s.storage.next ≤ c → accesses c past = []

section

variable {h : Host} {s s' : Sys} {a : Action} {out trace : List Event} {c : Addr}
  {past : List (Addr × Int)}

@[simp] theorem accesses_append (past more : List (Addr × Int)) :
    accesses c (past ++ more) = accesses c past ++ accesses c more := List.filterMap_append

@[simp] theorem accesses_nil : accesses c [] = [] := rfl

@[simp] theorem accesses_self (now : Int) : accesses c [(c, now)] = [now] := by simp [accesses]

theorem accesses_other {d : Addr} (now : Int) (other : d ≠ c) : accesses c [(d, now)] = [] := by
  simp [accesses, other]

theorem visits_append (trace out : List Event) :
    visits c (trace ++ out) = visits c trace + visits c out := List.countP_append

/-- An access that is begun is due, until it reads the clock. -/
theorem due_step (sane : Sane s) (t : Transition h s a s' out) :
    (accesses c (readings s a)).length + s'.due c = s.due c + visits c out := by
  cases t
  case enter o handler d next allowed at_ found enters =>
    cases enters <;> simp [readings, at_, Sys.due, visits, ServerPc.touches]
  case skip o handler next at_ skips =>
    cases skips <;> simp [readings, at_, Sys.due, visits, ServerPc.touches]
  case disconnectIdle o caller d cl at_ live free idle =>
    cases caller <;> simp [readings, at_, Sys.due, visits, ServerPc.touches, Caller.resume]
  case disconnectSend o caller d at_ =>
    cases caller <;> simp [readings, at_, Sys.due, visits, ServerPc.touches, Caller.resume]
  case destroy o d cl at_ live =>
    cases (s.storage.destroy cl.id).2 <;> simp [readings, at_, Sys.due, visits, LoopPc.touches]
  case pollTouch o d data cl at_ live =>
    by_cases same : d = c <;>
      simp [readings, at_, Sys.due, visits, ServerPc.touches, accesses, same]
  case connectTail o d cl at_ live =>
    by_cases same : d = c <;>
      simp [readings, at_, Sys.due, visits, LoopPc.touches, accesses, same, Nat.add_comm]
  case pollLive o d data cl at_ live free readable =>
    by_cases same : d = c <;> simp [readings, at_, Sys.due, visits, ServerPc.touches, same, Nat.add_comm]
  case onConnect d status cl at_ live requested open_ free connects =>
    by_cases same : d = c <;> simp [readings, at_, Sys.due, visits, LoopPc.touches, same]
  case serverStray o d dead used => exact absurd used (sane.server_tracks dead)
  case loopStray o d dead used =>
    obtain ⟨type, at_⟩ := sane.loop_tracks dead used
    simp [readings, at_, Sys.due, visits]
  all_goals simp_all [readings, Sys.due, visits, ServerPc.touches, LoopPc.touches]

/-- Only a client that is there is marked as used. -/
theorem live_of_reading (sane : Sane s) (reads : accesses c (readings s a) ≠ []) :
    ∃ cl, s.storage.heap c = some cl := by
  cases a with
  | loop o =>
    cases at_ : s.loop with
    | connectTail d =>
      by_cases same : d = c
      · exact sane.loopClients c (by simp [at_, LoopPc.held, same])
      · simp [readings, at_, accesses_other _ same] at reads
    | _ => simp [readings, at_] at reads
  | server o =>
    cases at_ : s.server with
    | pollTouch d data =>
      by_cases same : d = c
      · exact sane.serverClient c (by simp [at_, ServerPc.client, same])
      · simp [readings, at_, accesses_other _ same] at reads
    | _ => simp [readings, at_] at reads
  | _ => simp [readings] at reads

/-- A step assigns to `last_access_` what it reads off the clock. -/
theorem assigned_step (sane : Sane s) (t : Transition h s a s' out) {cl' : Client}
    (live' : s'.storage.heap c = some cl') :
    (∃ cl, s.storage.heap c = some cl ∧
      cl'.lastAccess = (accesses c (readings s a)).getLast?.or cl.lastAccess) ∨
    s.storage.next ≤ c ∧ cl'.lastAccess = none ∧ accesses c (readings s a) = [] := by
  have sound := sane.sound
  cases t
  case create o backend at_ unknown room alloc =>
    by_cases same : c = s.storage.next
    · right
      simp only [same, ClientStorage.insert_heap, ↓reduceIte, Option.some.injEq] at live'
      subst live'
      exact ⟨same.ge, rfl, by simp [readings, at_]⟩
    · left
      simp only [same, ClientStorage.insert_heap, ↓reduceIte] at live'
      exact ⟨cl', live', by simp [readings, at_]⟩
  case pollTouch o d data cl at_ live =>
    left
    by_cases same : d = c
    · subst same
      simp only [ClientStorage.set_heap, ↓reduceIte, Option.some.injEq] at live'
      exact ⟨cl, live, by simp [readings, at_, ← live']⟩
    · simp only [ClientStorage.set_heap, Ne.symm same, ↓reduceIte] at live'
      exact ⟨cl', live', by simp [readings, at_, accesses_other _ same]⟩
  case connectTail o d cl at_ live =>
    left
    by_cases same : d = c
    · subst same
      simp only [ClientStorage.set_heap, ↓reduceIte, Option.some.injEq] at live'
      exact ⟨cl, live, by simp [readings, at_, ← live']⟩
    · simp only [ClientStorage.set_heap, Ne.symm same, ↓reduceIte] at live'
      exact ⟨cl', live', by simp [readings, at_, accesses_other _ same]⟩
  case destroy o d cl at_ live =>
    left
    have deleted := sound.destroy_eq live
    have silent : accesses c (readings s (.loop o)) = [] := by simp [readings, at_]
    rw [silent]
    grind
  case serverStray o d dead used => exact absurd used (sane.server_tracks dead)
  case loopStray o d dead used =>
    obtain ⟨type, at_⟩ := sane.loop_tracks dead used
    exact .inl ⟨cl', live', by simp [readings, at_]⟩
  all_goals
    left
    clear sane sound
    simp only [readings, *, accesses_nil, List.getLast?_nil, Option.none_or] at *
    grind

theorem Clocked.step (sane : Sane s) (clocked : Clocked c s past trace)
    (t : Transition h s a s' out) : Clocked c s' (past ++ readings s a) (trace ++ out) where
  assigned := by
    intro cl' live'
    rw [accesses_append, List.getLast?_append]
    rcases assigned_step sane t live' with ⟨cl, live, assigned⟩ | ⟨unborn, unset, silent⟩
    · rw [assigned, clocked.assigned cl live]
    · rw [unset, silent, clocked.unborn unborn]
      rfl
  counted := by
    have due := due_step (c := c) sane t
    have counted := clocked.counted
    rw [accesses_append, List.length_append, visits_append]
    omega
  unborn := by
    intro unborn
    have unborn : s.storage.next ≤ c := t.next_le.trans unborn
    have silent : accesses c (readings s a) = [] := by
      by_contra reads
      obtain ⟨cl, live⟩ := live_of_reading sane reads
      exact absurd (sane.sound.fresh c cl live) (Nat.not_lt.mpr unborn)
    rw [accesses_append, clocked.unborn unborn, silent, List.append_nil]

theorem clocked_of_run
    (run : Reaches (record (step h) readings) (.start h, []) (s, past) trace) (c : Addr) :
    Clocked c s past trace := by
  refine run.invariant (I := fun x trace => Sane x.1 ∧ Clocked c x.1 x.2 trace) ?_ ?_ |>.2
  · exact ⟨start_sane h, nofun, rfl, fun _ => rfl⟩
  · rintro ⟨s, past⟩ trace a ⟨s', past'⟩ out - ⟨sane, clocked⟩ - stepped
    obtain ⟨stepped, rfl⟩ := record_eq_some.mp stepped
    have t := (step_cases stepped).2
    exact ⟨sane.step t, clocked.step sane t⟩

/-- What the timer finds in a client it visits that is `CONNECTED` or
`CONNECTING`: it has the storage locked, so nobody is connecting the client or
reading from it. -/
theorem access_of_visit (run : Reaches (record (step h) readings) (.start h, []) (s, past) trace)
    {clients : List Addr} (at_ : s.loop = .timerScan (c :: clients)) {cl : Client}
    (live : s.storage.heap c = some cl) (up : cl.state = .connected ∨ cl.state = .connecting) :
    ∃ earlier last, accesses c past = earlier ++ [last] ∧ cl.lastAccess = some last ∧
      (accesses c past).length = visits c trace ∧
      ∀ word, cl.expired s.clock word = true → cl.timeout ≤ s.clock - last := by
  have before : Reaches (step h) (.start h) s trace := run.unrecorded fun _ _ _ => trivial
  have sane := sane_of_run before
  have clocked := clocked_of_run run c
  have here : (s.life c).core = some cl.core := by simp [Sys.life, live]
  obtain ⟨-, shows, -⟩ := (phase_of_reached before c).present _ here
  have holds : s.loop.holdsStorage = true := by rw [at_]; rfl
  have connected : cl.state = .connected := by
    refine up.resolve_right fun connecting => ?_
    have awaiting := shows.connecting connecting
    rw [show (s.life c).stage = .none from sane.stage_none holds] at awaiting
    cases awaiting
  have due : s.due c = 0 := by
    have away : s.server.touches c = false := by
      by_contra touches
      have server : s.server.holdsStorage = true := by
        cases pc : s.server <;> simp_all [ServerPc.touches, ServerPc.holdsStorage]
      have lock := sane.serverHolds.mpr server
      rw [sane.loopHolds.mpr holds] at lock
      cases lock
    simp [Sys.due, away, at_, LoopPc.touches]
  have counted : (accesses c past).length = visits c trace := by
    have counted := clocked.counted
    omega
  have visited : 0 < visits c trace :=
    List.countP_pos_iff.mpr ⟨_, connected_of_state before live connected, by simp⟩
  have accessed : accesses c past ≠ [] := by
    rw [← List.length_pos_iff, counted]
    exact visited
  have assigned : cl.lastAccess = some ((accesses c past).getLast accessed) := by
    rw [clocked.assigned cl live, List.getLast?_eq_some_getLast accessed]
  refine ⟨_, _, (List.dropLast_append_getLast accessed).symm, assigned, counted, ?_⟩
  intro word expired
  simpa [Client.expired, connected, assigned] using expired

/-- The timer never looks at a client that is `CONNECTED` or `CONNECTING` before
`last_access_` is assigned. Whenever it ends one, `last_access_` is the clock
reading of the latest access to it, of the establishing of its connection or of
a `read`, each of which has read the clock once; and that was at least
`timeout_` ago. -/
theorem reaps_idle (run : Reaches (record (step h) readings) (.start h, []) (s, past) trace)
    {c : Addr} {cl : Client} (live : s.storage.heap c = some cl)
    (up : cl.state = .connected ∨ cl.state = .connecting) :
    (∀ clients, s.loop = .timerScan (c :: clients) → cl.lastAccess ≠ none) ∧
    ∀ a s' out, step h s a = some (s', out) → .reaped c ∈ out →
      ∃ earlier last, accesses c past = earlier ++ [last] ∧ cl.lastAccess = some last ∧
        (accesses c past).length = visits c trace ∧ cl.timeout ≤ s.clock - last := by
  constructor
  · intro clients at_ unset
    obtain ⟨earlier, last, -, assigned, -⟩ := access_of_visit run at_ live up
    rw [unset] at assigned
    cases assigned
  · intro a s' out stepped reaps
    have t := (step_cases stepped).2
    clear stepped
    cases t <;> simp at reaps
    case timerReap o clients cl' word at_ live' free expired =>
      subst reaps
      obtain rfl : cl' = cl := Option.some.inj (live'.symm.trans live)
      obtain ⟨earlier, last, split, assigned, counted, idle⟩ := access_of_visit run at_ live up
      exact ⟨earlier, last, split, assigned, counted, idle word expired⟩

end

/-- A session that was polled once is left alone until its time is up. -/
def Sample.forgotten : List Action :=
  Sample.connected ++ [.clock 7, .accept Sample.poll none] ++ List.replicate 6 (.server .ok) ++
    [.clock 37, .onTimer, .loop .ok]

theorem reaps_idle_forgotten : ∃ s past trace s' out,
    exec (record (step Sample.host) readings) (.start Sample.host, []) Sample.forgotten =
      some ((s, past), trace) ∧
    step Sample.host s (.loop .ok) = some (s', out) ∧ .reaped 0 ∈ out ∧
    ∃ earlier last, accesses 0 past = earlier ++ [last] ∧ 30 ≤ s.clock - last := by
  obtain ⟨⟨⟨s, past⟩, trace⟩, ran, found⟩ := Option.map_eq_some_iff.mp
    (show (exec (record (step Sample.host) readings) (.start Sample.host, [])
      Sample.forgotten).map (fun r => ((r.1.1.storage.heap 0).map fun cl => (cl.state, cl.timeout),
        (step Sample.host r.1.1 (.loop .ok)).map fun r' => r'.2.filterMap (observeLife 0))) =
      some (some (.connected, 30), some [.reaped, .closed]) by decide +kernel)
  obtain ⟨client, events⟩ := Prod.mk.inj found
  obtain ⟨cl, live, up⟩ := Option.map_eq_some_iff.mp client
  obtain ⟨state, timeout⟩ := Prod.mk.inj up
  obtain ⟨⟨s', out⟩, stepped, observed⟩ := Option.map_eq_some_iff.mp events
  have reaps : .reaped 0 ∈ out := by
    have seen : Life.Event.reaped ∈ out.filterMap (observeLife 0) := by
      rw [show out.filterMap (observeLife 0) = _ from observed]
      exact List.mem_cons_self
    simpa using seen
  obtain ⟨earlier, last, split, -, -, idle⟩ :=
    (reaps_idle (reaches_of_exec ran) live (.inl state)).2 _ _ _ stepped reaps
  exact ⟨s, past, trace, s', out, ran, stepped, reaps, earlier, last, split, timeout ▸ idle⟩

end LinearFcgi
