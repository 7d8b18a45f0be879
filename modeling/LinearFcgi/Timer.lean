import LinearFcgi.Lookups

/-! A round of the timer, as the sessions see it. `ClientStorage::onTimer` looks
at one client after the other, a step of the loop thread each, and the other
thread takes its steps in between. Because it holds the storage lock throughout,
they make no difference: the round finds the clients as they were when it began,
looks at each of them once, and what it does to one depends on that one alone. -/
namespace LinearFcgi

open TraceMachine

/-- A call of `Client::onTimer`: the client, the time, and what is in a
`last_access_` that was never assigned. -/
structure Visit where
  client : Addr
  now : Int
  word : Int
  deriving DecidableEq

/-- The call that a step is. -/
def timerVisits (s : Sys) : Action → List Visit
  | .loop o => match s.loop with
    | .timerScan (c :: _) => [⟨c, s.clock, o.garbage⟩]
    | _ => []
  | _ => []

/-- In `ClientStorage::onTimer`. -/
def LoopPc.scans : LoopPc → Bool
  | .timerScan _ => true
  | .idle | .drain | .dispatch _ | .write _ | .connectTail _ | .readTail _ _ | .timerLock
  | .closeLock _ | .destroy _ => false

/-- What `Client::onTimer` leaves of the client it is called for. -/
def Client.timed (cl : Client) (v : Visit) : Client :=
  if cl.expired v.now v.word then { cl with state := .disconnecting, handle := .closing } else cl

/-- What the calls so far have left of the client at `c`. -/
def Client.after (cl : Client) (c : Addr) (seen : List Visit) : Client :=
  (seen.filter (·.client = c)).foldl Client.timed cl

/-- The clients that were closed because they had expired. -/
def reapings (trace : List Event) : List Addr :=
  trace.filterMap fun | .reaped c => some c | _ => none

/-- How far a round that began in `s₀` has come. -/
structure Round (s₀ s : Sys) (seen : List Visit) (trace : List Event) (todo : List Addr) :
    Prop where
  order : seen.map Visit.client ++ todo = s₀.storage.clients
  clientMap : s.storage.clientMap = s₀.storage.clientMap
  heap : ∀ c, s.storage.heap c = (s₀.storage.heap c).map (·.after c seen)
  reaped : reapings trace = (seen.filter fun v =>
    (s₀.storage.heap v.client).any (·.expired v.now v.word)).map Visit.client

section

variable {h : Host} {s₀ s s' : Sys} {a : Action} {out past trace : List Event}
  {seen : List Visit} {todo : List Addr} {c : Addr}

@[simp] theorem reapings_append (trace out : List Event) :
    reapings (trace ++ out) = reapings trace ++ reapings out := List.filterMap_append

theorem Client.after_append (cl : Client) (c : Addr) (seen later : List Visit) :
    cl.after c (seen ++ later) = (cl.after c seen).after c later := by
  simp [Client.after, List.filter_append]

@[simp] theorem Client.after_nil (cl : Client) (c : Addr) : cl.after c [] = cl := rfl

theorem filter_unseen (unseen : c ∉ seen.map Visit.client) : seen.filter (·.client = c) = [] := by
  simp only [List.filter_eq_nil_iff, decide_eq_true_eq]
  intro v member is
  exact unseen (List.mem_map.mpr ⟨v, member, is⟩)

theorem Client.after_unseen (cl : Client) (unseen : c ∉ seen.map Visit.client) :
    cl.after c seen = cl := by
  rw [Client.after, filter_unseen unseen, List.foldl_nil]

/-- No client is registered under two ids. -/
theorem ClientStorage.Sound.nodup {st : ClientStorage} (sound : st.Sound) : st.clients.Nodup := by
  have injective : ∀ e ∈ st.clientMap.entries, ∀ e' ∈ st.clientMap.entries, e.2 = e'.2 → e = e' := by
    intro ⟨id, d⟩ member ⟨id', d'⟩ member' same
    obtain rfl : d = d' := same
    obtain ⟨cl, live, rfl⟩ := sound.allocated id d (AList.mem_lookup_iff.mpr member)
    obtain ⟨cl', live', rfl⟩ := sound.allocated id' d (AList.mem_lookup_iff.mpr member')
    obtain rfl : cl = cl' := Option.some.inj (live.symm.trans live')
    rfl
  exact List.Nodup.map_on (fun e member e' member' => injective e member e' member')
    st.clientMap.nodupKeys.nodup

/-- While the loop thread looks at the clients, nobody else changes them. -/
theorem storage_still (sane : Sane s) (t : Transition h s a s' out)
    (scans : s.loop = .timerScan todo) (other : ∀ o, a ≠ .loop o) :
    s'.storage.clientMap = s.storage.clientMap ∧ s'.storage.heap = s.storage.heap ∧
      s'.loop = s.loop ∧ reapings out = [] := by
  have holds : s.storageLock = some .loop := sane.loopHolds.mpr (by rw [scans]; rfl)
  have waits : s.server.holdsStorage ≠ true := by
    intro server
    rw [sane.serverHolds.mpr server] at holds
    cases holds
  have elsewhere (backend : Backend) : s.server ≠ .locked (.connect backend) := by
    intro at_
    exact waits (by rw [at_]; rfl)
  have noClient (d : Addr) : s.server.client ≠ some d :=
    fun uses => waits (ServerPc.holdsStorage_of_client uses)
  cases a with
  | loop o => exact absurd rfl (other o)
  | server o =>
    obtain ⟨map, heap⟩ := t.keepsOthers elsewhere
    refine ⟨map, funext fun d => heap d (noClient d), ?_⟩
    cases t <;> exact ⟨rfl, rfl⟩
  | clock => cases t; exact ⟨rfl, rfl, rfl, rfl⟩
  | accept => cases t <;> exact ⟨rfl, rfl, rfl, rfl⟩
  | _ => cases t <;> simp_all

/-- `ClientStorage::onTimer` calls `Client::onTimer`. -/
theorem visit_step {o : Outcome} {clients : List Addr} {cl : Client}
    (scans : s.loop = .timerScan (c :: clients)) (live : s.storage.heap c = some cl)
    (running : s.fault = false) (stepped : step h s (.loop o) = some (s', out)) :
    s'.loop = .timerScan clients ∧ s'.storage.clientMap = s.storage.clientMap ∧
      s'.storage.heap = Function.update s.storage.heap c
        (some (cl.timed ⟨c, s.clock, o.garbage⟩)) ∧
      reapings out = if cl.expired s.clock o.garbage then [c] else [] := by
  simp only [step, running, Bool.false_eq_true, ↓reduceIte, Sys.loopStep, scans, Sys.lock, Sys.deref,
    live] at stepped
  by_cases free : cl.stateMutex = true
  · rw [if_pos free] at stepped
    cases stepped
  · rw [if_neg free] at stepped
    by_cases expired : cl.expired s.clock o.garbage = true
    · rw [if_pos expired] at stepped
      cases stepped
      refine ⟨rfl, rfl, ?_, by simp [reapings, expired]⟩
      simp [ClientStorage.set, Client.timed, expired]
    · rw [if_neg expired] at stepped
      cases stepped
      refine ⟨rfl, rfl, ?_, by simp [reapings, expired]⟩
      simp [Client.timed, expired, ← live]

/-- A call of `Client::onTimer` finds the client as it was when the round began. -/
theorem Round.visit {v : Visit} {cl : Client} (round : Round s₀ s seen trace (v.client :: todo))
    (sound : s₀.storage.Sound) (live : s.storage.heap v.client = some cl)
    (map : s'.storage.clientMap = s.storage.clientMap)
    (heap : s'.storage.heap = Function.update s.storage.heap v.client (some (cl.timed v)))
    (reaped : reapings out = if cl.expired v.now v.word then [v.client] else []) :
    Round s₀ s' (seen ++ [v]) (trace ++ out) todo := by
  have unseen : v.client ∉ seen.map Visit.client := by
    have nodup := sound.nodup
    rw [← round.order, List.nodup_append] at nodup
    exact fun member => nodup.2.2 _ member _ List.mem_cons_self rfl
  have before : s₀.storage.heap v.client = some cl := by
    rw [round.heap] at live
    obtain ⟨cl₀, live₀, same⟩ := Option.map_eq_some_iff.mp live
    rw [Client.after_unseen cl₀ unseen] at same
    rw [live₀, same]
  constructor
  case order => simp [← round.order]
  case clientMap => rw [map, round.clientMap]
  case heap =>
    intro d
    rw [heap]
    by_cases same : d = v.client
    · subst same
      simp [before, Client.after_append, Client.after_unseen cl unseen]
      simp [Client.after]
    · rw [Function.update_of_ne same, round.heap]
      congr 1
      funext cl'
      have aside : (cl'.after d seen).after d [v] = cl'.after d seen :=
        Client.after_unseen _ (by simpa using same)
      rw [Client.after_append, aside]
  case reaped =>
    rw [reapings_append, round.reaped, reaped]
    by_cases expired : cl.expired v.now v.word = true <;> simp [before, expired]

/-- How a round goes on. -/
theorem round_of_run (run : Reaches (step h) (.start h) s₀ past)
    (begins : s₀.loop = .timerScan s₀.storage.clients)
    (rest : Run (record (step h) timerVisits) (fun x _ => x.1.loop.scans = true) (s₀, []) (s, seen)
      trace) :
    ∃ todo, Round s₀ s seen trace todo ∧
      (s.loop = .timerScan todo ∨ s.loop = .idle ∧ todo = []) := by
  have sane₀ := sane_of_run run
  refine rest.invariant (I := fun x trace => ∃ todo, Round s₀ x.1 x.2 trace todo ∧
      (x.1.loop = .timerScan todo ∨ x.1.loop = .idle ∧ todo = []))
    ⟨s₀.storage.clients, ⟨rfl, rfl, by simp, rfl⟩, .inl begins⟩ ?_
  rintro ⟨t, seen⟩ trace a ⟨t', seen'⟩ out before ⟨todo, round, stands⟩ scans moved
  obtain ⟨stepped, noted⟩ := record_eq_some.mp moved
  simp only at stands noted scans stepped
  have at_ : t.loop = .timerScan todo := by
    rcases stands with at_ | ⟨idle, -⟩
    · exact at_
    · rw [idle] at scans
      cases scans
  have sane : Sane t := by
    have plain : Reaches (step h) s₀ t trace := Run.unrecorded (fun _ _ _ => trivial) before
    exact sane_of_run (run.append plain)
  obtain ⟨running, moves⟩ := step_cases stepped
  by_cases other : ∀ o, a ≠ .loop o
  · -- the other thread, or time
    obtain ⟨map, heap, still, none⟩ := storage_still sane moves at_ other
    have silent : timerVisits t a = [] := by
      cases a <;> first | rfl | exact absurd rfl (other _)
    refine ⟨todo, ?_, .inl (still.trans at_)⟩
    rw [noted, silent, List.append_nil]
    exact ⟨round.order, map.trans round.clientMap, fun c => by rw [heap, round.heap],
      by rw [reapings_append, none, List.append_nil, round.reaped]⟩
  · obtain ⟨o, rfl⟩ := not_forall_not.mp other
    cases todo with
    | nil =>
      -- the storage is unlocked
      have silent : timerVisits t (.loop o) = [] := by simp [timerVisits, at_]
      simp only [step, running, Bool.false_eq_true, ↓reduceIte, Sys.loopStep, at_, Option.some.injEq,
        Prod.mk.injEq] at stepped
      obtain ⟨rfl, rfl⟩ := stepped
      refine ⟨[], ?_, .inr ⟨rfl, rfl⟩⟩
      rw [noted, silent, List.append_nil]
      exact ⟨round.order, round.clientMap, round.heap, by rw [List.append_nil]; exact round.reaped⟩
    | cons c todo =>
      obtain ⟨cl, live⟩ := sane.loopClients c (by rw [at_]; exact List.mem_cons_self)
      obtain ⟨on, map, heap, reaped⟩ := visit_step at_ live running stepped
      refine ⟨todo, ?_, .inl on⟩
      rw [noted, show timerVisits t (.loop o) = [⟨c, t.clock, o.garbage⟩] by simp [timerVisits, at_]]
      exact Round.visit (v := ⟨c, t.clock, o.garbage⟩) round sane₀.sound live map heap reaped

/-- A round of the timer calls `Client::onTimer` once for each session there is
when it begins, and for no other. Whatever the other thread does in between, at
the end each session is as it was, or closed if it had expired when its turn
came, and no session came or went. -/
theorem timer_round (run : Reaches (step h) (.start h) s₀ past)
    (begins : s₀.loop = .timerScan s₀.storage.clients)
    (rest : Run (record (step h) timerVisits) (fun x _ => x.1.loop.scans = true) (s₀, []) (s, seen)
      trace)
    (ends : s.loop = .idle) :
    seen.map Visit.client = s₀.storage.clients ∧ s₀.storage.clients.Nodup ∧
    s.storage.clientMap = s₀.storage.clientMap ∧
    (∀ c, s₀.storage.heap c = none → s.storage.heap c = none) ∧
    (∀ c cl, s₀.storage.heap c = some cl → ∃ v ∈ seen, v.client = c ∧
      s.storage.heap c = some (cl.timed v) ∧ (c ∈ reapings trace ↔ cl.expired v.now v.word)) := by
  have sound := (sane_of_run run).sound
  obtain ⟨todo, round, stands⟩ := round_of_run run begins rest
  obtain rfl : todo = [] := by simpa [ends] using stands
  have order : seen.map Visit.client = s₀.storage.clients := by simpa using round.order
  refine ⟨order, sound.nodup, round.clientMap, fun c dead => by rw [round.heap, dead]; rfl, ?_⟩
  intro c cl live
  have member : c ∈ s₀.storage.clients :=
    List.mem_map.mpr ⟨⟨cl.id, c⟩, AList.mem_lookup_iff.mp (sound.registered c cl live), rfl⟩
  rw [← order] at member
  obtain ⟨v, inside, rfl⟩ := List.mem_map.mp member
  -- there is no other call for it
  have nodup : (seen.map Visit.client).Nodup := by
    rw [order]
    exact sound.nodup
  have only : seen.filter (·.client = v.client) = [v] := by
    obtain ⟨before, later, rfl⟩ := List.append_of_mem inside
    simp only [List.map_append, List.map_cons, List.nodup_append, List.nodup_cons] at nodup
    obtain ⟨-, ⟨later', -⟩, apart⟩ := nodup
    rw [List.filter_append, filter_unseen fun member => apart _ member _ List.mem_cons_self rfl]
    simp [filter_unseen later']
  refine ⟨v, inside, rfl, ?_, ?_⟩
  · rw [round.heap, live, Option.map_some, Client.after, only]
    rfl
  · rw [round.reaped, List.mem_map]
    constructor
    · rintro ⟨w, member, same⟩
      obtain ⟨inside', expired⟩ := List.mem_filter.mp member
      obtain rfl : w = v := List.inj_on_of_nodup_map nodup inside' inside same
      simpa [live] using expired
    · intro expired
      exact ⟨v, List.mem_filter.mpr ⟨inside, by simpa [live] using expired⟩, rfl⟩

end

/-- A connected session is left alone until the timer comes round. -/
def Sample.scanning : List Action := Sample.connected ++ [.clock 30, .onTimer, .loop .ok]

/-- A poll of the session arrives just then, and has to wait. -/
def Sample.overtaken : List Action := [.accept Sample.poll none, .loop .ok, .loop .ok]

theorem timer_round_overtaken : ∃ s₀ past s seen trace,
    exec (step Sample.host) (.start Sample.host) Sample.scanning = some (s₀, past) ∧
    exec (restrict (record (step Sample.host) timerVisits) fun x _ => x.1.loop.scans = true) (s₀, [])
      Sample.overtaken = some ((s, seen), trace) ∧
    s.server = .lock .poll ∧ 0 ∈ reapings trace := by
  obtain ⟨⟨s₀, past⟩, ran, found⟩ := Option.map_eq_some_iff.mp
    (show (exec (step Sample.host) (.start Sample.host) Sample.scanning).map (fun r =>
        ((r.1.loop, r.1.storage.clients, (r.1.storage.heap 0).map (·.expired 30 0)),
          (exec (restrict (record (step Sample.host) timerVisits) fun x _ => x.1.loop.scans = true)
            (r.1, []) Sample.overtaken).map fun y => (y.1.1.loop, y.1.1.server, y.1.2))) =
      some ((.timerScan [0], [0], some true), some (.idle, .lock .poll, [⟨0, 30, 0⟩])) from rfl)
  obtain ⟨begun, moved⟩ := Prod.mk.inj found
  obtain ⟨begins, registered⟩ := Prod.mk.inj begun
  obtain ⟨clients, client⟩ := Prod.mk.inj registered
  obtain ⟨cl, live, expired⟩ := Option.map_eq_some_iff.mp client
  obtain ⟨⟨⟨s, seen⟩, trace⟩, rested, ended⟩ := Option.map_eq_some_iff.mp moved
  obtain ⟨idle, noted⟩ := Prod.mk.inj ended
  obtain ⟨waits, visited⟩ := Prod.mk.inj noted
  obtain ⟨-, -, -, -, each⟩ := timer_round (reaches_of_exec ran) (begins.trans (congrArg _ clients.symm))
    (run_of_exec rested) idle
  obtain ⟨v, inside, -, -, reaped⟩ := each 0 cl live
  obtain rfl : v = ⟨0, 30, 0⟩ := by simpa [show seen = _ from visited] using inside
  exact ⟨s₀, past, s, seen, trace, ran, rested, waits, reaped.mpr expired⟩

end LinearFcgi
