import LinearFcgi.Iterations
import LinearFcgi.Wakeups
import LinearFcgi.Library.Fairness

/-! What the process does in the end. A run that never ends is one in which
libuv never aborts and no stale pointer is followed, since nothing happens after
that. Of its scheduler it is assumed that neither thread is kept from running
for ever; that the mutexes are not fair is no matter, since a thread that waits
for one is only passed over so often. -/
namespace LinearFcgi

open TraceMachine

/-- The process, running for ever. -/
abbrev Forever (h : Host) := Endless (step h) (.start h)

/-- In `pthread_cond_timedwait`. -/
def ServerPc.waits : ServerPc → Bool
  | .connectWait _ _ => true
  | .accept | .lock _ | .locked _ | .disconnectReturn | .postReturn => false
  | .connectBegin _ _ | .connectEnqueue _ | .connectSend _ | .connectPublish _
  | .connectReturn _ _ => false
  | .disconnectBegin _ _ | .disconnectEnqueue _ _ | .disconnectSend _ _ => false
  | .pollTest _ _ | .pollTouch _ _ | .pollConsume _ _ | .pollStore _ _ _ | .pollEncode _ _ => false
  | .writeTest _ _ | .writeProduce _ _ | .writeEnqueue _ | .writeSend _ => false

/-- The wait ends for no reason, and begins anew. -/
def Spurious (s : Sys) (a : Action) : Prop :=
  ∃ c deadline cl o, s.server = .connectWait c deadline ∧ s.storage.heap c = some cl ∧
    a = .server o ∧ o ≠ .timedOut ∧ cl.state ≠ .connected ∧ cl.state ≠ .failConnect

/-- Both threads run, and no wait is ended for no reason over and over again. -/
structure Scheduled {h : Host} (ρ : Forever h) : Prop where
  server : ρ.Fair fun a => ∃ o, a = .server o
  loop : ρ.Fair fun a => ∃ o, a = .loop o
  wakes : ∀ n, (∀ m, n ≤ m → (ρ.state m).server.waits = true) →
    ∃ k, ∀ m, k ≤ m → ¬ Spurious (ρ.state m) (ρ.action m)

section

variable {h : Host} {s s' : Sys} {a : Action} {out : List Event} {ρ : Forever h}

/-- The loop thread stays where it is, unless it takes the step itself or libuv
calls it. -/
theorem Transition.keepsLoop (t : Transition h s a s' out) (busy : s.loop ≠ .idle)
    (moves : ∀ o, a ≠ .loop o) : s'.loop = s.loop := by
  cases t
  all_goals
    first
    | rfl
    | exact absurd rfl (moves _)
    | exact absurd ‹s.loop = .idle› busy

/-- And a lock stays with its thread. -/
theorem Sane.keepsLock (sane : Sane s) (t : Transition h s a s' out)
    (holds : s.storageLock = some .loop) (moves : ∀ o, a ≠ .loop o) :
    s'.storageLock = some .loop := by
  have holding := sane.loopHolds.mp holds
  have busy : s.loop ≠ .idle := by
    intro idle
    rw [idle] at holding
    cases holding
  rw [(sane.step t).loopHolds, t.keepsLoop busy moves]
  exact holding

/-- What a step does to the server thread while it handles a request. -/
theorem busy_step (sane : Sane s)
    (nonempty : ∀ c data chunk, s.server = .pollStore c data chunk → chunk ≠ [])
    (busy : s.server ≠ .accept) (t : Transition h s a s' out) (alive : s'.fault = false) :
    (∃ o, a = .server o) ∧ s'.server.rank < s.server.rank ∨
    Spurious s a ∧ s'.server.waits = true ∧ s'.server.rank = s.server.rank ∨
    (∀ o, a ≠ .server o) ∧ s'.server = s.server := by
  by_cases moves : ∃ o, a = .server o
  · obtain ⟨o, rfl⟩ := moves
    rcases rank_step sane nonempty t alive with lower | ⟨c, deadline, cl, at_, live, woken, up, down⟩
    · exact .inl ⟨⟨o, rfl⟩, lower⟩
    · by_cases lower : s'.server.rank < s.server.rank
      · exact .inl ⟨⟨o, rfl⟩, lower⟩
      refine .inr (.inl ⟨⟨c, deadline, cl, o, at_, live, rfl, woken, up, down⟩, ?_⟩)
      cases t
      all_goals simp_all [ServerPc.rank, ServerPc.waits]
  · have others (o : Outcome) : a ≠ .server o := fun same => moves ⟨o, same⟩
    refine .inr (.inr ⟨others, t.keepsServer others fun req uuid same => ?_⟩)
    subst same
    cases t <;> exact busy ‹_›

theorem Forever.running (ρ : Forever h) (n : Nat) : (ρ.state n).fault = false :=
  (step_cases (ρ.next n)).1

theorem Forever.sane (ρ : Forever h) (n : Nat) : Sane (ρ.state n) := sane_of_run (ρ.reaches n)

theorem Forever.transition (ρ : Forever h) (n : Nat) :
    Transition h (ρ.state n) (ρ.action n) (ρ.state (n + 1)) (ρ.out n) :=
  (step_cases (ρ.next n)).2

theorem enabled_server {o : Outcome} (running : s.fault = false)
    (moves : (s.serverStep h o).isSome) : Enabled (step h) (fun a => ∃ o, a = .server o) s := by
  obtain ⟨⟨s', out⟩, moved⟩ := Option.isSome_iff_exists.mp moves
  exact ⟨.server o, s', out, ⟨o, rfl⟩, by simpa only [step, running, Bool.false_eq_true, ↓reduceIte]⟩

theorem enabled_loop {o : Outcome} (running : s.fault = false)
    (moves : (s.loopStep h o).isSome) : Enabled (step h) (fun a => ∃ o, a = .loop o) s := by
  obtain ⟨⟨s', out⟩, moved⟩ := Option.isSome_iff_exists.mp moves
  exact ⟨.loop o, s', out, ⟨o, rfl⟩, by simpa only [step, running, Bool.false_eq_true, ↓reduceIte]⟩

/-- The loop thread gives the storage lock back. -/
theorem loop_unlocks (fair : ρ.Fair fun a => ∃ o, a = .loop o) :
    LeadsTo (fun n => (ρ.state n).storageLock = some .loop)
      fun n => (ρ.state n).storageLock ≠ some .loop := by
  refine fair.leadsTo_of_rank (fun n => (ρ.state n).loop.rank) ?_ ?_ ?_
  · intro n holds
    by_cases moves : ∃ o, ρ.action n = .loop o
    · obtain ⟨o, taken⟩ := moves
      have t := ρ.transition n
      rw [taken] at t
      rcases loop_rank_step (ρ.sane n) holds t with free | ⟨holds', lower⟩
      · exact .inl (by simp [free])
      · exact .inr ⟨holds', Nat.le_of_lt lower⟩
    · have others (o : Outcome) : ρ.action n ≠ .loop o := fun same => moves ⟨o, same⟩
      have busy : (ρ.state n).loop ≠ .idle := by
        intro idle
        have holding := (ρ.sane n).loopHolds.mp holds
        rw [idle] at holding
        cases holding
      refine .inr ⟨(ρ.sane n).keepsLock (ρ.transition n) holds others, ?_⟩
      rw [(ρ.transition n).keepsLoop busy others]
  · rintro n holds ⟨o, taken⟩
    have t := ρ.transition n
    rw [taken] at t
    rcases loop_rank_step (ρ.sane n) holds t with free | ⟨-, lower⟩
    · exact .inl (by simp [free])
    · exact .inr lower
  · exact .of_imp fun n holds => .inr (enabled_loop (o := .ok) (ρ.running n) (loop_moves (ρ.sane n) holds .ok))

/-- While the server thread handles a request, it can go on again and again. -/
theorem server_goes_on (fair : ρ.Fair fun a => ∃ o, a = .loop o) :
    LeadsTo (fun n => (ρ.state n).server ≠ .accept) fun n =>
      (ρ.state n).server = .accept ∨
        Enabled (step h) (fun a => ∃ o, a = .server o) (ρ.state n) := by
  have may (s : Sys) : s.May .ok := fun c deadline at_ late => by cases late
  have open_ (n : Nat) (free : (ρ.state n).storageLock ≠ some .loop) : (ρ.state n).server = .accept ∨
      Enabled (step h) (fun a => ∃ o, a = .server o) (ρ.state n) := by
    by_cases idle : (ρ.state n).server = .accept
    · exact .inl idle
    · exact .inr (enabled_server (ρ.running n) (server_moves (ρ.sane n) idle (may _)
        fun _ _ => free))
  intro n busy
  by_cases held : (ρ.state n).storageLock = some .loop
  · obtain ⟨m, later, free⟩ := loop_unlocks fair n held
    exact ⟨m, later, open_ m free⟩
  · exact ⟨n, Nat.le_refl n, open_ n held⟩

/-- The server thread comes back to `FCGI_Accept`. -/
theorem server_returns (scheduled : Scheduled ρ) : Recurs fun n => (ρ.state n).server = .accept := by
  suffices returns : LeadsTo (fun n => (ρ.state n).server ≠ .accept)
      fun n => (ρ.state n).server = .accept by
    intro n
    by_cases idle : (ρ.state n).server = .accept
    · exact ⟨n, Nat.le_refl n, idle⟩
    · exact returns n idle
  refine .of_never fun n busy never => ?_
  have steps (m : Nat) (later : n ≤ m) := busy_step (ρ.sane m)
    (fun c data chunk => nonempty_of_run (ρ.reaches m)) (never m later) (ρ.transition m)
    (ρ.running (m + 1))
  -- in the end its rank is constant, so that all its steps are spurious
  obtain ⟨k, after, constant⟩ := constant_in_the_end (fun m => (ρ.state m).server.rank) fun m later => by
    rcases steps m later with ⟨-, lower⟩ | ⟨-, -, same⟩ | ⟨-, same⟩
    · exact Nat.le_of_lt lower
    · exact Nat.le_of_eq same
    · exact Nat.le_of_eq (by rw [same])
  have moves : Recurs fun m => ∃ o, ρ.action m = .server o := by
    refine scheduled.server fun m => ?_
    obtain ⟨i, later, enabled⟩ := server_goes_on scheduled.loop (max n m) (never _ (Nat.le_max_left n m))
    exact ⟨i, Nat.le_trans (Nat.le_max_right n m) later,
      enabled.resolve_left (never i (Nat.le_trans (Nat.le_max_left n m) later))⟩
  have spurious (m : Nat) (later : k ≤ m) (taken : ∃ o, ρ.action m = .server o) :
      Spurious (ρ.state m) (ρ.action m) ∧ (ρ.state (m + 1)).server.waits = true := by
    rcases steps m (Nat.le_trans after later) with ⟨-, lower⟩ | ⟨yes, waits, -⟩ | ⟨no, -⟩
    · have same := constant m later
      have same' := constant (m + 1) (Nat.le_succ_of_le later)
      omega
    · exact ⟨yes, waits⟩
    · obtain ⟨o, taken⟩ := taken
      exact absurd taken (no o)
  -- from the first of them on it waits for ever
  obtain ⟨first, start_, taken⟩ := moves k
  have waits : ∀ m, first + 1 ≤ m → (ρ.state m).server.waits = true := by
    intro m later
    induction m, later using Nat.le_induction with
    | base => exact (spurious first start_ taken).2
    | succ m later ih =>
      have late : k ≤ m := Nat.le_trans start_ (Nat.le_of_succ_le later)
      by_cases taken : ∃ o, ρ.action m = .server o
      · exact (spurious m late taken).2
      · rcases steps m (Nat.le_trans after late) with ⟨yes, -⟩ | ⟨-, waits, -⟩ | ⟨-, same⟩
        · exact absurd yes taken
        · exact waits
        · rw [same]
          exact ih
  obtain ⟨calm, never_⟩ := scheduled.wakes _ waits
  obtain ⟨m, later, taken⟩ := moves (max k calm)
  exact never_ m (Nat.le_trans (Nat.le_max_right k calm) later)
    (spurious m (Nat.le_trans (Nat.le_max_left k calm) later) taken).1

/-! ## Answers -/

theorem answer_mem_turns {trace : List Event} {k : Nat} :
    .answer k ∈ turns trace ↔ ∃ code body, .response k code body ∈ trace := by
  simp only [turns, List.mem_filterMap]
  constructor
  · rintro ⟨e, member, is⟩
    cases e <;> simp at is
    subst is
    exact ⟨_, _, member⟩
  · rintro ⟨code, body, member⟩
    exact ⟨_, member, rfl⟩

theorem answer_mem_dialogue {k n : Nat} : .answer k ∈ dialogue n ↔ 0 < k ∧ k ≤ n := by
  simp only [dialogue, List.mem_flatMap, List.mem_range, List.mem_cons, reduceCtorEq, Turn.answer.injEq,
    false_or, List.not_mem_nil, or_false]
  constructor
  · rintro ⟨i, inside, rfl⟩
    omega
  · rintro ⟨positive, bound⟩
    exact ⟨k - 1, by omega, by omega⟩

/-- Every request that is accepted is answered. -/
theorem request_answered (scheduled : Scheduled ρ) {n k : Nat} {req : Request}
    (accepted : .accepted k req ∈ ρ.out n) :
    ∃ m code body, n ≤ m ∧ .response k code body ∈ ρ.out m := by
  have number : k = (ρ.state n).exchange + 1 ∧ (ρ.state (n + 1)).exchange = k := by
    have t := ρ.transition n
    generalize ρ.state (n + 1) = s' at t ⊢
    generalize ρ.action n = a at t
    generalize ρ.out n = out at t accepted
    cases t <;> simp at accepted ⊢ <;> exact ⟨accepted.1, accepted.1.symm⟩
  obtain ⟨m, later, idle⟩ := server_returns scheduled (n + 1)
  have answered : .answer k ∈ turns (ρ.history m) := by
    have both := turns_of_run (ρ.reaches m)
    rw [Sys.owed, if_pos idle, List.append_nil] at both
    rw [both, answer_mem_dialogue]
    obtain ⟨trace, between⟩ := ρ.reaches_between later
    have counts := exchange_le between
    omega
  obtain ⟨code, body, member⟩ := answer_mem_turns.mp answered
  obtain ⟨i, -, emitted⟩ := List.mem_flatMap.mp member
  refine ⟨i, code, body, Nat.le_of_not_lt fun early => ?_, emitted⟩
  -- it was not answered before it was accepted
  have before : .answer k ∈ turns (ρ.history n) :=
    answer_mem_turns.mpr ⟨code, body, List.mem_flatMap.mpr ⟨i, List.mem_range.mpr early, emitted⟩⟩
  have member := List.mem_append_left (ρ.state n).owed before
  rw [turns_of_run (ρ.reaches n), answer_mem_dialogue] at member
  omega

end

/-! ## A process to look at for ever -/

/-- No session is left, and nothing is going on. -/
structure Quiet (s : Sys) : Prop where
  server : s.server = .accept
  loop : s.loop = .idle
  storageLock : s.storageLock = none
  asyncPending : s.asyncPending = false
  running : s.fault = false
  clients : s.storage.clients = []

namespace Quiet

variable {h : Host} {s : Sys}

/-- Only the timer and the clock go on. -/
def state (s : Sys) (n : Nat) : Sys :=
  { s with
    clock := s.clock + (n / 4 : Nat)
    loop := if n % 4 = 1 then .timerLock else if n % 4 = 2 then .timerScan [] else .idle
    storageLock := if n % 4 = 2 then some .loop else none }

def action (s : Sys) (n : Nat) : Action :=
  if n % 4 = 0 then .onTimer else if n % 4 = 3 then .clock (s.clock + (n / 4 + 1 : Nat)) else .loop .ok

theorem step_state (quiet : Quiet s) (n : Nat) :
    step h (state s n) (action s n) = some (state s (n + 1), []) := by
  obtain ⟨server, loop, storageLock, asyncPending, running, clients⟩ := quiet
  have split : n % 4 = 0 ∨ n % 4 = 1 ∨ n % 4 = 2 ∨ n % 4 = 3 := by omega
  rcases split with now | now | now | now
  · have next : (n + 1) % 4 = 1 ∧ (n + 1) / 4 = n / 4 := by omega
    simp [step, action, state, now, next, running]
  · have next : (n + 1) % 4 = 2 ∧ (n + 1) / 4 = n / 4 := by omega
    simp [step, action, state, now, next, running, Sys.loopStep, clients]
  · have next : (n + 1) % 4 = 3 ∧ (n + 1) / 4 = n / 4 := by omega
    simp [step, action, state, now, next, running, Sys.loopStep, Sys.unlock]
  · have next : (n + 1) % 4 = 0 ∧ (n + 1) / 4 = n / 4 + 1 := by omega
    simp [step, action, state, now, next, running]

def endless (quiet : Quiet s) : Endless (step h) s where
  state := state s
  action := action s
  out _ := []
  initial := by
    obtain ⟨server, loop, storageLock, asyncPending, running, clients⟩ := quiet
    simp [state, ← loop, ← storageLock]
  next := quiet.step_state

theorem scheduled (quiet : Quiet s) {ρ : Forever h} {k : Nat}
    (ends : Endless.EndsWith ρ k (quiet.endless (h := h))) : Scheduled ρ where
  server := by
    refine ends.fair_of_disabled ?_
    rintro n ⟨-, s', out, ⟨o, rfl⟩, moved⟩
    have idle : ((quiet.endless (h := h)).state n).server = .accept := quiet.server
    have running : ((quiet.endless (h := h)).state n).fault = false := quiet.running
    simp [step, running, Sys.serverStep, idle] at moved
  loop := ends.fair fun n => ⟨4 * n + 1, by omega, .ok, by
    have now : (4 * n + 1) % 4 = 1 := by omega
    simp [endless, action, now]⟩
  wakes n waits := by
    have idle : (ρ.state (max k n)).server = .accept :=
      ends.all (R := fun s _ _ => s.server = .accept) (fun _ => quiet.server) (Nat.le_max_left k n)
    have waits := waits _ (Nat.le_max_right k n)
    rw [idle] at waits
    cases waits

end Quiet

namespace Sample

/-- A session is polled once and then forgotten, until the timer ends it. -/
def abandoned : List Action :=
  connected ++ .accept poll none :: List.replicate 6 (.server .ok) ++ [.clock 30, .onTimer] ++
    List.replicate 3 (.loop .ok) ++ .onDisconnect 0 :: List.replicate 2 (.loop .ok)

private theorem abandoned_ran : ∃ s trace,
    exec (step host) (.start host) abandoned = some (s, trace) ∧ Quiet s ∧
      .created 1 0 uuid ∈ trace ∧ ∃ req, .accepted 2 req ∈ trace := by
  have ran : exec (step host) (.start host) abandoned = some (_, [.accepted 1 _, .created 1 0 uuid,
      .requested 1 _, .dispatched _, .connected 0, .response 1 .ok _, .accepted 2 _, .live 2 0,
      .empty 2 0, .polled 2 0 _, .response 2 .ok _, .reaped 0, .closed 0, .destroyed 0]) := rfl
  exact ⟨_, _, ran, ⟨rfl, rfl, rfl, rfl, rfl, rfl⟩, by simp, poll, by simp⟩

/-- This process, running on for ever. -/
theorem abandoned_forever : ∃ (ρ : Forever host) (s : Sys) (quiet : Quiet s) (k : Nat),
    ρ.EndsWith k (quiet.endless (h := host)) ∧ (∃ n, .created 1 0 uuid ∈ ρ.out n) ∧
      ∃ n req, .accepted 2 req ∈ ρ.out n := by
  obtain ⟨s, trace, ran, quiet, created, req, accepted⟩ := abandoned_ran
  obtain ⟨ρ, ends, past⟩ := Endless.exists_endsWith ran (quiet.endless (h := host))
  rw [← past] at created accepted
  obtain ⟨n, -, created⟩ := Endless.exists_out created
  obtain ⟨m, -, accepted⟩ := Endless.exists_out accepted
  exact ⟨ρ, s, quiet, _, ends, ⟨n, created⟩, m, req, accepted⟩

end Sample

/-- The poll of the session that is then forgotten is answered. -/
theorem request_answered_abandoned : ∃ (ρ : Forever Sample.host) (m : Nat) (code : Response.Code)
    (body : Option Bytes), .response 2 code body ∈ ρ.out m := by
  obtain ⟨ρ, s, quiet, k, ends, -, n, req, accepted⟩ := Sample.abandoned_forever
  obtain ⟨m, code, body, -, answered⟩ := request_answered (quiet.scheduled ends) accepted
  exact ⟨ρ, m, code, body, answered⟩

end LinearFcgi
