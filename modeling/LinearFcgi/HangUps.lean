import LinearFcgi.Downlink

/-! What a hang-up of the backend does to the chunks that came before it.
`Client::read` looks at the state first and at the queue only then, so a session
is gone from the hang-up on, and not before. -/
namespace LinearFcgi

open TraceMachine

namespace Life

/-- Nothing but a hang-up has ended the connection so far. -/
def Undisturbed (trace : List Event) : Prop :=
  .connected ∈ trace ∧ .disconnecting ∉ trace ∧ .reaped ∉ trace

/-- The connection stands. -/
def Stands (l : Life) : Prop := ∃ k, l.core = some k ∧ k.state = .connected ∧ k.connectReq = false

theorem Stands.step {l l' : Life} {b : Action} {out : List Event} (phase : Phase l)
    (stands : Stands l) (t : Transition l b l' out) (undisturbed : .disconnecting ∉ out)
    (unreaped : .reaped ∉ out) (up : .hungUp ∉ out) : Stands l' := by
  obtain ⟨k, here, state, answered⟩ := stands
  obtain ⟨-, shows, last⟩ := phase.present k here
  obtain ⟨opening, -, -, -, asked, -, -, -, closing, leaving, -⟩ := shows
  clear phase
  cases t
  all_goals
    first
    | exact ⟨k, here, state, answered⟩
    | grind

/-- A connection that was made stands until the backend hangs up, unless it is
disturbed. -/
theorem stands_of_run {allow : Life → Action → Prop} {l : Life} {trace : List Event}
    (run : Run step allow unborn l trace) (undisturbed : Undisturbed trace)
    (up : .hungUp ∉ trace) : Stands l := by
  refine run.invariant (I := fun l trace => Undisturbed trace → .hungUp ∉ trace → Stands l) ?_ ?_
    undisturbed up
  · intro undisturbed
    cases undisturbed.1
  · intro l trace b l' out before stands _ stepped ⟨connected, marked, reaped⟩ up
    have t := step_cases stepped
    simp only [List.mem_append, not_or] at connected marked reaped up
    by_cases earlier : .connected ∈ trace
    · exact (stands ⟨earlier, marked.1, reaped.1⟩ up.1).step (phase_of_run before) t marked.2
        reaped.2 up.2
    · have now := connected.resolve_left earlier
      cases t <;> simp at now
      exact ⟨_, rfl, rfl, rfl⟩

/-- An undisturbed connection is gone for `Client::read` exactly from the
backend's hang-up on. -/
theorem gone_iff_hungUp {allow : Life → Action → Prop} {l : Life} {trace : List Event}
    (run : Run step allow unborn l trace) : ∀ before e after, trace = before ++ e :: after →
      Undisturbed before → (e = .gone → .hungUp ∈ before) ∧ (e = .live → .hungUp ∉ before) := by
  refine run.every (P := fun before e => Undisturbed before →
    (e = .gone → .hungUp ∈ before) ∧ (e = .live → .hungUp ∉ before)) ?_
  intro l trace b l' out run any stepped before e after split undisturbed
  have t := step_cases stepped
  clear any
  constructor
  · rintro rfl
    by_contra up
    cases t <;> simp [List.cons_eq_append_iff] at split
    case gone settled down =>
      obtain ⟨rfl, rfl⟩ := split
      rw [List.append_nil] at undisturbed up
      obtain ⟨k, here, state, -⟩ := stands_of_run run undisturbed up
      cases here
      exact down state
  · rintro rfl lost
    cases t <;> simp [List.cons_eq_append_iff] at split
    case live state =>
      obtain ⟨rfl, rfl⟩ := split
      rw [List.append_nil] at lost
      have spent := (spent_of_lost run (.inr lost)).state _ rfl
      rcases state with state | state <;> simp [state] at spent

end Life

/-- Neither a disconnect, by request or by a connect that took too long, nor the
timer has come to the connected session so far. -/
def Undisturbed (c : Addr) (trace : List Event) : Prop :=
  .connected c ∈ trace ∧ (∀ n, .disconnecting n c ∉ trace) ∧ .reaped c ∉ trace

section

variable {h : Host} {s : Sys} {trace : List Event} {c : Addr}

theorem Undisturbed.life (undisturbed : Undisturbed c trace) :
    Life.Undisturbed (trace.filterMap (observeLife c)) := by
  obtain ⟨connected, unmarked, unreaped⟩ := undisturbed
  refine ⟨List.mem_filterMap.mpr ⟨_, connected, by simp [observeLife]⟩, ?_, ?_⟩
  · simpa using unmarked
  · simpa using unreaped

/-- What `Client::read` finds of a session nothing but a hang-up has come to: it
is gone if the backend has hung up, whatever is queued, and otherwise yields
what was queued first, or nothing if nothing was. -/
theorem read_of_undisturbed (reaches : Reaches (step h) (.start h) s trace) :
    ∀ before e after, trace = before ++ e :: after → Undisturbed c before →
      (∀ n, e = .gone n c → .hungUp c ∈ before) ∧
      (∀ n, e = .live n c → .hungUp c ∉ before) ∧
      (∀ n chunk, e = .taken n c chunk → ∃ rest, queued c before = chunk :: rest) ∧
      (∀ n, e = .empty n c → queued c before = []) := by
  rintro before e after rfl undisturbed
  have lived : Run Life.step always Life.unborn (s.life c) _ :=
    life_of_run (fun _ _ _ _ _ _ _ => trivial) reaches
  have tested (e' : Life.Event) (seen : observeLife c e = some e') :=
    Life.gone_iff_hungUp lived (before.filterMap (observeLife c)) e'
      (after.filterMap (observeLife c)) (by simp [seen]) undisturbed.life
  obtain ⟨q, -, reads⟩ := (reads_simulate h c).run (start_carries h Client.readQueue c) reaches
  have popped (e' : Fifo.Event Bytes) (seen : observeReads c e = some e') :=
    Fifo.every_pop reads (before.filterMap (observeReads c)) e'
      (after.filterMap (observeReads c)) (by simp [seen])
  simp only [pushed_reads, popped_reads] at popped
  refine ⟨?_, ?_, ?_, ?_⟩
  · rintro n rfl
    simpa using (tested .gone (by simp [observeLife])).1 rfl
  · rintro n rfl
    simpa using (tested .live (by simp [observeLife])).2 rfl
  · rintro n chunk rfl
    obtain ⟨rest, split⟩ := (popped (.popped chunk) (by simp [observeReads])).1 chunk rfl
    exact ⟨rest, by rw [queued, split, List.drop_left]⟩
  · rintro n rfl
    have drained := (popped .empty (by simp [observeReads])).2 rfl
    rw [queued, drained, List.drop_length]

end

private theorem polledLate_ran : ∃ s before after,
    exec (step Sample.host) (.start Sample.host) Sample.polledLate =
      some (s, before ++ .gone 2 0 :: after) ∧
    Undisturbed 0 before ∧ queued 0 before = [ascii "he"] := by
  refine ⟨_, [.accepted 1 _, .created 1 0 _, .requested 1 _, .dispatched _, .connected 0,
    .response 1 _ _, .received 0 _, .hungUp 0, .closed 0, .accepted 2 _], [.response 2 _ _],
    rfl, ?_, rfl⟩
  simp [Undisturbed]

/-- A session is gone with something in its read queue, although nothing but the
hang-up has come to it. -/
theorem gone_with_data : ∃ s before after,
    exec (step Sample.host) (.start Sample.host) Sample.polledLate =
      some (s, before ++ .gone 2 0 :: after) ∧
    Undisturbed 0 before ∧ queued 0 before ≠ [] := by
  obtain ⟨s, before, after, ran, undisturbed, held⟩ := polledLate_ran
  exact ⟨s, before, after, ran, undisturbed, by rw [held]; nofun⟩

theorem read_of_undisturbed_polledLate : ∃ s before after,
    exec (step Sample.host) (.start Sample.host) Sample.polledLate =
      some (s, before ++ .gone 2 0 :: after) ∧ .hungUp 0 ∈ before := by
  obtain ⟨s, before, after, ran, undisturbed, -⟩ := polledLate_ran
  exact ⟨s, before, after, ran,
    (read_of_undisturbed (reaches_of_exec ran) _ _ _ rfl undisturbed).1 2 rfl⟩

end LinearFcgi
