import Mathlib.Logic.Function.Basic

/-! Machines whose actions may be disabled and whose steps emit events. A run
is a sequence of enabled steps together with everything it emitted, so a
property of a history is an invariant like any other. Runs carry a guard on
their steps: the guard `fun _ _ => True` gives every run, and a stronger one
the runs on which some condition has held at each step so far. -/
namespace TraceMachine

/-- What an action does in a state: nothing when it is disabled, and otherwise
the next state with the events emitted on the way. -/
abbrev Step (σ α ε : Type*) := σ → α → Option (σ × List ε)

variable {σ α ε τ β δ : Type*}

/-- A run of `step` from `start` whose steps all satisfy `guard`, with the
events it emitted. -/
inductive Run (step : Step σ α ε) (guard : σ → α → Prop) (start : σ) : σ → List ε → Prop where
  | start : Run step guard start start []
  | next {s s' : σ} {trace out : List ε} {a : α} : Run step guard start s trace → guard s a →
      step s a = some (s', out) → Run step guard start s' (trace ++ out)

/-- No condition on the steps. -/
def always (_ : σ) (_ : α) : Prop := True

/-- The runs without any condition on their steps. -/
abbrev Reaches (step : Step σ α ε) (start : σ) : σ → List ε → Prop := Run step always start

variable {step : Step σ α ε} {guard guard' : σ → α → Prop} {start s : σ} {trace : List ε}

/-- What holds at the start and is kept by every guarded step of a run holds
wherever the run arrives, of the state and of the history together. -/
theorem Run.invariant {I : σ → List ε → Prop} (initial : I start [])
    (kept : ∀ s trace a s' out, Run step guard start s trace → I s trace → guard s a →
      step s a = some (s', out) → I s' (trace ++ out))
    (run : Run step guard start s trace) : I s trace := by
  induction run with
  | start => exact initial
  | next before allowed stepped ih => exact kept _ _ _ _ _ before ih allowed stepped

/-- It need only be kept while the history is as `P` says, if a history is so
only when what came before in it was. -/
theorem Run.invariant_while {I : σ → List ε → Prop} {P : List ε → Prop}
    (earlier : ∀ trace out, P (trace ++ out) → P trace) (initial : I start [])
    (kept : ∀ s trace a s' out, Run step guard start s trace → I s trace → guard s a →
      step s a = some (s', out) → P (trace ++ out) → I s' (trace ++ out))
    (run : Run step guard start s trace) (holds : P trace) : I s trace := by
  refine run.invariant (I := fun s trace => P trace → I s trace) (fun _ => initial) ?_ holds
  intro s trace a s' out before ih allowed stepped holds
  exact kept s trace a s' out before (ih (earlier trace out holds)) allowed stepped holds

/-- Weaker conditions allow more runs. -/
theorem Run.mono (weaker : ∀ s a, guard s a → guard' s a) (run : Run step guard start s trace) :
    Run step guard' start s trace := by
  induction run with
  | start => exact .start
  | next _ allowed stepped ih => exact .next ih (weaker _ _ allowed) stepped

theorem Run.reaches (run : Run step guard start s trace) : Reaches step start s trace :=
  run.mono fun _ _ _ => trivial

/-- What holds of each event a step emits, given the history before it, holds
of every event of the run's history, given the part before it. -/
theorem Run.every {P : List ε → ε → Prop}
    (each : ∀ s trace a s' out, Run step guard start s trace → guard s a →
      step s a = some (s', out) → ∀ before e after, out = before ++ e :: after →
      P (trace ++ before) e)
    (run : Run step guard start s trace) :
    ∀ before e after, trace = before ++ e :: after → P before e := by
  induction run with
  | start =>
    intro before e after split
    cases before <;> cases split
  | @next s s' trace out a run allowed stepped ih =>
    intro before e after split
    rcases List.append_eq_append_iff.mp split with ⟨more, rfl, inside⟩ | ⟨more, rfl, inside⟩
    · exact each _ _ _ _ _ run allowed stepped more e after inside
    · cases more with
      | nil =>
        simp only [List.nil_append] at inside each ⊢
        simpa using each _ _ _ _ _ run allowed stepped [] e after inside.symm
      | cons e' more =>
        obtain ⟨rfl, rfl⟩ := List.cons.inj inside
        exact ih before e more rfl

/-- Every event of a run was emitted by one of its steps. -/
theorem Run.emitted {e : ε} (run : Run step guard start s trace) (member : e ∈ trace) :
    ∃ s₀ before a s₁ out after, Run step guard start s₀ before ∧ guard s₀ a ∧
      step s₀ a = some (s₁, out) ∧ e ∈ out ∧ Run step guard s₁ s after ∧
      trace = before ++ (out ++ after) := by
  induction run with
  | start => cases member
  | @next s s' trace out a run allowed stepped ih =>
    rcases List.mem_append.mp member with earlier | now
    · obtain ⟨s₀, before, a₀, s₁, out₀, after, run₀, allowed₀, stepped₀, emitted, rest, rfl⟩ :=
        ih earlier
      exact ⟨s₀, before, a₀, s₁, out₀, after ++ out, run₀, allowed₀, stepped₀, emitted,
        rest.next allowed stepped, by simp⟩
    · exact ⟨s, trace, a, s', out, [], run, allowed, stepped, now, .start, by simp⟩

/-- The step that emitted one event of a run's history, and the run around it. -/
theorem Run.around {e : ε} (run : Run step guard start s trace) :
    ∀ before after, trace = before ++ e :: after →
    ∃ s₀ past a s₁ pre post later, Run step guard start s₀ past ∧ guard s₀ a ∧
      step s₀ a = some (s₁, pre ++ e :: post) ∧ Run step guard s₁ s later ∧
      before = past ++ pre ∧ after = post ++ later := by
  induction run with
  | start =>
    intro before after split
    cases before <;> cases split
  | @next s s' trace out a run allowed stepped ih =>
    intro before after split
    rcases List.append_eq_append_iff.mp split with ⟨pre, rfl, inside⟩ | ⟨rest, earlier, inside⟩
    · exact ⟨s, trace, a, s', pre, after, [], run, allowed, inside ▸ stepped, .start, rfl, by simp⟩
    · cases rest with
      | nil =>
        refine ⟨s, trace, a, s', [], after, [], run, allowed, ?_, .start, by simp [earlier],
          by simp⟩
        simpa using inside ▸ stepped
      | cons e' rest =>
        obtain ⟨rfl, rfl⟩ := List.cons.inj inside
        obtain ⟨s₀, past, a₀, s₁, pre, post, later, run₀, allowed₀, stepped₀, more, rfl, rfl⟩ :=
          ih before rest earlier
        exact ⟨s₀, past, a₀, s₁, pre, post, later ++ out, run₀, allowed₀, stepped₀,
          more.next allowed stepped, rfl, by simp⟩

theorem Run.append {t : σ} {trace' : List ε} (run : Run step guard start s trace)
    (rest : Run step guard s t trace') : Run step guard start t (trace ++ trace') := by
  induction rest with
  | start => simpa using run
  | next _ allowed stepped ih =>
    rw [← List.append_assoc]
    exact .next ih allowed stepped

/-- A history has one last event of a kind. -/
theorem last_unique (kind : ε → Prop) {before before' during during' : List ε} {e e' : ε}
    (same : before ++ e :: during = before' ++ e' :: during') (is : kind e) (is' : kind e')
    (last : ∀ x ∈ during, ¬ kind x) (last' : ∀ x ∈ during', ¬ kind x) :
    before = before' ∧ e = e' ∧ during = during' := by
  rcases List.append_eq_append_iff.mp same with ⟨more, rfl, split⟩ | ⟨more, rfl, split⟩
  · cases more with
    | nil => simpa using split
    | cons x more =>
      obtain ⟨rfl, rfl⟩ := List.cons.inj split
      exact absurd is' (last e' (by simp))
  · cases more with
    | nil => simpa [eq_comm] using split
    | cons x more =>
      obtain ⟨rfl, rfl⟩ := List.cons.inj split
      exact absurd is (last' e (by simp))

/-! ## Runs that are computed -/

/-- Perform the actions one after the other, as long as they are enabled. -/
def exec (step : Step σ α ε) : σ → List α → Option (σ × List ε)
  | s, [] => some (s, [])
  | s, a :: rest => (step s a).bind fun (s', out) =>
      (exec step s' rest).map fun (t, later) => (t, out ++ later)

/-- The machine that refuses the steps `guard` does not allow. -/
def restrict (step : Step σ α ε) (guard : σ → α → Prop) [∀ s a, Decidable (guard s a)] :
    Step σ α ε := fun s a => if guard s a then step s a else none

/-- A computed execution of the restricted machine is a run of the guarded
one, so a condition on the steps is checked while executing them. -/
theorem run_of_exec [∀ s a, Decidable (guard s a)] {actions : List α}
    (ran : exec (restrict step guard) start actions = some (s, trace)) :
    Run step guard start s trace := by
  induction actions generalizing start s trace with
  | nil => cases ran; exact .start
  | cons a rest ih =>
    simp only [exec, restrict] at ran
    split at ran
    · rename_i allowed
      obtain ⟨⟨s', out⟩, stepped, more⟩ := Option.bind_eq_some_iff.mp ran
      obtain ⟨⟨t, later⟩, rested, final⟩ := Option.map_eq_some_iff.mp more
      cases final
      exact (Run.next .start allowed stepped).append (ih rested)
    · cases ran

/-- A computed execution is reached. -/
theorem reaches_of_exec {actions : List α} (ran : exec step start actions = some (s, trace)) :
    Reaches step start s trace := by
  induction actions generalizing start s trace with
  | nil => cases ran; exact .start
  | cons a rest ih =>
    obtain ⟨⟨s', out⟩, stepped, more⟩ := Option.bind_eq_some_iff.mp ran
    obtain ⟨⟨t, later⟩, rested, final⟩ := Option.map_eq_some_iff.mp more
    cases final
    exact (Run.next .start trivial stepped).append (ih rested)

/-! ## Records -/

/-- The machine that also keeps what `note` finds worth noting of its steps. -/
def record {ρ : Type*} (step : Step σ α ε) (note : σ → α → List ρ) : Step (σ × List ρ) α ε :=
  fun x a => (step x.1 a).map fun r => ((r.1, x.2 ++ note x.1 a), r.2)

theorem record_eq_some {ρ : Type*} {note : σ → α → List ρ} {x y : σ × List ρ} {a : α}
    {out : List ε} : record step note x a = some (y, out) ↔
      step x.1 a = some (y.1, out) ∧ y.2 = x.2 ++ note x.1 a := by
  obtain ⟨s', past'⟩ := y
  simp only [record, Option.map_eq_some_iff, Prod.mk.injEq]
  constructor
  · rintro ⟨⟨s'', out'⟩, stepped, ⟨rfl, rfl⟩, rfl⟩
    exact ⟨stepped, rfl⟩
  · rintro ⟨stepped, rfl⟩
    exact ⟨(s', out), stepped, ⟨rfl, rfl⟩, rfl⟩

/-- Keeping a record allows every run. -/
theorem Run.recorded {ρ : Type*} (note : σ → α → List ρ) (run : Run step guard start s trace) :
    ∃ past, Run (record step note) (fun x a => guard x.1 a) (start, []) (s, past) trace := by
  induction run with
  | start => exact ⟨[], .start⟩
  | @next s s' trace out a _ allowed stepped ih =>
    obtain ⟨past, kept⟩ := ih
    exact ⟨past ++ note s a, kept.next allowed (record_eq_some.mpr ⟨stepped, rfl⟩)⟩

/-- And no other. -/
theorem Run.unrecorded {ρ : Type*} {note : σ → α → List ρ} {guard' : σ × List ρ → α → Prop}
    {x y : σ × List ρ} (weaker : ∀ x a, guard' x a → guard x.1 a)
    (run : Run (record step note) guard' x y trace) : Run step guard x.1 y.1 trace := by
  induction run with
  | start => exact .start
  | next _ allowed stepped ih => exact ih.next (weaker _ _ allowed) (record_eq_some.mp stepped).1

/-- If every step lowers the rank by what it adds to the record, the record
has no more entries than the rank has to give. -/
theorem Run.counted {ρ : Type*} {note : σ → α → List ρ} (rank : σ → Nat)
    (drop : ∀ s trace a s' out, Run step guard start s trace → guard s a →
      step s a = some (s', out) → (note s a).length + rank s' ≤ rank s)
    {t : σ} {past : List ρ}
    (run : Run (record step note) (fun x a => guard x.1 a) (start, []) (t, past) trace) :
    past.length + rank t ≤ rank start := by
  refine run.invariant (I := fun x _ => x.2.length + rank x.1 ≤ rank start) (by simp) ?_
  rintro x trace a y out before bound allowed stepped
  obtain ⟨plain, noted⟩ := record_eq_some.mp stepped
  have plainBefore : Run step guard start x.1 trace :=
    Run.unrecorded (x := (start, [])) (y := x) (fun _ _ allowed => allowed) before
  have lower := drop x.1 trace a y.1 out plainBefore allowed plain
  rw [noted, List.length_append]
  omega

/-! ## Refinement -/

/-- `R` relates each concrete state to abstract states that can follow it: a
concrete step that meets its guard is matched by no abstract step or by one
that meets the abstract guard, and this step emits exactly what the observer
keeps of the concrete events. -/
structure Simulation (step : Step σ α ε) (guard : σ → α → Prop) (spec : Step τ β δ)
    (allow : τ → β → Prop) (observe : ε → Option δ) (R : σ → τ → Prop) : Prop where
  follow : ∀ s t a s' out, R s t → guard s a → step s a = some (s', out) →
    ∃ t', R s' t' ∧ (t' = t ∧ out.filterMap observe = [] ∨
      ∃ b, allow t b ∧ spec t b = some (t', out.filterMap observe))

/-- Every guarded run of a refining machine is, as observed, a guarded run of
the abstract one. -/
theorem Simulation.run {spec : Step τ β δ} {allow : τ → β → Prop} {observe : ε → Option δ}
    {R : σ → τ → Prop} {t₀ : τ} (sim : Simulation step guard spec allow observe R)
    (initial : R start t₀) (run : Run step guard start s trace) :
    ∃ t, R s t ∧ Run spec allow t₀ t (trace.filterMap observe) := by
  induction run with
  | start => exact ⟨t₀, initial, .start⟩
  | next _ met stepped ih =>
    obtain ⟨t, related, followed⟩ := ih
    obtain ⟨t', related', ⟨rfl, silent⟩ | ⟨b, allowed, matched⟩⟩ :=
      sim.follow _ _ _ _ _ related met stepped
    · exact ⟨t', related', by simpa [List.filterMap_append, silent] using followed⟩
    · exact ⟨t', related', by simpa [List.filterMap_append] using followed.next allowed matched⟩

end TraceMachine
