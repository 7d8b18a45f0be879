import Mathlib.Data.Nat.Init
import LinearFcgi.Library.TraceMachine

/-! What must happen in runs that never end. A scheduler is fair to a kind of
action if it takes one of the kind whenever such actions keep being enabled,
however often they are disabled in between. What follows from fairness is put
in terms of moments: a property of moments leads to another if every moment
with the first has one with the second at or after it. -/
namespace TraceMachine

/-- A run that never ends. -/
structure Endless {σ α ε : Type*} (step : Step σ α ε) (start : σ) where
  state : Nat → σ
  action : Nat → α
  out : Nat → List ε
  initial : state 0 = start
  next : ∀ n, step (state n) (action n) = some (state (n + 1), out n)

/-- An action of the kind can be taken. -/
def Enabled {σ α ε : Type*} (step : Step σ α ε) (kind : α → Prop) (s : σ) : Prop :=
  ∃ a s' out, kind a ∧ step s a = some (s', out)

/-- Whenever `P` holds, `Q` holds then or later. -/
def LeadsTo (P Q : Nat → Prop) : Prop := ∀ n, P n → ∃ m, n ≤ m ∧ Q m

/-- `P` holds again and again. -/
def Recurs (P : Nat → Prop) : Prop := ∀ n, ∃ m, n ≤ m ∧ P m

section Moments

variable {P P' Q Q' R : Nat → Prop}

theorem LeadsTo.of_imp (now : ∀ n, P n → Q n) : LeadsTo P Q :=
  fun n holds => ⟨n, Nat.le_refl n, now n holds⟩

theorem LeadsTo.trans (first : LeadsTo P Q) (then_ : LeadsTo Q R) : LeadsTo P R := by
  intro n holds
  obtain ⟨m, later, reached⟩ := first n holds
  obtain ⟨k, later', reached'⟩ := then_ m reached
  exact ⟨k, Nat.le_trans later later', reached'⟩

theorem LeadsTo.or (left : LeadsTo P R) (right : LeadsTo Q R) : LeadsTo (fun n => P n ∨ Q n) R :=
  fun n holds => holds.elim (left n) (right n)

theorem LeadsTo.mono (stronger : ∀ n, P' n → P n) (weaker : ∀ n, Q n → Q' n)
    (leads : LeadsTo P Q) : LeadsTo P' Q' := by
  intro n holds
  obtain ⟨m, later, reached⟩ := leads n (stronger n holds)
  exact ⟨m, later, weaker m reached⟩

/-- What would be refuted by never reaching `Q` leads to it. -/
theorem LeadsTo.of_never (refuted : ∀ n, P n → (∀ m, n ≤ m → ¬ Q m) → False) : LeadsTo P Q := by
  intro n holds
  by_contra never
  exact refuted n holds fun m later reached => never ⟨m, later, reached⟩

/-- What is kept until `Q` holds, is kept as long as `Q` does not. -/
theorem kept_while (kept : ∀ n, P n → Q (n + 1) ∨ P (n + 1)) {n : Nat} (holds : P n)
    (never : ∀ m, n ≤ m → ¬ Q m) : ∀ m, n ≤ m → P m := by
  intro m later
  induction m, later using Nat.le_induction with
  | base => exact holds
  | succ m later ih => exact (kept m ih).resolve_left (never (m + 1) (Nat.le_succ_of_le later))

theorem kept_on (kept : ∀ n, P n → P (n + 1)) {n : Nat} (holds : P n) : ∀ m, n ≤ m → P m :=
  kept_while (Q := fun _ => False) (fun n holds => .inr (kept n holds)) holds fun _ _ => id

/-- What lasts until `Q` meets what recurs. -/
theorem Recurs.meets (recurs : Recurs R) (kept : ∀ n, P n → Q (n + 1) ∨ P (n + 1))
    (now : ∀ n, P n → R n → Q n) : LeadsTo P Q := by
  refine .of_never fun n holds never => ?_
  obtain ⟨m, later, met⟩ := recurs n
  exact never m later (now m (kept_while kept holds never m later) met)

theorem Recurs.mono (weaker : ∀ n, P n → Q n) (recurs : Recurs P) : Recurs Q := by
  intro n
  obtain ⟨m, later, holds⟩ := recurs n
  exact ⟨m, later, weaker m holds⟩

theorem Recurs.then (recurs : Recurs P) (leads : LeadsTo P Q) : Recurs Q := by
  intro n
  obtain ⟨m, later, holds⟩ := recurs n
  obtain ⟨k, later', reached⟩ := leads m holds
  exact ⟨k, Nat.le_trans later later', reached⟩

/-- A number that never grows is constant in the end. -/
theorem constant_in_the_end (rank : Nat → Nat) {n : Nat}
    (falls : ∀ m, n ≤ m → rank (m + 1) ≤ rank m) :
    ∃ k, n ≤ k ∧ ∀ m, k ≤ m → rank m = rank k := by
  induction value : rank n using Nat.strong_induction_on generalizing n with
  | _ value_ ih =>
    by_cases lower : ∃ m, n ≤ m ∧ rank m < rank n
    · obtain ⟨m, later, less⟩ := lower
      obtain ⟨k, later', constant⟩ :=
        ih (rank m) (value ▸ less) (fun i after => falls i (Nat.le_trans later after)) rfl
      exact ⟨k, Nat.le_trans later later', constant⟩
    · refine ⟨n, Nat.le_refl n, fun m later => Nat.le_antisymm ?_ ?_⟩
      · induction m, later using Nat.le_induction with
        | base => exact Nat.le_refl _
        | succ m later ih => exact Nat.le_trans (falls m later) ih
      · exact Nat.le_of_not_lt fun less => lower ⟨m, later, less⟩

end Moments

namespace Endless

variable {σ α ε : Type*} {step : Step σ α ε} {start : σ} (ρ : Endless step start)

/-- An action of the kind is taken again and again, if one can be. -/
def Fair (kind : α → Prop) : Prop :=
  Recurs (fun n => Enabled step kind (ρ.state n)) → Recurs fun n => kind (ρ.action n)

/-- What has happened before a moment. -/
def history (n : Nat) : List ε := (List.range n).flatMap ρ.out

theorem reaches (n : Nat) : Reaches step start (ρ.state n) (ρ.history n) := by
  induction n with
  | zero =>
    rw [ρ.initial]
    exact .start
  | succ n ih =>
    have longer : ρ.history (n + 1) = ρ.history n ++ ρ.out n := by
      simp [history, List.range_succ]
    rw [longer]
    exact ih.next trivial (ρ.next n)

/-- The run after a moment, until a later one. -/
theorem reaches_between {n m : Nat} (later : n ≤ m) :
    ∃ trace, Reaches step (ρ.state n) (ρ.state m) trace := by
  induction m, later using Nat.le_induction with
  | base => exact ⟨[], .start⟩
  | succ m later ih =>
    obtain ⟨trace, run⟩ := ih
    exact ⟨_, run.next trivial (ρ.next m)⟩

variable {ρ} {kind : α → Prop} {P Q : Nat → Prop}

/-- The rule of response: what lasts until `Q`, while an action that brings `Q`
about is enabled again and again, leads to `Q`. -/
theorem Fair.leadsTo (fair : ρ.Fair kind) (kept : ∀ n, P n → Q (n + 1) ∨ P (n + 1))
    (brings : ∀ n, P n → kind (ρ.action n) → Q (n + 1))
    (enabled : LeadsTo P fun n => Q n ∨ Enabled step kind (ρ.state n)) : LeadsTo P Q := by
  refine .of_never fun n holds never => ?_
  have lasts := kept_while kept holds never
  have recurs : Recurs fun m => Enabled step kind (ρ.state m) := by
    intro m
    obtain ⟨k, later, reached⟩ := enabled (max n m) (lasts _ (Nat.le_max_left n m))
    have after : n ≤ k := Nat.le_trans (Nat.le_max_left n m) later
    exact ⟨k, Nat.le_trans (Nat.le_max_right n m) later, reached.resolve_left (never k after)⟩
  obtain ⟨m, later, taken⟩ := fair recurs n
  exact never (m + 1) (Nat.le_succ_of_le later) (brings m (lasts m later) taken)

/-- The same with a rank that the actions of the kind lower and no other
raises, as long as `Q` is not reached. -/
theorem Fair.leadsTo_of_rank (rank : Nat → Nat) (fair : ρ.Fair kind)
    (kept : ∀ n, P n → Q (n + 1) ∨ P (n + 1) ∧ rank (n + 1) ≤ rank n)
    (lowers : ∀ n, P n → kind (ρ.action n) → Q (n + 1) ∨ rank (n + 1) < rank n)
    (enabled : LeadsTo P fun n => Q n ∨ Enabled step kind (ρ.state n)) : LeadsTo P Q := by
  refine .of_never fun n holds never => ?_
  have next (m : Nat) (later : n ≤ m) : ¬ Q (m + 1) := never (m + 1) (Nat.le_succ_of_le later)
  have lasts := kept_while (fun n holds => (kept n holds).imp_right And.left) holds never
  obtain ⟨k, after, constant⟩ := constant_in_the_end rank fun m later =>
    ((kept m (lasts m later)).resolve_left (next m later)).2
  have leads : LeadsTo (fun m => n ≤ m ∧ k ≤ m ∧ P m) Q := by
    refine fair.leadsTo ?_ ?_ ?_
    · rintro m ⟨later, later', holds⟩
      exact .inr ⟨Nat.le_succ_of_le later, Nat.le_succ_of_le later', lasts _ (Nat.le_succ_of_le later)⟩
    · rintro m ⟨later, later', holds⟩ taken
      refine (lowers m holds taken).resolve_right fun less => ?_
      have same := constant m later'
      have same' := constant (m + 1) (Nat.le_succ_of_le later')
      omega
    · rintro m ⟨-, -, holds⟩
      exact enabled m holds
  obtain ⟨m, later, reached⟩ := leads k ⟨after, Nat.le_refl k, lasts k after⟩
  exact never m (Nat.le_trans after later) reached

/-! ## Runs with a known beginning -/

/-- One step, and then a run that never ends. -/
def cons {s : σ} {a : α} {out : List ε} (stepped : step start a = some (s, out))
    (ρ : Endless step s) : Endless step start where
  state | 0 => start | n + 1 => ρ.state n
  action | 0 => a | n + 1 => ρ.action n
  out | 0 => out | n + 1 => ρ.out n
  initial := rfl
  next
    | 0 => by simpa only [ρ.initial] using stepped
    | n + 1 => ρ.next n

/-- The run is `rest` from the moment `k` on. -/
def EndsWith {s : σ} (ρ : Endless step start) (k : Nat) (rest : Endless step s) : Prop :=
  ∀ n, ρ.state (k + n) = rest.state n ∧ ρ.action (k + n) = rest.action n ∧
    ρ.out (k + n) = rest.out n

/-- A computed execution, and then a run that never ends. -/
theorem exists_endsWith {s : σ} {actions : List α} {trace : List ε}
    (ran : exec step start actions = some (s, trace)) (rest : Endless step s) :
    ∃ ρ : Endless step start, ρ.EndsWith actions.length rest ∧ ρ.history actions.length = trace := by
  induction actions generalizing start trace with
  | nil =>
    cases ran
    exact ⟨rest, fun n => by simp, rfl⟩
  | cons a actions ih =>
    obtain ⟨⟨s', out⟩, stepped, more⟩ := Option.bind_eq_some_iff.mp ran
    obtain ⟨⟨t, later⟩, rested, final⟩ := Option.map_eq_some_iff.mp more
    cases final
    obtain ⟨ρ, ends, past⟩ := ih rested
    refine ⟨cons stepped ρ, fun n => ?_, ?_⟩
    · rw [List.length_cons, Nat.add_right_comm]
      exact ends n
    · rw [List.length_cons, history, List.range_succ_eq_map, List.flatMap_cons, List.flatMap_map]
      exact congrArg (out ++ ·) past

/-- What happened in the computed part happened at some moment. -/
theorem exists_out {n : Nat} {e : ε} (member : e ∈ ρ.history n) : ∃ m, m < n ∧ e ∈ ρ.out m := by
  obtain ⟨m, inside, emitted⟩ := List.mem_flatMap.mp member
  exact ⟨m, List.mem_range.mp inside, emitted⟩

section Ends

variable {s : σ} {rest : Endless step s} {k : Nat}

/-- What is always so in the end. -/
theorem EndsWith.all (ends : ρ.EndsWith k rest) {R : σ → α → List ε → Prop}
    (all : ∀ n, R (rest.state n) (rest.action n) (rest.out n)) {n : Nat} (late : k ≤ n) :
    R (ρ.state n) (ρ.action n) (ρ.out n) := by
  obtain ⟨m, rfl⟩ := Nat.exists_eq_add_of_le late
  obtain ⟨state, action, out⟩ := ends m
  rw [state, action, out]
  exact all m

theorem EndsWith.recurs (ends : ρ.EndsWith k rest) {R : σ → α → Prop}
    (recurs : Recurs fun n => R (rest.state n) (rest.action n)) :
    Recurs fun n => R (ρ.state n) (ρ.action n) := by
  intro n
  obtain ⟨m, later, holds⟩ := recurs n
  obtain ⟨state, action, -⟩ := ends m
  exact ⟨k + m, Nat.le_trans later (Nat.le_add_left m k), by simpa only [state, action] using holds⟩

/-- A kind of action that recurs is treated fairly. -/
theorem EndsWith.fair (ends : ρ.EndsWith k rest) (recurs : Recurs fun n => kind (rest.action n)) :
    ρ.Fair kind :=
  fun _ => ends.recurs (R := fun _ a => kind a) recurs

/-- So is one that is never enabled in the end. -/
theorem EndsWith.fair_of_disabled (ends : ρ.EndsWith k rest)
    (disabled : ∀ n, ¬ Enabled step kind (rest.state n)) : ρ.Fair kind := by
  intro enabled
  obtain ⟨n, late, may⟩ := enabled k
  exact absurd may (ends.all (R := fun s _ _ => ¬ Enabled step kind s) disabled late)

end Ends
end Endless
end TraceMachine
