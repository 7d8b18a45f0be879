import LinearFcgi.Library.TraceMachine

/-! The queue two parties think they share: a list that one end is pushed to
and the other popped from. What a history pushed is always what it popped
followed by what is still inside. -/
namespace Fifo

open TraceMachine

variable {T : Type*}

def push (q : List T) (t : T) : List T := q ++ [t]

/-- The oldest value with the rest, or nothing when there is none. -/
def pop : List T → Option (T × List T)
  | [] => none
  | t :: rest => some (t, rest)

@[simp] theorem pop_nil : pop ([] : List T) = none := rfl
@[simp] theorem pop_cons (t : T) (q : List T) : pop (t :: q) = some (t, q) := rfl

theorem pop_eq_none {q : List T} : pop q = none ↔ q = [] := by cases q <;> simp

theorem pop_eq_some {q rest : List T} {t : T} : pop q = some (t, rest) ↔ q = t :: rest := by
  cases q <;> simp

inductive Op (T : Type*) where
  | push (t : T)
  | pop

/-- What a caller of the queue sees of each operation. -/
inductive Event (T : Type*) where
  | pushed (t : T)
  | popped (t : T)
  | empty
  deriving DecidableEq

/-- The abstract queue as a machine: each operation is one step. -/
def step : Step (List T) (Op T) (Event T)
  | q, .push t => some (push q t, [.pushed t])
  | q, .pop => match pop q with
    | none => some (q, [.empty])
    | some (t, rest) => some (rest, [.popped t])

def pushed (trace : List (Event T)) : List T :=
  trace.filterMap fun | .pushed t => some t | _ => none

def popped (trace : List (Event T)) : List T :=
  trace.filterMap fun | .popped t => some t | _ => none

@[simp] theorem pushed_append (a b : List (Event T)) : pushed (a ++ b) = pushed a ++ pushed b :=
  List.filterMap_append ..

@[simp] theorem popped_append (a b : List (Event T)) : popped (a ++ b) = popped a ++ popped b :=
  List.filterMap_append ..

/-- Nothing is lost, duplicated or reordered: the values pushed are those
popped, in order, followed by those still inside. -/
theorem conserved {q : List T} {trace : List (Event T)} (run : Reaches step [] q trace) :
    pushed trace = popped trace ++ q := by
  refine run.invariant (I := fun q trace => pushed trace = popped trace ++ q) rfl ?_
  intro q trace op q' out _ before _ stepped
  cases op with
  | push t =>
    cases stepped
    rw [pushed_append, popped_append, before]
    simp [push, pushed, popped]
  | pop =>
    cases q with
    | nil => cases stepped; simpa [pushed, popped] using before
    | cons t rest => cases stepped; simpa [pushed, popped] using before

/-- A pop finds nothing only when nothing is inside. -/
theorem empty_of_step {q q' : List T} {op : Op T} {out : List (Event T)}
    (stepped : step q op = some (q', out)) (refused : .empty ∈ out) : q = [] := by
  cases op with
  | push t => cases stepped; simp at refused
  | pop =>
    cases q with
    | nil => rfl
    | cons t rest => cases stepped; simp at refused

private theorem alone {x e : Event T} {before after : List (Event T)}
    (split : [x] = before ++ e :: after) : before = [] ∧ x = e := by
  cases before <;> simp_all

/-- What a pop returns is the oldest value inside, and one that fails finds
nothing inside: both can be told from the history before it. -/
theorem every_pop {q : List T} {trace : List (Event T)} (run : Reaches step [] q trace) :
    ∀ before e after, trace = before ++ e :: after →
      (∀ t, e = .popped t → ∃ rest, pushed before = popped before ++ t :: rest) ∧
      (e = .empty → pushed before = popped before) := by
  refine run.every (P := fun before e =>
    (∀ t, e = .popped t → ∃ rest, pushed before = popped before ++ t :: rest) ∧
    (e = .empty → pushed before = popped before)) ?_
  intro q trace op q' out run _ stepped before e after split
  have inside := conserved run
  cases op with
  | push t =>
    cases stepped
    obtain ⟨rfl, rfl⟩ := alone split
    exact ⟨nofun, nofun⟩
  | pop =>
    cases q with
    | nil =>
      cases stepped
      obtain ⟨rfl, rfl⟩ := alone split
      exact ⟨nofun, fun _ => by simpa using inside⟩
    | cons t rest =>
      cases stepped
      obtain ⟨rfl, rfl⟩ := alone split
      refine ⟨?_, nofun⟩
      rintro _ ⟨⟩
      exact ⟨_, by simpa using inside⟩

end Fifo
