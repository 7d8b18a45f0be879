import LinearFcgi.Library.Fifo

/-! A queue with a doorbell: the producer pushes a value and then rings, and
however often it has rung, the consumer is woken once and takes what it finds
until nothing is left. Nothing stays inside unnoticed, since a push is always
followed by a ring of its own. -/
namespace Doorbell

open TraceMachine

variable {T : Type*}

/-- `rung` is the signal on its way, `awake` the consumer between being woken
and finding the queue empty, `ringing` the producer between a push and its ring. -/
structure State (T : Type*) where
  queue : List T
  rung : Bool
  awake : Bool
  ringing : Bool

inductive Action (T : Type*) where
  | push (t : T)
  | ring
  | wake
  | take
  | rest

def quiet : State T := ⟨[], false, false, false⟩

def step : Step (State T) (Action T) (Fifo.Event T)
  | s, .push t =>
    if s.ringing then none
    else some ({ s with queue := Fifo.push s.queue t, ringing := true }, [.pushed t])
  | s, .ring => if s.ringing then some ({ s with rung := true, ringing := false }, []) else none
  | s, .wake =>
    if s.rung ∧ s.awake = false then some ({ s with rung := false, awake := true }, []) else none
  | s, .take => match Fifo.pop s.queue with
    | some (t, rest) =>
      if s.awake then some ({ s with queue := rest }, [.popped t]) else none
    | none => none
  | s, .rest => if s.awake ∧ s.queue = [] then some ({ s with awake := false }, []) else none

/-- Whatever is in the queue will be found. -/
def Noticed (s : State T) : Prop :=
  s.queue ≠ [] → s.rung = true ∨ s.awake = true ∨ s.ringing = true

/-- Every step leaves a reason to look into the queue, or nothing in it. -/
theorem noticed_of_step {s s' : State T} {a : Action T} {out : List (Fifo.Event T)}
    (stepped : step s a = some (s', out)) : Noticed s' := by
  cases a with
  | push t =>
    simp only [step] at stepped
    split at stepped <;> cases stepped
    exact fun _ => .inr (.inr rfl)
  | ring =>
    simp only [step] at stepped
    split at stepped <;> cases stepped
    exact fun _ => .inl rfl
  | wake =>
    simp only [step] at stepped
    split at stepped <;> cases stepped
    exact fun _ => .inr (.inl rfl)
  | take =>
    simp only [step] at stepped
    split at stepped
    · split at stepped <;> cases stepped
      rename_i awake
      exact fun _ => .inr (.inl awake)
    · cases stepped
  | rest =>
    simp only [step] at stepped
    split at stepped <;> cases stepped
    rename_i empty
    exact fun held => absurd empty.2 held

theorem noticed_of_run {guard : State T → Action T → Prop} {s : State T}
    {trace : List (Fifo.Event T)} (run : Run step guard quiet s trace) : Noticed s := by
  cases run with
  | start => exact fun held => absurd rfl held
  | next _ _ stepped => exact noticed_of_step stepped

/-- Less its bell, it is a queue. -/
theorem simulates_fifo :
    Simulation step always Fifo.step always (some : Fifo.Event T → _) (fun s q => s.queue = q) where
  follow s q a s' out related _ stepped := by
    subst related
    cases a with
    | push t =>
      simp only [step] at stepped
      split at stepped <;> cases stepped
      exact ⟨_, rfl, .inr ⟨.push t, trivial, rfl⟩⟩
    | ring | wake | rest =>
      simp only [step] at stepped
      split at stepped <;> cases stepped
      exact ⟨_, rfl, .inl ⟨rfl, rfl⟩⟩
    | take =>
      simp only [step] at stepped
      split at stepped
      · rename_i t rest popped
        split at stepped <;> cases stepped
        exact ⟨_, rfl, .inr ⟨.pop, trivial, by simp [Fifo.step, popped]⟩⟩
      · cases stepped

/-- What was pushed is what was taken, in order, followed by what is inside. -/
theorem conserved {s : State T} {trace : List (Fifo.Event T)} (run : Reaches step quiet s trace) :
    Fifo.pushed trace = Fifo.popped trace ++ s.queue := by
  obtain ⟨q, rfl, lived⟩ := simulates_fifo.run rfl run
  rw [List.filterMap_some] at lived
  exact Fifo.conserved lived

end Doorbell
