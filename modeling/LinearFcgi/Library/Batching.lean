import Mathlib.Algebra.Ring.Nat
import Mathlib.Data.List.Basic

/-! Taking items from a queue until those taken weigh enough. The item that
tips the scales is taken with the others, and a queue that weighs too little is
taken whole; the queue may grow meanwhile. -/
namespace Batching

variable {T : Type*} {weigh : T → Nat} {enough : Nat} {queue more taken rest p : List T} {t : T}

/-- What the items weigh together. -/
def weight (weigh : T → Nat) (items : List T) : Nat := (items.map weigh).sum

/-- The shortest prefix of the queue that is not empty and weighs enough, or all
of a queue that has none. -/
structure IsBatch (weigh : T → Nat) (enough : Nat) (queue batch : List T) : Prop where
  isPrefix : batch <+: queue
  nonempty : queue ≠ [] → batch ≠ []
  short : ∀ p, p ≠ [] → p <+: batch → p ≠ batch → weight weigh p < enough
  full : enough ≤ weight weigh batch ∨ batch = queue

/-- Some items have been taken, and they do not weigh enough. -/
structure Taking (weigh : T → Nat) (enough : Nat) (queue taken : List T) : Prop where
  isPrefix : taken <+: queue
  light : taken = [] ∨ weight weigh taken < enough

@[simp] theorem weight_append (a b : List T) :
    weight weigh (a ++ b) = weight weigh a + weight weigh b := by
  simp [weight]

theorem weight_mono (shorter : p <+: taken) : weight weigh p ≤ weight weigh taken := by
  obtain ⟨rest, rfl⟩ := shorter
  rw [weight_append]
  exact Nat.le_add_right _ _

theorem Taking.start : Taking weigh enough queue [] := ⟨List.nil_prefix, .inl rfl⟩

theorem Taking.grow (taking : Taking weigh enough queue taken) :
    Taking weigh enough (queue ++ more) taken :=
  ⟨taking.isPrefix.trans (List.prefix_append _ _), taking.light⟩

/-- A proper prefix of what was taken up to an item was taken before it. -/
theorem prefix_of_proper (shorter : p <+: taken ++ [t]) (proper : p ≠ taken ++ [t]) :
    p <+: taken := by
  rcases List.prefix_concat_iff.mp shorter with same | earlier
  · exact absurd same proper
  · exact earlier

/-- One item more: the batch goes on, or it is complete. -/
theorem Taking.take (taking : Taking weigh enough queue taken)
    (here : taken ++ [t] <+: queue) :
    (weight weigh (taken ++ [t]) < enough → Taking weigh enough queue (taken ++ [t])) ∧
    (enough ≤ weight weigh (taken ++ [t]) → IsBatch weigh enough queue (taken ++ [t])) := by
  refine ⟨fun light => ⟨here, .inr light⟩, fun heavy => ⟨here, fun _ => by simp, ?_, .inl heavy⟩⟩
  intro p some_ shorter proper
  have earlier := prefix_of_proper shorter proper
  rcases taking.light with rfl | light
  · exact absurd (List.prefix_nil.mp earlier) some_
  · exact Nat.lt_of_le_of_lt (weight_mono earlier) light

/-- A queue that has been taken whole is its own batch. -/
theorem Taking.whole (taking : Taking weigh enough queue queue) :
    IsBatch weigh enough queue queue := by
  refine ⟨List.prefix_rfl, id, ?_, .inr rfl⟩
  intro p some_ shorter _
  rcases taking.light with rfl | light
  · exact absurd (List.prefix_nil.mp shorter) some_
  · exact Nat.lt_of_le_of_lt (weight_mono shorter) light

/-- A queue has one batch. -/
theorem IsBatch.unique {a b : List T} (isBatch : IsBatch weigh enough queue a)
    (isBatch' : IsBatch weigh enough queue b) : a = b := by
  have shorter {a b : List T} (isBatch : IsBatch weigh enough queue a)
      (isBatch' : IsBatch weigh enough queue b) (before : a <+: b) : a = b := by
    by_contra distinct
    have some_ : queue ≠ [] := by
      rintro rfl
      have left := List.prefix_nil.mp isBatch.isPrefix
      have right := List.prefix_nil.mp isBatch'.isPrefix
      exact distinct (left.trans right.symm)
    have light := isBatch'.short a (isBatch.nonempty some_) before distinct
    rcases isBatch.full with heavy | rfl
    · exact absurd light (Nat.not_lt.mpr heavy)
    · exact distinct (before.eq_of_length_le isBatch'.isPrefix.length_le)
  rcases List.prefix_or_prefix_of_prefix isBatch.isPrefix isBatch'.isPrefix with before | after
  · exact shorter isBatch isBatch' before
  · exact (shorter isBatch' isBatch after).symm

/-- Without its last item a batch is too light. -/
theorem IsBatch.weight_lt (isBatch : IsBatch weigh enough queue (taken ++ [t]))
    (positive : 0 < enough) : weight weigh (taken ++ [t]) < enough + weigh t := by
  have single : weight weigh [t] = weigh t := by simp [weight]
  rw [weight_append, single, Nat.add_lt_add_iff_right]
  by_cases blank : taken = []
  · rw [blank]
    exact positive
  · exact isBatch.short taken blank (List.prefix_append _ _) (by simp)

end Batching
