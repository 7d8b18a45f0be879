import Mathlib.Data.List.Nodup
import Mathlib.Data.List.Range
import LinearFcgi.Queue

/-! The shared queue loses nothing, reorders nothing and never touches a freed
node, whatever the interleaving. The invariant is a reading of the list in
three parts: nodes already consumed from `first` up to `divider`, published
nodes from there up to `last`, and at most one node linked but not yet
published. Each micro-step of either party moves one boundary between them. -/
namespace LinearFcgi.Queue

open TraceMachine

variable {T : Type}

/-- The nodes hold exactly these values, each linking to the one after it. -/
def Linked (nodes : Addr → Option (Node T)) : List (Addr × T) → Prop
  | [] => True
  | (a, t) :: rest => nodes a = some ⟨t, rest.head?.map Prod.fst⟩ ∧ Linked nodes rest

theorem Linked.suffix {nodes : Addr → Option (Node T)} {l l' : List (Addr × T)}
    (linked : Linked nodes (l ++ l')) : Linked nodes l' := by
  induction l with
  | nil => exact linked
  | cons x l ih => exact ih linked.2

theorem Linked.at {nodes : Addr → Option (Node T)} {l l' : List (Addr × T)} {a : Addr} {t : T}
    (linked : Linked nodes (l ++ (a, t) :: l')) :
    nodes a = some ⟨t, l'.head?.map Prod.fst⟩ := linked.suffix.1

theorem Linked.congr {nodes nodes' : Addr → Option (Node T)} {l : List (Addr × T)}
    (linked : Linked nodes l) (same : ∀ x ∈ l, nodes' x.1 = nodes x.1) : Linked nodes' l := by
  induction l with
  | nil => trivial
  | cons x l ih =>
    refine ⟨(same x List.mem_cons_self).trans linked.1, ih linked.2 fun y hy => ?_⟩
    exact same y (List.mem_cons_of_mem _ hy)

/-- Linking a new node behind the last one extends the list by it. -/
theorem Linked.snoc {nodes : Addr → Option (Node T)} {l : List (Addr × T)} {a b : Addr} {t u : T}
    (linked : Linked nodes (l ++ [(a, t)])) (distinct : ((l ++ [(a, t)]).map Prod.fst).Nodup)
    (fresh : ∀ x ∈ l ++ [(a, t)], x.1 ≠ b) :
    Linked (Function.update (Function.update nodes b (some ⟨u, none⟩)) a (some ⟨t, some b⟩))
      (l ++ [(a, t), (b, u)]) := by
  have other : a ≠ b := fresh (a, t) (by simp)
  induction l with
  | nil => simp [Linked, other.symm]
  | cons x l ih =>
    simp only [List.cons_append, List.map_cons, List.nodup_cons] at distinct
    have notLast : x.1 ≠ a := fun same => distinct.1 (by simp [same])
    have notNew : x.1 ≠ b := fresh x (by simp)
    refine ⟨?_, ih linked.2 distinct.2 fun y hy => fresh y (List.mem_cons_of_mem _ hy)⟩
    have held := linked.1
    cases l <;> simpa [Function.update_of_ne, notLast, notNew] using held

/-- The list read in three parts around the node `divider` names. -/
structure Rep (q : Queue T) (old : List (Addr × T)) (d : T) (pub new : List (Addr × T)) : Prop where
  linked : Linked q.nodes (old ++ (q.divider, d) :: (pub ++ new))
  distinct : ((old ++ (q.divider, d) :: (pub ++ new)).map Prod.fst).Nodup
  bounded : ∀ x ∈ old ++ (q.divider, d) :: (pub ++ new), x.1 < q.fresh
  first : ∃ t rest, old ++ [(q.divider, d)] = (q.first, t) :: rest
  last : ∃ t rest, (q.divider, d) :: pub = rest ++ [(q.last, t)]
  producing : match q.producer with
    | .publish t => ∃ a, new = [(a, t)]
    | .free => new = [] ∧ old ≠ []
    | _ => new = []
  consuming : match q.consumer with
    | .idle => True
    | .copy => pub ≠ []
    | .advance t => pub.head?.map Prod.snd = some t
  sound : q.fault = false

/-- The abstract queue a concrete one stands for: the published values. -/
def Holds (q : Queue T) (contents : List T) : Prop :=
  ∃ old d pub new, Rep q old d pub new ∧ pub.map Prod.snd = contents

theorem new_holds (t : T) : Holds (new t) [] :=
  ⟨[], t, [], [], ⟨by simp [Linked, new], by simp, by simp [new], ⟨t, [], rfl⟩, ⟨t, [], rfl⟩,
    rfl, trivial, rfl⟩, rfl⟩

section Rep

variable {q : Queue T} {old pub new : List (Addr × T)} {d : T}

/-- The published part is empty exactly when the pointers that bound it meet. -/
theorem Rep.drained (rep : Rep q old d pub new) : q.divider = q.last ↔ pub = [] := by
  obtain ⟨t, rest, shape⟩ := rep.last
  constructor
  · intro same
    cases rest with
    | nil => exact (List.cons.inj shape).2
    | cons x rest =>
      obtain ⟨rfl, tail⟩ := List.cons.inj shape
      have distinct := rep.distinct
      simp only [tail, same, List.map_append, List.map_cons, List.nodup_append,
        List.nodup_cons] at distinct
      exact absurd (by simp) distinct.2.1.1
  · rintro rfl
    cases rest with
    | nil => simpa using congrArg (List.map Prod.fst) shape
    | cons x rest => simp at shape

/-- The node `last` names ends the list while nothing unpublished follows it. -/
theorem Rep.tail (rep : Rep q old d pub []) :
    ∃ t rest, old ++ (q.divider, d) :: pub = rest ++ [(q.last, t)] ∧
      q.nodes q.last = some ⟨t, none⟩ := by
  obtain ⟨t, rest, shape⟩ := rep.last
  have linked := rep.linked
  rw [List.append_nil, shape, ← List.append_assoc] at linked
  exact ⟨t, old ++ rest, by rw [shape, List.append_assoc], linked.at⟩

theorem Rep.link (rep : Rep q old d pub new) {t : T} (at_ : q.producer = .link t) :
    ∃ n, q.nodes q.last = some n ∧ Rep { q with
      nodes := Function.update (Function.update q.nodes q.fresh (some ⟨t, none⟩)) q.last
        (some { n with next := some q.fresh })
      fresh := q.fresh + 1, producer := .publish t } old d pub [(q.fresh, t)] := by
  obtain rfl : new = [] := by simpa [at_] using rep.producing
  obtain ⟨v, rest, shape, held⟩ := rep.tail
  have linked := rep.linked
  have distinct := rep.distinct
  have bounded := rep.bounded
  simp only [List.append_nil, shape] at linked distinct bounded
  have new : ∀ x ∈ rest ++ [(q.last, v)], x.1 ≠ q.fresh := fun x hx => (bounded x hx).ne
  have grown : old ++ (q.divider, d) :: (pub ++ [(q.fresh, t)]) =
      rest ++ [(q.last, v), (q.fresh, t)] := by
    simpa using congrArg (· ++ [(q.fresh, t)]) shape
  refine ⟨_, held, ⟨?_, ?_, ?_, rep.first, rep.last, ⟨_, rfl⟩, rep.consuming, rep.sound⟩⟩
  · rw [grown]
    exact linked.snoc distinct new
  · have split : rest ++ [(q.last, v), (q.fresh, t)] =
        (rest ++ [(q.last, v)]) ++ [(q.fresh, t)] := by simp
    rw [grown, split, List.map_append, List.nodup_append]
    refine ⟨distinct, by simp, fun a member b last => ?_⟩
    obtain ⟨x, inside, rfl⟩ := List.mem_map.mp member
    simp only [List.map_cons, List.map_nil, List.mem_singleton] at last
    exact last ▸ new x inside
  · rw [grown]
    intro x hx
    simp only [List.mem_append, List.mem_cons, List.not_mem_nil, or_false] at hx bounded
    rcases hx with inside | rfl | rfl
    · exact Nat.lt_succ_of_lt (bounded x (.inl inside))
    · exact Nat.lt_succ_of_lt (bounded _ (.inr rfl))
    · exact Nat.lt_succ_self _

theorem Rep.publish (rep : Rep q old d pub new) {t : T} (at_ : q.producer = .publish t) :
    ∃ a, q.next q.last = some a ∧
      Rep { q with last := a, producer := .reclaim } old d (pub ++ [(a, t)]) [] := by
  obtain ⟨a, rfl⟩ : ∃ a, new = [(a, t)] := by simpa [at_] using rep.producing
  obtain ⟨v, rest, shape⟩ := rep.last
  have linked := rep.linked
  have split : old ++ (q.divider, d) :: (pub ++ [(a, t)]) =
      (old ++ rest) ++ (q.last, v) :: [(a, t)] := by
    rw [← List.cons_append, shape]; simp
  have held : q.nodes q.last = some ⟨v, some a⟩ := (split ▸ linked).at
  refine ⟨a, by simp [next, held], ⟨?_, ?_, ?_, rep.first, ?_, rfl, ?_, rep.sound⟩⟩
  · simpa using rep.linked
  · simpa using rep.distinct
  · simpa using rep.bounded
  · exact ⟨t, (q.divider, d) :: pub, rfl⟩
  · have consuming := rep.consuming
    cases at' : q.consumer with
    | idle => trivial
    | copy => simp
    | advance r =>
      simp only [at'] at consuming ⊢
      cases pub with
      | nil => simp at consuming
      | cons x pub => simpa using consuming

theorem Rep.reclaim (rep : Rep q old d pub new) (at_ : q.producer = .reclaim) :
    Rep { q with producer := if q.first ≠ q.divider then .free else .idle } old d pub new := by
  have unlinked : new = [] := by simpa [at_] using rep.producing
  refine ⟨rep.linked, rep.distinct, rep.bounded, rep.first, rep.last, ?_, rep.consuming, rep.sound⟩
  split <;> rename_i producer
  · simp at producer
    split at producer <;> cases producer
  · refine ⟨unlinked, ?_⟩
    rintro rfl
    obtain ⟨t, rest, shape⟩ := rep.first
    have same : q.divider = q.first := by simpa using congrArg (List.map Prod.fst) shape |> List.cons.inj |>.1
    simp [same] at producer
  · exact unlinked

theorem Rep.free (rep : Rep q old d pub new) (at_ : q.producer = .free) :
    ∃ a old', q.next q.first = some a ∧ Rep { q with
      nodes := Function.update q.nodes q.first none
      first := a, producer := .reclaim } old' d pub new := by
  obtain ⟨unlinked, behind⟩ : new = [] ∧ old ≠ [] := by simpa [at_] using rep.producing
  obtain ⟨t, rest, shape⟩ := rep.first
  cases old with
  | nil => exact absurd rfl behind
  | cons x old =>
    obtain ⟨rfl, -⟩ := List.cons.inj shape
    obtain ⟨held, linked⟩ := rep.linked
    have distinct := rep.distinct
    simp only [List.cons_append, List.map_cons, List.nodup_cons] at distinct
    obtain ⟨⟨a, v⟩, rest', head⟩ : ∃ y rest', old ++ [(q.divider, d)] = y :: rest' := by
      cases old <;> simp
    have onward : old ++ (q.divider, d) :: (pub ++ new) = (a, v) :: (rest' ++ (pub ++ new)) := by
      simpa using congrArg (· ++ (pub ++ new)) head
    have kept : Linked (Function.update q.nodes q.first none)
        (old ++ (q.divider, d) :: (pub ++ new)) := by
      refine Linked.congr linked fun x hx => Function.update_of_ne ?_ _ _
      intro same
      exact distinct.1 (same ▸ List.mem_map_of_mem hx)
    simp only [List.append_eq, onward] at held
    refine ⟨a, old, by simp [next, held], ⟨kept, distinct.2, ?_, ⟨v, rest', head⟩, rep.last,
      unlinked, rep.consuming, rep.sound⟩⟩
    exact fun y hy => rep.bounded y (List.mem_cons_of_mem _ hy)

theorem Rep.consume (rep : Rep q old d pub new) (more : q.divider ≠ q.last) :
    Rep { q with consumer := .copy } old d pub new :=
  ⟨rep.linked, rep.distinct, rep.bounded, rep.first, rep.last, rep.producing,
    fun drained => more (rep.drained.mpr drained), rep.sound⟩

/-- While anything is published, the node after `divider` is its oldest. -/
theorem Rep.oldest {x : Addr × T} (rep : Rep q old d (x :: pub) new) :
    q.next q.divider = some x.1 ∧
      q.nodes x.1 = some ⟨x.2, (pub ++ new).head?.map Prod.fst⟩ := by
  have held := rep.linked.at
  have split : old ++ (q.divider, d) :: (x :: pub ++ new) =
      (old ++ [(q.divider, d)]) ++ x :: (pub ++ new) := by simp
  refine ⟨by simp [next, held], ?_⟩
  have linked := rep.linked
  rw [split] at linked
  exact linked.at

theorem Rep.copy (rep : Rep q old d pub new) (at_ : q.consumer = .copy) :
    ∃ n, (q.next q.divider).bind q.nodes = some n ∧
      Rep { q with consumer := .advance n.value } old d pub new := by
  have more : pub ≠ [] := by simpa [at_] using rep.consuming
  cases pub with
  | nil => exact absurd rfl more
  | cons x pub =>
    obtain ⟨after, held⟩ := rep.oldest
    refine ⟨_, by rw [after]; exact held, ?_⟩
    exact ⟨rep.linked, rep.distinct, rep.bounded, rep.first, rep.last, rep.producing, rfl,
      rep.sound⟩

theorem Rep.advance (rep : Rep q old d pub new) {t : T} (at_ : q.consumer = .advance t) :
    ∃ a pub', pub = (a, t) :: pub' ∧ q.next q.divider = some a ∧
      Rep { q with divider := a, consumer := .idle } (old ++ [(q.divider, d)]) t pub' new := by
  have head : pub.head?.map Prod.snd = some t := by simpa [at_] using rep.consuming
  cases pub with
  | nil => simp at head
  | cons x pub =>
    obtain ⟨a, v⟩ := x
    obtain rfl : v = t := by simpa using head
    have moved : (old ++ [(q.divider, d)]) ++ (a, v) :: (pub ++ new) =
        old ++ (q.divider, d) :: ((a, v) :: pub ++ new) := by simp
    refine ⟨a, pub, rfl, rep.oldest.1, ⟨?_, ?_, ?_, ?_, ?_, ?_, trivial, rep.sound⟩⟩
    · rw [moved]; exact rep.linked
    · rw [moved]; exact rep.distinct
    · rw [moved]; exact rep.bounded
    · obtain ⟨t, rest, shape⟩ := rep.first
      exact ⟨t, rest ++ [(a, v)], by rw [shape]; rfl⟩
    · obtain ⟨t, rest, shape⟩ := rep.last
      cases rest with
      | nil => simp at shape
      | cons y rest => exact ⟨t, rest, (List.cons.inj shape).2⟩
    · have producing := rep.producing
      cases at' : q.producer <;> simp_all

end Rep

/-! ## Refinement of the abstract queue -/

private theorem producer_refines {q q' : Queue T} {contents : List T} {out : List (Event T)}
    (holds : Holds q contents) (stepped : q.producerStep = some (q', out)) :
    ∃ contents', Holds q' contents' ∧
      (contents' = contents ∧ out.filterMap observe = [] ∨
        ∃ op, always contents op ∧ Fifo.step contents op = some (contents', out.filterMap observe)) := by
  obtain ⟨old, d, pub, new, rep, rfl⟩ := holds
  unfold producerStep at stepped
  cases at_ : q.producer with
  | idle => simp [at_] at stepped
  | link t =>
    obtain ⟨n, held, rep'⟩ := rep.link at_
    simp only [at_, held, Option.some.injEq, Prod.mk.injEq] at stepped
    obtain ⟨rfl, rfl⟩ := stepped
    exact ⟨_, ⟨_, _, _, _, rep', rfl⟩, .inl ⟨rfl, rfl⟩⟩
  | publish t =>
    obtain ⟨a, linked, rep'⟩ := rep.publish at_
    simp only [at_, linked, Option.some.injEq, Prod.mk.injEq] at stepped
    obtain ⟨rfl, rfl⟩ := stepped
    refine ⟨_, ⟨_, _, _, _, rep', rfl⟩, .inr ⟨.push t, trivial, ?_⟩⟩
    simp [Fifo.step, Fifo.push, observe]
  | reclaim =>
    have rep' := rep.reclaim at_
    simp only [at_, Option.some.injEq, Prod.mk.injEq] at stepped
    obtain ⟨rfl, rfl⟩ := stepped
    exact ⟨_, ⟨_, _, _, _, rep', rfl⟩, .inl ⟨rfl, rfl⟩⟩
  | free =>
    obtain ⟨a, old', linked, rep'⟩ := rep.free at_
    simp only [at_, linked, Option.some.injEq, Prod.mk.injEq] at stepped
    obtain ⟨rfl, rfl⟩ := stepped
    exact ⟨_, ⟨_, _, _, _, rep', rfl⟩, .inl ⟨rfl, by simp [observe]⟩⟩

private theorem consumer_refines {q q' : Queue T} {contents : List T} {out : List (Event T)}
    (holds : Holds q contents) (stepped : q.consumerStep = some (q', out)) :
    ∃ contents', Holds q' contents' ∧
      (contents' = contents ∧ out.filterMap observe = [] ∨
        ∃ op, always contents op ∧ Fifo.step contents op = some (contents', out.filterMap observe)) := by
  obtain ⟨old, d, pub, new, rep, rfl⟩ := holds
  unfold consumerStep at stepped
  cases at_ : q.consumer with
  | idle => simp [at_] at stepped
  | copy =>
    obtain ⟨n, held, rep'⟩ := rep.copy at_
    simp only [at_, held, Option.some.injEq, Prod.mk.injEq] at stepped
    obtain ⟨rfl, rfl⟩ := stepped
    exact ⟨_, ⟨_, _, _, _, rep', rfl⟩, .inl ⟨rfl, rfl⟩⟩
  | advance t =>
    obtain ⟨a, pub', rfl, linked, rep'⟩ := rep.advance at_
    simp only [at_, linked, Option.some.injEq, Prod.mk.injEq] at stepped
    obtain ⟨rfl, rfl⟩ := stepped
    refine ⟨_, ⟨_, _, _, _, rep', rfl⟩, .inr ⟨.pop, trivial, ?_⟩⟩
    simp [Fifo.step, observe]

/-- The linked list implements the abstract queue: a value enters it when
`last` moves over its node and leaves it when `divider` does, and every other
micro-step is invisible. -/
theorem refines : Simulation (step (T := T)) always Fifo.step always observe Holds where
  follow q contents a q' out holds _ stepped := by
    obtain ⟨old, d, pub, new, rep, rfl⟩ := id holds
    have running : ¬ q.fault = true := by simp [rep.sound]
    simp only [step, if_neg running] at stepped
    cases a with
    | produce t =>
      cases at_ : q.producer <;> simp only [at_, reduceCtorEq, Option.some.injEq, Prod.mk.injEq] at stepped
      obtain ⟨rfl, rfl⟩ := stepped
      have unlinked : new = [] := by simpa [at_] using rep.producing
      exact ⟨_, ⟨_, _, _, _, ⟨rep.linked, rep.distinct, rep.bounded, rep.first, rep.last, unlinked,
        rep.consuming, rep.sound⟩, rfl⟩, .inl ⟨rfl, rfl⟩⟩
    | producer => exact producer_refines holds stepped
    | consume =>
      cases at_ : q.consumer <;> simp only [at_, reduceCtorEq] at stepped
      split at stepped
      · rename_i more
        cases stepped
        exact ⟨_, ⟨_, _, _, _, rep.consume more, rfl⟩, .inl ⟨rfl, rfl⟩⟩
      · rename_i same
        cases stepped
        obtain rfl := rep.drained.mp (not_not.mp same)
        exact ⟨[], holds, .inr ⟨.pop, trivial, rfl⟩⟩
    | consumer => exact consumer_refines holds stepped

theorem pushed_observe (trace : List (Event T)) :
    Fifo.pushed (trace.filterMap observe) = produced trace := by
  rw [Fifo.pushed, produced, List.filterMap_filterMap]
  congr 1
  funext e
  cases e <;> rfl

theorem popped_observe (trace : List (Event T)) :
    Fifo.popped (trace.filterMap observe) = consumed trace := by
  rw [Fifo.popped, consumed, List.filterMap_filterMap]
  congr 1
  funext e
  cases e <;> rfl

/-- In every state reached from an empty queue, the values published so far
are those consumed, in order, followed by those the list still holds. -/
theorem reaches_holds {t : T} {q : Queue T} {trace : List (Event T)}
    (run : Reaches step (new t) q trace) :
    ∃ contents, Holds q contents ∧ produced trace = consumed trace ++ contents := by
  obtain ⟨contents, holds, abstract⟩ := refines.run (new_holds t) run
  refine ⟨contents, holds, ?_⟩
  rw [← pushed_observe, ← popped_observe]
  exact Fifo.conserved abstract

/-! ## Nodes are freed once -/

/-- The nodes freed so far are different ones, and out of the list for good:
an address is never handed out again. -/
structure Reclaimed (q : Queue T) (gone : List Addr) : Prop where
  distinct : gone.Nodup
  away : ∀ x ∈ gone, x < q.fresh ∧ q.nodes x = none
  unused : ∀ x, q.fresh ≤ x → q.nodes x = none

section Reclaimed

variable {q q' : Queue T} {gone : List Addr} {out : List (Event T)}

private theorem Reclaimed.same (reclaimed : Reclaimed q gone) (nodes : q'.nodes = q.nodes)
    (fresh : q'.fresh = q.fresh) : Reclaimed q' (gone ++ freed ([] : List (Event T))) := by
  rw [freed, List.filterMap_nil, List.append_nil]
  exact ⟨reclaimed.distinct, by rw [nodes, fresh]; exact reclaimed.away,
    by rw [nodes, fresh]; exact reclaimed.unused⟩

private theorem Reclaimed.producer (reclaimed : Reclaimed q gone)
    (stepped : q.producerStep = some (q', out)) : Reclaimed q' (gone ++ freed out) := by
  simp only [producerStep, crash] at stepped
  split at stepped
  · cases stepped
  · split at stepped
    · cases stepped; exact reclaimed.same rfl rfl
    · rename_i n held
      cases stepped
      have below : q.last < q.fresh := by
        by_contra above
        simp [reclaimed.unused q.last (not_lt.mp above)] at held
      rw [freed, List.filterMap_nil, List.append_nil]
      refine ⟨reclaimed.distinct, fun x hx => ?_, fun x hx => ?_⟩
      · obtain ⟨old, gone⟩ := reclaimed.away x hx
        have notLast : x ≠ q.last := fun same => by simp [← same, gone] at held
        exact ⟨Nat.lt_succ_of_lt old, by simp [Function.update_of_ne, notLast, old.ne, gone]⟩
      · have above : q.fresh < x := Nat.lt_of_succ_le hx
        dsimp only
        rw [Function.update_of_ne (below.trans above).ne', Function.update_of_ne above.ne']
        exact reclaimed.unused x above.le
  · split at stepped
    · cases stepped; exact reclaimed.same rfl rfl
    · cases stepped; exact reclaimed.same rfl rfl
  · cases stepped; exact reclaimed.same rfl rfl
  · split at stepped
    · cases stepped; exact reclaimed.same rfl rfl
    · rename_i a linked
      cases stepped
      have held : q.nodes q.first ≠ none := fun gone => by simp [next, gone] at linked
      have below : q.first < q.fresh := by
        by_contra above
        exact held (reclaimed.unused q.first (not_lt.mp above))
      have absent : q.first ∉ gone := fun inside => held (reclaimed.away _ inside).2
      have away : ∀ x, q.nodes x = none → Function.update q.nodes q.first none x = none := by
        intro x hx
        by_cases same : x = q.first <;> simp [same, hx]
      refine ⟨List.nodup_append.mpr ⟨reclaimed.distinct, by simp [freed], ?_⟩, fun x hx => ?_,
        fun x hx => away x (reclaimed.unused x hx)⟩
      · intro x inside y last same
        simp only [freed, List.filterMap_cons, List.filterMap_nil, List.mem_singleton] at last
        exact absent (last ▸ same ▸ inside)
      · rcases List.mem_append.mp hx with inside | last
        · exact ⟨(reclaimed.away x inside).1, away x (reclaimed.away x inside).2⟩
        · obtain rfl : x = q.first := by simpa [freed] using last
          exact ⟨below, Function.update_self ..⟩

private theorem Reclaimed.step {a : Action T} (reclaimed : Reclaimed q gone)
    (stepped : step q a = some (q', out)) : Reclaimed q' (gone ++ freed out) := by
  unfold Queue.step at stepped
  split at stepped
  · cases stepped
  cases a with
  | produce t =>
    dsimp only at stepped
    split at stepped
    · cases stepped; exact reclaimed.same rfl rfl
    · cases stepped
  | producer => exact reclaimed.producer stepped
  | consume =>
    dsimp only at stepped
    split at stepped
    · split at stepped <;> (cases stepped; exact reclaimed.same rfl rfl)
    · cases stepped
  | consumer =>
    simp only [consumerStep, crash] at stepped
    split at stepped
    · cases stepped
    · split at stepped <;> (cases stepped; exact reclaimed.same rfl rfl)
    · split at stepped <;> (cases stepped; exact reclaimed.same rfl rfl)

end Reclaimed

/-- No node is deleted twice in any run. -/
theorem freed_once {t : T} {q : Queue T} {trace : List (Event T)}
    (run : Reaches step (new t) q trace) : (freed trace).Nodup := by
  refine (run.invariant (I := fun q trace => Reclaimed q (freed trace)) ?_ ?_).distinct
  · refine ⟨List.nodup_nil, by simp [freed], fun x hx => ?_⟩
    have away : x ≠ 0 := Nat.ne_of_gt hx
    simp [new, Function.update_of_ne, away]
  · intro q trace a q' out _ before _ stepped
    rw [freed, List.filterMap_append]
    exact before.step stepped

/-! ## Counting -/

/-- The loop of `size()` counts the nodes still linked, given a round for each. -/
theorem sizeFrom_linked {q : Queue T} {l : List (Addr × T)} {fuel : Nat}
    (linked : Linked q.nodes l) (enough : l.length ≤ fuel) :
    q.sizeFrom fuel (l.head?.map Prod.fst) = some l.length := by
  induction l generalizing fuel with
  | nil => cases fuel <;> rfl
  | cons x l ih =>
    cases fuel with
    | zero => simp at enough
    | succ fuel =>
      obtain ⟨held, linked⟩ := linked
      simp only [List.head?_cons, Option.map_some, sizeFrom, held, Option.bind_some,
        List.length_cons]
      rw [ih linked (Nat.le_of_succ_le_succ enough)]
      rfl

/-- Between operations `size()` is the number of published values still
inside, and `empty()` is whether that is zero. -/
theorem size_holds {q : Queue T} {contents : List T} (holds : Holds q contents)
    (producer : q.producer = .idle) :
    q.size = some contents.length ∧ (q.empty = true ↔ contents.length = 0) := by
  obtain ⟨old, d, pub, new, rep, rfl⟩ := holds
  obtain rfl : new = [] := by simpa [producer] using rep.producing
  have linked := rep.linked
  have bounded := rep.bounded
  have distinct := rep.distinct
  rw [List.append_nil] at linked bounded distinct
  have enough : pub.length ≤ q.fresh := by
    have within : (pub.map Prod.fst).Subset (List.range q.fresh) := by
      intro a member
      obtain ⟨x, inside, rfl⟩ := List.mem_map.mp member
      exact List.mem_range.mpr (bounded x (by simp [inside]))
    have apart : (pub.map Prod.fst).Nodup := by
      simp only [List.map_append, List.map_cons, List.nodup_append, List.nodup_cons] at distinct
      exact distinct.2.1.2
    simpa using List.Nodup.length_le_of_subset apart within
  constructor
  · simp only [size, linked.at, Option.bind_some, List.length_map]
    exact sizeFrom_linked linked.suffix.2 enough
  · rw [empty, beq_iff_eq, rep.drained, List.length_map, List.length_eq_zero_iff]

/-- The queue is a lossless first-in first-out channel for one producer and
one consumer: what was consumed is a prefix of what was published, a refusal
means that nothing published is left, no freed node is read or freed again,
and `size()` and `empty()` count exactly what is inside between operations. -/
theorem lossless_fifo {t : T} {q : Queue T} {trace : List (Event T)}
    (run : Reaches step (new t) q trace) :
    consumed trace <+: produced trace ∧
      (∀ q' out, step q .consume = some (q', out) → .failed ∈ out →
        consumed trace = produced trace) ∧
      q.fault = false ∧ (freed trace).Nodup ∧
      (q.producer = .idle → q.consumer = .idle →
        ∃ n, q.size = some n ∧ (consumed trace).length + n = (produced trace).length ∧
          (q.empty = true ↔ n = 0)) := by
  obtain ⟨contents, holds, split⟩ := reaches_holds run
  have fine : q.fault = false := by
    obtain ⟨old, d, pub, new, rep, -⟩ := holds
    exact rep.sound
  refine ⟨⟨contents, split.symm⟩, fun q' out stepped refused => ?_, fine, freed_once run,
    fun producer _ => ?_⟩
  · obtain ⟨_, -, ⟨-, silent⟩ | ⟨op, -, matched⟩⟩ :=
      refines.follow _ _ _ _ _ holds trivial stepped
    · have := List.filterMap_eq_nil_iff.mp silent _ refused
      cases this
    · have seen : Fifo.Event.empty ∈ out.filterMap observe :=
        List.mem_filterMap.mpr ⟨_, refused, rfl⟩
      have drained : contents = [] := Fifo.empty_of_step matched seen
      simpa [drained] using split.symm
  · obtain ⟨counted, empty⟩ := size_holds holds producer
    exact ⟨_, counted, by rw [split, List.length_append], empty⟩

/-- One value passes through and the node before it is reclaimed. -/
theorem lossless_fifo_one : ∃ q trace, exec step (new 0) [.produce 7, .producer, .producer,
      .consume, .consumer, .consumer, .producer, .producer, .producer] = some (q, trace) ∧
    consumed trace = [7] ∧ freed trace = [0] ∧ consumed trace <+: produced trace ∧
    ∃ n, q.size = some n ∧ (consumed trace).length + n = (produced trace).length :=
  have ran := rfl
  have ⟨ordered, _, _, _, counted⟩ := lossless_fifo (reaches_of_exec ran)
  have ⟨n, size, total, _⟩ := counted rfl rfl
  ⟨_, _, ran, rfl, rfl, ordered, n, size, total⟩

end LinearFcgi.Queue
