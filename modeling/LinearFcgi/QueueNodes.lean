import Mathlib.Data.List.Perm.Basic
import LinearFcgi.QueueProofs

/-! The nodes of a queue, from the first `new` to the destructor. While the two
threads use the queue, every node that was ever allocated is either in the list
that starts at `first` or has been deleted. So the destructor, which deletes the
list, leaves nothing behind and deletes nothing a second time, in whatever state
it finds the queue. -/
namespace LinearFcgi.Queue

open TraceMachine

variable {T : Type}

/-- The `while (first != NULL)` loop of `~Queue`: the nodes it leaves, and those
it deletes, in order; `none` when it meets a node that is not allocated, or has
made `fuel` rounds. -/
def deleteFrom : Nat → (Addr → Option (Node T)) → Option Addr →
    Option ((Addr → Option (Node T)) × List Addr)
  | _, nodes, none => some (nodes, [])
  | 0, _, some _ => none
  | fuel + 1, nodes, some first => (nodes first).bind fun n =>
      (deleteFrom fuel (Function.update nodes first none) n.next).map fun r => (r.1, first :: r.2)

/-- `~Queue`. No more nodes than `fresh` were ever allocated. -/
def destroy (q : Queue T) : Option ((Addr → Option (Node T)) × List Addr) :=
  deleteFrom q.fresh q.nodes (some q.first)

/-- The list from `first` on. -/
structure Chain (q : Queue T) (l : List (Addr × T)) : Prop where
  linked : Linked q.nodes l
  head : l.head?.map Prod.fst = some q.first

/-- Every node ever allocated is in the list or among those deleted, once. -/
structure Tallied (q : Queue T) (gone : List Addr) (l : List (Addr × T)) : Prop where
  chain : Chain q l
  each : (gone ++ l.map Prod.fst).Perm (List.range q.fresh)
  allocated : ∀ a, q.nodes a ≠ none → a ∈ l.map Prod.fst

/-- There is one way only to follow the links. -/
theorem Linked.unique {nodes : Addr → Option (Node T)} {l l' : List (Addr × T)}
    (linked : Linked nodes l) (linked' : Linked nodes l')
    (head : l.head?.map Prod.fst = l'.head?.map Prod.fst) : l = l' := by
  induction l generalizing l' with
  | nil =>
    cases l' with
    | nil => rfl
    | cons y l' => simp at head
  | cons x l ih =>
    cases l' with
    | nil => simp at head
    | cons y l' =>
      obtain ⟨a, t⟩ := x
      obtain ⟨b, u⟩ := y
      obtain rfl : a = b := by simpa using head
      obtain ⟨held, rest⟩ := linked
      obtain ⟨held', rest'⟩ := linked'
      rw [held, Option.some.injEq, Node.mk.injEq] at held'
      rw [ih rest rest' held'.2, held'.1]

section

variable {q q' : Queue T} {old pub ahead l : List (Addr × T)} {d : T} {gone : List Addr}

theorem Rep.chain (rep : Rep q old d pub ahead) : Chain q (old ++ (q.divider, d) :: (pub ++ ahead)) := by
  refine ⟨rep.linked, ?_⟩
  obtain ⟨t, rest, shape⟩ := rep.first
  have split : old ++ (q.divider, d) :: (pub ++ ahead) = (old ++ [(q.divider, d)]) ++ (pub ++ ahead) := by
    simp
  rw [split, shape]
  rfl

theorem Tallied.same (tallied : Tallied q gone l) (nodes : q'.nodes = q.nodes)
    (fresh : q'.fresh = q.fresh) (first : q'.first = q.first) :
    Tallied q' (gone ++ freed ([] : List (Event T))) l := by
  rw [freed, List.filterMap_nil, List.append_nil]
  exact ⟨⟨nodes ▸ tallied.chain.linked, first ▸ tallied.chain.head⟩, fresh ▸ tallied.each,
    nodes ▸ tallied.allocated⟩

/-- A new node is linked behind the last one. -/
theorem Tallied.link {n : Node T} {t : T} (tallied : Tallied q gone l) (rep : Rep q old d pub ahead)
    (at_ : q.producer = .link t) (held : q.nodes q.last = some n) :
    ∃ l', Tallied { q with
      nodes := Function.update (Function.update q.nodes q.fresh (some ⟨t, none⟩)) q.last
        (some { n with next := some q.fresh })
      fresh := q.fresh + 1, producer := .publish t } gone l' := by
  obtain rfl : l = old ++ (q.divider, d) :: (pub ++ ahead) :=
    tallied.chain.linked.unique rep.linked (tallied.chain.head.trans rep.chain.head.symm)
  obtain rfl : ahead = [] := by simpa [at_] using rep.producing
  obtain ⟨n', held', rep'⟩ := rep.link at_
  obtain rfl : n = n' := Option.some.inj (held.symm.trans held')
  refine ⟨_, rep'.chain, ?_, fun a there => ?_⟩
  · have grown := tallied.each.append_right [q.fresh]
    simpa [List.range_succ] using grown
  · by_cases last : a = q.last
    · subst last
      have inside := tallied.allocated q.last (by simp [held])
      simp only [List.map_append, List.map_cons, List.mem_append, List.mem_cons] at inside ⊢
      tauto
    · by_cases fresh : a = q.fresh
      · simp [fresh]
      · have inside := tallied.allocated a (by simpa [Function.update_of_ne, last, fresh] using there)
        simp only [List.map_append, List.map_cons, List.mem_append, List.mem_cons] at inside ⊢
        tauto

/-- The first node is deleted. -/
theorem Tallied.free {a : Addr} (tallied : Tallied q gone l)
    (distinct : (l.map Prod.fst).Nodup) (linked : q.next q.first = some a) :
    ∃ l', Tallied { q with
      nodes := Function.update q.nodes q.first none
      first := a, producer := .reclaim } (gone ++ [q.first]) l' := by
  cases l with
  | nil => simpa using tallied.chain.head
  | cons x rest =>
    obtain ⟨b, v⟩ := x
    obtain rfl : b = q.first := by simpa using tallied.chain.head
    obtain ⟨held, onward⟩ := tallied.chain.linked
    obtain ⟨apart, -⟩ := List.nodup_cons.mp distinct
    refine ⟨rest, ⟨?_, ?_⟩, ?_, fun a' there => ?_⟩
    · refine onward.congr fun y inside => Function.update_of_ne ?_ _ _
      intro same
      exact apart (same ▸ List.mem_map.mpr ⟨y, inside, rfl⟩)
    · rw [next, held] at linked
      exact linked
    · rw [List.append_assoc]
      exact tallied.each
    · have other : a' ≠ q.first := by
        rintro rfl
        simp at there
      have inside := tallied.allocated a' (by simpa [Function.update_of_ne, other] using there)
      simpa [other] using inside

theorem Tallied.step {a : Action T} {out : List (Event T)} (tallied : Tallied q gone l)
    (rep : Rep q old d pub ahead) (stepped : step q a = some (q', out)) :
    ∃ l', Tallied q' (gone ++ freed out) l' := by
  have running : ¬ q.fault = true := by simp [rep.sound]
  simp only [Queue.step, if_neg running] at stepped
  cases a with
  | produce t =>
    dsimp only at stepped
    split at stepped <;> cases stepped
    exact ⟨l, tallied.same rfl rfl rfl⟩
  | consume =>
    dsimp only at stepped
    split at stepped
    · split at stepped <;> cases stepped <;> exact ⟨l, tallied.same rfl rfl rfl⟩
    · cases stepped
  | consumer =>
    simp only [consumerStep] at stepped
    cases at_ : q.consumer with
    | idle => simp [at_] at stepped
    | copy =>
      obtain ⟨n, held, -⟩ := rep.copy at_
      simp only [at_, held, Option.some.injEq, Prod.mk.injEq] at stepped
      obtain ⟨rfl, rfl⟩ := stepped
      exact ⟨l, tallied.same rfl rfl rfl⟩
    | advance t =>
      obtain ⟨b, pub', rfl, linked, -⟩ := rep.advance at_
      simp only [at_, linked, Option.some.injEq, Prod.mk.injEq] at stepped
      obtain ⟨rfl, rfl⟩ := stepped
      exact ⟨l, tallied.same rfl rfl rfl⟩
  | producer =>
    simp only [producerStep] at stepped
    cases at_ : q.producer with
    | idle => simp [at_] at stepped
    | link t =>
      obtain ⟨n, held, -⟩ := rep.link at_
      simp only [at_, held, Option.some.injEq, Prod.mk.injEq] at stepped
      obtain ⟨rfl, rfl⟩ := stepped
      simpa [freed] using tallied.link rep at_ held
    | publish t =>
      obtain ⟨b, linked, -⟩ := rep.publish at_
      simp only [at_, linked, Option.some.injEq, Prod.mk.injEq] at stepped
      obtain ⟨rfl, rfl⟩ := stepped
      exact ⟨l, tallied.same rfl rfl rfl⟩
    | reclaim =>
      simp only [at_, Option.some.injEq, Prod.mk.injEq] at stepped
      obtain ⟨rfl, rfl⟩ := stepped
      exact ⟨l, tallied.same rfl rfl rfl⟩
    | free =>
      obtain ⟨b, old', linked, -⟩ := rep.free at_
      simp only [at_, linked, Option.some.injEq, Prod.mk.injEq] at stepped
      obtain ⟨rfl, rfl⟩ := stepped
      have distinct : (l.map Prod.fst).Nodup := by
        rw [tallied.chain.linked.unique rep.linked (tallied.chain.head.trans rep.chain.head.symm)]
        exact rep.distinct
      exact tallied.free distinct linked

theorem tallied_of_run {t : T} {trace : List (Event T)} (run : Reaches step (new t) q trace) :
    ∃ l, Tallied q (freed trace) l := by
  refine run.invariant (I := fun q trace => ∃ l, Tallied q (freed trace) l) ?_ ?_
  · refine ⟨[(0, t)], ⟨by simp [Linked, Queue.new], rfl⟩, by simp [freed, Queue.new], fun a there => ?_⟩
    by_contra other
    exact there (by simpa [Queue.new, Function.update_apply] using other)
  · rintro q trace a q' out before ⟨l, tallied⟩ - stepped
    obtain ⟨contents, ⟨old, d, pub, ahead, rep, -⟩, -⟩ := reaches_holds before
    rw [freed, List.filterMap_append]
    exact tallied.step rep stepped

/-- The destructor's loop goes down the list. -/
theorem deleteFrom_linked {fuel : Nat} {nodes : Addr → Option (Node T)} (linked : Linked nodes l)
    (distinct : (l.map Prod.fst).Nodup) (enough : l.length ≤ fuel) :
    deleteFrom fuel nodes (l.head?.map Prod.fst) =
      some (fun a => if a ∈ l.map Prod.fst then none else nodes a, l.map Prod.fst) := by
  induction l generalizing fuel nodes with
  | nil => cases fuel <;> rfl
  | cons x rest ih =>
    cases fuel with
    | zero => simp at enough
    | succ fuel =>
      obtain ⟨held, onward⟩ := linked
      obtain ⟨apart, distinct⟩ := List.nodup_cons.mp distinct
      have kept : Linked (Function.update nodes x.1 none) rest := by
        refine onward.congr fun y inside => Function.update_of_ne ?_ _ _
        intro same
        exact apart (same ▸ List.mem_map.mpr ⟨y, inside, rfl⟩)
      simp only [List.head?_cons, Option.map_some, deleteFrom, held, Option.bind_some]
      rw [ih kept distinct (Nat.le_of_succ_le_succ enough)]
      simp only [Option.map_some, List.map_cons, Option.some.injEq, Prod.mk.injEq, and_true]
      funext a
      by_cases same : a = x.1
      · simp [same]
      · simp only [Function.update_of_ne same, List.mem_cons, same, false_or]

/-- Whatever the two threads have done with the queue, and wherever they stand,
its destructor comes to an end without touching a node that is not there, and
then every node ever allocated has been deleted exactly once. -/
theorem destroyed_once {t : T} {trace : List (Event T)} (run : Reaches step (new t) q trace) :
    ∃ nodes gone, q.destroy = some (nodes, gone) ∧
      (freed trace ++ gone).Perm (List.range q.fresh) ∧ ∀ a, nodes a = none := by
  obtain ⟨l, tallied⟩ := tallied_of_run run
  have distinct : (l.map Prod.fst).Nodup :=
    (List.nodup_append.mp (tallied.each.nodup_iff.mpr List.nodup_range)).2.1
  have enough : l.length ≤ q.fresh := by
    have total := tallied.each.length_eq
    simp only [List.length_append, List.length_map, List.length_range] at total
    omega
  have done := deleteFrom_linked tallied.chain.linked distinct enough
  rw [tallied.chain.head] at done
  refine ⟨_, _, done, tallied.each, fun a => ?_⟩
  by_cases inside : a ∈ l.map Prod.fst
  · simp only [inside, ↓reduceIte]
  · simp only [inside, ↓reduceIte]
    by_contra there
    exact inside (tallied.allocated a there)

end

/-- One value has passed through, and another was just linked. -/
theorem destroyed_once_halfway : ∃ q trace, exec step (new 0) [.produce 7, .producer, .producer,
      .consume, .consumer, .consumer, .producer, .producer, .producer, .produce 8, .producer] =
        some (q, trace) ∧
    ∃ nodes gone, q.destroy = some (nodes, gone) ∧ (freed trace ++ gone).Perm [0, 1, 2] :=
  have ran := rfl
  have ⟨nodes, gone, done, each, _⟩ := destroyed_once (reaches_of_exec ran)
  ⟨_, _, ran, nodes, gone, done, each⟩

end LinearFcgi.Queue
