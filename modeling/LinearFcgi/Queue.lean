import LinearFcgi.Library.Fifo

/-! `linear_fcgi_queue.h`: the queue one producer and one consumer share
without a lock. The model is the linked list itself, node by node, with the
two parties interleaved at every access to a shared pointer. -/
namespace LinearFcgi

open TraceMachine

/-- Where an object was allocated. Addresses are handed out in order and never
reused, so that a stale pointer is always told from a live one. -/
abbrev Addr := Nat

namespace Queue

/-- `Queue<T>::Node`; `next` is `none` where the source has `NULL`. -/
structure Node (T : Type) where
  value : T
  next : Option Addr

/-- Where the producer stands in `produce`. -/
inductive Producer (T : Type) where
  | idle
  /-- about to run `last->next = new Node(t)` -/
  | link (t : T)
  /-- about to set `last` to `last->next` -/
  | publish (t : T)
  /-- about to test `first != divider` -/
  | reclaim
  /-- the test held: about to step `first` forward and delete the node behind -/
  | free

/-- Where the consumer stands in `consume`. -/
inductive Consumer (T : Type) where
  | idle
  /-- `divider != last` held: about to copy `divider->next->value` -/
  | copy
  /-- about to set `divider` to `divider->next`, with `result` copied -/
  | advance (result : T)

end Queue

/-- The list, the three pointers into it and the two parties. `fault` records
that a party dereferenced or deleted a node that is not allocated. -/
structure Queue (T : Type) where
  nodes : Addr → Option (Queue.Node T)
  fresh : Addr
  first : Addr
  divider : Addr
  last : Addr
  producer : Queue.Producer T := .idle
  consumer : Queue.Consumer T := .idle
  fault : Bool := false

namespace Queue

variable {T : Type}

/-- `Queue()`: one node, holding `T()`, that all three pointers name. -/
def new (t : T) : Queue T where
  nodes := Function.update (fun _ => none) 0 (some ⟨t, none⟩)
  fresh := 1
  first := 0
  divider := 0
  last := 0

inductive Action (T : Type) where
  /-- the producer calls `produce(t)` -/
  | produce (t : T)
  /-- the producer takes its next step -/
  | producer
  /-- the consumer calls `consume` and tests `divider` against `last` -/
  | consume
  /-- the consumer takes its next step -/
  | consumer

inductive Event (T : Type) where
  | produced (t : T)
  | consumed (t : T)
  /-- `consume` returned `false` -/
  | failed
  | freed (a : Addr)
  deriving DecidableEq

/-- The address the node at `a` links to, if that node is there and links on. -/
def next (q : Queue T) (a : Addr) : Option Addr := (q.nodes a).bind Node.next

def crash (q : Queue T) : Option (Queue T × List (Event T)) := some ({ q with fault := true }, [])

/-- The producer's next step in `produce`. -/
def producerStep (q : Queue T) : Option (Queue T × List (Event T)) :=
  match q.producer with
  | .idle => none
  | .link t => match q.nodes q.last with
    | none => q.crash
    | some n => some ({ q with
        nodes := Function.update (Function.update q.nodes q.fresh (some ⟨t, none⟩)) q.last
          (some { n with next := some q.fresh })
        fresh := q.fresh + 1, producer := .publish t }, [])
  | .publish t => match q.next q.last with
    | none => q.crash
    | some a => some ({ q with last := a, producer := .reclaim }, [.produced t])
  | .reclaim =>
    some ({ q with producer := if q.first ≠ q.divider then .free else .idle }, [])
  | .free => match q.next q.first with
    | none => q.crash
    | some a => some ({ q with
        nodes := Function.update q.nodes q.first none
        first := a, producer := .reclaim }, [.freed q.first])

/-- The consumer's next step in `consume`. -/
def consumerStep (q : Queue T) : Option (Queue T × List (Event T)) :=
  match q.consumer with
  | .idle => none
  | .copy => match (q.next q.divider).bind q.nodes with
    | none => q.crash
    | some n => some ({ q with consumer := .advance n.value }, [])
  | .advance result => match q.next q.divider with
    | none => q.crash
    | some a => some ({ q with divider := a, consumer := .idle }, [.consumed result])

/-- One step of either party; after a fault nothing is defined any more. -/
def step : Step (Queue T) (Action T) (Event T) := fun q a =>
  if q.fault then none else match a with
  | .produce t => match q.producer with
    | .idle => some ({ q with producer := .link t }, [])
    | _ => none
  | .producer => q.producerStep
  | .consume => match q.consumer with
    | .idle => if q.divider ≠ q.last then some ({ q with consumer := .copy }, [])
      else some (q, [.failed])
    | _ => none
  | .consumer => q.consumerStep

/-- `empty()`. -/
def empty (q : Queue T) : Bool := q.divider == q.last

/-- The `while (it)` loop of `size()`; `none` when it meets a node that is not
allocated, or has made `fuel` rounds. -/
def sizeFrom (q : Queue T) : Nat → Option Addr → Option Nat
  | _, none => some 0
  | 0, some _ => none
  | fuel + 1, some a => (q.nodes a).bind fun n => (q.sizeFrom fuel n.next).map (· + 1)

/-- `size()`. No more nodes than `fresh` were ever allocated. -/
def size (q : Queue T) : Option Nat := (q.nodes q.divider).bind fun n => q.sizeFrom q.fresh n.next

/-- What the two parties see of the abstract queue. -/
def observe : Event T → Option (Fifo.Event T)
  | .produced t => some (.pushed t)
  | .consumed t => some (.popped t)
  | .failed => some .empty
  | .freed _ => none

def produced (trace : List (Event T)) : List T :=
  trace.filterMap fun | .produced t => some t | _ => none

/-- The values successful `consume` calls returned, in order. -/
def consumed (trace : List (Event T)) : List T :=
  trace.filterMap fun | .consumed t => some t | _ => none

def freed (trace : List (Event T)) : List Addr :=
  trace.filterMap fun | .freed a => some a | _ => none

end Queue
end LinearFcgi
