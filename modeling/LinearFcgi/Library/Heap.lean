import Mathlib.Logic.Function.Basic

/-! Programs that allocate. Memory is made of blocks of cells, which hold
nothing until they are written to; a program runs in it until it is done or does
what is not defined: follow a null pointer or one to a block that is not there,
leave a block, read a cell that holds nothing. Whether a request for memory is
granted is decided outside. -/
namespace Heap

inductive Fault where
  | null
  | dangling
  | bounds
  | uninitialised
  deriving DecidableEq

abbrev Ptr := Nat

/-- The blocks there are, and how often memory was asked for. No address is
handed out twice. -/
structure Memory (β : Type) where
  blocks : Ptr → Option (List (Option β))
  fresh : Ptr
  asked : Nat

/-- Nothing is at an address that was not handed out yet. -/
def Memory.Sound {β : Type} (m : Memory β) : Prop := ∀ q, m.fresh ≤ q → m.blocks q = none

structure Code (β α : Type) where
  run : Memory β → Except Fault (α × Memory β)

variable {α β γ : Type}

instance : Monad (Code β) where
  pure x := ⟨fun m => .ok (x, m)⟩
  bind code next := ⟨fun m => match code.run m with
    | .error fault => .error fault
    | .ok (x, m) => (next x).run m⟩

section

variable (grants : Nat → Bool)

def malloc (n : Nat) : Code β (Option Ptr) where
  run m :=
    if grants m.asked then
      .ok (some m.fresh, ⟨Function.update m.blocks m.fresh (some (List.replicate n none)),
        m.fresh + 1, m.asked + 1⟩)
    else .ok (none, { m with asked := m.asked + 1 })

def free : Option Ptr → Code β Unit
  | none => pure ()
  | some p => ⟨fun m => match m.blocks p with
    | none => .error .dangling
    | some _ => .ok ((), { m with blocks := Function.update m.blocks p none })⟩

/-- The old block is kept if the request is refused. -/
def realloc (p : Ptr) (n : Nat) : Code β (Option Ptr) where
  run m := match m.blocks p with
    | none => .error .dangling
    | some cells =>
      if grants m.asked then
        .ok (some m.fresh, ⟨Function.update (Function.update m.blocks p none) m.fresh
          (some (cells.take n ++ List.replicate (n - cells.length) none)), m.fresh + 1, m.asked + 1⟩)
      else .ok (none, { m with asked := m.asked + 1 })

end

/-- Read the first `n` cells of a block. -/
def load (p : Option Ptr) (n : Nat) : Code β (List β) where
  run m := match p with
    | none => .error .null
    | some p => match m.blocks p with
      | none => .error .dangling
      | some cells =>
        if n ≤ cells.length then match (cells.take n).mapM id with
          | none => .error .uninitialised
          | some xs => .ok (xs, m)
        else .error .bounds

/-- What the cells say up to the first that stops the reading. -/
def readUntil (stop : β → Bool) : List (Option β) → Except Fault (List β)
  | [] => .error .bounds
  | none :: _ => .error .uninitialised
  | some x :: cells => if stop x then .ok [] else (readUntil stop cells).map (x :: ·)

/-- Read a block from its beginning to the first cell that stops the reading. -/
def loadUntil (stop : β → Bool) (p : Option Ptr) : Code β (List β) where
  run m := match p with
    | none => .error .null
    | some p => match m.blocks p with
      | none => .error .dangling
      | some cells => (readUntil stop cells).map fun xs => (xs, m)

/-- Write to a block, from `off` on. -/
def store (p : Option Ptr) (off : Nat) (xs : List β) : Code β Unit where
  run m := match p with
    | none => .error .null
    | some p => match m.blocks p with
      | none => .error .dangling
      | some cells =>
        if off + xs.length ≤ cells.length then
          .ok ((), ⟨Function.update m.blocks p
            (some (cells.take off ++ xs.map some ++ cells.drop (off + xs.length))), m.fresh, m.asked⟩)
        else .error .bounds

/-- `memcpy` from the beginning of a block. -/
def memcpy (dst : Option Ptr) (off : Nat) (src : Option Ptr) (n : Nat) : Code β Unit := do
  let xs ← load src n
  store dst off xs

/-! ## Programs that come to an end -/

variable {grants : Nat → Bool} {m : Memory β} {n : Nat} {p q : Ptr} {cells : List (Option β)}
  {xs : List β}

theorem bind_ok {code : Code β α} {next : α → Code β γ} {x : α} {m' : Memory β}
    (ran : code.run m = .ok (x, m')) : (code >>= next).run m = (next x).run m' := by
  simp only [bind, ran]

theorem bind_error {code : Code β α} {next : α → Code β γ} {fault : Fault}
    (ran : code.run m = .error fault) : (code >>= next).run m = .error fault := by
  simp only [bind, ran]

/-- The code comes to its end in `m`, and then this holds. -/
def Code.Does (code : Code β α) (m : Memory β) (Q : α → Memory β → Prop) : Prop :=
  ∃ x m', code.run m = .ok (x, m') ∧ Q x m'

theorem Code.Does.bind {code : Code β α} {next : α → Code β γ} {P : α → Memory β → Prop}
    {Q : γ → Memory β → Prop} (first : code.Does m P)
    (then_ : ∀ x m', P x m' → (next x).Does m' Q) : (code >>= next).Does m Q := by
  obtain ⟨x, m', ran, holds⟩ := first
  obtain ⟨y, m'', ran', holds'⟩ := then_ x m' holds
  exact ⟨y, m'', (bind_ok ran).trans ran', holds'⟩

theorem Code.Does.pure {x : α} {Q : α → Memory β → Prop} (holds : Q x m) :
    (Pure.pure x : Code β α).Does m Q := ⟨x, m, rfl, holds⟩

/-! ## Which blocks there are -/

variable {base : Ptr → Option (List (Option β))} {l l' : List (Ptr × List (Option β))}

/-- Memory holds these blocks beside what it held before. -/
structure Extends (base : Ptr → Option (List (Option β))) (m : Memory β)
    (l : List (Ptr × List (Option β))) : Prop where
  sound : m.Sound
  nodup : (l.map Prod.fst).Nodup
  new : ∀ x ∈ l, base x.1 = none
  held : ∀ x ∈ l, m.blocks x.1 = some x.2
  rest : ∀ q, q ∉ l.map Prod.fst → m.blocks q = base q

theorem Extends.perm (extends_ : Extends base m l) (same : l.Perm l') : Extends base m l' where
  sound := extends_.sound
  nodup := (same.map Prod.fst).nodup_iff.mp extends_.nodup
  new x member := extends_.new x (same.mem_iff.mpr member)
  held x member := extends_.held x (same.mem_iff.mpr member)
  rest q other := extends_.rest q (mt (same.map Prod.fst).mem_iff.mp other)

theorem Extends.nil (sound : m.Sound) : Extends m.blocks m [] :=
  ⟨sound, by simp, by simp, by simp, by simp⟩

theorem Extends.blocks (extends_ : Extends base m []) : m.blocks = base :=
  funext fun q => extends_.rest q (by simp)

theorem Extends.single (extends_ : Extends base m [(p, cells)]) :
    base p = none ∧ m.blocks = Function.update base p (some cells) := by
  refine ⟨extends_.new _ List.mem_cons_self, funext fun q => ?_⟩
  by_cases same : q = p
  · simpa [same] using extends_.held _ List.mem_cons_self
  · simpa [same] using extends_.rest q (by simpa using same)

/-- A block is put where nothing was handed out yet. -/
theorem Extends.add (extends_ : Extends base m l) (cells : List (Option β)) (asked : Nat) :
    Extends base ⟨Function.update m.blocks m.fresh (some cells), m.fresh + 1, asked⟩
      ((m.fresh, cells) :: l) := by
  have unused : m.blocks m.fresh = none := extends_.sound m.fresh (Nat.le_refl _)
  have apart (x : Ptr × List (Option β)) (member : x ∈ l) : x.1 ≠ m.fresh := by
    intro same
    have held := extends_.held x member
    simp [same, unused] at held
  constructor
  · intro q above
    have other : q ≠ m.fresh := Nat.ne_of_gt above
    simpa [Function.update_of_ne other] using extends_.sound q (Nat.le_of_succ_le above)
  · simpa using ⟨fun cells member => apart _ member rfl, extends_.nodup⟩
  · rintro x (_ | ⟨_, member⟩)
    · by_cases within : m.fresh ∈ l.map Prod.fst
      · obtain ⟨x, member, same⟩ := List.mem_map.mp within
        exact absurd same (apart x member)
      · exact (extends_.rest m.fresh within).symm.trans unused
    · exact extends_.new x member
  · rintro x (_ | ⟨_, member⟩)
    · simp
    · simpa [Function.update_of_ne (apart x member)] using extends_.held x member
  · intro q other
    simp only [List.map_cons, List.mem_cons, not_or] at other
    simpa [Function.update_of_ne other.1] using extends_.rest q other.2

/-- What is written to a block changes that block. -/
theorem Extends.update (extends_ : Extends base m ((p, cells) :: l)) (cells' : List (Option β)) :
    Extends base { m with blocks := Function.update m.blocks p (some cells') }
      ((p, cells') :: l) := by
  have apart : p ∉ l.map Prod.fst := (List.nodup_cons.mp extends_.nodup).1
  constructor
  · intro q above
    have other : q ≠ p := by
      rintro rfl
      have held := extends_.held _ List.mem_cons_self
      simp [extends_.sound q above] at held
    simpa [Function.update_of_ne other] using extends_.sound q above
  · exact extends_.nodup
  · rintro x (_ | ⟨_, member⟩)
    · exact extends_.new (p, cells) List.mem_cons_self
    · exact extends_.new x (List.mem_cons_of_mem _ member)
  · rintro x (_ | ⟨_, member⟩)
    · simp
    · have other : x.1 ≠ p := by
        rintro rfl
        exact apart (List.mem_map_of_mem member)
      simpa [Function.update_of_ne other] using extends_.held x (List.mem_cons_of_mem _ member)
  · intro q other
    have rest := extends_.rest q other
    simp only [List.map_cons, List.mem_cons, not_or] at other
    simpa [Function.update_of_ne other.1] using rest

/-- A block that is taken away leaves nothing. -/
theorem Extends.remove (extends_ : Extends base m ((p, cells) :: l)) :
    Extends base { m with blocks := Function.update m.blocks p none } l := by
  have apart : p ∉ l.map Prod.fst := (List.nodup_cons.mp extends_.nodup).1
  have new : base p = none := extends_.new _ List.mem_cons_self
  refine ⟨?_, (List.nodup_cons.mp extends_.nodup).2,
    fun x member => extends_.new x (List.mem_cons_of_mem _ member),
    fun x member => ?_, fun q other => ?_⟩
  · intro q above
    by_cases same : q = p
    · simp [same]
    · simpa [Function.update_of_ne same] using extends_.sound q above
  · have other : x.1 ≠ p := by
      rintro rfl
      exact apart (List.mem_map_of_mem member)
    simpa [Function.update_of_ne other] using extends_.held x (List.mem_cons_of_mem _ member)
  · by_cases same : q = p
    · simp [same, new]
    · have outside : q ∉ ((p, cells) :: l).map Prod.fst := by simpa [same] using other
      simpa [Function.update_of_ne same] using extends_.rest q outside

/-! ## What the operations do -/

theorem malloc_does (extends_ : Extends base m l) : (malloc grants n).Does m fun p m' =>
    p = none ∧ (∃ k, grants k = false) ∧ Extends base m' l ∨
      ∃ q, p = some q ∧ Extends base m' ((q, List.replicate n none) :: l) := by
  by_cases granted : grants m.asked = true
  · exact ⟨_, _, if_pos granted, .inr ⟨_, rfl, extends_.add _ _⟩⟩
  · exact ⟨_, _, if_neg granted, .inl ⟨rfl, ⟨m.asked, Bool.eq_false_iff.mpr granted⟩,
      extends_.sound, extends_.nodup, extends_.new, extends_.held, extends_.rest⟩⟩

theorem free_does (extends_ : Extends base m ((p, cells) :: l)) :
    (free (some p)).Does m fun _ m' => Extends base m' l := by
  have live : m.blocks p = some cells := extends_.held _ List.mem_cons_self
  exact ⟨(), _, by simp only [free, live], extends_.remove⟩

theorem realloc_does (extends_ : Extends base m ((p, cells) :: l)) :
    (realloc grants p n).Does m fun r m' =>
      r = none ∧ (∃ k, grants k = false) ∧ Extends base m' ((p, cells) :: l) ∨
        ∃ q, r = some q ∧
          Extends base m' ((q, cells.take n ++ List.replicate (n - cells.length) none) :: l) := by
  have live : m.blocks p = some cells := extends_.held _ List.mem_cons_self
  by_cases granted : grants m.asked = true
  · refine ⟨_, _, ?_, .inr ⟨_, rfl, extends_.remove.add _ (m.asked + 1)⟩⟩
    simp only [realloc, live, granted, ↓reduceIte]
  · refine ⟨none, { m with asked := m.asked + 1 }, by simp [realloc, live, granted],
      .inl ⟨rfl, ⟨m.asked, Bool.eq_false_iff.mpr granted⟩, ?_⟩⟩
    exact ⟨extends_.sound, extends_.nodup, extends_.new, extends_.held, extends_.rest⟩

/-- Writing goes on behind what a block holds already. -/
theorem store_behind (old : List β) (extends_ : Extends base m
      ((p, old.map some ++ List.replicate n none) :: l)) (fits : xs.length ≤ n) :
    (store (some p) old.length xs).Does m fun _ m' => Extends base m'
      ((p, (old ++ xs).map some ++ List.replicate (n - xs.length) none) :: l) := by
  have live : m.blocks p = some (old.map some ++ List.replicate n none) :=
    extends_.held _ List.mem_cons_self
  refine ⟨(), _, ?_, extends_.update _⟩
  have after : (old.map some ++ List.replicate n (none : Option β)).drop (old.length + xs.length) =
      List.replicate (n - xs.length) none := by
    rw [List.drop_append]
    simp
  simp [store, live, fits, after, List.take_left']

theorem store_does (extends_ : Extends base m ((p, List.replicate n none) :: l))
    (fits : xs.length ≤ n) : (store (some p) 0 xs).Does m fun _ m' =>
      Extends base m' ((p, xs.map some ++ List.replicate (n - xs.length) none) :: l) :=
  store_behind (n := n) [] extends_ fits

theorem mapM_some (xs : List β) : (xs.map some).mapM id = some xs := by
  induction xs with
  | nil => rfl
  | cons x xs ih => simp_all

theorem load_does (extends_ : Extends base m l) (xs : List β) (junk : List (Option β))
    (member : (p, xs.map some ++ junk) ∈ l) :
    (load (some p) xs.length).Does m fun ys m' => ys = xs ∧ m' = m := by
  have live : m.blocks p = some (xs.map some ++ junk) := extends_.held _ member
  refine ⟨xs, m, ?_, rfl, rfl⟩
  have front : (xs.map some ++ junk).take xs.length = xs.map some := List.take_left' (by simp)
  simp only [load, live, front, mapM_some]
  simp

theorem memcpy_does (old : List β) (extends_ : Extends base m
      ((p, old.map some ++ List.replicate xs.length none) :: l)) (member : (q, xs.map some) ∈ l) :
    (memcpy (some p) old.length (some q) xs.length).Does m fun _ m' =>
      Extends base m' ((p, (old ++ xs).map some) :: l) := by
  have reads := load_does extends_ (p := q) xs [] (by simp [member])
  refine reads.bind fun ys m' same => ?_
  obtain ⟨rfl, rfl⟩ := same
  obtain ⟨u, m', ran, wrote⟩ := store_behind old extends_ (Nat.le_refl _)
  exact ⟨u, m', ran, by simpa using wrote⟩

theorem readUntil_ok {stop : β → Bool} {junk : List (Option β)} {y : β}
    (goes : ∀ x ∈ xs, stop x = false) (stops : stop y = true) :
    readUntil stop (xs.map some ++ some y :: junk) = .ok xs := by
  induction xs with
  | nil => simp [readUntil, stops]
  | cons x xs ih =>
    simp only [List.forall_mem_cons] at goes
    simp [readUntil, goes.1, ih goes.2, Except.map]

theorem loadUntil_does (extends_ : Extends base m l) {stop : β → Bool} {junk : List (Option β)}
    {y : β} (member : (p, xs.map some ++ some y :: junk) ∈ l) (goes : ∀ x ∈ xs, stop x = false)
    (stops : stop y = true) : (loadUntil stop (some p)).Does m fun ys m' => ys = xs ∧ m' = m := by
  have live : m.blocks p = some (xs.map some ++ some y :: junk) := extends_.held _ member
  refine ⟨xs, m, ?_, rfl, rfl⟩
  simp only [loadUntil, live, readUntil_ok goes stops]
  rfl

end Heap
