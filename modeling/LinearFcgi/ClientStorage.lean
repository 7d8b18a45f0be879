import Mathlib.Data.List.AList
import LinearFcgi.Client

/-! `linear_fcgi_client_storage`: the registered clients, and the memory they
live in. -/
namespace LinearFcgi

structure ClientStorage where
  maxClients : Nat
  /-- `std::map<std::string, Client*> client_map_` -/
  clientMap : AList fun _ : Bytes => Addr
  /-- the clients that are allocated -/
  heap : Addr → Option Client
  /-- where the next one will be: unlike `new`, this takes no address twice -/
  next : Addr

namespace ClientStorage

/-- `ClientStorage::ClientStorage`. -/
def new (maxClients : Nat) : ClientStorage := ⟨maxClients, ∅, fun _ => none, 0⟩

/-- Allocate a client and register it. -/
def insert (st : ClientStorage) (id : Bytes) (cl : Client) : ClientStorage :=
  { st with
    clientMap := st.clientMap.insert id st.next
    heap := Function.update st.heap st.next (some cl)
    next := st.next + 1 }

/-- Unregister a client and delete it. -/
def erase (st : ClientStorage) (id : Bytes) (c : Addr) : ClientStorage :=
  { st with clientMap := st.clientMap.erase id, heap := Function.update st.heap c none }

/-- `ClientStorage::create`; `alloc` tells whether `new Client` succeeds. -/
def create (st : ClientStorage) (id : Bytes) (allowOrigins : List Bytes) (timeout : Int)
    (alloc : Bool) : Option (Addr × ClientStorage) :=
  if st.maxClients ≤ st.clientMap.keys.length then none
  else if (st.clientMap.lookup id).isSome then none
  else if ¬ alloc then none
  else some (st.next, st.insert id (Client.new id allowOrigins timeout))

/-- `ClientStorage::destroy`, with the address it deleted. -/
def destroy (st : ClientStorage) (id : Bytes) : ClientStorage × Option Addr :=
  match st.clientMap.lookup id with
  | some c => (st.erase id c, some c)
  | none => (st, none)

/-- `ClientStorage::get`. -/
def get (st : ClientStorage) (id : Bytes) : Option Addr := st.clientMap.lookup id

/-- The clients `ClientStorage::onTimer` visits. -/
def clients (st : ClientStorage) : List Addr := st.clientMap.entries.map Sigma.snd

/-- Write to an allocated client. -/
def set (st : ClientStorage) (c : Addr) (cl : Client) : ClientStorage :=
  { st with heap := Function.update st.heap c (some cl) }

@[grind =] theorem set_heap (st : ClientStorage) (c d : Addr) (cl : Client) :
    (st.set c cl).heap d = if d = c then some cl else st.heap d := by
  by_cases same : d = c <;> simp [set, same]

@[simp, grind =] theorem set_clientMap (st : ClientStorage) (c : Addr) (cl : Client) :
    (st.set c cl).clientMap = st.clientMap := rfl

@[simp, grind =] theorem set_next (st : ClientStorage) (c : Addr) (cl : Client) :
    (st.set c cl).next = st.next := rfl

@[grind =] theorem insert_heap (st : ClientStorage) (id : Bytes) (cl : Client) (d : Addr) :
    (st.insert id cl).heap d = if d = st.next then some cl else st.heap d := by
  by_cases same : d = st.next <;> simp [insert, same]

@[simp, grind =] theorem insert_next (st : ClientStorage) (id : Bytes) (cl : Client) :
    (st.insert id cl).next = st.next + 1 := rfl

@[grind =] theorem erase_heap (st : ClientStorage) (id : Bytes) (c d : Addr) :
    (st.erase id c).heap d = if d = c then none else st.heap d := by
  by_cases same : d = c <;> simp [erase, same]

@[simp, grind =] theorem erase_next (st : ClientStorage) (id : Bytes) (c : Addr) :
    (st.erase id c).next = st.next := rfl

/-- The map and the memory agree: each entry names an allocated client of that
id, each allocated client is registered under its id, and the address to come
is free. -/
structure Sound (st : ClientStorage) : Prop where
  allocated : ∀ id c, st.clientMap.lookup id = some c → ∃ cl, st.heap c = some cl ∧ cl.id = id
  registered : ∀ c cl, st.heap c = some cl → st.clientMap.lookup cl.id = some c
  fresh : ∀ c cl, st.heap c = some cl → c < st.next

/-- A client is registered when its own id leads to it. -/
def Registered (st : ClientStorage) (c : Addr) : Prop :=
  ∃ id, st.clientMap.lookup id = some c

theorem new_sound (maxClients : Nat) : (new maxClients).Sound := by
  constructor
  · intro id c found
    cases found
  · intro c cl live
    cases live
  · intro c cl live
    cases live

variable {st : ClientStorage}

theorem Sound.registered_iff (sound : st.Sound) (c : Addr) :
    st.Registered c ↔ ∃ cl, st.heap c = some cl := by
  constructor
  · rintro ⟨id, found⟩
    obtain ⟨cl, live, -⟩ := sound.allocated id c found
    exact ⟨cl, live⟩
  · rintro ⟨cl, live⟩
    exact ⟨cl.id, sound.registered c cl live⟩

theorem Sound.set (sound : st.Sound) {c : Addr} {cl cl' : Client} (live : st.heap c = some cl)
    (same : cl'.id = cl.id) : (st.set c cl').Sound := by
  constructor
  · intro id d found
    obtain ⟨dl, held, named⟩ := sound.allocated id d found
    rw [set_heap]
    by_cases at_ : d = c
    · subst at_
      rw [live] at held
      cases held
      exact ⟨cl', by simp, by rw [same, named]⟩
    · exact ⟨dl, by simp [at_, held], named⟩
  · intro d dl held
    rw [set_heap] at held
    by_cases at_ : d = c
    · subst at_
      simp only [↓reduceIte, Option.some.injEq] at held
      subst held
      rw [same]
      exact sound.registered d cl live
    · exact sound.registered d dl (by simpa [at_] using held)
  · intro d dl held
    rw [set_heap] at held
    by_cases at_ : d = c
    · exact sound.fresh d cl (at_ ▸ live)
    · exact sound.fresh d dl (by simpa [at_] using held)

/-- What `create` did if it returned a client. -/
theorem create_eq_some {id : Bytes} {allowOrigins : List Bytes} {timeout : Int} {alloc : Bool}
    {c : Addr} {st' : ClientStorage} :
    st.create id allowOrigins timeout alloc = some (c, st') ↔
      st.clientMap.keys.length < st.maxClients ∧ st.clientMap.lookup id = none ∧ alloc = true ∧
      c = st.next ∧ st' = st.insert id (Client.new id allowOrigins timeout) := by
  unfold create
  by_cases full : st.maxClients ≤ st.clientMap.keys.length
  · simp [full, Nat.not_lt.mpr full]
  by_cases known : (st.clientMap.lookup id).isSome
  · simp only [full, known, ↓reduceIte]
    obtain ⟨d, found⟩ := Option.isSome_iff_exists.mp known
    simp [found]
  have unknown : st.clientMap.lookup id = none := by simpa using known
  cases alloc <;> simp [full, unknown, Nat.lt_of_not_le full, eq_comm]

theorem Sound.insert (sound : st.Sound) {cl : Client} (unknown : st.clientMap.lookup cl.id = none) :
    (st.insert cl.id cl).Sound := by
  constructor
  · intro id d found
    simp only [ClientStorage.insert] at found
    by_cases same : id = cl.id
    · subst same
      rw [AList.lookup_insert] at found
      cases found
      exact ⟨cl, by simp [insert_heap], rfl⟩
    · rw [AList.lookup_insert_ne same] at found
      obtain ⟨dl, held, named⟩ := sound.allocated id d found
      have other : d ≠ st.next := (sound.fresh d dl held).ne
      exact ⟨dl, by simp [insert_heap, other, held], named⟩
  · intro d dl held
    simp only [ClientStorage.insert]
    by_cases same : d = st.next
    · simp only [insert_heap, same, ↓reduceIte, Option.some.injEq] at held
      rw [← held, AList.lookup_insert, same]
    · simp only [insert_heap, same, ↓reduceIte] at held
      have found := sound.registered d dl held
      have distinct : dl.id ≠ cl.id := by
        intro agree
        rw [agree, unknown] at found
        cases found
      rw [AList.lookup_insert_ne distinct, found]
  · intro d dl held
    by_cases same : d = st.next
    · exact same ▸ Nat.lt_succ_self _
    · simp only [insert_heap, same, ↓reduceIte] at held
      exact (sound.fresh d dl held).trans (Nat.lt_succ_self _)

/-- Destroying by the id of an allocated client deletes that client. -/
theorem Sound.destroy_eq (sound : st.Sound) {c : Addr} {cl : Client} (live : st.heap c = some cl) :
    st.destroy cl.id = (st.erase cl.id c, some c) := by
  simp [destroy, sound.registered c cl live]

theorem Sound.erase (sound : st.Sound) {c : Addr} {cl : Client} (live : st.heap c = some cl) :
    (st.erase cl.id c).Sound := by
  constructor
  · intro id d found
    simp only [ClientStorage.erase] at found
    by_cases same : id = cl.id
    · subst same
      rw [AList.lookup_erase] at found
      cases found
    · rw [AList.lookup_erase_ne same] at found
      obtain ⟨dl, held, named⟩ := sound.allocated id d found
      have distinct : d ≠ c := by
        rintro rfl
        rw [live] at held
        cases held
        exact same named.symm
      exact ⟨dl, by simp [erase_heap, distinct, held], named⟩
  · intro d dl held
    simp only [ClientStorage.erase]
    by_cases same : d = c
    · simp [erase_heap, same] at held
    · simp only [erase_heap, same, ↓reduceIte] at held
      have found := sound.registered d dl held
      have distinct : dl.id ≠ cl.id := by
        intro agree
        rw [agree, sound.registered c cl live] at found
        exact same (Option.some.inj found).symm
      rwa [AList.lookup_erase_ne distinct]
  · intro d dl held
    by_cases same : d = c
    · simp [erase_heap, same] at held
    · simp only [erase_heap, same, ↓reduceIte] at held
      exact sound.fresh d dl held

end ClientStorage
end LinearFcgi
