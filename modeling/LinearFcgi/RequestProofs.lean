import LinearFcgi.Library.TraceMachine
import LinearFcgi.Request

/-! What one request may learn of the requests before it. `getQueryString`
answers with its function-static string whenever it does not read a body, so
the text of the last body it did read stays behind; and it tests `errno`
without having cleared it. `Isolated` says exactly when neither shows. -/
namespace LinearFcgi

open TraceMachine

/-- One request as the process handled it: the state it found, what came in,
and the `Request` made of it, if the process lived to make it. -/
structure Served where
  before : Process
  incoming : Incoming
  request : Option Request

/-- The process reads one request after the other; overrunning the body buffer
ends it. -/
def serve (fread : Nat → Bytes → Option Bytes) : Step (Option Process) Incoming Served
  | none, _ => none
  | some p, i => match Request.create fread p i with
    | none => some (none, [⟨p, i, none⟩])
    | some (request, p') => some (some p', [⟨p, i, some request⟩])

/-- What `fread` documents: one item of `siz` bytes is read whole or not at
all, and an item of no bytes counts as none. -/
def ReadsWhole (fread : Nat → Bytes → Option Bytes) : Prop :=
  ∀ siz body, fread siz body = if 0 < siz ∧ siz ≤ body.length then some (body.take siz) else none

namespace Incoming

/-- The announced length as `getQueryString` casts it, with `strtol`'s flag. -/
def length (i : Incoming) : Nat × Bool :=
  (toSize (strtol (i.envs .contentLength)).1, (strtol (i.envs .contentLength)).2)

/-- The announced length is in range, not zero and not more than what came,
and the buffer for it can be had. -/
def Readable (i : Incoming) : Prop :=
  i.length.2 = false ∧ 0 < i.length.1 ∧ i.length.1 ≤ i.stdin.length ∧
    i.malloc ((i.length.1 + 1) % 2 ^ 64) = true

instance (i : Incoming) : Decidable i.Readable := inferInstanceAs (Decidable (_ ∧ _))

/-- The query text that is the request's own. -/
def ownText (i : Incoming) : Bytes :=
  match i.method with
  | .get => i.envs .queryString
  | .post => if i.Readable then i.stdin.take i.length.1 else []
  | .unknown => []

/-- The length is `2 ^ 64 - 1`, one more wraps to zero, and the allocation of
zero bytes succeeds. -/
def Overruns (i : Incoming) : Prop :=
  i.length.2 = false ∧ (i.length.1 + 1) % 2 ^ 64 < i.length.1 ∧
    i.malloc ((i.length.1 + 1) % 2 ^ 64) = true

end Incoming

/-- The state a request finds keeps earlier requests out of it: it is a GET,
or a POST whose body can be read while `errno` holds no stale `ERANGE`, or the
text kept from an earlier body parses to the very same queries. -/
def Isolated (p : Process) (i : Incoming) : Prop :=
  match i.method with
  | .get => True
  | .post => ¬ (i.errno.getD p.errno ≠ ERANGE ∧ i.Overruns) ∧
      (i.errno.getD p.errno ≠ ERANGE ∧ i.Readable ∨ Queries.parse p.data = Queries.parse i.ownText)
  | .unknown => Queries.parse p.data = Queries.parse i.ownText

variable {fread : Nat → Bytes → Option Bytes}

/-- A POST that finds `errno` clear and can read its body parses that body. -/
theorem getQueryString_reads (reads : ReadsWhole fread) {p : Process} {i : Incoming}
    (method : i.method = .post) (clear : p.errno ≠ ERANGE) (fits : ¬ i.Overruns)
    (readable : i.Readable) (text : 0 ∉ i.stdin) :
    ∃ p', Request.getQueryString fread p i = some (i.ownText, p') := by
  obtain ⟨range, positive, short, room⟩ := readable
  have whole : fread i.length.1 i.stdin = some (i.stdin.take i.length.1) := by
    rw [reads, if_pos ⟨positive, short⟩]
  have uncut : cString (i.stdin.take i.length.1) = i.stdin.take i.length.1 :=
    cString_of_nulFree fun inside => text (List.mem_of_mem_take inside)
  have fits : ¬ (i.length.1 + 1) % 2 ^ 64 < i.length.1 := fun wraps => fits ⟨range, wraps, room⟩
  have own : i.ownText = i.stdin.take i.length.1 := by
    simp only [Incoming.ownText, method]
    exact if_pos ⟨range, positive, short, room⟩
  simp only [Incoming.length] at range whole uncut fits own room
  refine ⟨{ p with data := i.ownText }, ?_⟩
  rw [own, ← uncut]
  simp only [Request.getQueryString, method, range, clear, room, fits, whole, Bool.false_eq_true,
    not_true_eq_false, ↓reduceIte]

/-- Every other POST that does not overrun its buffer is answered with the
text kept from an earlier one. -/
theorem getQueryString_keeps (reads : ReadsWhole fread) {p : Process} {i : Incoming}
    (method : i.method = .post) (fits : ¬ (p.errno ≠ ERANGE ∧ i.Overruns))
    (unread : ¬ (p.errno ≠ ERANGE ∧ i.Readable)) :
    ∃ p', Request.getQueryString fread p i = some (p.data, p') := by
  have length : (toSize (strtol (i.envs .contentLength)).1,
    (strtol (i.envs .contentLength)).2) = i.length := rfl
  simp only [Prod.ext_iff] at length
  simp only [Request.getQueryString, method, length]
  by_cases overflow : i.length.2 = true
  · exact ⟨{ p with errno := ERANGE }, by simp [overflow]⟩
  rw [if_neg overflow]
  by_cases stale : p.errno = ERANGE
  · exact ⟨p, by rw [if_pos stale]⟩
  rw [if_neg stale]
  by_cases room : i.malloc ((i.length.1 + 1) % 2 ^ 64) = true
  · have range : i.length.2 = false := Bool.eq_false_iff.mpr overflow
    have fits : ¬ (i.length.1 + 1) % 2 ^ 64 < i.length.1 :=
      fun wraps => fits ⟨stale, range, wraps, room⟩
    have nothing : fread i.length.1 i.stdin = none := by
      rw [reads, if_neg]
      exact fun ⟨positive, short⟩ => unread ⟨stale, range, positive, short, room⟩
    exact ⟨p, by rw [if_neg (not_not.mpr room), if_neg fits, nothing]⟩
  · exact ⟨{ p with errno := ENOMEM }, by rw [if_pos room]⟩

/-- A length that wraps is fatal. -/
theorem getQueryString_overruns {p : Process} {i : Incoming} (method : i.method = .post)
    (clear : p.errno ≠ ERANGE) (overruns : i.Overruns) :
    Request.getQueryString fread p i = none := by
  obtain ⟨range, wraps, room⟩ := overruns
  simp only [Incoming.length] at range wraps room
  simp only [Request.getQueryString, method, range, clear, wraps, room, Bool.false_eq_true,
    not_true_eq_false, ↓reduceIte]

/-- What `create` parses: the request's own text exactly when the state it
finds is isolated from the requests before, up to texts that parse alike. -/
theorem create_own_iff (reads : ReadsWhole fread) (p : Process) (i : Incoming)
    (text : 0 ∉ i.stdin) :
    (Request.create fread p i).map (fun x => x.1.queries) = some (Queries.parse i.ownText) ↔
      Isolated p i := by
  generalize found : ({ p with errno := i.errno.getD p.errno } : Process) = q
  have errno : i.errno.getD p.errno = q.errno := by rw [← found]
  have data : p.data = q.data := by rw [← found]
  rw [Request.create, found, Option.map_map, Isolated, errno, data]
  cases method : i.method with
  | get => simp [Request.getQueryString, method, Incoming.ownText]
  | unknown => simp [Request.getQueryString, method]
  | post =>
    by_cases fatal : q.errno ≠ ERANGE ∧ i.Overruns
    · rw [getQueryString_overruns method fatal.1 fatal.2]
      constructor
      · intro made
        cases made
      · intro isolated
        exact absurd fatal isolated.1
    by_cases readable : q.errno ≠ ERANGE ∧ i.Readable
    · have fits : ¬ i.Overruns := fun overruns => fatal ⟨readable.1, overruns⟩
      obtain ⟨p', made⟩ := getQueryString_reads reads method readable.1 fits readable.2 text
      rw [made, Option.map_some, Function.comp_apply]
      exact ⟨fun _ => ⟨fatal, .inl readable⟩, fun _ => rfl⟩
    · obtain ⟨p', made⟩ := getQueryString_keeps reads method fatal readable
      rw [made, Option.map_some, Function.comp_apply, Option.some_inj]
      exact ⟨fun same => ⟨fatal, .inr same⟩, fun isolated => isolated.2.resolve_left readable⟩

/-- In every history of requests, each one is given the queries of its own
environment and body exactly when the state it found was isolated. -/
theorem queries_own_iff (reads : ReadsWhole fread) {p : Option Process} {trace : List Served}
    (run : Reaches (serve fread) (some Process.start) p trace) :
    ∀ x ∈ trace, 0 ∉ x.incoming.stdin →
      (x.request.map Request.queries = some (Queries.parse x.incoming.ownText) ↔
        Isolated x.before x.incoming) := by
  refine run.invariant (I := fun _ trace => ∀ x ∈ trace, 0 ∉ x.incoming.stdin →
    (x.request.map Request.queries = some (Queries.parse x.incoming.ownText) ↔
      Isolated x.before x.incoming)) (by simp) ?_
  intro state trace i state' out _ before _ stepped x member text
  rcases List.mem_append.mp member with old | new
  · exact before x old text
  cases state with
  | none => cases stepped
  | some p =>
    have own := create_own_iff reads p i
    simp only [serve] at stepped
    split at stepped <;> rename_i made <;> cases stepped <;>
      (obtain rfl := List.mem_singleton.mp new; rw [made] at own; exact own text)

/-- Two requests with the same environment and body are given the same queries
after any two histories that leave them isolated. -/
theorem isolated_agree (reads : ReadsWhole fread) {p q : Process} {i j : Incoming}
    (text : 0 ∉ i.stdin) (same : i.ownText = j.ownText) (stdin : i.stdin = j.stdin)
    (left : Isolated p i) (right : Isolated q j) :
    (Request.create fread p i).map (fun x => x.1.queries) =
      (Request.create fread q j).map (fun x => x.1.queries) := by
  rw [(create_own_iff reads p i text).mpr left,
    (create_own_iff reads q j (stdin ▸ text)).mpr right, same]

namespace Sample

/-- `fread` itself. -/
def wholeRead (siz : Nat) (body : Bytes) : Option Bytes :=
  if 0 < siz ∧ siz ≤ body.length then some (body.take siz) else none

/-- A POST with this CONTENT_LENGTH and body. -/
def incoming (length body : String) : Incoming where
  getenv name := if name = "REQUEST_METHOD" then some (ascii "POST")
    else if name = "CONTENT_LENGTH" then some (ascii length) else none
  stdin := ascii body
  malloc _ := true
  errno := none

/-- A POST with a body, and one without. -/
def leaky : List Incoming := [incoming "12" "sid=7&data=x", incoming "0" ""]

end Sample

open Sample in

/-- A POST that announces no body is given the session id, and the data, of
the POST before it; the same request given to a fresh process has neither. -/
theorem queries_leak :
    (∃ p x y, exec (serve wholeRead) (some .start) leaky = some (p, [x, y]) ∧
      y.request.map (fun r => (r.queries.getSessionId, r.queries.getData)) =
        some (ascii "7", ascii "x")) ∧
    (∃ p y, exec (serve wholeRead) (some .start) leaky.tail = some (p, [y]) ∧
      y.request.map (fun r => (r.queries.getSessionId, r.queries.getData)) = some ([], [])) ∧
    Queries.getSessionId (Queries.parse (incoming "0" "").ownText) = [] := by
  refine ⟨⟨_, _, _, rfl, by decide⟩, ⟨_, _, rfl, by decide⟩, by decide⟩

open Sample in
/-- The second of these POSTs is given its own queries exactly if the state it
found was isolated, which it was not. -/
theorem queries_own_iff_leaky :
    ∃ p x y, exec (serve wholeRead) (some .start) leaky = some (p, [x, y]) ∧
      (y.request.map Request.queries = some (Queries.parse y.incoming.ownText) ↔
        Isolated y.before y.incoming) := by
  refine ⟨_, _, _, rfl, ?_⟩
  have reached := reaches_of_exec (show exec (serve wholeRead) (some .start) leaky =
    some (_, [_, _]) from rfl)
  exact queries_own_iff (fun _ _ => rfl) reached _ (List.mem_cons_of_mem _ List.mem_cons_self)
    (by decide)

end LinearFcgi
