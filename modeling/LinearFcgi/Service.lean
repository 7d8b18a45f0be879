import LinearFcgi.BodyBuffer
import LinearFcgi.Iterations

/-! `Server::run` from `FCGI_Accept` to the answer. Two things the server thread
does end the process there: it clears memory past the buffer of a body, and it
copies a chunk of a read queue to the null pointer of a refused `malloc`. Where
neither happens each request is answered once, and the storage lock is balanced. -/
namespace LinearFcgi

open TraceMachine

/-- Both threads, with what `Request::create` keeps from one request to the next. -/
structure Service where
  sys : Sys
  process : Process

inductive ServiceAction where
  /-- `FCGI_Accept` returns; `uuid` is what `uuid_generate` would give -/
  | accept (i : Incoming) (uuid : Option Bytes)
  /-- anything else that can happen -/
  | sys (a : Action)

inductive ServiceEvent where
  | sys (e : Event)
  /-- the server thread brought the process down, at work on this request -/
  | died (n : Nat)

namespace Service

def start (h : Host) : Service := ⟨.start h, .start⟩

/-- One step of the process, which reads a request before it handles it. -/
def step (h : Host) (fread : Nat → Bytes → Option Bytes) :
    Step Service ServiceAction ServiceEvent := fun u a =>
  match a with
  | .accept i uuid =>
    if u.sys.fault ∨ u.sys.server ≠ .accept then none
    else match Request.create fread u.process i with
      | none => some (⟨{ u.sys with fault := true }, u.process⟩, [.died (u.sys.exchange + 1)])
      | some (req, process) => (LinearFcgi.step h u.sys (.accept req uuid)).map fun r =>
          (⟨r.1, process⟩, r.2.map .sys)
  | .sys (.accept _ _) => none
  | .sys (.server o) => (LinearFcgi.step h u.sys (.server o)).map fun r =>
      (⟨r.1, u.process⟩, r.2.map .sys ++ if r.1.fault then [.died r.1.exchange] else [])
  | .sys a => (LinearFcgi.step h u.sys a).map fun r => (⟨r.1, u.process⟩, r.2.map .sys)

/-- The step does not end the process in the server thread: it does not read the
body of a POST that announces `-1` bytes while `errno` is not `ERANGE` and
`malloc` returns something for no bytes, and does not copy a chunk for which
`malloc` refuses memory. -/
def Spares (u : Service) : ServiceAction → Prop
  | .accept i _ => ¬ (i.method = .post ∧ i.errno.getD u.process.errno ≠ ERANGE ∧
      MinusOne (i.envs .contentLength) ∧ i.malloc 0 = true)
  | .sys (.server o) => ¬ (o = .noCopy ∧ u.sys.copies = true)
  | .sys _ => True

/-- What the two threads did. -/
def events (trace : List ServiceEvent) : List Event :=
  trace.filterMap fun | .sys e => some e | .died _ => none

/-- The requests the server thread did not survive. -/
def deaths (trace : List ServiceEvent) : List Nat :=
  trace.filterMap fun | .died n => some n | .sys _ => none

/-- No request is accepted, no wait ends for nothing, and the process is spared. -/
def goesOn (u : Service) : ServiceAction → Prop
  | .accept _ _ => False
  | .sys a => LinearFcgi.goesOn u.sys a ∧ Spares u (.sys a)

def moves (u : Service) : ServiceAction → List Outcome
  | .accept _ _ => []
  | .sys a => serverMoves u.sys a

/-- Every request is answered once, and the storage lock is balanced; what brings
the loop thread down is not counted here. -/
structure Answers (h : Host) (fread : Nat → Bytes → Option Bytes) (u : Service)
    (trace : List ServiceEvent) : Prop where
  /-- the server thread has survived every request -/
  survives : deaths trace = []
  /-- requests and answers alternate, with at most one answer due -/
  turns : turns (events trace) ++ u.sys.owed = dialogue u.sys.exchange
  /-- the storage is not locked by who has it -/
  acquires : ∀ o, u.sys.Acquires h o → u.sys.storageLock ≠ some .server
  /-- and not unlocked by who has not -/
  releases : ∀ o, u.sys.Releases h o → u.sys.storageLock = some .server
  /-- between two requests it is not locked -/
  released : u.sys.server = .accept → u.sys.storageLock ≠ some .server
  /-- any request is taken up -/
  accepts : u.sys.fault = false → u.sys.server = .accept →
    ∀ i uuid, (∀ id ∈ uuid, id.length = 36) → Spares u (.accept i uuid) →
    ∃ u' out, step h fread u (.accept i uuid) = some (u', out) ∧ u'.sys.fault = false ∧
      u'.sys.exchange = u.sys.exchange + 1
  /-- the server thread can go on whatever the calls it makes return, or the
  loop thread gives it the lock after a number of steps of its own -/
  moves : u.sys.fault = false → u.sys.server ≠ .accept →
    (∀ o, u.sys.May o → Spares u (.sys (.server o)) →
      ∃ u' out, step h fread u (.sys (.server o)) = some (u', out) ∧ u'.sys.fault = false) ∨
    u.sys.storageLock = some .loop ∧
      ∀ o, ∃ u' out, step h fread u (.sys (.loop o)) = some (u', out) ∧
        (u'.sys.storageLock = none ∨
          u'.sys.storageLock = some .loop ∧ u'.sys.loop.rank < u.sys.loop.rank)
  /-- and unless the wait for a connection is prolonged, only so many steps are left -/
  ends : ∀ t past later, Run (record (step h fread) Service.moves)
    (fun x a => x.1.goesOn a) (u, []) (t, past) later →
    past.length + t.sys.server.rank ≤ u.sys.server.rank

instance : DecidablePred MinusOne := fun s => decidable_of_iff _ (strtol_eq_neg_one_iff s)

instance (u : Service) (a : ServiceAction) : Decidable (Spares u a) :=
  match a with
  | .accept _ _ => inferInstanceAs (Decidable (¬ _))
  | .sys (.server _) => inferInstanceAs (Decidable (¬ _))
  | .sys (.accept _ _) | .sys (.loop _) | .sys .onAsync | .sys (.onConnect _ _)
  | .sys (.onRead _ _) | .sys .onTimer | .sys (.onDisconnect _) | .sys (.clock _) =>
    inferInstanceAs (Decidable True)

end Service

/-! ## Reading the request -/

/-- A body is read past its buffer for the one length that wraps. -/
theorem create_eq_none (fread : Nat → Bytes → Option Bytes) {p : Process} {i : Incoming} :
    Request.create fread p i = none ↔ i.method = .post ∧ i.errno.getD p.errno ≠ ERANGE ∧
      MinusOne (i.envs .contentLength) ∧ i.malloc 0 = true := by
  generalize errno : i.errno.getD p.errno = e
  have fits := buffer_fits_iff { p with errno := e } i
  rw [Request.create, errno, Option.map_eq_none_iff, ← not_iff_not, ← fits]
  constructor
  · intro made b buffered
    rw [getQueryString_buffered buffered] at made
    obtain ⟨-, -, -, -, rfl⟩ := buffer_eq_some.mp buffered
    dsimp only at made
    have inside : ¬ (i.length.1 + 1) % 2 ^ 64 < i.length.1 := fun past => made (by rw [if_pos past])
    have below : i.length.1 < 2 ^ 64 := toSize_lt _
    exact ⟨by dsimp only; omega, by dsimp only; omega, by dsimp only; omega⟩
  · intro fits
    cases method : i.method with
    | get | unknown => simp [Request.getQueryString, method]
    | post =>
      cases buffered : Request.buffer { p with errno := e } i with
      | none =>
        obtain ⟨p', kept⟩ := @getQueryString_unbuffered fread _ _ method buffered
        rw [kept]
        exact Option.some_ne_none _
      | some b =>
        have inside := (fits b buffered).cleared
        rw [getQueryString_buffered buffered, if_neg (by omega)]
        split <;> exact Option.some_ne_none _

section

variable {h : Host} {s s' : Sys} {out : List Event}

/-- What `FCGI_Accept` returns is taken up. -/
theorem accept_moves (req : Request) {uuid : Option Bytes} (alive : s.fault = false)
    (idle : s.server = .accept) (written : ∀ id ∈ uuid, id.length = 36) :
    ∃ s' out, step h s (.accept req uuid) = some (s', out) ∧ s'.fault = false ∧
      s'.exchange = s.exchange + 1 := by
  have whole : uuid.any (·.length ≠ 36) = false := by
    cases uuid with
    | none => rfl
    | some id => simpa using written id rfl
  simp only [step, alive, whole, idle, Bool.false_eq_true, ↓reduceIte]
  split
  · exact ⟨_, _, rfl, rfl, rfl⟩
  · exact ⟨_, _, rfl, rfl, rfl⟩

namespace Service

variable {fread : Nat → Bytes → Option Bytes} {u u' : Service} {a : ServiceAction}
  {later trace : List ServiceEvent}

@[simp] theorem events_append (trace later : List ServiceEvent) :
    events (trace ++ later) = events trace ++ events later := List.filterMap_append

@[simp] theorem deaths_append (trace later : List ServiceEvent) :
    deaths (trace ++ later) = deaths trace ++ deaths later := List.filterMap_append

@[simp] theorem events_map (out : List Event) : events (out.map .sys) = out := by
  simp [events, List.filterMap_map]

@[simp] theorem deaths_map (out : List Event) : deaths (out.map .sys) = [] := by
  simp [deaths, List.filterMap_map]

/-! ## One step -/

/-- Every way through `step`. -/
inductive Transition (h : Host) (fread : Nat → Bytes → Option Bytes) (u : Service) :
    ServiceAction → Service → List ServiceEvent → Prop where
  | overrun {i : Incoming} {uuid : Option Bytes} (unread : Request.create fread u.process i = none) :
      Transition h fread u (.accept i uuid) ⟨{ u.sys with fault := true }, u.process⟩
        [.died (u.sys.exchange + 1)]
  | accept {i : Incoming} {uuid : Option Bytes} {req : Request} {process : Process} {sys : Sys}
      {out : List Event} (read : Request.create fread u.process i = some (req, process))
      (moved : LinearFcgi.step h u.sys (.accept req uuid) = some (sys, out)) :
      Transition h fread u (.accept i uuid) ⟨sys, process⟩ (out.map .sys)
  | server {o : Outcome} {sys : Sys} {out : List Event}
      (moved : LinearFcgi.step h u.sys (.server o) = some (sys, out)) :
      Transition h fread u (.sys (.server o)) ⟨sys, u.process⟩
        (out.map .sys ++ if sys.fault then [.died sys.exchange] else [])
  | other {b : Action} {sys : Sys} {out : List Event} (others : ∀ o, b ≠ .server o)
      (moved : LinearFcgi.step h u.sys b = some (sys, out)) :
      Transition h fread u (.sys b) ⟨sys, u.process⟩ (out.map .sys)

theorem step_cases (stepped : step h fread u a = some (u', later)) :
    u.sys.fault = false ∧ Transition h fread u a u' later := by
  cases a with
  | accept i uuid =>
    simp only [step] at stepped
    split at stepped
    · cases stepped
    rename_i taken
    refine ⟨by simpa using (not_or.mp taken).1, ?_⟩
    split at stepped
    · rename_i unread
      cases stepped
      exact .overrun unread
    · rename_i req process read
      obtain ⟨⟨sys, out⟩, moved, same⟩ := Option.map_eq_some_iff.mp stepped
      cases same
      exact .accept read moved
  | sys b =>
    by_cases server : ∃ o, b = .server o
    · obtain ⟨o, rfl⟩ := server
      obtain ⟨⟨sys, out⟩, moved, same⟩ := Option.map_eq_some_iff.mp stepped
      cases same
      exact ⟨(LinearFcgi.step_cases moved).1, .server moved⟩
    · have plain : (LinearFcgi.step h u.sys b).map (fun r =>
          ((⟨r.1, u.process⟩ : Service), r.2.map ServiceEvent.sys)) = some (u', later) := by
        cases b
        case accept => cases stepped
        case server o => exact absurd ⟨o, rfl⟩ server
        all_goals exact stepped
      obtain ⟨⟨sys, out⟩, moved, same⟩ := Option.map_eq_some_iff.mp plain
      cases same
      exact ⟨(LinearFcgi.step_cases moved).1, .other (fun o same => server ⟨o, same⟩) moved⟩

/-- Nothing happens after the end of the process. -/
theorem dead (fault : u.sys.fault = true) (a : ServiceAction) : step h fread u a = none := by
  cases stepped : step h fread u a with
  | none => rfl
  | some r =>
    have alive := (step_cases stepped).1
    rw [fault] at alive
    cases alive

/-- The step ends the process in the server thread if and only if it is not spared. -/
theorem spares_iff (sane : Sane u.sys) (stepped : step h fread u a = some (u', later)) :
    Spares u a ↔ deaths later = [] := by
  obtain ⟨alive, t⟩ := step_cases stepped
  cases t with
  | overrun unread => simpa [deaths, Spares] using (create_eq_none fread).mp unread
  | accept read moved =>
    rw [deaths_map, Spares, ← create_eq_none fread, read]
    simp
  | @server o sys out moved =>
    have survives := server_survives sane alive (LinearFcgi.step_cases moved).2
    rw [deaths_append, deaths_map, Spares, ← survives]
    cases sys.fault <;> simp [deaths]
  | @other b sys out others moved =>
    rw [deaths_map]
    cases b <;> first | exact iff_of_true trivial rfl | exact absurd rfl (others _)

/-- Until then it is a step of the two threads. -/
theorem step_sys (survived : deaths later = []) (t : Transition h fread u a u' later) :
    ∃ b, LinearFcgi.step h u.sys b = some (u'.sys, events later) := by
  cases t with
  | overrun unread => cases survived
  | accept read moved => exact ⟨_, by rwa [events_map]⟩
  | @server o sys out moved =>
    rw [deaths_append, deaths_map, List.nil_append] at survived
    have alive : sys.fault = false := by
      cases fault : sys.fault with
      | false => rfl
      | true =>
        rw [fault] at survived
        cases survived
    refine ⟨.server o, ?_⟩
    simpa [alive, events] using moved
  | other others moved => exact ⟨_, by rwa [events_map]⟩

/-! ## Whole runs -/

theorem survived_before (survived : deaths (trace ++ later) = []) : deaths trace = [] := by
  rw [deaths_append, List.append_eq_nil_iff] at survived
  exact survived.1

/-- What the process did before is a run of its threads. -/
theorem sys_of_run {guard : Service → ServiceAction → Prop}
    (run : Run (step h fread) guard (start h) u trace) (survived : deaths trace = []) :
    Reaches (LinearFcgi.step h) (.start h) u.sys (events trace) := by
  refine run.invariant_while (P := fun trace => deaths trace = []) (I := fun u trace =>
    Reaches (LinearFcgi.step h) (.start h) u.sys (events trace)) (fun _ _ => survived_before)
    .start ?_ survived
  intro u trace a u' later _ before _ stepped survived
  rw [deaths_append, List.append_eq_nil_iff] at survived
  obtain ⟨b, moved⟩ := step_sys survived.2 (step_cases stepped).2
  rw [events_append]
  exact before.next trivial moved

/-- The server thread survives what spares it, and nothing else. -/
theorem survives_iff (run : Reaches (step h fread) (start h) u trace) :
    deaths trace = [] ↔ Run (step h fread) Spares (start h) u trace := by
  constructor
  · intro survived
    refine run.invariant_while (P := fun trace => deaths trace = []) (I := fun u trace =>
      Run (step h fread) Spares (start h) u trace) (fun _ _ => survived_before) .start ?_ survived
    intro u trace a u' later run spared _ stepped survived
    have sane := sane_of_run (sys_of_run run (survived_before survived))
    rw [deaths_append, List.append_eq_nil_iff] at survived
    exact spared.next ((spares_iff sane stepped).mpr survived.2) stepped
  · intro spared
    refine spared.invariant (I := fun _ trace => deaths trace = []) rfl ?_
    intro u trace a u' later run survived spares stepped
    have sane := sane_of_run (sys_of_run run survived)
    rw [deaths_append, survived, (spares_iff sane stepped).mp spares]
    rfl

/-- Between two requests, one that spares the process is taken up. -/
theorem accepts_spared {i : Incoming} {uuid : Option Bytes} (alive : u.sys.fault = false)
    (idle : u.sys.server = .accept) (written : ∀ id ∈ uuid, id.length = 36)
    (spares : Spares u (.accept i uuid)) :
    ∃ u' out, step h fread u (.accept i uuid) = some (u', out) ∧ u'.sys.fault = false ∧
      u'.sys.exchange = u.sys.exchange + 1 := by
  obtain ⟨⟨req, process⟩, read⟩ :=
    Option.ne_none_iff_exists'.mp (mt (create_eq_none fread).mp spares)
  obtain ⟨s', out, moved, survived, next⟩ := accept_moves (h := h) req alive idle written
  refine ⟨⟨s', process⟩, out.map .sys, ?_, survived, next⟩
  simp [step, alive, idle, read, moved]

/-- At work on a request, the server thread can go on, or waits for a lock that
the loop thread is on its way to give up. -/
theorem moves_spared (sane : Sane u.sys) (alive : u.sys.fault = false)
    (busy : u.sys.server ≠ .accept) :
    (∀ o, u.sys.May o → Spares u (.sys (.server o)) →
      ∃ u' out, step h fread u (.sys (.server o)) = some (u', out) ∧ u'.sys.fault = false) ∨
    u.sys.storageLock = some .loop ∧
      ∀ o, ∃ u' out, step h fread u (.sys (.loop o)) = some (u', out) ∧
        (u'.sys.storageLock = none ∨
          u'.sys.storageLock = some .loop ∧ u'.sys.loop.rank < u.sys.loop.rank) := by
  by_cases held : u.sys.storageLock = some .loop
  · refine .inr ⟨held, fun o => ?_⟩
    obtain ⟨⟨s', out⟩, moved⟩ := Option.isSome_iff_exists.mp (loop_moves (h := h) sane held o)
    have stepped : LinearFcgi.step h u.sys (.loop o) = some (s', out) := by
      simpa only [LinearFcgi.step, alive, Bool.false_eq_true, ↓reduceIte] using moved
    refine ⟨⟨s', u.process⟩, out.map .sys, by simp [step, stepped], ?_⟩
    exact loop_rank_step sane held (LinearFcgi.step_cases stepped).2
  · refine .inl fun o may spares => ?_
    obtain ⟨⟨s', out⟩, moved⟩ :=
      Option.isSome_iff_exists.mp (server_moves (h := h) sane busy may fun _ _ => held)
    have stepped : LinearFcgi.step h u.sys (.server o) = some (s', out) := by
      simpa only [LinearFcgi.step, alive, Bool.false_eq_true, ↓reduceIte] using moved
    have survived := mt (server_survives sane alive (LinearFcgi.step_cases stepped).2).mp spares
    refine ⟨⟨s', u.process⟩, out.map .sys ++ _, by simp [step, stepped]; rfl, ?_⟩
    exact Bool.eq_false_iff.mpr survived

theorem spares_of_goesOn (allowed : u.goesOn a) : Spares u a := by
  cases a with
  | accept i uuid => exact absurd allowed id
  | sys b => exact allowed.2

/-- What spares the process lowers the rank of the server thread by what it counts. -/
theorem rank_step (spared : Run (step h fread) Spares (start h) u trace) (allowed : u.goesOn a)
    (stepped : step h fread u a = some (u', later)) :
    (moves u a).length + u'.sys.server.rank ≤ u.sys.server.rank := by
  have reached := sys_of_run spared ((survives_iff spared.reaches).mpr spared)
  obtain ⟨alive, t⟩ := step_cases stepped
  cases t with
  | overrun unread => exact absurd allowed id
  | accept read moved => exact absurd allowed id
  | server moved =>
    have t := (LinearFcgi.step_cases moved).2
    refine rank_counts reached allowed.1 t fun o _ => ?_
    exact Bool.eq_false_iff.mpr (mt (server_survives (sane_of_run reached) alive t).mp allowed.2)
  | other others moved =>
    exact rank_counts reached allowed.1 (LinearFcgi.step_cases moved).2
      fun o server => absurd server (others o)

end Service

/-- Every request is answered once, and the storage lock is balanced, in exactly
those runs in which the server thread is spared: it neither reads the body of a
POST that announces `-1` bytes nor copies a chunk to where `malloc` gave nothing. -/
theorem one_answer {fread : Nat → Bytes → Option Bytes} {u : Service} {trace : List ServiceEvent}
    (run : Reaches (Service.step h fread) (.start h) u trace) :
    u.Answers h fread trace ↔
      Run (Service.step h fread) Service.Spares (.start h) u trace := by
  refine ⟨fun answers => (Service.survives_iff run).mp answers.survives, fun spared => ?_⟩
  have survives := (Service.survives_iff run).mpr spared
  have reached := Service.sys_of_run run survives
  have sane := sane_of_run reached
  refine ⟨survives, turns_of_run reached, fun o => not_holds_of_acquires sane,
    fun o => holds_of_releases sane, ?_, fun alive idle i uuid written spares =>
    Service.accepts_spared alive idle written spares, Service.moves_spared sane, ?_⟩
  · intro idle
    rw [Ne, sane.serverHolds, idle]
    exact Bool.false_ne_true
  · intro t past later rest
    refine Run.counted (fun u => u.sys.server.rank) ?_ rest
    intro u between a u' out path allowed stepped
    have spared := spared.append (path.mono fun _ _ => Service.spares_of_goesOn)
    exact Service.rank_step spared allowed stepped

end

/-! ## A process that answers, and two that do not -/

namespace Sample

/-- A GET with this query. -/
def query (text : String) : Incoming where
  getenv name := if name = "REQUEST_METHOD" then some (ascii "GET")
    else if name = "QUERY_STRING" then some (ascii text) else none
  stdin := []
  malloc _ := true
  errno := none

/-- A browser asks for a session, and gets it. -/
def opened : List ServiceAction :=
  .accept (query "c=connect&ch=ch") (some uuid) :: connected.tail.map .sys

/-- It posts a message. -/
def answered : List ServiceAction :=
  opened ++ .accept (incoming "50" "sid=123e4567-e89b-12d3-a456-426614174000&data=aGk=") none ::
    List.replicate 7 (.sys (.server .ok))

/-- It polls for a chunk, and `malloc` refuses the copy of it. -/
def uncopied : List ServiceAction :=
  opened ++ [.sys (.onRead 0 (some (ascii "he"))), .sys (.loop .ok),
    .accept (query "c=poll&sid=123e4567-e89b-12d3-a456-426614174000") none] ++
    List.replicate 4 (.sys (.server .ok)) ++ [.sys (.server .noCopy)]

end Sample

/-- The session is asked for, the message posted, and both are answered. -/
theorem one_answer_posted : ∃ u trace,
    exec (restrict (Service.step Sample.host Sample.wholeRead) Service.Spares)
      (.start Sample.host) Sample.answered = some (u, trace) ∧
    turns (Service.events trace) = [.request 1, .answer 1, .request 2, .answer 2] ∧
    u.sys.storageLock ≠ some .server := by
  obtain ⟨⟨u, trace⟩, ran, ends⟩ := Option.map_eq_some_iff.mp
    (show (exec (restrict (Service.step Sample.host Sample.wholeRead) Service.Spares)
      (.start Sample.host) Sample.answered).map
      (fun r => (r.1.sys.server, r.1.sys.exchange)) = some (.accept, 2) by decide +kernel)
  obtain ⟨idle, two⟩ := Prod.mk.inj ends
  have spared := run_of_exec ran
  have answers := (one_answer spared.reaches).mpr spared
  refine ⟨u, trace, ran, ?_, answers.released idle⟩
  have balanced := answers.turns
  rw [two, Sys.owed, if_pos idle, List.append_nil] at balanced
  exact balanced

/-- A poll that gets no memory for the copy of a chunk is not answered, and a
POST that announces `-1` bytes is not: the process is gone, in the one case with
the storage locked. -/
theorem unanswered :
    (∃ u trace, exec (Service.step Sample.host Sample.wholeRead) (.start Sample.host)
        Sample.uncopied = some (u, trace) ∧
      turns (Service.events trace) = [.request 1, .answer 1, .request 2] ∧
      u.sys.storageLock = some .server ∧
      (∀ a, Service.step Sample.host Sample.wholeRead u a = none) ∧
      ¬ u.Answers Sample.host Sample.wholeRead trace) ∧
    ∃ u trace, exec (Service.step Sample.host Sample.wholeRead) (.start Sample.host)
        [.accept Sample.minusOne none] = some (u, trace) ∧
      trace = [.died 1] ∧ (∀ a, Service.step Sample.host Sample.wholeRead u a = none) ∧
      ¬ u.Answers Sample.host Sample.wholeRead trace := by
  constructor
  · obtain ⟨⟨u, trace⟩, ran, ends⟩ := Option.map_eq_some_iff.mp
      (show (exec (Service.step Sample.host Sample.wholeRead) (.start Sample.host)
        Sample.uncopied).map (fun r => (r.1.sys.storageLock, r.1.sys.fault,
          turns (Service.events r.2), Service.deaths r.2)) =
        some (some .server, true, [.request 1, .answer 1, .request 2], [2]) by decide +kernel)
    simp only [Prod.mk.injEq] at ends
    obtain ⟨locked, dead, asked, died⟩ := ends
    refine ⟨u, trace, ran, asked, locked, Service.dead dead, fun answers => ?_⟩
    rw [answers.survives] at died
    cases died
  · refine ⟨_, _, rfl, rfl, Service.dead rfl, fun answers => ?_⟩
    cases answers.survives

end LinearFcgi
