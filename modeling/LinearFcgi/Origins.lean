import LinearFcgi.Channels
import LinearFcgi.Exchanges
import LinearFcgi.Selection

/-! Which origins may open a session, and which may write to it. The policy is
applied twice, when a session is created and whenever a message is posted, and
both times to the same list: the client carries the origins of its backend from
the one to the other. -/
namespace LinearFcgi

open TraceMachine

/-- The request is the last the server thread accepted, and is not answered. -/
def Handling (trace : List Event) (n : Nat) (req : Request) : Prop :=
  ∃ before during, trace = before ++ .accepted n req :: during ∧
    (∀ m req, .accepted m req ∉ during) ∧ ∀ m code body, .response m code body ∉ during

/-- The request asks for a new session. -/
structure Request.Connects (req : Request) : Prop where
  method : req.getMethod = .get
  command : req.getQueries.getCommand = ascii "connect"
  unnamed : req.getQueries.getSessionId = []

/-- The session was created while the server thread handled a connect request
to which the configuration grants the backend. -/
def Opened (h : Host) (trace : List Event) (c : Addr) (id : Bytes) (backend : Backend) : Prop :=
  ∃ past n later req, trace = past ++ .created n c id :: later ∧ Handling past n req ∧
    req.Connects ∧ Granted h.accepts h.config req.getQueries.getChannel req.getOrigin backend

/-- The client the server thread is about to write to. -/
def ServerPc.writesTo : ServerPc → Option Addr
  | .writeTest c _ | .writeProduce c _ => some c
  | _ => none

section

variable {h : Host} {s s' : Sys} {a : Action} {out trace : List Event} {c : Addr} {id : Bytes}

theorem connects_of_route {req : Request} {uuid : Option Bytes} {backend : Backend}
    (routed : route h req uuid = .ok (id, .connect backend)) : uuid = some id ∧ req.Connects ∧
      Granted h.accepts h.config req.getQueries.getChannel req.getOrigin backend := by
  rw [← getBackend_eq_some]
  unfold route at routed
  grind [Request.Connects]

theorem post_of_route {req : Request} {uuid : Option Bytes}
    (routed : route h req uuid = .ok (id, .post)) : req.getMethod = .post := by
  unfold route at routed
  grind

/-! ## One step -/

theorem Transition.creates {n : Nat} (t : Transition h s a s' out)
    (created : .created n c id ∈ out) : ∃ backend, s.server = .locked (.connect backend) ∧
      n = s.exchange ∧ c = s.storage.next ∧ id = s.uuid ∧ s'.storage.next = c + 1 ∧
      out = [.created n c id] := by
  cases t
  case create o backend at_ unknown room alloc =>
    obtain ⟨rfl, rfl, rfl⟩ : n = s.exchange ∧ c = s.storage.next ∧ id = s.uuid := by
      simpa using created
    exact ⟨backend, at_, rfl, rfl, rfl, rfl, rfl⟩
  case destroy o d cl at_ live =>
    cases deleted : (s.storage.destroy cl.id).2 <;> simp [deleted] at created
  all_goals simp at created

theorem Transition.writes {n : Nat} {data : Bytes} (t : Transition h s a s' out)
    (written : .written n c data ∈ out) :
    s.server = .writeProduce c data ∧ n = s.exchange ∧ out = [.written n c data] := by
  cases t
  case writeProduce o d data' cl at_ live =>
    obtain ⟨rfl, rfl, rfl⟩ : n = s.exchange ∧ c = d ∧ data = data' := by simpa using written
    exact ⟨at_, rfl, rfl⟩
  case destroy o d cl at_ live =>
    cases deleted : (s.storage.destroy cl.id).2 <;> simp [deleted] at written
  all_goals simp at written

/-- `onPost` comes to write to a client by a test of its origins. -/
theorem Transition.comesToWrite (t : Transition h s a s' out)
    (writing : s'.server.writesTo = some c) :
    (s.server.writesTo = some c ∧ s'.request = s.request) ∨
    (s.server = .locked .post ∧ s'.request = s.request ∧ ∃ cl, s'.storage.heap c = some cl ∧
      isAllowOrigin h.accepts s.request.getOrigin cl.allowOrigins = true) := by
  cases t
  case enter o handler d next allowed at_ found enters =>
    cases enters with
    | post given =>
      obtain rfl : d = c := Option.some.inj writing
      exact .inr ⟨at_, rfl, allowed rfl⟩
    | disconnect => cases writing
    | poll => cases writing
  case skip o handler next at_ skips => cases skips <;> cases writing
  case disconnectIdle o caller d cl at_ live free idle => cases caller <;> cases writing
  case disconnectSend o caller d at_ => cases caller <;> cases writing
  case writeAllow o d data cl at_ live free writable =>
    left
    rw [at_]
    exact ⟨writing, rfl⟩
  all_goals
    first
    | exact .inl ⟨writing, rfl⟩
    | cases writing

theorem Transition.silent (busy : s'.server ≠ .accept) (t : Transition h s a s' out) :
    ∀ m code body, .response m code body ∉ out := by
  intro m code body answered
  cases t
  case destroy o d cl at_ live =>
    cases deleted : (s.storage.destroy cl.id).2 <;> simp [deleted] at answered
  all_goals first | exact busy rfl | simp at answered

theorem ServerPc.client_of_writesTo {pc : ServerPc} (writing : pc.writesTo = some c) :
    pc.client = some c := by
  cases pc <;> first | exact writing | cases writing

/-! ## Whole runs -/

section Run

variable {guard : Sys → Action → Prop}

theorem handling_of_run (run : Run (step h) guard (.start h) s trace)
    (busy : s.server ≠ .accept) : Handling trace s.exchange s.request := by
  obtain ⟨before, during, ⟨split, -, only⟩, unanswered⟩ := exchange_of_run
    (P := fun _ _ during => ∀ m code body, .response m code body ∉ during)
    (fun _ _ _ _ _ _ _ _ _ => nofun)
    (fun s before during a s' out _ unanswered _ t _ busy' m code body answered => by
      rcases List.mem_append.mp answered with earlier | now
      · exact unanswered m code body earlier
      · exact t.silent busy' m code body now)
    run busy
  exact ⟨before, during, split, only, unanswered⟩

theorem created_lt (run : Run (step h) guard (.start h) s trace) :
    ∀ n c id, .created n c id ∈ trace → c < s.storage.next := by
  refine run.invariant (I := fun s trace => ∀ n c id, .created n c id ∈ trace →
    c < s.storage.next) (fun n c id => nofun) ?_
  intro s trace a s' out _ below _ stepped n c id created
  have t := (step_cases stepped).2
  rcases List.mem_append.mp created with earlier | now
  · exact (below n c id earlier).trans_le t.next_le
  · obtain ⟨-, -, -, -, -, next, -⟩ := t.creates now
    rw [next]
    exact Nat.lt_succ_self c

/-- An address is used for one session only. -/
theorem created_once (run : Run (step h) guard (.start h) s trace) {past later : List Event}
    {n : Nat} (split : trace = past ++ .created n c id :: later) :
    ∀ m id', .created m c id' ∉ later := by
  intro m id' again
  obtain ⟨between, rest, rfl⟩ := List.append_of_mem again
  have first := run.every (P := fun before e => ∀ m c id, e = .created m c id →
    ∀ n id', .created n c id' ∉ before) ?_ (past ++ .created n c id :: between)
    (.created m c id') rest (by simp [split]) m c id' rfl n id
  · exact first (by simp)
  · rintro s trace a s' out run - stepped before e after emitted m c id rfl n id' earlier
    obtain ⟨-, -, -, rfl, -, -, alone⟩ :=
      (step_cases stepped).2.creates (emitted ▸ List.mem_append_right before List.mem_cons_self)
    rcases List.mem_append.mp earlier with there | here
    · exact Nat.lt_irrefl _ (created_lt run n _ id' there)
    · rw [alone] at emitted
      cases before with
      | nil => cases here
      | cons first rest => simp at emitted

theorem Handling.unique {n : Nat} {req req' : Request} (handling : Handling trace n req)
    (handling' : Handling trace n req') : req = req' := by
  obtain ⟨before, during, rfl, only, -⟩ := handling
  obtain ⟨before', during', split, only', -⟩ := handling'
  obtain ⟨-, same, -⟩ := last_unique (fun e => ∃ m req, e = .accepted m req) split ⟨_, _, rfl⟩
    ⟨_, _, rfl⟩ (by rintro _ member ⟨m, req, rfl⟩; exact only m req member)
    (by rintro _ member ⟨m, req, rfl⟩; exact only' m req member)
  cases same
  rfl

/-- A client belongs to one session, with one backend. -/
theorem Opened.unique (run : Run (step h) guard (.start h) s trace) {id' : Bytes}
    {backend backend' : Backend} (opened : Opened h trace c id backend)
    (opened' : Opened h trace c id' backend') : id = id' ∧ backend = backend' := by
  obtain ⟨past, n, later, req, split, handling, -, granted⟩ := opened
  obtain ⟨past', n', later', req', split', handling', -, granted'⟩ := opened'
  obtain ⟨rfl, same, -⟩ := last_unique (fun e => ∃ m id, e = .created m c id)
    (split.symm.trans split') ⟨_, _, rfl⟩ ⟨_, _, rfl⟩
    (by rintro _ member ⟨m, id, rfl⟩; exact created_once run split m id member)
    (by rintro _ member ⟨m, id, rfl⟩; exact created_once run split' m id member)
  cases same
  obtain rfl := handling.unique handling'
  refine ⟨rfl, Option.some.inj ?_⟩
  rw [← getBackend_eq_some.mpr granted, ← getBackend_eq_some.mpr granted']

theorem Opened.later {backend : Backend} (opened : Opened h trace c id backend) (out : List Event) :
    Opened h (trace ++ out) c id backend := by
  obtain ⟨past, n, later, req, rfl, facts⟩ := opened
  exact ⟨past, n, later ++ out, req, by simp, facts⟩

theorem opened_of_create (run : Run (step h) guard (.start h) s trace) {backend : Backend}
    (at_ : s.server = .locked (.connect backend)) :
    Opened h (trace ++ [.created s.exchange c s.uuid]) c s.uuid backend := by
  obtain ⟨uuid, -, routed⟩ := routed_of_run run (.inr at_)
  obtain ⟨-, connects, granted⟩ := connects_of_route routed
  exact ⟨trace, s.exchange, [], s.request, rfl, handling_of_run run (by rw [at_]; nofun), connects,
    granted⟩

theorem opened_of_created (run : Run (step h) guard (.start h) s trace) {n : Nat}
    (created : .created n c id ∈ trace) : ∃ backend, Opened h trace c id backend := by
  obtain ⟨s₀, before, a, s₁, out, after, run₀, -, stepped, emitted, -, rfl⟩ := run.emitted created
  obtain ⟨backend, at_, rfl, -, rfl, -, rfl⟩ := (step_cases stepped).2.creates emitted
  rw [← List.append_assoc]
  exact ⟨backend, (opened_of_create run₀ at_).later after⟩

/-- A client has the origins of its backend. -/
theorem origins_of_run (run : Run (step h) guard (.start h) s trace) {cl : Client}
    (live : s.storage.heap c = some cl) :
    ∃ backend, Opened h trace c cl.id backend ∧ cl.allowOrigins = backend.origins := by
  refine run.invariant (I := fun s trace => ∀ cl, s.storage.heap c = some cl →
    ∃ backend, Opened h trace c cl.id backend ∧ cl.allowOrigins = backend.origins) ?_ ?_ cl live
  · intro cl live
    cases live
  · intro s trace a s' out run known _ stepped cl live
    rcases client_step (sane_of_run run) (step_cases stepped).2 live with
      ⟨old, kept, sameId, sameOrigins⟩ | ⟨backend, at_, rfl, named, sameOrigins⟩
    · obtain ⟨backend, opened, origins⟩ := known old kept
      exact ⟨backend, sameId ▸ opened.later out, sameOrigins ▸ origins⟩
    · rw [named]
      exact ⟨backend, opened_of_create run at_, sameOrigins⟩

/-- While the server thread is about to write to a client, it is handling a
POST whose origin the client accepts. -/
theorem writing_of_run (run : Run (step h) guard (.start h) s trace)
    (writing : s.server.writesTo = some c) : s.request.getMethod = .post ∧
      ∃ cl, s.storage.heap c = some cl ∧
        isAllowOrigin h.accepts s.request.getOrigin cl.allowOrigins = true := by
  refine run.invariant (I := fun s _ => s.server.writesTo = some c →
    s.request.getMethod = .post ∧ ∃ cl, s.storage.heap c = some cl ∧
      isAllowOrigin h.accepts s.request.getOrigin cl.allowOrigins = true) ?_ ?_ writing
  · intro writing
    cases writing
  · intro s trace a s' out run known _ stepped writing
    have t := (step_cases stepped).2
    have sane := sane_of_run run
    rcases t.comesToWrite writing with ⟨before, same⟩ | ⟨at_, same, found⟩
    · obtain ⟨post, cl, live, allowed⟩ := known before
      obtain ⟨cl', live'⟩ := (sane.step t).serverClient c (ServerPc.client_of_writesTo writing)
      rcases client_step sane t live' with ⟨old, kept, -, sameOrigins⟩ | ⟨backend, at_, -⟩
      · rw [live] at kept
        cases kept
        rw [same]
        exact ⟨post, cl', live', sameOrigins ▸ allowed⟩
      · rw [at_] at before
        cases before
    · obtain ⟨uuid, -, routed⟩ := routed_of_run run (.inr at_)
      rw [same]
      exact ⟨post_of_route routed, found⟩

/-- Whatever requests come in, each session is opened for a request to which
the configuration grants its backend, keeps the origins of this backend, and
takes data only while a POST is handled whose origin these accept. -/
theorem origin_control (run : Reaches (step h) (.start h) s trace) :
    (∀ n c id, .created n c id ∈ trace → ∃! backend, Opened h trace c id backend) ∧
    (∀ id c, s.storage.get id = some c →
      ∃ cl, s.storage.heap c = some cl ∧ cl.id = id ∧ ∃ n, .created n c id ∈ trace) ∧
    (∀ c cl, s.storage.heap c = some cl →
      (∃ backend, Opened h trace c cl.id backend ∧ cl.allowOrigins = backend.origins) ∧
      written c trace = unqueued c trace ++ cl.writeQueue) ∧
    ∀ past n c data later, trace = past ++ .written n c data :: later →
      ∃ req id backend, Handling past n req ∧ req.getMethod = .post ∧
        Opened h past c id backend ∧ OriginAccepted h.accepts req.getOrigin backend.origins := by
  have sane := sane_of_run run
  refine ⟨?_, ?_, ?_, ?_⟩
  · intro n c id created
    obtain ⟨backend, opened⟩ := opened_of_created run created
    exact ⟨backend, opened, fun other opened' => (opened'.unique run opened).2⟩
  · intro id c found
    obtain ⟨cl, live, rfl⟩ := sane.sound.allocated id c found
    obtain ⟨backend, ⟨past, n, later, req, split, -⟩, -⟩ := origins_of_run run live
    exact ⟨cl, live, rfl, n, by simp [split]⟩
  · intro c cl live
    obtain ⟨q, conserved, holds⟩ := writes_conserved run c
    rw [conserved, holds cl live]
    exact ⟨origins_of_run run live, rfl⟩
  · intro past n c data later split
    refine run.every (P := fun past e => ∀ n c data, e = .written n c data →
      ∃ req id backend, Handling past n req ∧ req.getMethod = .post ∧
        Opened h past c id backend ∧ OriginAccepted h.accepts req.getOrigin backend.origins)
      ?_ past _ later split n c data rfl
    rintro s trace a s' out run - stepped before e after emitted n c data rfl
    obtain ⟨at_, rfl, alone⟩ :=
      (step_cases stepped).2.writes (emitted ▸ List.mem_append_right before List.mem_cons_self)
    obtain rfl : before = [] := by
      rw [alone] at emitted
      cases before with
      | nil => rfl
      | cons first rest => simp at emitted
    obtain ⟨post, cl, live, allowed⟩ := writing_of_run (c := c) run (by rw [at_]; rfl)
    obtain ⟨backend, opened, origins⟩ := origins_of_run run live
    rw [List.append_nil]
    exact ⟨s.request, cl.id, backend, handling_of_run run (by rw [at_]; nofun), post, opened,
      origins ▸ (isAllowOrigin_iff h.accepts).mp allowed⟩

end Run

end

/-- The session opened for the channel takes the message posted for it. -/
theorem origin_control_posted : ∃ s trace,
    exec (step Sample.host) (.start Sample.host) Sample.posted = some (s, trace) ∧
    ∃ past data later, trace = past ++ .written 2 0 data :: later ∧
      ∃ req id backend, Handling past 2 req ∧ req.getMethod = .post ∧
        Opened Sample.host past 0 id backend ∧
        OriginAccepted Sample.host.accepts req.getOrigin backend.origins := by
  have ran : exec (step Sample.host) (.start Sample.host) Sample.posted = some (_,
      [.accepted 1 _, .created 1 0 _, .requested 1 _, .dispatched _, .connected 0, .response 1 _ _,
        .accepted 2 Sample.message] ++ .written 2 0 _ :: _) := rfl
  exact ⟨_, _, ran, _, _, _, rfl, (origin_control (reaches_of_exec ran)).2.2.2 _ 2 0 _ _ rfl⟩

end LinearFcgi
