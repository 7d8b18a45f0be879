import LinearFcgi.Origins

/-! How the handlers find the session a request names. Each of them asks the
storage once, under its lock, and what it does from then on concerns the client
it was given; only `onConnect` asks after another id than that of the request. -/
namespace LinearFcgi

open TraceMachine

/-- The client registered under the session id of the request. -/
def Sys.named (s : Sys) : Option Addr := s.storage.get s.request.getQueries.getSessionId

/-- The session id of the request, as an answer echoes it. -/
def Sys.echo (s : Sys) : Bytes :=
  sidBody s.request.getQueries.getCallback s.request.getQueries.getSessionId

/-- The client on which the server thread acted, if it was during the exchange. -/
def Event.acts (n : Nat) : Event → Option Addr
  | .created m c _ | .requested m ⟨_, c⟩ | .disconnecting m c | .live m c | .gone m c
  | .taken m c _ | .empty m c | .polled m c _ | .written m c _ => if m = n then some c else none
  | _ => none

/-- The handler the server thread has entered, and the client it has found. -/
def ServerPc.serves : ServerPc → Option (Handler × Option Addr)
  | .disconnectBegin .handler c | .disconnectEnqueue .handler c | .disconnectSend .handler c =>
    some (.disconnect, some c)
  | .disconnectReturn => some (.disconnect, none)
  | .pollTest c _ | .pollTouch c _ | .pollConsume c _ | .pollStore c _ _ | .pollEncode c _ =>
    some (.poll, some c)
  | .writeTest c _ | .writeProduce c _ | .writeEnqueue c | .writeSend c => some (.post, some c)
  | .postReturn => some (.post, none)
  | _ => none

/-- What a handler makes of the client registered under the session id. -/
def Handler.Resolves (h : Host) (s : Sys) (handler : Handler) (named : Option Addr) (s' : Sys)
    (out : List Event) : Prop :=
  match handler, named with
  | .connect _, _ => False
  | .attach, some _ => s'.server = .accept ∧ out = [.response s.exchange .ok (some s.echo)]
  | .attach, none | .poll, none | .post, none =>
    s'.server = .accept ∧ out = [.response s.exchange .gone none]
  | .disconnect, none => s'.server = .disconnectReturn ∧ out = []
  | .disconnect, some c => s'.server = .disconnectBegin .handler c ∧ out = []
  | .poll, some c => s'.server = .pollTest c [] ∧ out = []
  | .post, some c => ∃ cl, s.storage.heap c = some cl ∧
    if isAllowOrigin h.accepts s.request.getOrigin cl.allowOrigins = false then
      s'.server = .accept ∧ out = [.response s.exchange .badRequest none]
    else if s.request.getQueries.getData = [] then s'.server = .postReturn ∧ out = []
    else s'.server = .writeTest c s.request.getQueries.getData ∧ out = []

/-- The answers that tell whether the session is registered. -/
def Handler.Answers (named : Option Addr) (echo : Bytes) (code : Response.Code)
    (body : Option Bytes) : Handler → Prop
  | .attach => code = .ok ∧ body = some echo ∧ named.isSome ∨ code = .gone ∧ named = none
  | .poll => named = none → code = .gone
  | .post => code = .gone ↔ named = none
  | .disconnect | .connect _ => True

/-- What the events of an exchange say about the session that is named. -/
structure Concerns (n : Nat) (handler : Handler) (named : Option Addr) (echo : Bytes)
    (events : List Event) : Prop where
  acts : ∀ e ∈ events, ∀ c, e.acts n = some c → named = some c
  creates : ∀ c id, .created n c id ∉ events
  answers : ∀ code body, .response n code body ∈ events → handler.Answers named echo code body

/-- From the state `s`, in which a handler is about to look the session up, the
exchange went on to `t`. The handler finds the client registered under the
session id, does what it does to this client alone, and neither registers nor
unregisters any. -/
structure Agrees (h : Host) (s : Sys) (handler : Handler) (t : Sys) (later : List Event) : Prop where
  concerns : Concerns s.exchange handler s.named s.echo later
  resolves : ∀ o t' out, t.server = .locked handler → step h t (.server o) = some (t', out) →
    handler.Resolves h t s.named t' out
  keeps : ∀ o t' out, step h t (.server o) = some (t', out) →
    t'.storage.clientMap = t.storage.clientMap ∧
    ∀ d, s.named ≠ some d → t'.storage.heap d = t.storage.heap d

section

variable {h : Host} {s s' : Sys} {a : Action} {out trace : List Event} {handler : Handler}

theorem Concerns.append {n : Nat} {named : Option Addr} {echo : Bytes} {events events' : List Event}
    (before : Concerns n handler named echo events) (after : Concerns n handler named echo events') :
    Concerns n handler named echo (events ++ events') where
  acts e member := by
    rcases List.mem_append.mp member with earlier | later
    · exact before.acts e earlier
    · exact after.acts e later
  creates c id member := by
    rcases List.mem_append.mp member with earlier | later
    · exact before.creates c id earlier
    · exact after.creates c id later
  answers code body member := by
    rcases List.mem_append.mp member with earlier | later
    · exact before.answers code body earlier
    · exact after.answers code body later

/-! ## One step -/

/-- Apart from the creation of a client, what the server thread does changes
the client it is working on. -/
theorem Transition.keepsOthers {o : Outcome} (t : Transition h s (.server o) s' out)
    (elsewhere : ∀ backend, s.server ≠ .locked (.connect backend)) :
    s'.storage.clientMap = s.storage.clientMap ∧
    ∀ d, s.server.client ≠ some d → s'.storage.heap d = s.storage.heap d := by
  cases t
  case create backend at_ unknown room alloc => exact absurd at_ (elsewhere backend)
  all_goals
    first
    | exact ⟨rfl, fun _ _ => rfl⟩
    | refine ⟨rfl, fun d other => ?_⟩
      rw [‹s.server = _›] at other
      rw [ClientStorage.set_heap, if_neg]
      rintro rfl
      exact other rfl

/-- The loop thread unregisters a client while it has the storage lock. -/
theorem Transition.keepsMap (t : Transition h s a s' out)
    (elsewhere : ∀ backend, s.server ≠ .locked (.connect backend))
    (busy : s.loop.holdsStorage = false) : s'.storage.clientMap = s.storage.clientMap := by
  cases t
  case create o backend at_ unknown room alloc => exact absurd at_ (elsewhere backend)
  case destroy o c cl at_ live =>
    rw [at_] at busy
    cases busy
  all_goals rfl

/-- The lookup itself. -/
theorem lookup_resolves {o : Outcome} (at_ : s.server = .locked handler) (sane : Sane s)
    (existing : ∀ backend, handler ≠ .connect backend)
    (attached : handler = .attach → s.storage.get s.uuid = none ∧ s.named = none)
    (stepped : step h s (.server o) = some (s', out)) :
    handler.Resolves h s s.named s' out := by
  have handled : s.handle h o handler = some (s', out) := by
    unfold step at stepped
    split at stepped
    · cases stepped
    · simpa only [Sys.serverStep, at_] using stepped
  cases handler with
  | connect backend => exact absurd rfl (existing backend)
  | attach =>
    obtain ⟨missed, unknown⟩ := attached rfl
    simp only [Sys.handle, missed] at handled
    cases handled
    rw [unknown]
    exact ⟨rfl, rfl⟩
  | disconnect =>
    simp only [Sys.handle] at handled
    cases named : s.named with
    | none =>
      rw [show s.storage.get _ = none from named] at handled
      cases handled
      exact ⟨rfl, rfl⟩
    | some c =>
      rw [show s.storage.get _ = some c from named] at handled
      cases handled
      exact ⟨rfl, rfl⟩
  | poll =>
    simp only [Sys.handle] at handled
    cases named : s.named with
    | none =>
      rw [show s.storage.get _ = none from named] at handled
      cases handled
      exact ⟨rfl, rfl⟩
    | some c =>
      rw [show s.storage.get _ = some c from named] at handled
      cases handled
      exact ⟨rfl, rfl⟩
  | post =>
    simp only [Sys.handle] at handled
    cases named : s.named with
    | none =>
      rw [show s.storage.get _ = none from named] at handled
      cases handled
      exact ⟨rfl, rfl⟩
    | some c =>
      obtain ⟨cl, live, -⟩ := sane.sound.allocated _ c named
      rw [show s.storage.get _ = some c from named] at handled
      simp only [Sys.deref, live] at handled
      refine ⟨cl, live, ?_⟩
      cases allowed : isAllowOrigin h.accepts s.request.getOrigin cl.allowOrigins with
      | false =>
        simp only [allowed, Bool.false_eq_true, not_false_eq_true, ↓reduceIte] at handled ⊢
        cases handled
        exact ⟨rfl, rfl⟩
      | true =>
        simp only [allowed, not_true_eq_false, Bool.true_eq_false, ↓reduceIte] at handled ⊢
        by_cases absent : s.request.getQueries.getData = []
        · simp only [absent, ↓reduceIte] at handled ⊢
          cases handled
          exact ⟨rfl, rfl⟩
        · simp only [absent, ↓reduceIte] at handled ⊢
          cases handled
          exact ⟨rfl, rfl⟩

/-- What follows the lookup. -/
theorem serves_step {found : Option Addr} (t : Transition h s a s' out)
    (serving : s.server.serves = some (handler, found)) :
    (∀ e ∈ out, ∀ c, e.acts s.exchange = some c → found = some c) ∧
    (∀ c id, .created s.exchange c id ∉ out) ∧
    (∀ code body, .response s.exchange code body ∈ out → handler = .post → code = .noContent) ∧
    (s'.server = .accept ∨ ∃ found', s'.server.serves = some (handler, found') ∧
      ∀ c, found' = some c → found = some c) := by
  -- most steps emit nothing
  have silent {pc : ServerPc} {found' : Option Addr} (goes : pc.serves = some (handler, found'))
      (same : ∀ c, found' = some c → found = some c) :
      (∀ e ∈ ([] : List Event), ∀ c, e.acts s.exchange = some c → found = some c) ∧
      (∀ c id, .created s.exchange c id ∉ ([] : List Event)) ∧
      (∀ code body, .response s.exchange code body ∈ ([] : List Event) → handler = .post →
        code = .noContent) ∧
      (pc = .accept ∨ ∃ found', pc.serves = some (handler, found') ∧
        ∀ c, found' = some c → found = some c) :=
    ⟨by simp, by simp, by simp, .inr ⟨found', goes, same⟩⟩
  cases t
  case destroy o c cl at_ live =>
    cases (s.storage.destroy cl.id).2 <;> simp [Event.acts, serving]
  case disconnectIdle o caller c cl at_ live free idle =>
    rw [at_] at serving
    cases caller <;> cases serving
    exact silent rfl (by simp)
  case disconnectMark o caller c cl at_ live free busy =>
    rw [at_] at serving
    cases caller <;> cases serving
    simp [ServerPc.serves, Event.acts]
  case disconnectEnqueue o caller c at_ =>
    rw [at_] at serving
    cases caller <;> cases serving
    simp [ServerPc.serves, Event.acts]
  case disconnectSend o caller c at_ =>
    rw [at_] at serving
    cases caller <;> cases serving
    exact silent rfl (by simp)
  all_goals
    first
    | exact silent serving fun _ => id
    | rw [show s.server = _ from ‹_›] at serving
      cases serving <;>
        first
        | exact silent rfl fun _ => id
        | simp [ServerPc.serves, Event.acts]
    | exact ⟨by simp [Event.acts], by simp, by simp, .inr ⟨found, serving, fun _ => id⟩⟩

theorem ServerPc.serves_cases {pc : ServerPc} {found : Option Addr}
    (serving : pc.serves = some (handler, found)) :
    (handler = .disconnect ∨ handler = .poll ∨ handler = .post) ∧
    (∀ c, pc.client = some c → found = some c) ∧ ∀ handler', pc ≠ .locked handler' := by
  cases pc with
  | disconnectBegin caller c | disconnectEnqueue caller c | disconnectSend caller c =>
    cases caller <;> cases serving
    simp [ServerPc.client]
  | _ => cases serving <;> simp [ServerPc.client]

/-- While the server thread is waiting, or the loop thread moves. -/
theorem Transition.aside (t : Transition h s a s' out) (still : s'.exchange = s.exchange)
    (aside : s.server = .accept ∨ ∀ o, a ≠ .server o) :
    s'.server = s.server ∧ s'.request = s.request ∧ (∀ e ∈ out, ∀ n, e.acts n = none) ∧
    ∀ m code body, .response m code body ∉ out := by
  cases t
  case refuse at_ routed => exact absurd still (Nat.succ_ne_self _)
  case proceed at_ routed => exact absurd still (Nat.succ_ne_self _)
  case destroy o c cl at_ live => cases (s.storage.destroy cl.id).2 <;> simp [Event.acts]
  all_goals
    first
    | exact ⟨rfl, rfl, by simp [Event.acts], by simp⟩
    | have at_ := ‹s.server = _›
      rcases aside with waiting | moves
      · rw [at_] at waiting
        cases waiting
      · exact absurd rfl (moves _)

/-! ## One exchange -/

/-- Where the server thread is with the request, and what it has found. -/
inductive Stands (handler : Handler) (named : Option Addr) (t : Sys) : Prop where
  | looking (at_ : t.server = .locked handler) (same : t.named = named)
  | serving (found : Option Addr) (serving : t.server.serves = some (handler, found))
      (right : ∀ c, found = some c → named = some c)
      (known : handler ≠ .disconnect → named ≠ none)
  | done (at_ : t.server = .accept)

theorem Stands.handler_eq {named : Option Addr} {handler' : Handler}
    (stands : Stands handler named s) (at_ : s.server = .locked handler') : handler = handler' := by
  cases stands with
  | looking looks same =>
    rw [looks] at at_
    cases at_
    rfl
  | serving found serving right known =>
    exact absurd at_ ((ServerPc.serves_cases serving).2.2 handler')
  | done idle =>
    rw [idle] at at_
    cases at_

theorem Stands.client_named {named : Option Addr} {c : Addr} (stands : Stands handler named s)
    (used : s.server.client = some c) : named = some c := by
  cases stands with
  | looking looks same =>
    rw [looks] at used
    cases used
  | serving found serving right known =>
    exact right c ((ServerPc.serves_cases serving).2.1 c used)
  | done idle =>
    rw [idle] at used
    cases used

theorem Concerns.quiet {n : Nat} {named : Option Addr} {echo : Bytes}
    (unacted : ∀ e ∈ out, ∀ n, e.acts n = none) (silent : ∀ m code body, .response m code body ∉ out) :
    Concerns n handler named echo out where
  acts e member c acted := by
    rw [unacted e member n] at acted
    cases acted
  creates c id created := by
    have acted := unacted _ created n
    simp [Event.acts] at acted
  answers code body answered := absurd answered (silent n code body)

theorem Concerns.response {n : Nat} {named : Option Addr} {echo : Bytes} {code : Response.Code}
    {body : Option Bytes} (answers : handler.Answers named echo code body) :
    Concerns n handler named echo [.response n code body] where
  acts e member c acted := by
    rw [List.mem_singleton.mp member] at acted
    cases acted
  creates c id created := by cases List.mem_singleton.mp created
  answers code' body' answered := by
    cases List.mem_singleton.mp answered
    exact answers

theorem Handler.Resolves.goesOn {named : Option Addr}
    (resolves : handler.Resolves h s named s' out) :
    Stands handler named s' ∧ Concerns s.exchange handler named s.echo out := by
  have nothing {named : Option Addr} (silent : out = []) :
      Concerns s.exchange handler named s.echo out := by
    subst silent
    exact .quiet (by simp) (by simp)
  cases handler with
  | connect backend => exact resolves.elim
  | attach =>
    cases named with
    | none =>
      obtain ⟨at_, rfl⟩ := resolves
      exact ⟨.done at_, .response (.inr ⟨rfl, rfl⟩)⟩
    | some c =>
      obtain ⟨at_, rfl⟩ := resolves
      exact ⟨.done at_, .response (.inl ⟨rfl, rfl, rfl⟩)⟩
  | disconnect =>
    cases named with
    | none =>
      obtain ⟨at_, silent⟩ := resolves
      exact ⟨.serving none (by rw [at_]; rfl) (by simp) (by simp), nothing silent⟩
    | some c =>
      obtain ⟨at_, silent⟩ := resolves
      exact ⟨.serving (some c) (by rw [at_]; rfl) (by simp) (by simp), nothing silent⟩
  | poll =>
    cases named with
    | none =>
      obtain ⟨at_, rfl⟩ := resolves
      exact ⟨.done at_, .response fun _ => rfl⟩
    | some c =>
      obtain ⟨at_, silent⟩ := resolves
      exact ⟨.serving (some c) (by rw [at_]; rfl) (by simp) (by simp), nothing silent⟩
  | post =>
    cases named with
    | none =>
      obtain ⟨at_, rfl⟩ := resolves
      exact ⟨.done at_, .response ⟨fun _ => rfl, fun _ => rfl⟩⟩
    | some c =>
      obtain ⟨cl, live, resolved⟩ := resolves
      split at resolved
      · obtain ⟨at_, rfl⟩ := resolved
        exact ⟨.done at_, .response (by simp [Handler.Answers])⟩
      split at resolved
      · obtain ⟨at_, silent⟩ := resolved
        exact ⟨.serving none (by rw [at_]; rfl) (by simp) (by simp), nothing silent⟩
      · obtain ⟨at_, silent⟩ := resolved
        exact ⟨.serving (some c) (by rw [at_]; rfl) (by simp) (by simp), nothing silent⟩

theorem Stands.step {named : Option Addr} (sane : Sane s)
    (existing : ∀ backend, handler ≠ .connect backend)
    (attached : s.server = .locked .attach → s.storage.get s.uuid = none ∧ named = none)
    (stands : Stands handler named s) (stepped : step h s a = some (s', out))
    (still : s'.exchange = s.exchange) :
    s'.request = s.request ∧ Stands handler named s' ∧
      Concerns s.exchange handler named s.echo out := by
  have t := (step_cases stepped).2
  cases stands with
  | looking at_ same =>
    have requested : s'.request = s.request := (t.keeps (by rw [at_]; nofun)).2.1
    by_cases moves : ∃ o, a = .server o
    · obtain ⟨o, rfl⟩ := moves
      subst same
      exact ⟨requested,
        (lookup_resolves at_ sane existing (fun attach => attached (attach ▸ at_)) stepped).goesOn⟩
    · have waits := t.aside still (.inr fun o server => moves ⟨o, server⟩)
      have unregistered := t.keepsMap
        (fun backend other => existing backend (by simpa [at_] using other)) (by
          -- the server thread has the storage lock
          have holds := sane.serverHolds.mpr (by rw [at_]; rfl)
          have loop := sane.loopHolds
          rw [holds] at loop
          simpa using loop)
      refine ⟨requested, .looking (by rw [waits.1, at_]) ?_, .quiet waits.2.2.1 waits.2.2.2⟩
      rw [← same, Sys.named, Sys.named, requested, ClientStorage.get, unregistered]
      rfl
  | serving found serving right known =>
    obtain ⟨acts, creates, posted, next⟩ := serves_step t serving
    have busy : s.server ≠ .accept := fun idle => by
      rw [idle] at serving
      cases serving
    refine ⟨(t.keeps busy).2.1, ?_, fun e member c acted => right c (acts e member c acted),
      creates, ?_⟩
    · rcases next with idle | ⟨found', serving', same⟩
      · exact .done idle
      · exact .serving found' serving' (fun c found => right c (same c found)) known
    · intro code body answered
      rcases (ServerPc.serves_cases serving).1 with rfl | rfl | rfl
      · trivial
      · intro unknown
        exact absurd unknown (known (by simp))
      · simp [Handler.Answers, posted code body answered rfl, known]
  | done idle =>
    obtain ⟨same, requested, unacted, silent⟩ := t.aside still (.inl idle)
    exact ⟨requested, .done (by rw [same, idle]), .quiet unacted silent⟩

/-! ## Whole runs -/

/-- A request that names a session goes to a handler that looks for it. -/
theorem route_of_named {req : Request} {uuid : Option Bytes} {id : Bytes}
    (given : req.getQueries.getSessionId ≠ []) (routed : route h req uuid = .ok (id, handler)) :
    id = [] ∧ (∀ backend, handler ≠ .connect backend) ∧ route h req none = .ok ([], handler) := by
  unfold route at routed ⊢
  grind

/-- No session has the empty id. -/
theorem length_of_registered (run : Reaches (step h) (.start h) s trace) {id : Bytes} {c : Addr}
    (found : s.storage.get id = some c) : id.length = 36 := by
  obtain ⟨cl, live, rfl⟩ := (sane_of_run run).sound.allocated id c found
  obtain ⟨backend, ⟨past, n, later, req, split, -⟩, -⟩ := origins_of_run run live
  have created : .created n c cl.id ∈ trace := by simp [split]
  obtain ⟨s₀, before, a, s₁, out, after, run₀, -, stepped, emitted, -⟩ := run.emitted created
  obtain ⟨backend, at_, -, -, named, -⟩ := (step_cases stepped).2.creates emitted
  obtain ⟨uuid, written, routed⟩ := routed_of_run run₀ (.inr at_)
  rw [named]
  exact written s₀.uuid (connects_of_route routed).1

/-- What `onConnect` asks after is never registered. -/
theorem unknown_of_attach (run : Reaches (step h) (.start h) s trace)
    (at_ : s.server = .locked .attach) (given : s.request.getQueries.getSessionId ≠ []) :
    s.storage.get s.uuid = none := by
  obtain ⟨uuid, -, routed⟩ := routed_of_run run (.inr at_)
  obtain ⟨empty, -, -⟩ := route_of_named given routed
  rw [empty, Option.eq_none_iff_forall_ne_some]
  intro c found
  exact absurd (length_of_registered run found) (by simp)

/-- The rest of the exchange, if the handler asks after the right session. -/
theorem stands_of_run (run : Reaches (step h) (.start h) s trace)
    (at_ : s.server = .locked handler) (given : s.request.getQueries.getSessionId ≠ [])
    (unregistered : handler = .attach → s.named = none) {t : Sys} {later : List Event}
    (rest : Reaches (step h) s t later) (still : t.exchange = s.exchange) :
    t.request = s.request ∧ Stands handler s.named t ∧
      Concerns s.exchange handler s.named s.echo later := by
  obtain ⟨uuid, -, routed⟩ := routed_of_run run (.inr at_)
  obtain ⟨-, existing, -⟩ := route_of_named given routed
  refine rest.invariant (I := fun t later => t.exchange = s.exchange →
    t.request = s.request ∧ Stands handler s.named t ∧
      Concerns s.exchange handler s.named s.echo later) ?_ ?_ still
  · intro _
    exact ⟨rfl, .looking at_ rfl, .quiet (by simp) (by simp)⟩
  · intro t later a t' out rest ih _ stepped still'
    have grown := exchange_le rest
    have grows := (step_cases stepped).2.counts.1
    have still : t.exchange = s.exchange := by omega
    obtain ⟨same, stands, concerns⟩ := ih still
    have reached := run.append rest
    have attached (looking : t.server = .locked .attach) :
        t.storage.get t.uuid = none ∧ s.named = none := by
      obtain rfl := stands.handler_eq looking
      exact ⟨unknown_of_attach reached looking (same ▸ given), unregistered rfl⟩
    obtain ⟨same', stands', concerns'⟩ :=
      stands.step (sane_of_run reached) existing attached stepped (still'.trans still.symm)
    rw [Sys.echo, same, still] at concerns'
    exact ⟨same'.trans same, stands', concerns.append concerns'⟩

/-- In every run, from the moment a handler has locked the storage to look for
the session a request names, the exchange agrees with what is registered under
this id, unless the process is alive and the request asks to connect to a
registered session. -/
theorem lookup_agrees (run : Reaches (step h) (.start h) s trace)
    (at_ : s.server = .locked handler) (given : s.request.getQueries.getSessionId ≠ []) :
    route h s.request none = .ok ([], handler) ∧
    ((∀ t later, Reaches (step h) s t later → t.exchange = s.exchange →
        Agrees h s handler t later) ↔
      ¬ (s.fault = false ∧ handler = .attach ∧ ∃ c, s.named = some c)) := by
  obtain ⟨uuid, -, routed⟩ := routed_of_run run (.inr at_)
  obtain ⟨-, existing, routed⟩ := route_of_named given routed
  refine ⟨routed, ?_, ?_⟩
  · rintro agrees ⟨alive, rfl, c, known⟩
    have missed := unknown_of_attach run at_ given
    have stepped : step h s (.server .ok) = some (s.unlock.respond .gone none) := by
      simp [step, alive, Sys.serverStep, at_, Sys.handle, missed]
    have resolves := (agrees s [] .start rfl).resolves .ok _ _ at_ stepped
    rw [known] at resolves
    obtain ⟨-, answered⟩ := resolves
    cases answered
  · intro elsewhere t later rest still
    by_cases alive : s.fault = false
    · have unregistered (attach : handler = .attach) : s.named = none := by
        refine Option.eq_none_iff_forall_ne_some.mpr fun c known => ?_
        exact elsewhere ⟨alive, attach, c, known⟩
      obtain ⟨same, stands, concerns⟩ := stands_of_run run at_ given unregistered rest still
      have reached := run.append rest
      refine ⟨concerns, ?_, ?_⟩
      · intro o t' out looking stepped
        cases stands with
        | looking _ found =>
          rw [← found]
          refine lookup_resolves looking (sane_of_run reached) existing (fun attach => ?_) stepped
          subst attach
          exact ⟨unknown_of_attach reached looking (same ▸ given), found ▸ unregistered rfl⟩
        | serving found serving right known =>
          exact absurd looking ((ServerPc.serves_cases serving).2.2 handler)
        | done idle =>
          rw [idle] at looking
          cases looking
      · intro o t' out stepped
        obtain ⟨unchanged, others⟩ := (step_cases stepped).2.keepsOthers fun backend connecting =>
          existing backend (stands.handler_eq connecting)
        refine ⟨unchanged, fun d other => others d fun used => other ?_⟩
        exact stands.client_named used
    · have halted (a : Action) : step h s a = none := by simp [step, alive]
      obtain ⟨rfl, rfl⟩ : t = s ∧ later = [] := by
        refine rest.invariant (I := fun t later => t = s ∧ later = []) ⟨rfl, rfl⟩ ?_
        rintro _ _ a t' out - ⟨rfl, rfl⟩ - stepped
        rw [halted a] at stepped
        cases stepped
      refine ⟨.quiet (by simp) (by simp), ?_, ?_⟩
      · intro o t' out _ stepped
        rw [halted] at stepped
        cases stepped
      · intro o t' out stepped
        rw [halted] at stepped
        cases stepped

end

/-- A browser asks after its session. -/
def Sample.attach : Request := request "GET" "c=connect&sid=123e4567-e89b-12d3-a456-426614174000"

/-- The session is connected, and the server thread is about to look for it. -/
def Sample.attaching : List Action :=
  Sample.connected ++ [.accept Sample.attach none, .server .ok]

/-- The session is registered, and the answer is 410. -/
theorem attach_gone : ∃ s trace,
    exec (step Sample.host) (.start Sample.host) Sample.attaching = some (s, trace) ∧
    s.server = .locked .attach ∧ s.named = some 0 ∧
    (step Sample.host s (.server .ok)).map Prod.snd = some [.response 2 .gone none] ∧
    ¬ ∀ t later, Reaches (step Sample.host) s t later → t.exchange = s.exchange →
      Agrees Sample.host s .attach t later := by
  refine ⟨_, _, rfl, rfl, rfl, rfl, fun agrees => ?_⟩
  obtain ⟨-, answered⟩ := (agrees _ [] .start rfl).resolves .ok _ _ rfl rfl
  cases answered

/-- A poll of the session agrees, though. -/
theorem lookup_agrees_poll : ∃ s trace,
    exec (step Sample.host) (.start Sample.host)
      (Sample.connected ++ [.accept Sample.poll none, .server .ok]) = some (s, trace) ∧
    s.named = some 0 ∧ ∀ t later, Reaches (step Sample.host) s t later →
      t.exchange = s.exchange → Agrees Sample.host s .poll t later := by
  have ran : exec (step Sample.host) (.start Sample.host)
      (Sample.connected ++ [.accept Sample.poll none, .server .ok]) = some (_, _) := rfl
  refine ⟨_, _, ran, rfl, ?_⟩
  exact ((lookup_agrees (reaches_of_exec ran) rfl (by decide)).2).mpr (by simp)

end LinearFcgi
