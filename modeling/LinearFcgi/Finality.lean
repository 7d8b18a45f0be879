import LinearFcgi.Attribution
import LinearFcgi.Connects

/-! The end of a session is final. A browser is told that its session is over
by a 410 or by the answer to its own disconnect request; the process knows it
from the backend or from its timer. From either moment on every poll of the
session is answered with 410, as a browser that polls until then relies on. -/
namespace LinearFcgi

open TraceMachine

/-- This answer to a request tells that the session it names is over. -/
def Request.ToldOver (h : Host) (req : Request) (code : Response.Code) : Prop :=
  (route h req none = .ok ([], .poll) ∨ route h req none = .ok ([], .post)) ∧ code = .gone ∨
  route h req none = .ok ([], .disconnect)

/-- The history shows that the session `id`, which is the client at `c`, is over. -/
inductive Over (h : Host) (c : Addr) (id : Bytes) (trace : List Event) : Prop where
  | hungUp (happened : .hungUp c ∈ trace)
  | reaped (happened : .reaped c ∈ trace)
  | told {before during after : List Event} {n : Nat} {req : Request} {code : Response.Code}
      {body : Option Bytes}
      (split : trace = before ++ .accepted n req :: (during ++ .response n code body :: after))
      (known : ∃ k, .created k c id ∈ before) (named : req.getQueries.getSessionId = id)
      (tells : req.ToldOver h code)

section

variable {h : Host} {s s' : Sys} {a : Action} {out trace : List Event} {c : Addr} {id : Bytes}

/-- One that is deleted is past all polling. -/
theorem spent_of_deleted (run : Reaches (step h) (.start h) s trace) {k : Nat}
    (created : .created k c id ∈ trace) (dead : s.storage.heap c = none) :
    Life.Spent (s.life c) where
  born := by simpa [Sys.life] using created_lt run k c id created
  state k' here := by simp [Sys.life, dead] at here

/-- So is one that no poll accepts, once the server thread is through with its
`Client::connect`. -/
theorem spent_of_down (phase : Life.Phase (s.life c)) {cl : Client}
    (live : s.storage.heap c = some cl) (through : s.server.stage c = .none)
    (down : cl.state ≠ .connecting ∧ cl.state ≠ .connected) : Life.Spent (s.life c) := by
  have here : (s.life c).core = some cl.core := by simp [Sys.life, live]
  obtain ⟨born, shows, -⟩ := phase.present _ here
  refine ⟨born, fun k core => ?_⟩
  obtain rfl := Option.some.inj (here.symm.trans core)
  have begun : cl.state ≠ .disconnected := fun state => by
    have opening := shows.opening.mp state
    simp [Sys.life, through] at opening
  cases state : cl.state <;> simp_all [Client.core]

theorem spent_step (run : Reaches (step h) (.start h) s trace) (t : Transition h s a s' out)
    (spent : Life.Spent (s.life c)) : Life.Spent (s'.life c) :=
  life_keeps (fun _ _ _ _ phase spent t => spent.step phase t) (sane_of_run run)
    (phase_of_reached run c) t spent

/-! ## What ends it -/

namespace Life

/-- The timer leaves a client it found expired past all polling. -/
theorem spent_of_reaped {allow : Life → Action → Prop} {l : Life} {trace : List Event}
    (run : Run step allow unborn l trace) (reaped : .reaped ∈ trace) : Spent l := by
  refine run.invariant (I := fun l trace => .reaped ∈ trace → Spent l) (by simp) ?_ reaped
  intro l trace b l' out before spent _ stepped reaped
  have t := step_cases stepped
  have phase := phase_of_run before
  rcases List.mem_append.mp reaped with earlier | now
  · exact (spent earlier).step phase t
  · cases t <;> simp at now
    case reap k born dying requests state =>
      obtain ⟨rfl, -⟩ := phase.present _ rfl
      refine ⟨rfl, ?_⟩
      rintro _ ⟨⟩
      exact .inr rfl

end Life

/-- The server thread is about to end its handling of a disconnect request. -/
def ServerPc.parts : ServerPc → Bool
  | .disconnectEnqueue .handler _ | .disconnectSend .handler _ | .disconnectReturn => true
  | _ => false

theorem Transition.comesToPart (t : Transition h s a s' out) (parts : s'.server.parts = true) :
    s.server.parts = true ∨ (∃ handler, s.server = .locked handler) ∨
    ∃ d cl, s.server = .disconnectBegin .handler d ∧ s.storage.heap d = some cl ∧
      (cl.idle = true ∨ s'.storage.heap d = some { cl with state := .disconnecting }) := by
  cases t
  case skip o handler next at_ skips => exact .inr (.inl ⟨handler, at_⟩)
  case enter o handler d next allowed at_ found enters => exact .inr (.inl ⟨handler, at_⟩)
  case disconnectIdle o caller d cl at_ live free idle =>
    cases caller with
    | connect => simp [Caller.resume, ServerPc.parts] at parts
    | handler => exact .inr (.inr ⟨d, cl, at_, live, .inl idle⟩)
  case disconnectMark o caller d cl at_ live free busy =>
    cases caller with
    | connect => simp [ServerPc.parts] at parts
    | handler => exact .inr (.inr ⟨d, cl, at_, live, .inr (by simp [ClientStorage.set_heap])⟩)
  case disconnectEnqueue o caller d at_ =>
    cases caller with
    | connect => simp [ServerPc.parts] at parts
    | handler => exact .inl (by rw [at_]; rfl)
  case disconnectSend o caller d at_ =>
    cases caller with
    | connect => simp [Caller.resume, ServerPc.parts] at parts
    | handler => exact .inl (by rw [at_]; rfl)
  all_goals first | exact .inl parts | simp [ServerPc.parts] at parts

/-! ## One exchange -/

/-- While a request that names the session is handled: the server thread is in the
handler, and the session is over where it is about to say so. -/
structure Handles (handler : Handler) (c : Addr) (s : Sys) : Prop where
  within : s.server.Within handler
  parting : s.server.parts = true → Life.Spent (s.life c)

theorem Handles.step {handler : Handler} (run : Reaches (step h) (.start h) s trace)
    (opens : Opens c id trace) (named : s.request.getQueries.getSessionId = id)
    (existing : handler = .disconnect ∨ handler = .poll ∨ handler = .post)
    (handles : Handles handler c s) (stepped : step h s a = some (s', out))
    (busy : s'.server ≠ .accept) : Handles handler c s' := by
  have t := (step_cases stepped).2
  refine ⟨(t.keepsWithin handles.within busy).2, fun parts => ?_⟩
  rcases t.comesToPart parts with parted | ⟨handler', at_⟩ | ⟨d, cl, at_, live, leaves⟩
  · exact spent_step run t (handles.parting parted)
  · -- nothing is registered under the id
    obtain ⟨o, rfl⟩ : ∃ o, a = .server o := by
      by_contra other
      have waits := t.aside (t.keeps (by rw [at_]; nofun)).1 (.inr fun o server => other ⟨o, server⟩)
      rw [waits.1, at_] at parts
      cases parts
    have within := handles.within
    rw [at_] at within
    obtain rfl : handler = handler' := within
    have resolves := lookup_resolves at_ (sane_of_run run)
      (by rcases existing with rfl | rfl | rfl <;> simp)
      (by rcases existing with rfl | rfl | rfl <;> simp) stepped
    have unregistered : s.storage.get id = none := by
      rw [← named]
      change s.named = none
      rcases existing with rfl | rfl | rfl <;> cases found : s.named <;> rw [found] at resolves
      case inl.some | inr.inl.some =>
        rw [resolves.1] at parts
        cases parts
      case inr.inr.some =>
        obtain ⟨cl, live, resolved⟩ := resolves
        split at resolved
        · exact absurd resolved.1 busy
        split at resolved <;> rw [resolved.1] at parts <;> cases parts
    obtain ⟨k, created⟩ := opens.created
    exact spent_step run t
      (spent_of_deleted run created (deleted_of_unregistered run created unregistered))
  · obtain rfl : d = c := by
      have serving : s.server.serves = some (.disconnect, some d) := by rw [at_]; rfl
      exact (serves_opens run opens serving).mpr named
    rcases leaves with idle | marked
    · refine spent_step run t (spent_of_down (phase_of_reached run d) live (by rw [at_]; rfl) ?_)
      simp only [Client.idle] at idle
      cases state : cl.state <;> simp_all
    · refine ⟨?_, fun k here => ?_⟩
      · have grown := t.next_le
        have fresh := (sane_of_run run).sound.fresh d cl live
        simpa [Sys.life] using Nat.lt_of_lt_of_le fresh grown
      · simp only [Sys.life, marked, Option.map_some, Option.some.injEq] at here
        subst here
        exact .inr rfl

/-- The handler stands with the session for as long as it goes on. -/
theorem handles_of_run {handler : Handler} (run : Reaches (step h) (.start h) s trace)
    (opens : Opens c id trace) (named : s.request.getQueries.getSessionId = id)
    (existing : handler = .disconnect ∨ handler = .poll ∨ handler = .post)
    (at_ : s.server = .lock handler) {t : Sys} {later : List Event}
    (rest : Reaches (step h) s t later) (still : t.exchange = s.exchange)
    (busy : t.server ≠ .accept) :
    t.request.getQueries.getSessionId = id ∧ Opens c id (trace ++ later) ∧ Handles handler c t := by
  refine rest.invariant (I := fun t later => t.exchange = s.exchange → t.server ≠ .accept →
    t.request.getQueries.getSessionId = id ∧ Opens c id (trace ++ later) ∧ Handles handler c t)
    ?_ ?_ still busy
  · intro _ _
    exact ⟨named, by simpa using opens, by rw [at_]; rfl, by simp [at_, ServerPc.parts]⟩
  · intro t later a t' out rest ih _ stepped still' busy'
    obtain ⟨still, busy⟩ := exchange_back rest stepped still' busy'
    obtain ⟨named, opens, handles⟩ := ih still busy
    have moved := (step_cases stepped).2
    refine ⟨by rw [(moved.keeps busy).2.1, named], ?_,
      handles.step (run.append rest) opens named existing stepped busy'⟩
    rw [← List.append_assoc]
    refine opens.append fun k d created => ?_
    obtain ⟨backend, creates, -⟩ := moved.creates created
    have within := handles.within
    rw [creates] at within
    obtain rfl : handler = .connect backend := within
    simp at existing

/-- A request whose answer may tell so names a session, and goes to one of
three handlers. -/
theorem Request.ToldOver.handler_eq {req : Request} {code : Response.Code}
    (tells : req.ToldOver h code) {uuid : Option Bytes} {handler : Handler}
    (routed : route h req uuid = .ok (id, handler)) :
    (handler = .poll ∨ handler = .post) ∧ code = .gone ∨ handler = .disconnect := by
  unfold Request.ToldOver route at tells
  unfold route at routed
  grind

/-- An answer that tells so is true. -/
theorem Answer.spent {handler : Handler} {pre post : List Event} {n : Nat} {code : Response.Code}
    {body : Option Bytes} (run : Reaches (step h) (.start h) s trace)
    (opens : Opens c id trace) (named : s.request.getQueries.getSessionId = id)
    (tells : (handler = .poll ∨ handler = .post) ∧ code = .gone ∨ handler = .disconnect)
    (handles : Handles handler c s) (answer : Answer h s a pre code)
    (stepped : step h s a = some (s', pre ++ .response n code body :: post)) :
    Life.Spent (s'.life c) := by
  have t := (step_cases stepped).2
  obtain ⟨within, parting⟩ := handles
  cases answer
  case refusal o handler' at_ refuses =>
    rw [at_] at within
    obtain rfl : handler = handler' := within
    -- nothing is registered under the id
    have resolves := lookup_resolves at_ (sane_of_run run)
      (by rcases tells with ⟨rfl | rfl, -⟩ | rfl <;> simp)
      (by rcases tells with ⟨rfl | rfl, -⟩ | rfl <;> simp) stepped
    have unregistered : s.storage.get id = none := by
      rw [← named]
      change s.named = none
      rcases tells with ⟨rfl | rfl, rfl⟩ | rfl <;> cases found : s.named <;> rw [found] at resolves
      case inl.inl.some => simp [Handler.Resolves] at resolves
      case inl.inr.some d =>
        obtain ⟨cl, live, resolved⟩ := resolves
        split at resolved
        · simp at resolved
        split at resolved <;> simp at resolved
      case inr.some => exact refuses.elim
    obtain ⟨k, created⟩ := opens.created
    exact spent_step run t
      (spent_of_deleted run created (deleted_of_unregistered run created unregistered))
  case disconnect at_ => exact spent_step run t (parting (by rw [at_]; rfl))
  case pollGone o d data cl at_ live unreadable =>
    have serving : s.server.serves = some (.poll, some d) := by rw [at_]; rfl
    obtain rfl : d = c := (serves_opens run opens serving).mpr named
    refine spent_step run t (spent_of_down (phase_of_reached run d) live (by rw [at_]; rfl) ?_)
    simp only [Client.readable] at unreadable
    cases state : cl.state <;> simp_all
  case connect o d f at_ =>
    rw [at_] at within
    obtain ⟨backend, rfl⟩ := within
    simp at tells
  case pollNoMemory d data chunk at_ => simp_all [ServerPc.Within]
  case pollFail o d data at_ failed => simp_all [ServerPc.Within]
  case poll o d data body at_ encoded => simp_all [ServerPc.Within]
  case post o at_ => simp_all [ServerPc.Within]

/-- Whatever tells that a session is over tells the truth. -/
theorem spent_of_over (run : Reaches (step h) (.start h) s trace)
    (only : ∀ k d, .created k d id ∈ trace → d = c) (ended : Over h c id trace) :
    Life.Spent (s.life c) := by
  have lived : Run Life.step always Life.unborn (s.life c) (trace.filterMap (observeLife c)) :=
    life_of_run (fun _ _ _ _ _ _ _ => trivial) run
  cases ended with
  | hungUp happened =>
    exact Life.spent_of_lost lived (.inr (List.mem_filterMap.mpr ⟨_, happened, by simp⟩))
  | reaped happened =>
    exact Life.spent_of_reaped lived (List.mem_filterMap.mpr ⟨_, happened, by simp⟩)
  | @told before during after n req code body split known named tells =>
    obtain ⟨uuid, refused⟩ | ⟨s₀, uuid, handler, s₁, during₁, a, s₂, pre, post, later, run₀, routed, at_,
      rfl, rest, still, busy, stepped, answer, last⟩ := exchange_between run split
    · unfold Request.ToldOver route at tells
      unfold route at refused
      grind
    · have lookedUp := tells.handler_eq routed
      have opens : Opens c id (before ++ [.accepted n s₀.request]) := by
        obtain ⟨k, created⟩ := known
        refine Opens.append ⟨⟨k, created⟩, fun k d created => only k d ?_⟩ (by simp)
        rw [split]
        exact List.mem_append_left _ created
      obtain ⟨named, opens, handles⟩ := handles_of_run run₀ opens named
        (by rcases lookedUp with ⟨rfl | rfl, -⟩ | rfl <;> simp) at_ rest still busy
      have reached := run₀.append rest
      have spent := answer.spent reached opens named lookedUp handles stepped
      have reached' := reached.next trivial stepped
      exact (spent.goes_on (phase_of_reached reached' c) (life_goes_on reached' last c)).1

theorem Over.later (ended : Over h c id trace) (out : List Event) : Over h c id (trace ++ out) := by
  cases ended with
  | hungUp happened => exact .hungUp (List.mem_append_left _ happened)
  | reaped happened => exact .reaped (List.mem_append_left _ happened)
  | @told before during after n req code body split known named tells =>
    have split' : trace ++ out =
        before ++ .accepted n req :: (during ++ .response n code body :: (after ++ out)) := by
      simp [split]
    exact .told split' known named tells

/-- A poll of a session that is over gets no further than the test of `Client::read`. -/
theorem unread_of_run (run : Reaches (step h) (.start h) s trace) (opens : Opens c id trace)
    (named : s.request.getQueries.getSessionId = id) (spent : Life.Spent (s.life c))
    (at_ : s.server = .lock .poll) {t : Sys} {later : List Event} (rest : Reaches (step h) s t later)
    (still : t.exchange = s.exchange) (busy : t.server ≠ .accept) :
    t.server = .lock .poll ∨ t.server = .locked .poll ∨ t.server = .pollTest c [] := by
  refine rest.invariant (I := fun t _ => t.exchange = s.exchange → t.server ≠ .accept →
    t.server = .lock .poll ∨ t.server = .locked .poll ∨ t.server = .pollTest c []) ?_ ?_ still busy
  · intro _ _
    exact .inl at_
  · intro t later a t' out rest ih _ stepped still' busy'
    have moved := (step_cases stepped).2
    obtain ⟨still, busy⟩ := exchange_back rest stepped still' busy'
    have reached := run.append rest
    obtain ⟨named', opens', -⟩ :=
      handles_of_run run opens named (by simp) at_ (rest.next trivial stepped) still' busy'
    have unreadable (cl : Client) (live : t.storage.heap c = some cl) : cl.readable = false := by
      have gone := (spent.goes_on (phase_of_reached run c) (life_goes_on run rest c)).1
      have state := gone.state cl.core (by simp [Sys.life, live])
      rcases state with failed | leaving <;> simp_all [Client.readable, Client.core]
    by_cases moves : ∃ o, a = .server o
    · obtain ⟨o, rfl⟩ := moves
      rcases ih still busy with before | before | before
      · cases moved <;> simp_all
      · have resolves := lookup_resolves before (sane_of_run reached) (by simp) (by simp) stepped
        cases found : t.named with
        | none =>
          rw [found] at resolves
          exact absurd resolves.1 busy'
        | some d =>
          rw [found] at resolves
          have serving : t'.server.serves = some (.poll, some d) := by rw [resolves.1]; rfl
          have reached' := run.append (rest.next trivial stepped)
          obtain rfl : d = c := (serves_opens reached' opens' serving).mpr named'
          exact .inr (.inr resolves.1)
      · cases moved
        case serverStray => exact .inr (.inr before)
        case pollLive d data cl at' live free readable =>
          rw [before] at at'
          cases at'
          rw [unreadable cl live] at readable
          cases readable
        all_goals simp_all
    · rw [(moved.aside (still'.trans still.symm) (.inr fun o server => moves ⟨o, server⟩)).1]
      exact ih still busy

/-- Once the backend has hung up, the timer has struck, or the browser has been
told, every poll of the session is answered with 410, in whatever order the
threads go on. -/
theorem session_over (run : Reaches (step h) (.start h) s trace)
    {before during after : List Event} {n : Nat} {req : Request} {code : Response.Code}
    {body : Option Bytes}
    (split : trace = before ++ .accepted n req :: (during ++ .response n code body :: after))
    (opens : Opens c id before) (ended : Over h c id before)
    (polls : route h req none = .ok ([], .poll)) (named : req.getQueries.getSessionId = id) :
    code = .gone := by
  obtain ⟨uuid, refused⟩ | ⟨s₀, uuid, handler, s₁, during₁, a, s₂, pre, post, later, run₀, routed, at_,
    rfl, rest, still, busy, stepped, answer, last⟩ := exchange_between run split
  · unfold route at polls refused
    grind
  · obtain rfl : handler = .poll := by
      unfold route at polls routed
      grind
    have opens' : Opens c id (before ++ [.accepted n s₀.request]) := opens.append (by simp)
    have spent := spent_of_over run₀ opens'.only (ended.later _)
    have stands := unread_of_run run₀ opens' named spent at_ rest still busy
    cases answer
    case refusal o handler at_ refuses =>
      rcases stands with lock | locked | test
      · simp [at_] at lock
      · obtain rfl : handler = .poll := by simpa [at_] using locked
        exact refuses
      · simp [at_] at test
    case pollGone => rfl
    all_goals simp_all

end

/-- A browser asks for the end of its session. -/
def Sample.leave : Request :=
  request "GET" "c=disconnect&sid=123e4567-e89b-12d3-a456-426614174000"

/-- It is told that this is done, and polls all the same. -/
def Sample.parted : List Action :=
  Sample.connected ++ .accept Sample.leave none :: List.replicate 6 (.server .ok) ++
    .accept Sample.poll none :: List.replicate 3 (.server .ok)

theorem session_over_parted : ∃ s before during code,
    exec (step Sample.host) (.start Sample.host) Sample.parted = some (s,
      before ++ .accepted 3 Sample.poll :: (during ++ [.response 3 code none])) ∧ code = .gone := by
  have ran : exec (step Sample.host) (.start Sample.host) Sample.parted = some (_,
      ([.accepted 1 _, .created 1 0 Sample.uuid, .requested 1 _, .dispatched _, .connected 0,
        .response 1 _ _] ++ .accepted 2 Sample.leave ::
        ([.disconnecting 2 0, .requested 2 _] ++ [.response 2 .ok _])) ++
      .accepted 3 Sample.poll :: ([.gone 3 0] ++ [.response 3 _ none])) := rfl
  refine ⟨_, _, _, _, ran, session_over (reaches_of_exec ran) rfl
    (show Opens 0 Sample.uuid _ from ⟨⟨1, ?_⟩, ?_⟩) (.told rfl ⟨1, ?_⟩ ?_ ?_) ?_ ?_⟩
  · simp
  · simp
  · simp
  · decide
  · exact .inr rfl
  · rfl
  · decide

end LinearFcgi
