import LinearFcgi.Channels
import LinearFcgi.Exchanges

/-! What the answer to a POST says about its message. `onPost` answers the same
whether `Client::write` took the message or refused it, so the answer can be
trusted exactly as long as no client refuses one. -/
namespace LinearFcgi

open TraceMachine

/-- The messages `Client::write` enqueued, and for which clients. -/
def messages (trace : List Event) : List (Addr × Bytes) :=
  trace.filterMap fun | .written _ c data => some (c, data) | _ => none

/-- The client was created for the session. -/
def CreatedFor (id : Bytes) (c : Addr) (trace : List Event) : Prop := ∃ n, .created n c id ∈ trace

/-- `Client::write` finds the client in a state in which it takes messages. -/
def takesMessages (s : Sys) : Action → Bool
  | .server _ => match s.server with
    | .writeTest c _ => (s.storage.heap c).all (·.writable)
    | _ => true
  | _ => true

/-- Where the server thread is with a POST, and what it has done for it. -/
inductive Posting (req : Request) (before during : List Event) : ServerPc → Prop where
  | lock (unwritten : messages during = []) (unasked : asked during = [])
      (created : ∀ n c id, .created n c id ∉ during) : Posting req before during (.lock .post)
  | locked (unwritten : messages during = []) (unasked : asked during = [])
      (created : ∀ n c id, .created n c id ∉ during) : Posting req before during (.locked .post)
  | test {c : Addr} (named : CreatedFor req.getQueries.getSessionId c before)
      (unwritten : messages during = []) (unasked : asked during = []) :
      Posting req before during (.writeTest c req.getQueries.getData)
  | produce {c : Addr} (named : CreatedFor req.getQueries.getSessionId c before)
      (unwritten : messages during = []) (unasked : asked during = []) :
      Posting req before during (.writeProduce c req.getQueries.getData)
  | enqueue {c : Addr} (named : CreatedFor req.getQueries.getSessionId c before)
      (written : messages during = [(c, req.getQueries.getData)]) (unasked : asked during = []) :
      Posting req before during (.writeEnqueue c)
  | send {c : Addr} (named : CreatedFor req.getQueries.getSessionId c before)
      (written : messages during = [(c, req.getQueries.getData)])
      (asked : asked during = [⟨.write, c⟩]) : Posting req before during (.writeSend c)
  | blank (blank : req.getQueries.getData = []) : Posting req before during .postReturn
  | done {c : Addr} (named : CreatedFor req.getQueries.getSessionId c before)
      (written : messages during = [(c, req.getQueries.getData)])
      (asked : asked during = [⟨.write, c⟩]) : Posting req before during .postReturn

/-- The answer tells what became of the message. -/
def Honest (before : List Event) (req : Request) (during : List Event) (code : Response.Code) :
    Prop :=
  (code = .noContent ∧ ∃ c, CreatedFor req.getQueries.getSessionId c before ∧
    messages during = [(c, req.getQueries.getData)] ∧ asked during = [⟨.write, c⟩]) ∨
  (400 ≤ code.num ∧ messages during = [] ∧ asked during = [])

section

variable {h : Host} {s s' : Sys} {a : Action} {out trace before during : List Event}

@[simp] theorem messages_append (trace out : List Event) :
    messages (trace ++ out) = messages trace ++ messages out := List.filterMap_append

/-- Every client that is there was created for its session. -/
theorem createdFor_of_run {guard : Sys → Action → Prop}
    (run : Run (step h) guard (.start h) s trace) {c : Addr} {cl : Client}
    (live : s.storage.heap c = some cl) : CreatedFor cl.id c trace := by
  refine run.invariant (I := fun s trace => ∀ c cl, s.storage.heap c = some cl →
    CreatedFor cl.id c trace) ?_ ?_ c cl live
  · intro c cl live
    cases live
  · intro s trace a s' out before known _ stepped c cl live
    rcases client_step (sane_of_run before) (step_cases stepped).2 live with
      ⟨old, kept, same, -⟩ | ⟨backend, -, rfl, -, -⟩
    · obtain ⟨n, created⟩ := known c old kept
      exact ⟨n, List.mem_append_left _ (same ▸ created)⟩
    · exact ⟨s.exchange, List.mem_append_right _ List.mem_cons_self⟩

/-- Nothing the loop thread does is part of handling a POST. -/
theorem Posting.quiet {pc : ServerPc} (posting : Posting s.request before during pc)
    (unwritten : messages out = []) (unasked : asked out = [])
    (created : ∀ n c id, .created n c id ∉ out) :
    Posting s.request before (during ++ out) pc := by
  cases posting with
  | blank blank => exact .blank blank
  | done named written asked => exact .done named (by simp [*]) (by simp [*])
  | _ => constructor <;> simp_all

theorem Posting.step {guard : Sys → Action → Prop}
    (run : Run (step h) guard (.start h) s (before ++ .accepted s.exchange s.request :: during))
    (posting : Posting s.request before during s.server) (takes : takesMessages s a = true)
    (t : Transition h s a s' out) (busy : s'.server ≠ .accept) :
    Posting s.request before (during ++ out) s'.server := by
  have quiet {out : List Event} := @Posting.quiet s out before during s.server posting
  cases t
  case lock o handler at_ free =>
    rw [at_] at posting
    cases posting with
    | lock unwritten unasked created => simpa using .locked unwritten unasked created
  case enter o handler c next allowed at_ found enters =>
    obtain ⟨cl, live, same⟩ := (sane_of_run run).sound.allocated _ _ found
    obtain ⟨n, made⟩ := createdFor_of_run run live
    rw [at_] at posting
    cases posting with
    | locked unwritten unasked created =>
      cases enters with
      | post given =>
        have named : CreatedFor s.request.getQueries.getSessionId c before := by
          rcases List.mem_append.mp made with earlier | since
          · exact ⟨n, same ▸ earlier⟩
          · exact absurd since (by simp [created])
        simpa using .test named unwritten unasked
  case skip o handler next at_ skips =>
    rw [at_] at posting
    cases posting with
    | locked unwritten unasked created =>
      cases skips with
      | post absent => exact .blank absent
  case writeAllow o c data cl at_ live free writable =>
    rw [at_] at posting
    cases posting with
    | test named unwritten unasked => simpa using .produce named unwritten unasked
  case writeRefuse o c data cl at_ live free unwritable =>
    simp [takesMessages, at_, live, unwritable] at takes
  case writeProduce o c data cl at_ live =>
    rw [at_] at posting
    cases posting with
    | produce named unwritten unasked =>
      exact .enqueue named (by rw [messages_append, unwritten]; rfl)
        (by rw [asked_append, unasked]; rfl)
  case writeEnqueue o c at_ =>
    rw [at_] at posting
    cases posting with
    | enqueue named written unasked =>
      exact .send named (by rw [messages_append, written]; rfl)
        (by rw [asked_append, unasked]; rfl)
  case writeSend o c at_ =>
    rw [at_] at posting
    cases posting with
    | send named written asked => simpa using .done named written asked
  case destroy o d cl at_ live =>
    refine quiet ?_ ?_ ?_ <;> cases (s.storage.destroy cl.id).2 <;> simp [messages, asked]
  all_goals
    first
    | exact absurd rfl busy
    | exact quiet rfl rfl (by simp)
    | rw [‹s.server = _›] at posting
      cases posting

/-- A POST goes to its own handler, or is refused for want of a session id. -/
private theorem route_post (h : Host) {req : Request} (uuid : Option Bytes)
    (post : req.getMethod = .post) :
    route h req uuid = .ok ([], .post) ∨ route h req uuid = .error .badRequest := by
  unfold route
  rw [post]
  by_cases unnamed : req.getQueries.getSessionId = [] <;> simp [unnamed]

/-- In every run in which no client refuses a message, each POST with data is
answered 204 if the message was enqueued for its session and a WRITE request
made, once each, and with an error if nothing was. -/
theorem post_acknowledged
    (run : Run (step h) (fun s a => takesMessages s a = true) (.start h) s trace) :
    ∀ before n req during code body after,
      trace = before ++ .accepted n req :: (during ++ .response n code body :: after) →
      req.getMethod = .post → req.getQueries.getData ≠ [] → Honest before req during code := by
  refine every_exchange
    (P := fun s before during => s.request.getMethod = .post →
      Posting s.request before during s.server)
    (Q := fun before req during code => req.getMethod = .post → req.getQueries.getData ≠ [] →
      Honest before req during code) ?_ ?_ ?_ ?_ run
  · intro s trace req uuid id handler _ _ routed post
    rcases route_post h uuid post with passed | refused
    · rw [passed] at routed
      cases routed
      exact .lock rfl rfl nofun
    · rw [refused] at routed
      cases routed
  · intro s before during a s' out run posting takes t busy busy' post
    obtain ⟨-, same, -⟩ := t.keeps busy
    rw [same] at post ⊢
    exact (posting post).step run takes t busy'
  · intro s before req uuid code _ refused post _
    rcases route_post h uuid post with passed | failed
    · rw [passed] at refused
      cases refused
    · rw [failed] at refused
      cases refused
      exact .inr ⟨by decide, rfl, rfl⟩
  · intro s before during a out code posting _ answer post given
    replace posting := posting post
    cases answer with
    | refusal at_ refuses =>
      rw [at_] at posting
      cases posting with
      | locked unwritten unasked created =>
        rw [List.append_nil]
        rcases refuses with rfl | rfl <;> exact .inr ⟨by decide, unwritten, unasked⟩
    | post at_ =>
      rw [at_] at posting
      rw [List.append_nil]
      cases posting with
      | blank blank => exact absurd blank given
      | done named written asked => exact .inl ⟨rfl, _, named, written, asked⟩
    | _ =>
      rw [‹s.server = _›] at posting
      cases posting

end

/-- The backend has hung up before the message is posted. -/
def Sample.postedLate : List Action :=
  Sample.connected ++ .onRead 0 none :: .accept Sample.message none :: List.replicate 4 (.server .ok)

/-- The session is still registered, its message is answered 204, and nobody
has it. -/
theorem post_lost : ∃ s before during,
    exec (step Sample.host) (.start Sample.host) Sample.postedLate = some (s,
      before ++ .accepted 2 Sample.message :: (during ++ [.response 2 .noContent none])) ∧
    s.storage.get Sample.message.getQueries.getSessionId = some 0 ∧
    ¬ Honest before Sample.message during .noContent := by
  refine ⟨_, [.accepted 1 _, .created 1 0 _, .requested 1 _, .dispatched _, .connected 0,
    .response 1 _ _, .hungUp 0, .closed 0], [], rfl, rfl, ?_⟩
  rintro (⟨-, c, -, written, -⟩ | ⟨failed, -⟩)
  · cases written
  · exact absurd failed (by decide)

theorem post_acknowledged_posted : ∃ s before during,
    exec (restrict (step Sample.host) fun s a => takesMessages s a = true) (.start Sample.host)
      Sample.posted = some (s,
        before ++ .accepted 2 Sample.message :: (during ++ [.response 2 .noContent none])) ∧
    Honest before Sample.message during .noContent := by
  have ran : exec (restrict (step Sample.host) fun s a => takesMessages s a = true)
      (.start Sample.host) Sample.posted = some (_, [.accepted 1 _, .created 1 0 _, .requested 1 _,
        .dispatched _, .connected 0, .response 1 _ _] ++ .accepted 2 Sample.message ::
        ([.written 2 0 _, .requested 2 _] ++ [.response 2 .noContent none])) := rfl
  exact ⟨_, _, _, ran,
    post_acknowledged (run_of_exec ran) _ _ _ _ _ _ _ rfl (by decide) (by decide)⟩

end LinearFcgi
