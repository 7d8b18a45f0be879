import LinearFcgi.Threads

/-! A request and its answer, as they show in the history. The server thread
handles one request after the other, so what it does for a request stands
between the two. A property of every exchange is proved from one invariant of
the exchange that is going on. -/
namespace LinearFcgi

open TraceMachine

/-- The exchange going on: the history before its request, and since. -/
structure Exchange (s : Sys) (trace before during : List Event) : Prop where
  split : trace = before ++ .accepted s.exchange s.request :: during
  first : ∀ m req, .accepted m req ∈ before → m < s.exchange
  only : ∀ m req, .accepted m req ∉ during

/-- The ways in which the server thread answers a request it has not refused,
with what it does in the same step. -/
inductive Answer (h : Host) (s : Sys) : Action → List Event → Response.Code → Prop where
  | refusal {o : Outcome} {handler : Handler} {code : Response.Code}
      (at_ : s.server = .locked handler) (refuses : handler.Refuses code) :
      Answer h s (.server o) [] code
  | connect {o : Outcome} {c : Addr} {f : Bool} (at_ : s.server = .connectReturn c f) :
      Answer h s (.server o) [] (if f then .ok else .serviceUnavailable)
  | disconnect {o : Outcome} (at_ : s.server = .disconnectReturn) : Answer h s (.server o) [] .ok
  | pollGone {o : Outcome} {c : Addr} {data : Bytes} {cl : Client}
      (at_ : s.server = .pollTest c data) (live : s.storage.heap c = some cl)
      (unreadable : cl.readable = false) : Answer h s (.server o) [.gone s.exchange c] .gone
  | pollNoMemory {c : Addr} {data chunk : Bytes} (at_ : s.server = .pollStore c data chunk) :
      Answer h s (.server .noMemory) [] .internalServerError
  | pollFail {o : Outcome} {c : Addr} {data : Bytes} (at_ : s.server = .pollEncode c data)
      (failed : encodeBody h data o = none) : Answer h s (.server o) [] .internalServerError
  | poll {o : Outcome} {c : Addr} {data body : Bytes} (at_ : s.server = .pollEncode c data)
      (encoded : encodeBody h data o = some body) :
      Answer h s (.server o) [.polled s.exchange c body] .ok
  | post {o : Outcome} (at_ : s.server = .postReturn) : Answer h s (.server o) [] .noContent

section

variable {h : Host} {s s' : Sys} {a : Action} {out : List Event}

/-- While the server thread is busy it accepts nothing. -/
theorem Transition.keeps (busy : s.server ≠ .accept) (t : Transition h s a s' out) :
    s'.exchange = s.exchange ∧ s'.request = s.request ∧ ∀ m req, .accepted m req ∉ out := by
  cases t
  case refuse at_ routed => exact absurd at_ busy
  case proceed at_ routed => exact absurd at_ busy
  case destroy o d cl at_ live => cases (s.storage.destroy cl.id).2 <;> simp
  all_goals simp

/-- It becomes busy by accepting a request. -/
theorem Transition.begins (idle : s.server = .accept) (t : Transition h s a s' out)
    (busy : s'.server ≠ .accept) : ∃ req uuid id handler,
      route h req uuid = .ok (id, handler) ∧ out = [.accepted (s.exchange + 1) req] ∧
      s' = { s with request := req, exchange := s.exchange + 1, uuid := id,
                    server := .lock handler } := by
  cases t
  case proceed req uuid id handler at_ routed => exact ⟨req, uuid, id, handler, routed, rfl, rfl⟩
  all_goals simp_all

/-- The exchanges are numbered in the order of their requests. -/
theorem Transition.counts (t : Transition h s a s' out) : s.exchange ≤ s'.exchange ∧
    ∀ m req, .accepted m req ∈ out → m = s'.exchange := by
  cases t
  case destroy o d cl at_ live => cases (s.storage.destroy cl.id).2 <;> simp
  all_goals simp

/-- Nothing but a request begins an exchange. -/
theorem Transition.exchange_eq (t : Transition h s a s' out)
    (accepts : ∀ req uuid, a ≠ .accept req uuid) : s'.exchange = s.exchange := by
  cases t
  case refuse at_ routed => exact absurd rfl (accepts _ _)
  case proceed at_ routed => exact absurd rfl (accepts _ _)
  all_goals rfl

/-- The request is that of the exchange. -/
theorem Transition.request_eq (t : Transition h s a s' out) (still : s'.exchange = s.exchange) :
    s'.request = s.request := by
  cases t
  case refuse at_ routed => exact absurd still (Nat.succ_ne_self _)
  case proceed at_ routed => exact absurd still (Nat.succ_ne_self _)
  all_goals rfl

/-- An answer is the last thing the server thread does for a request, unless it
refuses the request at once. -/
theorem Transition.answers {n : Nat} {code : Response.Code} {body : Option Bytes}
    {pre post : List Event} (t : Transition h s a s' out)
    (answered : out = pre ++ .response n code body :: post) :
    (s.server = .accept ∧ n = s.exchange + 1 ∧ ∃ req uuid,
      route h req uuid = .error code ∧ pre = [.accepted n req]) ∨
    (s.server ≠ .accept ∧ n = s.exchange ∧ Answer h s a pre code) := by
  cases t
  case refuse req uuid code at_ routed =>
    left
    rcases pre with _ | ⟨e, _ | ⟨e', pre⟩⟩
    · cases answered
    · cases answered
      exact ⟨at_, rfl, req, uuid, routed, rfl⟩
    · simp at answered
  case destroy o d cl at_ live =>
    cases deleted : (s.storage.destroy cl.id).2 <;>
      simp [deleted, List.cons_eq_append_iff] at answered
  all_goals
    right
    simp_all [List.cons_eq_append_iff]
  all_goals grind [Answer]

/-- A request is accepted before anything else is done in the step, and the answer
is the last thing done in one. -/
theorem Transition.ends (t : Transition h s a s' out) {pre post : List Event} :
    (∀ n req, out = pre ++ .accepted n req :: post → pre = []) ∧
    ∀ n code body, out = pre ++ .response n code body :: post → post = [] := by
  cases t
  case destroy o d cl at_ live =>
    cases (s.storage.destroy cl.id).2 <;> simp [List.cons_eq_append_iff]
  all_goals simp +contextual [List.cons_eq_append_iff]

theorem exchange_le {t : Sys} {later : List Event} (rest : Reaches (step h) s t later) :
    s.exchange ≤ t.exchange := by
  refine rest.invariant (I := fun t _ => s.exchange ≤ t.exchange) le_rfl ?_
  intro t later a t' out _ grown _ stepped
  exact grown.trans (step_cases stepped).2.counts.1

/-- Around each request with its answer in the history stand the state in which it
was accepted and the one in which it was answered. -/
theorem exchange_states {trace before during after : List Event} {n : Nat} {req : Request}
    {code : Response.Code} {body : Option Bytes} (run : Reaches (step h) (.start h) s trace)
    (split : trace = before ++ .accepted n req :: (during ++ .response n code body :: after)) :
    ∃ s₀ s₁, Reaches (step h) (.start h) s₀ before ∧
      Reaches (step h) s₀ s₁ (.accepted n req :: (during ++ [.response n code body])) ∧
      Reaches (step h) s₁ s after := by
  obtain ⟨s₀, past, a, s', pre, post, later, run₀, -, stepped, rest, rfl, split'⟩ :=
    run.around before _ split
  obtain rfl : pre = [] := (step_cases stepped).2.ends.1 n req rfl
  have rest : Reaches (step h) s₀ s (.accepted n req :: (during ++ .response n code body :: after)) := by
    simpa [split'] using (Run.next .start trivial stepped).append rest
  obtain ⟨t, past', b, s₁, pre, post', later', run₁, -, stepped', rest', split'', rfl⟩ :=
    rest.around (.accepted n req :: during) after rfl
  obtain rfl : post' = [] := (step_cases stepped').2.ends.2 n code body rfl
  refine ⟨s₀, s₁, by simpa using run₀, ?_, by simpa using rest'⟩
  have answered := run₁.next trivial stepped'
  rwa [← List.append_assoc, ← split''] at answered

section Run

variable {guard : Sys → Action → Prop} {trace : List Event}

theorem accepted_le (run : Run (step h) guard (.start h) s trace) :
    ∀ m req, .accepted m req ∈ trace → m ≤ s.exchange := by
  refine run.invariant (I := fun s trace => ∀ m req, .accepted m req ∈ trace → m ≤ s.exchange)
    (by simp) ?_
  intro s trace a s' out _ before _ stepped m req accepted
  obtain ⟨later, now⟩ := (step_cases stepped).2.counts
  rcases List.mem_append.mp accepted with earlier | new
  · exact (before m req earlier).trans later
  · exact (now m req new).le

/-- The handler that is running, up to its lookup, is the one the request was
routed to, with what `uuid` held then. -/
theorem routed_of_run (run : Run (step h) guard (.start h) s trace) {handler : Handler}
    (at_ : s.server = .lock handler ∨ s.server = .locked handler) :
    ∃ uuid, (∀ u ∈ uuid, u.length = 36) ∧ route h s.request uuid = .ok (s.uuid, handler) := by
  refine run.invariant (I := fun s _ => ∀ handler,
    (s.server = .lock handler ∨ s.server = .locked handler) →
    ∃ uuid : Option Bytes, (∀ u ∈ uuid, u.length = 36) ∧
      route h s.request uuid = .ok (s.uuid, handler)) ?_ ?_ handler at_
  · rintro handler (at_ | at_) <;> cases at_
  · rintro s trace a s' out - routed - stepped handler at_
    have t := (step_cases stepped).2
    cases t
    case proceed req uuid id handler' idle passed =>
      obtain rfl : handler' = handler := by simpa using at_
      refine ⟨uuid, ?_, passed⟩
      -- the length of what `uuid_unparse` wrote is checked by the step itself
      unfold step at stepped
      split at stepped
      · cases stepped
      simp only at stepped
      split at stepped
      · cases stepped
      rename_i written
      intro u given
      rw [Option.mem_def.mp given] at written
      simpa using written
    case lock o handler' at_' free =>
      obtain rfl : handler' = handler := by simpa using at_
      exact routed handler' (.inl at_')
    case enter enters => cases enters <;> simp at at_
    case skip skips => cases skips <;> simp at at_
    case disconnectIdle caller _ _ _ _ _ _ => cases caller <;> simp [Caller.resume] at at_
    case disconnectSend caller _ _ => cases caller <;> simp [Caller.resume] at at_
    all_goals first | exact routed handler at_ | simp at at_

variable {P : Sys → List Event → List Event → Prop}

/-- What holds when a request is accepted, and is kept by every step while it
is handled, holds of the exchange that is going on. -/
theorem exchange_of_run
    (begins : ∀ s trace req uuid id handler, Run (step h) guard (.start h) s trace →
      s.server = .accept → route h req uuid = .ok (id, handler) →
      P { s with request := req, exchange := s.exchange + 1, uuid := id, server := .lock handler }
        trace [])
    (goes : ∀ s before during a s' out,
      Run (step h) guard (.start h) s (before ++ .accepted s.exchange s.request :: during) →
      P s before during → guard s a → Transition h s a s' out →
      s.server ≠ .accept → s'.server ≠ .accept → P s' before (during ++ out))
    (run : Run (step h) guard (.start h) s trace) (busy : s.server ≠ .accept) :
    ∃ before during, Exchange s trace before during ∧ P s before during := by
  refine run.invariant (I := fun s trace => s.server ≠ .accept →
    ∃ before during, Exchange s trace before during ∧ P s before during) ?_ ?_ busy
  · intro busy
    exact absurd rfl busy
  · intro s trace a s' out run ongoing met stepped busy
    have t := (step_cases stepped).2
    by_cases idle : s.server = .accept
    · obtain ⟨req, uuid, id, handler, routed, rfl, rfl⟩ := t.begins idle busy
      refine ⟨trace, [], ⟨rfl, ?_, nofun⟩, begins s trace req uuid id handler run idle routed⟩
      intro m req accepted
      exact Nat.lt_succ_of_le (accepted_le run m req accepted)
    · obtain ⟨before, during, ⟨rfl, first, only⟩, holds⟩ := ongoing idle
      obtain ⟨sameExchange, sameRequest, silent⟩ := t.keeps idle
      refine ⟨before, during ++ out, ⟨?_, ?_, ?_⟩,
        goes s before during a s' out run holds met t idle busy⟩
      · rw [sameExchange, sameRequest, List.append_assoc, List.cons_append]
      · rw [sameExchange]
        exact first
      · intro m req accepted
        rcases List.mem_append.mp accepted with earlier | now
        · exact only m req earlier
        · exact silent m req now

/-- What every answer makes true, from what holds of the exchange going on when
it is given, holds of every request with its answer in the history. -/
theorem every_answer {Q : List Event → Request → List Event → Response.Code → Option Bytes → Prop}
    (begins : ∀ s trace req uuid id handler, Run (step h) guard (.start h) s trace →
      s.server = .accept → route h req uuid = .ok (id, handler) →
      P { s with request := req, exchange := s.exchange + 1, uuid := id, server := .lock handler }
        trace [])
    (goes : ∀ s before during a s' out,
      Run (step h) guard (.start h) s (before ++ .accepted s.exchange s.request :: during) →
      P s before during → guard s a → Transition h s a s' out →
      s.server ≠ .accept → s'.server ≠ .accept → P s' before (during ++ out))
    (refuses : ∀ s before req uuid code body, Run (step h) guard (.start h) s before →
      route h req uuid = .error code → Q before req [] code body)
    (answers : ∀ s before during a s' pre code body post, P s before during → guard s a →
      step h s a = some (s', pre ++ .response s.exchange code body :: post) → Answer h s a pre code →
      Q before s.request (during ++ pre) code body)
    (run : Run (step h) guard (.start h) s trace) :
    ∀ before n req during code body after,
      trace = before ++ .accepted n req :: (during ++ .response n code body :: after) →
      Q before req during code body := by
  intro before n req during code body after split
  refine run.every (P := fun past e => ∀ n code body, e = .response n code body →
      ∀ before req during, past = before ++ .accepted n req :: during → Q before req during code body)
    ?_ (before ++ .accepted n req :: during) _ after (by simp [split]) n code body rfl before req
    during rfl
  clear run split
  rintro s trace a s' out run met stepped pre _ post answered n code body rfl before req during split
  have t := (step_cases stepped).2
  obtain ⟨idle, rfl, req', uuid, refused, rfl⟩ | ⟨busy, rfl, answer⟩ := t.answers answered
  · have new : ∀ req, .accepted (s.exchange + 1) req ∉ trace := by
      intro req accepted
      exact absurd (accepted_le run _ req accepted) (Nat.not_succ_le_self _)
    obtain ⟨rfl, same, rfl⟩ :=
      (List.append_cons_inj_of_notMem (new req) List.not_mem_nil).mp split
    cases same
    exact refuses s _ _ uuid _ _ run refused
  · obtain ⟨before', during', ⟨rfl, first, only⟩, holds⟩ := exchange_of_run begins goes run busy
    rw [List.append_assoc, List.cons_append] at split
    have earlier : .accepted s.exchange req ∉ before' := fun accepted =>
      Nat.lt_irrefl _ (first _ _ accepted)
    have since : .accepted s.exchange req ∉ during' ++ pre := by
      rw [List.mem_append]
      rintro (accepted | accepted)
      · exact only _ _ accepted
      · exact (t.keeps busy).2.2 _ _ (answered ▸ List.mem_append_left _ accepted)
    obtain ⟨rfl, same, rfl⟩ := (List.append_cons_inj_of_notMem earlier since).mp split
    cases same
    exact answers s _ _ a s' pre code body post holds met (answered ▸ stepped) answer

/-- The same, where the body of the answer does not matter. -/
theorem every_exchange {Q : List Event → Request → List Event → Response.Code → Prop}
    (begins : ∀ s trace req uuid id handler, Run (step h) guard (.start h) s trace →
      s.server = .accept → route h req uuid = .ok (id, handler) →
      P { s with request := req, exchange := s.exchange + 1, uuid := id, server := .lock handler }
        trace [])
    (goes : ∀ s before during a s' out,
      Run (step h) guard (.start h) s (before ++ .accepted s.exchange s.request :: during) →
      P s before during → guard s a → Transition h s a s' out →
      s.server ≠ .accept → s'.server ≠ .accept → P s' before (during ++ out))
    (refuses : ∀ s before req uuid code, Run (step h) guard (.start h) s before →
      route h req uuid = .error code → Q before req [] code)
    (answers : ∀ s before during a out code, P s before during → guard s a →
      Answer h s a out code → Q before s.request (during ++ out) code)
    (run : Run (step h) guard (.start h) s trace) :
    ∀ before n req during code body after,
      trace = before ++ .accepted n req :: (during ++ .response n code body :: after) →
      Q before req during code :=
  every_answer (Q := fun before req during code _ => Q before req during code) begins goes
    (fun s before req uuid code _ => refuses s before req uuid code)
    (fun s before during a _ pre code _ _ holds met _ => answers s before during a pre code holds met)
    run

end Run

end

end LinearFcgi
