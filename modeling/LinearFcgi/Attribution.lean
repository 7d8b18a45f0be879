import LinearFcgi.Lookups

/-! Which session the server thread works for. A request names a session by its
id and the process follows a pointer; while no two sessions share an id, the
one leads where the other does, and an exchange can be followed from the request
that shows in the history to its answer. -/
namespace LinearFcgi

open TraceMachine

/-- The session was created for this client, and the id went to no other. -/
structure Opens (c : Addr) (id : Bytes) (trace : List Event) : Prop where
  created : ∃ k, .created k c id ∈ trace
  only : ∀ k d, .created k d id ∈ trace → d = c

/-- The server thread is in the handler. -/
def ServerPc.Within (handler : Handler) : ServerPc → Prop
  | .accept => False
  | .lock handler' | .locked handler' => handler = handler'
  | .connectBegin _ _ | .connectEnqueue _ | .connectSend _ | .connectPublish _
  | .connectWait _ _ | .connectReturn _ _ | .disconnectBegin .connect _
  | .disconnectEnqueue .connect _ | .disconnectSend .connect _ => ∃ backend, handler = .connect backend
  | .disconnectBegin .handler _ | .disconnectEnqueue .handler _ | .disconnectSend .handler _
  | .disconnectReturn => handler = .disconnect
  | .pollTest _ _ | .pollTouch _ _ | .pollConsume _ _ | .pollStore _ _ _ | .pollEncode _ _ =>
    handler = .poll
  | .writeTest _ _ | .writeProduce _ _ | .writeEnqueue _ | .writeSend _ | .postReturn =>
    handler = .post

theorem Opens.append {c : Addr} {id : Bytes} {trace out : List Event} (opens : Opens c id trace)
    (uncreated : ∀ k d, .created k d id ∉ out) : Opens c id (trace ++ out) := by
  obtain ⟨⟨k, created⟩, only⟩ := opens
  refine ⟨⟨k, List.mem_append_left _ created⟩, fun k d created => ?_⟩
  rcases List.mem_append.mp created with earlier | now
  · exact only k d earlier
  · exact absurd now (uncreated k d)

section

variable {h : Host} {s s' : Sys} {a : Action} {out trace : List Event} {c : Addr} {id : Bytes}

/-! ## The client of a session -/

/-- A client that is there is registered under the id it was created with. -/
theorem deleted_of_unregistered (run : Reaches (step h) (.start h) s trace) {k : Nat}
    (created : .created k c id ∈ trace) (unregistered : s.storage.get id = none) :
    s.storage.heap c = none := by
  rw [Option.eq_none_iff_forall_ne_some]
  intro cl live
  obtain ⟨backend, opened, -⟩ := origins_of_run run live
  obtain ⟨backend', opened'⟩ := opened_of_created run created
  obtain ⟨same, -⟩ := opened.unique run opened'
  have found := (sane_of_run run).sound.registered c cl live
  rw [same] at found
  exact absurd (unregistered.symm.trans found) (by simp)

/-- The server thread comes to a client by looking it up. -/
theorem Transition.comesToServe {handler : Handler} {d : Addr} (t : Transition h s a s' out)
    (serving : s'.server.serves = some (handler, some d)) : s'.request = s.request ∧
      (s.server.serves = some (handler, some d) ∨
        s.storage.get s.request.getQueries.getSessionId = some d) := by
  cases t
  case enter o handler' c next allowed at_ found enters =>
    cases enters <;> cases serving <;> exact ⟨rfl, .inr found⟩
  case skip o handler' next at_ skips => cases skips <;> cases serving
  case disconnectIdle o caller c cl at_ live free idle => cases caller <;> cases serving
  case disconnectMark o caller c cl at_ live free busy =>
    cases caller <;> cases serving
    exact ⟨rfl, .inl (by rw [at_]; rfl)⟩
  case disconnectEnqueue o caller c at_ =>
    cases caller <;> cases serving
    exact ⟨rfl, .inl (by rw [at_]; rfl)⟩
  case disconnectSend o caller c at_ => cases caller <;> cases serving
  all_goals
    first
    | cases serving
      done
    | exact ⟨rfl, .inl serving⟩
    | cases serving
      exact ⟨rfl, .inl (by rw [‹s.server = _›]; rfl)⟩

/-- The client the server thread works with was created for the session that the
request names. -/
theorem created_of_serves (run : Reaches (step h) (.start h) s trace) {handler : Handler} {d : Addr}
    (serving : s.server.serves = some (handler, some d)) :
    ∃ k, .created k d s.request.getQueries.getSessionId ∈ trace := by
  refine run.invariant (I := fun s trace => ∀ handler d, s.server.serves = some (handler, some d) →
    ∃ k, .created k d s.request.getQueries.getSessionId ∈ trace) ?_ ?_ handler d serving
  · intro handler d serving
    cases serving
  · intro s trace a s' out run created _ stepped handler d serving
    obtain ⟨same, before | found⟩ := (step_cases stepped).2.comesToServe serving
    · obtain ⟨k, earlier⟩ := created handler d before
      exact ⟨k, List.mem_append_left _ (same ▸ earlier)⟩
    · obtain ⟨cl, live, named⟩ := (sane_of_run run).sound.allocated _ d found
      obtain ⟨backend, ⟨past, n, later, req, split, -⟩, -⟩ := origins_of_run run live
      refine ⟨n, List.mem_append_left _ ?_⟩
      rw [same, ← named]
      simp [split]

/-- A session and its client belong to each other. -/
theorem Opens.names (opens : Opens c id trace) (run : Reaches (step h) (.start h) s trace) {k : Nat}
    {d : Addr} {id' : Bytes} (created : .created k d id' ∈ trace) : d = c ↔ id' = id := by
  constructor
  · rintro rfl
    obtain ⟨m, created'⟩ := opens.created
    obtain ⟨backend, opened⟩ := opened_of_created run created
    obtain ⟨backend', opened'⟩ := opened_of_created run created'
    exact (opened.unique run opened').1
  · rintro rfl
    exact opens.only k d created

theorem names_before (names : ∀ k d id', .created k d id' ∈ trace ++ out → (d = c ↔ id' = id)) :
    ∀ k d id', .created k d id' ∈ trace → (d = c ↔ id' = id) :=
  fun k d id' created => names k d id' (List.mem_append_left out created)

/-- So the server thread works with the client of the session exactly if the
request names the session. -/
theorem serves_names (run : Reaches (step h) (.start h) s trace)
    (names : ∀ k d id', .created k d id' ∈ trace → (d = c ↔ id' = id)) {handler : Handler}
    {d : Addr} (serving : s.server.serves = some (handler, some d)) :
    d = c ↔ s.request.getQueries.getSessionId = id := by
  obtain ⟨k, created⟩ := created_of_serves run serving
  exact names k d _ created

theorem serves_opens (run : Reaches (step h) (.start h) s trace) (opens : Opens c id trace)
    {handler : Handler} {d : Addr} (serving : s.server.serves = some (handler, some d)) :
    d = c ↔ s.request.getQueries.getSessionId = id :=
  serves_names run (fun _ _ _ created => opens.names run created) serving

/-! ## The handler of a request -/

theorem Transition.keepsWithin {handler : Handler} (t : Transition h s a s' out)
    (within : s.server.Within handler) (busy : s'.server ≠ .accept) :
    s'.uuid = s.uuid ∧ s'.server.Within handler := by
  cases t
  case refuse at_ routed => exact absurd rfl busy
  case proceed at_ routed =>
    rw [at_] at within
    exact within.elim
  case create o backend at_ unknown room alloc =>
    rw [at_] at within
    exact ⟨rfl, backend, within⟩
  case enter o handler' d next allowed at_ found enters =>
    rw [at_] at within
    obtain rfl : handler = handler' := within
    cases enters <;> exact ⟨rfl, rfl⟩
  case skip o handler' next at_ skips =>
    rw [at_] at within
    obtain rfl : handler = handler' := within
    cases skips <;> exact ⟨rfl, rfl⟩
  case disconnectIdle o caller d cl at_ live free idle =>
    rw [at_] at within
    cases caller <;> exact ⟨rfl, within⟩
  case disconnectMark o caller d cl at_ live free busy =>
    rw [at_] at within
    cases caller <;> exact ⟨rfl, within⟩
  case disconnectEnqueue o caller d at_ =>
    rw [at_] at within
    cases caller <;> exact ⟨rfl, within⟩
  case disconnectSend o caller d at_ =>
    rw [at_] at within
    cases caller <;> exact ⟨rfl, within⟩
  all_goals
    first
    | exact ⟨rfl, within⟩
    | exact absurd rfl busy
    | rw [‹s.server = _›] at within
      exact ⟨rfl, within⟩

/-- The server thread is in the handler that its request was routed to. -/
theorem within_of_run {guard : Sys → Action → Prop} (run : Run (step h) guard (.start h) s trace)
    (busy : s.server ≠ .accept) :
    ∃ uuid handler, route h s.request uuid = .ok (s.uuid, handler) ∧ s.server.Within handler := by
  refine run.invariant (I := fun s _ => s.server ≠ .accept → ∃ uuid handler,
    route h s.request uuid = .ok (s.uuid, handler) ∧ s.server.Within handler) ?_ ?_ busy
  · intro busy
    exact absurd rfl busy
  · intro s trace a s' out _ within _ stepped busy'
    have t := (step_cases stepped).2
    by_cases idle : s.server = .accept
    · obtain ⟨req, uuid, id, handler, routed, -, rfl⟩ := t.begins idle busy'
      exact ⟨uuid, handler, routed, rfl⟩
    · obtain ⟨uuid, handler, routed, inside⟩ := within idle
      obtain ⟨same, inside'⟩ := t.keepsWithin inside busy'
      exact ⟨uuid, handler, by rw [(t.keeps idle).2.1, same, routed], inside'⟩

/-! ## Exchanges in the history -/

/-- An exchange that is over does not go on. -/
theorem exchange_lt (rest : Reaches (step h) s s' trace) (idle : s.server = .accept)
    (busy : s'.server ≠ .accept) : s.exchange < s'.exchange := by
  have later : s.exchange < s'.exchange ∨ s'.server = .accept ∧ s.exchange ≤ s'.exchange := by
    refine rest.invariant
      (I := fun t _ => s.exchange < t.exchange ∨ t.server = .accept ∧ s.exchange ≤ t.exchange)
      (.inr ⟨idle, le_rfl⟩) ?_
    intro t later a t' out _ holds _ stepped
    have moved := (step_cases stepped).2
    rcases holds with ended | ⟨waiting, same⟩
    · exact .inl (Nat.lt_of_lt_of_le ended moved.counts.1)
    · by_cases still : t'.server = .accept
      · exact .inr ⟨still, same.trans moved.counts.1⟩
      · obtain ⟨req, uuid, id, handler, -, -, rfl⟩ := moved.begins waiting still
        exact .inl (Nat.lt_succ_of_le same)
  exact later.resolve_right fun waits => busy waits.1

/-- An exchange that is going on was going on before the last step. -/
theorem exchange_back {t t' : Sys} {later : List Event} (rest : Reaches (step h) s t later)
    (stepped : step h t a = some (t', out)) (still : t'.exchange = s.exchange)
    (busy : t'.server ≠ .accept) : t.exchange = s.exchange ∧ t.server ≠ .accept := by
  have moved := (step_cases stepped).2
  have grown := exchange_le rest
  have grows := moved.counts.1
  have same : t.exchange = s.exchange := by omega
  refine ⟨same, fun idle => ?_⟩
  obtain ⟨req, uuid, id, handler, -, -, rfl⟩ := moved.begins idle busy
  simp [same] at still

/-- How a request is accepted. -/
theorem Transition.accepts {n : Nat} {req : Request} (t : Transition h s a s' out)
    (accepted : .accepted n req ∈ out) : s'.exchange = n ∧
    ((s'.server = .accept ∧ ∃ uuid code, route h req uuid = .error code ∧
      out = [.accepted n req, .response n code none]) ∨
    ∃ uuid handler, route h req uuid = .ok (s'.uuid, handler) ∧ s'.server = .lock handler ∧
      s'.request = req ∧ out = [.accepted n req]) := by
  cases t
  case refuse req' uuid code at_ routed =>
    obtain ⟨rfl, rfl⟩ : n = s.exchange + 1 ∧ req = req' := by simpa using accepted
    exact ⟨rfl, .inl ⟨rfl, uuid, code, routed, rfl⟩⟩
  case proceed req' uuid id handler at_ routed =>
    obtain ⟨rfl, rfl⟩ : n = s.exchange + 1 ∧ req = req' := by simpa using accepted
    exact ⟨rfl, .inr ⟨uuid, handler, routed, rfl, rfl, rfl⟩⟩
  case destroy o d cl at_ live => cases (s.storage.destroy cl.id).2 <;> simp at accepted
  all_goals simp at accepted

/-- Behind each request with its answer in the history stand the state in which
its handler set out, the state in which it answered, and what came between;
unless the request was refused at once. -/
theorem exchange_between (run : Reaches (step h) (.start h) s trace)
    {before during after : List Event} {n : Nat} {req : Request} {code : Response.Code}
    {body : Option Bytes}
    (split : trace = before ++ .accepted n req :: (during ++ .response n code body :: after)) :
    (∃ uuid, route h req uuid = .error code) ∨
    ∃ s₀ uuid handler s₁ during₁ a s₂ pre post later,
      Reaches (step h) (.start h) s₀ (before ++ [.accepted n req]) ∧
      route h req uuid = .ok (s₀.uuid, handler) ∧ s₀.server = .lock handler ∧ s₀.request = req ∧
      Reaches (step h) s₀ s₁ during₁ ∧ s₁.exchange = s₀.exchange ∧ s₁.server ≠ .accept ∧
      step h s₁ a = some (s₂, pre ++ .response n code body :: post) ∧ Answer h s₁ a pre code ∧
      Reaches (step h) s₂ s later := by
  obtain ⟨s₀, past, a, s₁, pre, post, later, run₀, -, stepped, rest, rfl, afterwards⟩ :=
    run.around before _ split
  obtain ⟨number, ⟨ended, uuid, code', refused, emitted⟩ | ⟨uuid, handler, routed, at_, same, emitted⟩⟩ :=
    (step_cases stepped).2.accepts (List.mem_append_right pre List.mem_cons_self)
  · -- the only answer to the request is the refusal
    left
    obtain ⟨rfl, rfl⟩ : pre = [] ∧ post = [.response n code' none] := by
      rcases pre with _ | ⟨e, _ | ⟨e', pre⟩⟩ <;> simp_all
    cases during with
    | nil =>
      cases afterwards
      exact ⟨uuid, refused⟩
    | cons e during =>
      obtain ⟨-, rfl⟩ := List.cons.inj afterwards
      obtain ⟨s₂, during₁, b, s₃, pre, post, -, rest₂, -, stepped₂, -, -, -⟩ :=
        rest.around during after rfl
      obtain ⟨-, again, -⟩ | ⟨busy, same, -⟩ := (step_cases stepped₂).2.answers rfl
      · have grown := exchange_le rest₂
        omega
      · have grown := exchange_lt rest₂ ended busy
        omega
  · right
    obtain ⟨rfl, rfl⟩ : pre = [] ∧ post = [] := by
      rcases pre with _ | ⟨e, pre⟩ <;> simp_all
    obtain ⟨s₂, during₁, b, s₃, pre, post, later', rest₂, -, stepped₂, last, -, -⟩ :=
      rest.around during after afterwards.symm
    have grown := exchange_le rest₂
    obtain ⟨-, again, -⟩ | ⟨busy, still, answer⟩ := (step_cases stepped₂).2.answers rfl
    · omega
    · refine ⟨s₁, uuid, handler, s₂, during₁, b, s₃, pre, post, later', ?_, routed, at_, same, rest₂,
        still.symm.trans number.symm, busy, stepped₂, answer, last⟩
      simpa using run₀.next trivial stepped

end

end LinearFcgi
