import LinearFcgi.Channels
import LinearFcgi.Exchanges

/-! What a poll that fails has done to the read queue. `onPoll` takes the chunks
out as it goes and has four ways to fail; all but one of them may come when
some are out already, and then they are lost. -/
namespace LinearFcgi

open TraceMachine

/-- A poll that has taken something does not fail: `Client::read` accepts the
client again, and there is memory, and a code, for what was taken. -/
def keepsPolling (h : Host) (s : Sys) : Action → Bool
  | .server o => match s.server with
    | .pollTest c data => data = [] || (s.storage.heap c).all (·.readable)
    | .pollStore _ _ _ => o ≠ .noMemory
    | .pollEncode _ data => (encodeBody h data o).isSome
    | _ => true
  | _ => true

/-- Where the server thread stands, it has taken nothing. -/
def ServerPc.untaken : ServerPc → Bool
  | .pollTest _ data | .pollTouch _ data | .pollConsume _ data => data = []
  | .pollStore _ _ _ | .pollEncode _ _ => false
  | .accept | .lock _ | .locked _ | .disconnectReturn | .postReturn => true
  | .connectBegin _ _ | .connectEnqueue _ | .connectSend _ | .connectPublish _ => true
  | .connectWait _ _ | .connectReturn _ _ => true
  | .disconnectBegin _ _ | .disconnectEnqueue _ _ | .disconnectSend _ _ => true
  | .writeTest _ _ | .writeProduce _ _ | .writeEnqueue _ | .writeSend _ => true

/-- What is known of the exchange going on. -/
structure Polling (s : Sys) (before during : List Event) : Prop where
  taken : s.server.untaken = true → ∀ c, taken c during = []
  chunk : ∀ c data chunk, s.server = .pollStore c data chunk → chunk ≠ []
  bound : ∀ c, (LinearFcgi.taken c before).length ≤ (received c before).length

section

variable {h : Host} {s s' : Sys} {a : Action} {out trace before during : List Event}

attribute [grind =] ServerPc.untaken

theorem taken_le_received {guard : Sys → Action → Prop}
    (run : Run (step h) guard (.start h) s trace) (c : Addr) :
    (taken c trace).length ≤ (received c trace).length := by
  obtain ⟨q, conserved, -⟩ := reads_conserved run c
  rw [conserved, List.length_append]
  exact Nat.le_add_right _ _

/-- A step that leaves the server thread with nothing taken takes nothing. -/
private theorem taken_step (t : Transition h s a s' out)
    (chunk : ∀ c data chunk, s.server = .pollStore c data chunk → chunk ≠ [])
    (busy : s'.server ≠ .accept) (untaken : s'.server.untaken = true) (c : Addr) :
    taken c out = [] ∧ s.server.untaken = true := by
  cases t
  case destroy o d cl at_ live =>
    refine ⟨?_, untaken⟩
    cases (s.storage.destroy cl.id).2 <;> simp [taken]
  case pollBlank at_ live oldest => cases untaken
  case pollTake at_ live oldest nonempty copied => cases untaken
  case pollMore o d data chunk' at_ room short =>
    have blank : data ++ chunk' = [] := by simpa [ServerPc.untaken] using untaken
    exact absurd (List.append_eq_nil_iff.mp blank).2 (chunk d data chunk' at_)
  all_goals exact ⟨rfl, by grind⟩

private theorem chunk_step (t : Transition h s a s' out)
    (chunk : ∀ c data chunk, s.server = .pollStore c data chunk → chunk ≠ []) :
    ∀ c data chunk, s'.server = .pollStore c data chunk → chunk ≠ [] := by
  cases t
  case enter enters => cases enters <;> nofun
  case skip skips => cases skips <;> nofun
  case disconnectIdle caller _ _ _ _ _ _ => cases caller <;> nofun
  case disconnectSend caller _ _ => cases caller <;> nofun
  all_goals grind

theorem Polling.step (polling : Polling s before during) (t : Transition h s a s' out)
    (busy : s'.server ≠ .accept) : Polling s' before (during ++ out) where
  taken := by
    intro untaken c
    obtain ⟨silent, untaken'⟩ := taken_step t polling.chunk busy untaken c
    rw [taken_append, polling.taken untaken' c, silent, List.append_nil]
  chunk := chunk_step t polling.chunk
  bound := polling.bound

/-- A client that was there is there still, or the close callback has deleted it. -/
theorem deleted_since {s₀ : Sys} (run : Reaches (step h) (.start h) s₀ before)
    (rest : Reaches (step h) s₀ s during) {c : Addr} (live : s₀.storage.heap c ≠ none)
    (dead : s.storage.heap c = none) : .destroyed c ∈ during := by
  refine rest.invariant (I := fun s during => s.storage.heap c = none → .destroyed c ∈ during)
    (fun dead => absurd dead live) ?_ dead
  intro s during a s' out rest deleted _ stepped dead
  rw [List.mem_append]
  cases there : s.storage.heap c with
  | none => exact .inl (deleted there)
  | some cl =>
    have sane := sane_of_run (run.append rest)
    exact .inr (destroyed_step sane (step_cases stepped).2 there dead).1

/-- In every run in which no poll fails that has taken something, a request that
is answered with an error has removed no chunk from any read queue. The queue of
each client that is still there when the answer has been given holds what it held
when the request came, and what was received since; a client that is not there any
more was deleted by the close callback. -/
theorem failed_poll_loses_nothing
    (run : Run (step h) (fun s a => keepsPolling h s a = true) (.start h) s trace) :
    ∀ before n req during code body after,
      trace = before ++ .accepted n req :: (during ++ .response n code body :: after) →
      400 ≤ code.num → ∃ s₀ s₁, Reaches (step h) (.start h) s₀ before ∧
        Reaches (step h) s₀ s₁ (.accepted n req :: (during ++ [.response n code body])) ∧
        Reaches (step h) s₁ s after ∧ ∀ c, taken c during = [] ∧
          queued c (before ++ .accepted n req :: during) = queued c before ++ received c during ∧
          ∀ cl₀, s₀.storage.heap c = some cl₀ →
            (∃ cl, s₁.storage.heap c = some cl ∧
              cl.readQueue = cl₀.readQueue ++ received c during) ∨
            s₁.storage.heap c = none ∧ .destroyed c ∈ during := by
  have loses_nothing : ∀ before n req during code body after,
      trace = before ++ .accepted n req :: (during ++ .response n code body :: after) →
      400 ≤ code.num → ∀ c, taken c during = [] ∧
        (taken c before).length ≤ (received c before).length := by
    refine every_exchange (P := Polling)
      (Q := fun before req during code => 400 ≤ code.num → ∀ c, taken c during = [] ∧
        (taken c before).length ≤ (received c before).length) ?_ ?_ ?_ ?_ run
    · intro s trace req uuid id handler run at_ routed
      exact ⟨fun _ _ => rfl, nofun, taken_le_received run⟩
    · intro s before during a s' out _ polling _ t _ busy
      exact polling.step t busy
    · intro s before req uuid code run _ _ c
      exact ⟨rfl, taken_le_received run c⟩
    · intro s before during a out code polling keeps answer failed c
      refine ⟨?_, polling.bound c⟩
      have silent : taken c out = [] := by cases answer <;> rfl
      rw [taken_append, silent, List.append_nil]
      refine polling.taken ?_ c
      cases answer with
      | pollGone at_ live unreadable =>
        simpa [keepsPolling, at_, live, unreadable, ServerPc.untaken] using keeps
      | pollNoMemory at_ => simp [keepsPolling, at_] at keeps
      | pollFail at_ fails => simp [keepsPolling, at_, fails] at keeps
      | poll at_ encoded => exact absurd failed (by decide)
      | _ => simp [*, ServerPc.untaken]
  intro before n req during code body after split failed
  obtain ⟨s₀, s₁, run₀, rest₀, rest₁⟩ := exchange_states run.reaches split
  refine ⟨s₀, s₁, run₀, rest₀, rest₁, fun c => ?_⟩
  obtain ⟨kept, bound⟩ := loses_nothing before n req during code body after split failed c
  have accepted : taken c (.accepted n req :: during) = taken c during := rfl
  have accepted' : received c (.accepted n req :: during) = received c during := rfl
  have queue : queued c (before ++ .accepted n req :: during) = queued c before ++ received c during := by
    rw [queued, queued, taken_append, received_append, accepted, accepted', kept, List.append_nil,
      List.drop_append_of_le_length bound]
  refine ⟨kept, queue, fun cl₀ live₀ => ?_⟩
  cases live : s₁.storage.heap c with
  | none =>
    have deleted := deleted_since run₀ rest₀ (by simp [live₀]) live
    exact .inr ⟨rfl, by simpa using deleted⟩
  | some cl =>
    have whole : before ++ (.accepted n req :: (during ++ [.response n code body])) =
        before ++ .accepted n req :: during ++ [.response n code body] := by simp
    have answered : queued c (before ++ .accepted n req :: during ++ [.response n code body]) =
        queued c (before ++ .accepted n req :: during) := by
      simp [queued, taken, received]
    refine .inl ⟨cl, rfl, ?_⟩
    rw [queued_of_run (run₀.append rest₀) live, whole, answered, queue, queued_of_run run₀ live₀]

end

/-- The backend hangs up while a poll is gathering what it has sent. -/
def Sample.cutOff : List Action :=
  Sample.connected ++ [.onRead 0 (some (ascii "he")), .loop .ok, .accept Sample.poll none] ++
    List.replicate 6 (.server .ok) ++ [.onRead 0 none, .server .ok]

/-- The poll is answered 410, and what was in the read queue when it came is
nowhere. -/
theorem poll_loses : ∃ s before during,
    exec (step Sample.host) (.start Sample.host) Sample.cutOff = some (s,
      before ++ .accepted 2 Sample.poll :: (during ++ [.response 2 .gone none])) ∧
    queued 0 before = [ascii "he"] ∧
    queued 0 (before ++ .accepted 2 Sample.poll :: during) = [] := by
  refine ⟨_, [.accepted 1 _, .created 1 0 _, .requested 1 _, .dispatched _, .connected 0,
    .response 1 _ _, .received 0 _], [.live 2 0, .taken 2 0 _, .hungUp 0, .closed 0, .gone 2 0],
    rfl, rfl, rfl⟩

theorem failed_poll_loses_nothing_polledLate : ∃ s before during,
    exec (restrict (step Sample.host) fun s a => keepsPolling Sample.host s a = true)
      (.start Sample.host) Sample.polledLate = some (s,
        before ++ .accepted 2 Sample.poll :: (during ++ [.response 2 .gone none])) ∧
    queued 0 (before ++ .accepted 2 Sample.poll :: during) = [ascii "he"] := by
  have ran : exec (restrict (step Sample.host) fun s a => keepsPolling Sample.host s a = true)
      (.start Sample.host) Sample.polledLate = some (_, [.accepted 1 _, .created 1 0 _,
        .requested 1 _, .dispatched _, .connected 0, .response 1 _ _, .received 0 (ascii "he"),
        .hungUp 0, .closed 0] ++ .accepted 2 Sample.poll ::
        ([.gone 2 0] ++ [.response 2 .gone none])) := rfl
  obtain ⟨s₀, s₁, -, -, -, kept⟩ :=
    failed_poll_loses_nothing (run_of_exec ran) _ _ _ _ _ _ _ rfl (by decide)
  exact ⟨_, _, _, ran, (kept 0).2.1⟩

end LinearFcgi
