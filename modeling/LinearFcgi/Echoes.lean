import LinearFcgi.Exchanges
import LinearFcgi.Library.Json

/-! The session id in the answers that echo it. It is put between quotation marks as it
is, and whoever sends the request chooses it. -/
namespace LinearFcgi

open TraceMachine

/-- The request asks to connect to, or to disconnect, a session it names. -/
structure Request.Echoes (req : Request) : Prop where
  method : req.getMethod = .get
  command : req.getQueries.getCommand = ascii "connect" ∨ req.getQueries.getCommand = ascii "disconnect"
  names : req.getQueries.getSessionId ≠ []

/-- Where the server thread can be while it handles such a request. -/
def ServerPc.Echoing : ServerPc → Prop
  | .lock .attach | .locked .attach | .lock .disconnect | .locked .disconnect => True
  | .disconnectBegin .handler _ | .disconnectEnqueue .handler _ | .disconnectSend .handler _ => True
  | .disconnectReturn => True
  | _ => False

section

variable {h : Host} {s s' : Sys} {a : Action} {out : List Event}

theorem route_of_echoes {req : Request} {uuid : Option Bytes} (echoes : req.Echoes) :
    route h req uuid = .ok ([], .attach) ∨ route h req uuid = .ok ([], .disconnect) := by
  obtain ⟨method, command, names⟩ := echoes
  rcases command with command | command
  · simp [route, method, command, names]
  · have other : ascii "disconnect" ≠ ascii "connect" := by decide
    simp [route, method, command, names, other]

theorem echoing_step (t : Transition h s a s' out) (echoing : s.server.Echoing)
    (busy : s'.server ≠ .accept) : s'.server.Echoing := by
  cases t
  case lock o handler at_ free =>
    rw [at_] at echoing
    cases handler <;> exact echoing
  case enter o handler c next allowed at_ found enters =>
    rw [at_] at echoing
    cases enters <;> exact echoing
  case skip o handler next at_ skips =>
    rw [at_] at echoing
    cases skips <;> exact echoing
  case disconnectIdle o caller c cl at_ live free idle =>
    rw [at_] at echoing
    cases caller <;> exact echoing
  case disconnectMark o caller c cl at_ live free idle =>
    rw [at_] at echoing
    cases caller <;> exact echoing
  case disconnectEnqueue o caller c at_ =>
    rw [at_] at echoing
    cases caller <;> exact echoing
  case disconnectSend o caller c at_ =>
    rw [at_] at echoing
    cases caller <;> exact echoing
  all_goals simp_all [ServerPc.Echoing]

/-- What both handlers send, if anything. -/
theorem echo_of_step {o : Outcome} {code : Response.Code} {body : Bytes} {pre post : List Event}
    (at_ : s.server = .locked .attach ∨ s.server = .disconnectReturn)
    (stepped : step h s (.server o) = some (s', pre ++ .response s.exchange code (some body) :: post)) :
    body = sidBody s.request.getQueries.getCallback s.request.getQueries.getSessionId := by
  have sole (e : Event) (same : [e] = pre ++ .response s.exchange code (some body) :: post) :
      e = .response s.exchange code (some body) := by
    have inside : .response s.exchange code (some body) ∈ [e] := by simp [same]
    exact (List.mem_singleton.mp inside).symm
  unfold step at stepped
  split at stepped
  · cases stepped
  rcases at_ with at_ | at_
  · simp only [Sys.serverStep, at_, Sys.handle] at stepped
    split at stepped
    · cases sole _ (Prod.mk.inj (Option.some.inj stepped)).2
    · cases sole _ (Prod.mk.inj (Option.some.inj stepped)).2
      rfl
  · simp only [Sys.serverStep, at_] at stepped
    cases sole _ (Prod.mk.inj (Option.some.inj stepped)).2
    rfl

/-- Without a callback, this is an object with the name and the id spliced into it. -/
theorem sidBody_eq (id : Bytes) : sidBody [] id = 0x7b :: 0x22 :: (ascii "sid" ++ 0x22 :: 0x3a :: 0x22 ::
    (id ++ [0x22, 0x7d])) := by
  have front : ascii "\x7b\"sid\":\"" = 0x7b :: 0x22 :: (ascii "sid" ++ [0x22, 0x3a, 0x22]) := by decide
  have back : ascii "\"\x7d" = [0x22, 0x7d] := by decide
  rw [sidBody, if_pos rfl, front, back]
  simp

theorem sidBody_single (id : Bytes) : Json.Single (sidBody [] id) (ascii "sid") id ↔ Json.Plain id := by
  have name : Json.Plain (ascii "sid") := by
    refine ⟨['s', 'i', 'd'], ?_, by decide⟩
    simp [Json.Unescaped]
  rw [sidBody_eq]
  exact Json.single_spliced name

/-- In every run, what a request without a callback to connect to, or to disconnect, a session
is answered with, if that is a body, is a JSON object whose only member is the `sid` of the
request exactly if the `sid` has no character in it that JSON does not let stand as it is. -/
theorem echoed_sid_iff {trace : List Event} (run : Reaches (step h) (.start h) s trace) :
    ∀ before n req during code body after,
      trace = before ++ .accepted n req :: (during ++ .response n code (some body) :: after) →
      req.Echoes → req.getQueries.getCallback = [] →
      (Json.Single body (ascii "sid") req.getQueries.getSessionId ↔
        Json.Plain req.getQueries.getSessionId) := by
  have echoed : ∀ before n req during code answer after,
      trace = before ++ .accepted n req :: (during ++ .response n code answer :: after) →
      req.Echoes → ∀ body ∈ answer,
        body = sidBody req.getQueries.getCallback req.getQueries.getSessionId := by
    refine every_answer (P := fun s _ _ => s.request.Echoes → s.server.Echoing)
      (Q := fun _ req _ _ answer => req.Echoes → ∀ body ∈ answer,
        body = sidBody req.getQueries.getCallback req.getQueries.getSessionId) ?_ ?_ ?_ ?_ run
    · intro s trace req uuid id handler _ _ routed echoes
      rcases route_of_echoes echoes with attach | disconnect
      · cases attach.symm.trans routed
        trivial
      · cases disconnect.symm.trans routed
        trivial
    · intro s before during a s' out _ echoing _ t busy busy' echoes
      refine echoing_step t (echoing ?_) busy'
      rwa [(t.keeps busy).2.1] at echoes
    · intro s before req uuid code answer _ refused echoes
      rcases route_of_echoes echoes with attach | disconnect
      · cases attach.symm.trans refused
      · cases disconnect.symm.trans refused
    · rintro s before during a s' pre code answer post echoing - stepped gives echoes body rfl
      have within := echoing echoes
      cases gives with
      | @refusal o handler _ at_ refuses =>
        rw [at_] at within
        cases handler with
        | attach => exact echo_of_step (.inl at_) stepped
        | disconnect => exact absurd refuses id
        | _ => exact absurd within id
      | disconnect at_ => exact echo_of_step (.inr at_) stepped
      | connect at_ | pollGone at_ _ _ | pollNoMemory at_ | pollFail at_ _ | poll at_ _ | post at_ =>
        rw [at_] at within
        exact absurd within id
  intro before n req during code body after split echoes bare
  rw [echoed before n req during code _ after split echoes body rfl, bare]
  exact sidBody_single _

end

/-- A page asks to disconnect a session that nobody has created. -/
def Sample.quoted : Request := request "GET" "c=disconnect&sid=a\"b"

def Sample.plain : Request := request "GET" "c=disconnect&sid=a+b"

/-- Its quotation mark ends the string. -/
theorem echoed_quote : ∃ s body,
    exec (step Sample.host) (.start Sample.host)
      (.accept Sample.quoted none :: List.replicate 3 (.server .ok)) =
        some (s, [.accepted 1 Sample.quoted, .response 1 .ok (some body)]) ∧
    Sample.quoted.Echoes ∧ Sample.quoted.getQueries.getCallback = [] ∧
    ¬ Json.Single body (ascii "sid") Sample.quoted.getQueries.getSessionId := by
  refine ⟨_, sidBody [] Sample.quoted.getQueries.getSessionId, rfl, ⟨rfl, .inr rfl, by decide⟩, rfl, ?_⟩
  rw [sidBody_single]
  exact fun plain => absurd (by decide) plain.not_mem.1

/-- A plain id is echoed as JSON. -/
theorem echoed_sid_iff_plain : ∃ s body,
    exec (step Sample.host) (.start Sample.host)
      (.accept Sample.plain none :: List.replicate 3 (.server .ok)) =
        some (s, [.accepted 1 Sample.plain, .response 1 .ok (some body)]) ∧
    Json.Single body (ascii "sid") (ascii "a+b") := by
  have ran : exec (step Sample.host) (.start Sample.host)
      (.accept Sample.plain none :: List.replicate 3 (.server .ok)) =
        some (_, [.accepted 1 Sample.plain, .response 1 .ok (some _)]) := rfl
  refine ⟨_, _, ran, ?_⟩
  refine (echoed_sid_iff (reaches_of_exec ran) [] 1 Sample.plain [] .ok _ [] rfl
    ⟨rfl, .inr rfl, by decide⟩ rfl).mpr ⟨['a', '+', 'b'], ?_, by decide⟩
  simp [Json.Unescaped]

end LinearFcgi
