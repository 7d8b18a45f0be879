import LinearFcgi.Acknowledgement
import LinearFcgi.Attribution
import LinearFcgi.Downlink
import LinearFcgi.Framing
import LinearFcgi.QueriesProofs
import LinearFcgi.Uplink
import LinearFcgi.UrlCodecProofs

/-! The service as a page sees it: two streams of bytes between the page and its
backend, carried by requests, as `Server::run` gets them, and their answers. What
a page means by them is stated here from its side of the wire; what the process
does with it goes through the form encoding, base64, two queues and both threads. -/
namespace LinearFcgi

open TraceMachine

/-- The requests answered, each with its answer. `req` was accepted last before
the events. -/
def exchanges : Request → List Event → List (Request × Response.Code × Option Bytes)
  | _, [] => []
  | _, .accepted _ req :: rest => exchanges req rest
  | req, .response _ code body :: rest => (req, code, body) :: exchanges req rest
  | req, _ :: rest => exchanges req rest

/-- The request accepted last. -/
def lastAccepted : Request → List Event → Request
  | req, [] => req
  | _, .accepted _ req :: rest => lastAccepted req rest
  | req, _ :: rest => lastAccepted req rest

/-- Every answer in a history, with its request. -/
def answered (h : Host) (trace : List Event) : List (Request × Response.Code × Option Bytes) :=
  exchanges (Sys.start h).request trace

/-- A message for the session that was answered 204. -/
def acknowledges (id : Bytes) : Request × Response.Code × Option Bytes → Option Request
  | (req, code, _) =>
    if req.getQueries.getSessionId = id ∧ req.getQueries.getData ≠ [] ∧ code = .noContent
    then some req else none

/-- The request carries `x` in the session: its fields, in any order, name the
session and give the base64 code of `x`, in the form encoding. -/
structure Sends (h : Host) (id x : Bytes) (req : Request) : Prop where
  message : x ≠ []
  fields : ∃ pairs code e, req.queries = Queries.parse (Queries.joined pairs) ∧
    (pairs.map Prod.fst).Nodup ∧ (∀ pair ∈ pairs, 61 ∉ pair.1 ∧ 38 ∉ pair.1 ∧ 38 ∉ pair.2) ∧
    (Queries.sessionId, id) ∈ pairs ∧ (Queries.data, e) ∈ pairs ∧
    h.encode x = some code ∧ Encodes Verbatim code e

/-- The server thread has written the message of the request and not yet said so. -/
def ServerPc.wrote : ServerPc → Bool
  | .writeEnqueue _ | .writeSend _ | .postReturn => true
  | _ => false

def Sys.unacknowledged (s : Sys) (id : Bytes) : List Request :=
  if s.request.getQueries.getSessionId = id ∧ s.request.getQueries.getData ≠ [] ∧
    s.server.wrote = true then [s.request] else []

/-- The messages written for the session, as their posts are or will be acknowledged. -/
def messagesDue (h : Host) (id : Bytes) (s : Sys) (trace : List Event) : List Bytes :=
  ((answered h trace).filterMap (acknowledges id) ++ s.unacknowledged id).map (·.getQueries.getData)

section

variable {h : Host} {s s' : Sys} {a : Action} {out trace : List Event} {c : Addr} {id : Bytes}

/-! ## Requests and answers -/

theorem exchanges_append (req : Request) (trace out : List Event) :
    exchanges req (trace ++ out) = exchanges req trace ++ exchanges (lastAccepted req trace) out := by
  induction trace generalizing req with
  | nil => rfl
  | cons e rest ih => cases e <;> simp [exchanges, lastAccepted, ih]

theorem lastAccepted_append (req : Request) (trace out : List Event) :
    lastAccepted req (trace ++ out) = lastAccepted (lastAccepted req trace) out := by
  induction trace generalizing req with
  | nil => rfl
  | cons e rest ih => cases e <;> simp [lastAccepted, ih]

theorem Transition.lastAccepted_eq (t : Transition h s a s' out) :
    lastAccepted s.request out = s'.request := by
  cases t
  case destroy o d cl at_ live => cases (s.storage.destroy cl.id).2 <;> rfl
  all_goals rfl

theorem lastAccepted_of_run {guard : Sys → Action → Prop}
    (run : Run (step h) guard (.start h) s trace) :
    lastAccepted (Sys.start h).request trace = s.request := by
  refine run.invariant (I := fun s trace => lastAccepted (Sys.start h).request trace = s.request)
    rfl ?_
  intro s trace a s' out _ same _ stepped
  rw [lastAccepted_append, same, (step_cases stepped).2.lastAccepted_eq]

/-- What a step adds to the answers. -/
theorem answered_append {guard : Sys → Action → Prop}
    (run : Run (step h) guard (.start h) s trace) (out : List Event) :
    answered h (trace ++ out) = answered h trace ++ exchanges s.request out := by
  rw [answered, exchanges_append, lastAccepted_of_run run]
  rfl

/-! ## From the page to the backend -/

/-- The message that is being written is that of the request. -/
theorem writing_data (run : Reaches (step h) (.start h) s trace) {d : Addr} {data : Bytes}
    (at_ : s.server = .writeTest d data ∨ s.server = .writeProduce d data) :
    data = s.request.getQueries.getData ∧ data ≠ [] := by
  refine run.invariant (I := fun s _ => ∀ d data,
    (s.server = .writeTest d data ∨ s.server = .writeProduce d data) →
    data = s.request.getQueries.getData ∧ data ≠ []) ?_ ?_ d data at_
  · rintro d data (at_ | at_) <;> cases at_
  · rintro s trace a s' out - carries - stepped d data at_
    have t := (step_cases stepped).2
    cases t
    case enter o handler c next allowed locked found enters =>
      cases enters with
      | post given =>
        obtain ⟨-, rfl⟩ : c = d ∧ s.request.getQueries.getData = data := by simpa using at_
        exact ⟨rfl, given⟩
      | disconnect | poll => simp at at_
    case skip o handler next locked skips => cases skips <;> simp at at_
    case writeAllow o c data' cl test live free writable =>
      obtain ⟨-, rfl⟩ : c = d ∧ data' = data := by simpa using at_
      exact carries c data' (.inl test)
    case disconnectIdle o caller c cl begin_ live free idle =>
      cases caller <;> simp [Caller.resume] at at_
    case disconnectSend o caller c send => cases caller <;> simp [Caller.resume] at at_
    all_goals first | exact carries d data at_ | simp at at_

/-- A refusal is no acknowledgement. -/
theorem refused_code {req : Request} {uuid : Option Bytes} {code : Response.Code}
    (refused : route h req uuid = .error code) : code ≠ .noContent := by
  unfold route at refused
  grind

/-- A message written is acknowledged at the end of its exchange. Only a client
that takes no messages is acknowledged one that was not written. -/
theorem acknowledges_step (run : Reaches (step h) (.start h) s trace)
    (names : ∀ handler d, s.server.serves = some (handler, some d) →
      (d = c ↔ s.request.getQueries.getSessionId = id)) (t : Transition h s a s' out) :
    let before := (s.unacknowledged id).map (·.getQueries.getData) ++ written c out
    let after := ((exchanges s.request out).filterMap (acknowledges id) ++ s'.unacknowledged id).map
      (·.getQueries.getData)
    before.Sublist after ∧ (takesMessages s a = true → before = after) := by
  have settled {before after : List Bytes} (same : before = after) :
      before.Sublist after ∧ (takesMessages s a = true → before = after) :=
    ⟨by rw [same], fun _ => same⟩
  cases t
  case refuse req uuid code at_ routed =>
    refine settled ?_
    simp [Sys.unacknowledged, ServerPc.wrote, at_, exchanges, acknowledges, written,
      refused_code routed]
  case proceed req uuid id' handler at_ routed =>
    refine settled ?_
    simp [Sys.unacknowledged, ServerPc.wrote, at_, exchanges, written]
  case lock o handler at_ free =>
    refine settled ?_
    simp [Sys.unacknowledged, ServerPc.wrote, at_, exchanges, written]
  case answer o handler code body at_ refuses =>
    refine settled ?_
    have other : code ≠ .noContent := by
      rintro rfl
      cases handler <;> simp [Handler.Refuses] at refuses
    simp [Sys.unacknowledged, ServerPc.wrote, at_, exchanges, written, acknowledges, other]
  case enter o handler d next allowed at_ found enters =>
    refine settled ?_
    cases enters <;> simp [Sys.unacknowledged, ServerPc.wrote, at_, exchanges, written]
  case skip o handler next at_ skips =>
    refine settled ?_
    cases skips <;> simp_all [Sys.unacknowledged, ServerPc.wrote, exchanges, written]
  case disconnectIdle o caller d cl at_ live free idle =>
    refine settled ?_
    cases caller <;> simp [Sys.unacknowledged, ServerPc.wrote, at_, exchanges, written, Caller.resume]
  case disconnectSend o caller d at_ =>
    refine settled ?_
    cases caller <;> simp [Sys.unacknowledged, ServerPc.wrote, at_, exchanges, written, Caller.resume]
  case connectReturn o d f body at_ =>
    refine settled ?_
    cases f <;> simp [Sys.unacknowledged, ServerPc.wrote, at_, exchanges, written, acknowledges]
  case writeRefuse o d data cl at_ live free unwritable =>
    constructor
    · simp [Sys.unacknowledged, ServerPc.wrote, at_, exchanges, written]
    · intro takes
      simp [takesMessages, at_, live, unwritable] at takes
  case writeProduce o d data cl at_ live =>
    refine settled ?_
    obtain ⟨rfl, given⟩ := writing_data run (.inr at_)
    have named := names .post d (by rw [at_]; rfl)
    by_cases same : d = c <;>
      simp_all [Sys.unacknowledged, ServerPc.wrote, exchanges, written]
  case destroy o d cl at_ live =>
    refine settled ?_
    cases (s.storage.destroy cl.id).2 <;> simp [Sys.unacknowledged, exchanges, written]
  case postReturn o at_ =>
    refine settled ?_
    by_cases due : s.request.getQueries.getSessionId = id ∧ s.request.getQueries.getData ≠ [] <;>
      simp [Sys.unacknowledged, ServerPc.wrote, at_, exchanges, written, acknowledges, due]
  all_goals
    refine settled ?_
    first
    | rfl
    | exact List.append_nil _
    | simp [Sys.unacknowledged, ServerPc.wrote, exchanges, written, acknowledges, ‹s.server = _›]

theorem written_append (trace out : List Event) :
    written c (trace ++ out) = written c trace ++ written c out := List.filterMap_append

/-- The messages written for a session are among those acknowledged, in the same
order; and all of them are, if its client takes messages whenever it is asked to. -/
theorem written_acknowledged {guard : Sys → Action → Prop}
    (run : Run (step h) guard (.start h) s trace)
    (names : ∀ k d id', .created k d id' ∈ trace → (d = c ↔ id' = id)) :
    (written c trace).Sublist (messagesDue h id s trace) ∧
    ((∀ s a, guard s a → takesMessages s a = true) → written c trace = messagesDue h id s trace) := by
  refine run.invariant_while (P := fun trace =>
    ∀ k d id', .created k d id' ∈ trace → (d = c ↔ id' = id)) (I := fun s trace =>
    (written c trace).Sublist (messagesDue h id s trace) ∧
    ((∀ s a, guard s a → takesMessages s a = true) → written c trace = messagesDue h id s trace))
    (fun _ _ => names_before) ?_ ?_ names
  · exact ⟨List.nil_sublist _, fun _ => by
      simp [messagesDue, Sys.unacknowledged, Sys.start, ServerPc.wrote, answered, exchanges, written]⟩
  · rintro s trace a s' out run ⟨among, all⟩ allowed stepped names
    obtain ⟨goes, whole⟩ := acknowledges_step run.reaches
      (fun _ _ => serves_names run.reaches (names_before names)) (step_cases stepped).2
    rw [messagesDue, List.map_append] at among all
    rw [written_append, messagesDue, answered_append run, List.filterMap_append, List.append_assoc,
      List.map_append]
    constructor
    · refine (among.append_right _).trans ?_
      rw [List.append_assoc]
      exact goes.append_left _
    · intro takes
      rw [all takes, List.append_assoc, whole (takes s a allowed)]

/-- What `_write` hands to libuv comes from what it consumed. -/
theorem uvWrites_sublist {guard : Sys → Action → Prop} (run : Run (step h) guard (.start h) s trace)
    (c : Addr) : (uvWrites c trace).Sublist ((unqueued c trace).filterMap (payload h)) := by
  refine run.invariant
    (I := fun _ trace => (uvWrites c trace).Sublist ((unqueued c trace).filterMap (payload h)))
    (List.nil_sublist _) ?_
  rintro s trace a s' out - before - stepped
  have now : (uvWrites c out).Sublist ((unqueued c out).filterMap (payload h)) := by
    have t := (step_cases stepped).2
    by_cases allocates : a.allocates = true
    · rw [uvWrites_step t allocates c]
    · cases t
      case writeSome o d data sent queue cl at_ live oldest decoded =>
        by_cases same : d = c <;> simp [uvWrites, unqueued, same, decoded]
      case destroy o d cl at_ live =>
        cases (s.storage.destroy cl.id).2 <;> exact List.nil_sublist _
      all_goals exact List.nil_sublist _
  simp only [uvWrites, unqueued, List.filterMap_append] at before now ⊢
  exact before.append now

/-- The process finds in such a request what the page put into it. -/
theorem Sends.reads {x : Bytes} {req : Request} (codec : Codec h) (sends : Sends h id x req) :
    req.getQueries.getSessionId = id ∧ payload h req.getQueries.getData = some x := by
  obtain ⟨message, pairs, code, e, parsed, distinct, plain, named, given, coded, encodes⟩ := sends
  have reads {key val : Bytes} (field : (key, val) ∈ pairs) : req.queries.find key = val := by
    rw [Queries.find, parsed, Queries.parse_joined plain, (Queries.findSome_pairs distinct).mpr field]
    rfl
  refine ⟨reads named, ?_⟩
  obtain ⟨text, encoded, -, text_, decoded⟩ := codec x message
  obtain rfl := Option.some.inj (encoded.symm.trans coded)
  have data : req.getQueries.getData = e := reads given
  rw [data, payload, cString_of_nulFree (encodes.nulFree text_),
    urlDecode_encodes encodes, cString_of_nulFree text_, decoded]

/-- Whatever the threads do and in whatever order, the backend of a session is
written the messages that the acknowledged requests carry, in the order in which
they were acknowledged, unaltered and each once for its request. None is missing in between if
memory suffices and the client takes messages when it is asked to; and none at
all, if the session is still there and no call of `_write` is due. -/
theorem messages_arrive {guard : Sys → Action → Prop} (codec : Codec h)
    (run : Run (step h) guard (.start h) s trace) (opens : Opens c id trace)
    (idle : s.server = .accept) {xs : List Bytes}
    (sent : List.Forall₂ (Sends h id) xs ((answered h trace).filterMap (acknowledges id))) :
    (uvWrites c trace).Sublist xs ∧
    ((∀ s a, guard s a → a.allocates = true ∧ takesMessages s a = true) →
      uvWrites c trace <+: xs ∧
      (s.storage.heap c ≠ none → s.writesDue c = 0 → uvWrites c trace = xs)) := by
  have due : (messagesDue h id s trace).filterMap (payload h) = xs := by
    have settled : s.unacknowledged id = [] := by simp [Sys.unacknowledged, idle, ServerPc.wrote]
    rw [messagesDue, settled, List.append_nil]
    generalize (answered h trace).filterMap (acknowledges id) = reqs at sent
    induction sent with
    | nil => rfl
    | cons sends rest ih => rw [List.map_cons, List.filterMap_cons_some (sends.reads codec).2, ih]
  obtain ⟨among, all⟩ := written_acknowledged run fun _ _ _ created => opens.names run.reaches created
  obtain ⟨q, conserved, holds⟩ := writes_conserved run c
  constructor
  · -- some may have been dropped on the way, on either thread
    rw [← due]
    refine (uvWrites_sublist run c).trans (List.Sublist.filterMap _ (List.Sublist.trans ?_ among))
    rw [conserved]
    exact List.sublist_append_left _ _
  · intro clear
    have allocates := run.mono fun s a met => (clear s a met).1
    have sent : (written c trace).filterMap (payload h) = xs := by
      rw [all fun s a met => (clear s a met).2, due]
    rw [uvWrites_of_run allocates, ← sent, conserved, List.filterMap_append]
    refine ⟨List.prefix_append _ _, fun alive drained => ?_⟩
    obtain ⟨cl, live⟩ := Option.ne_none_iff_exists'.mp alive
    have bound := covered_of_run run c cl live
    have empty : q = [] := by
      rw [← holds cl live]
      apply List.eq_nil_of_length_eq_zero
      omega
    rw [empty, List.filterMap_nil, List.append_nil]

/-! ## From the backend to the page -/

/-- A poll of the session that was answered 200, and what was printed for it. -/
def fetches (id : Bytes) : Request × Response.Code × Option Bytes → Option (Request × Bytes)
  | (req, code, body) =>
    if req.getMethod = .get ∧ req.getQueries.getCommand = ascii "poll" ∧
      req.getQueries.getSessionId = id ∧ code = .ok then some (req, Request.sendResponse code body)
    else none

/-- A poll of the session that was answered 200, and the body it was answered with. -/
def polls (id : Bytes) : Request × Response.Code × Option Bytes → Option (Request × Option Bytes)
  | (req, code, body) =>
    if req.getMethod = .get ∧ req.getQueries.getCommand = ascii "poll" ∧
      req.getQueries.getSessionId = id ∧ code = .ok then some (req, body) else none

/-- The body is the text, or the call of the request's callback with it. -/
def BodyOf (x : Request × Option Bytes) (text : Bytes) : Prop :=
  x.2 = some (pollBody x.1.getQueries.getCallback text)

/-- The base64 texts that the polls of the client were answered with. -/
def texts (c : Addr) (trace : List Event) : List Bytes :=
  trace.filterMap fun | .polled _ d body => if d = c then some body else none | _ => none

/-- What a script that calls `callback` with one string literal, and does nothing
else, passes to it. -/
def argument (callback script : Bytes) : Option Bytes :=
  (script.dropPrefix? (ascii "try \x7b" ++ callback ++ ascii "(\"")).bind fun rest =>
    let text := rest.takeWhile (· ≠ 34)
    if rest = text ++ ascii "\"); \x7d catch(e) \x7b\x7d" then some text else none

/-- What the page makes of the answer to its poll: the bytes whose base64 code
the body is, or the script in it passes. -/
def pageReads (h : Host) (req : Request) (http : Bytes) : Option Bytes :=
  (Lines.cut (ascii "\r\n\r\n") http).bind fun (_, body) =>
    (if req.getQueries.getCallback = [] then some body
      else argument req.getQueries.getCallback body).bind fun text =>
    if text = [] then some [] else h.decode text

/-- What is relied on of the base64 alphabet. -/
def Unquoted (h : Host) : Prop := ∀ data text, h.encode data = some text → 34 ∉ text

theorem argument_pollBody {callback body : Bytes} (called : callback ≠ []) (plain : 34 ∉ body) :
    argument callback (pollBody callback body) = some body := by
  have close : ascii "\"); \x7d catch(e) \x7b\x7d" = 34 :: ascii "); \x7d catch(e) \x7b\x7d" := by decide
  have stripped : (pollBody callback body).dropPrefix? (ascii "try \x7b" ++ callback ++ ascii "(\"") =
      some (body ++ ascii "\"); \x7d catch(e) \x7b\x7d") := by
    rw [List.dropPrefix?_eq_some_iff]
    exact ⟨_, by simp [pollBody, called], beq_self_eq_true _⟩
  have literal : (body ++ ascii "\"); \x7d catch(e) \x7b\x7d").takeWhile (· ≠ 34) = body := by
    rw [close, List.takeWhile_append_of_pos, List.takeWhile_cons_of_neg (by simp), List.append_nil]
    intro b inside
    simpa using fun same : b = 34 => plain (same ▸ inside)
  simp only [argument, stripped, Option.bind_some, literal, ↓reduceIte]

theorem pageReads_pollBody {req : Request} {body : Bytes} (text : 0 ∉ req.getQueries.getCallback)
    (text' : 0 ∉ body) (plain : 34 ∉ body) :
    pageReads h req (Request.sendResponse .ok (some (pollBody req.getQueries.getCallback body))) =
      if body = [] then some [] else h.decode body := by
  have whole : 0 ∉ pollBody req.getQueries.getCallback body := by
    have front : (0 : UInt8) ∉ ascii "try \x7b" := by decide
    have open_ : (0 : UInt8) ∉ ascii "(\"" := by decide
    have close : (0 : UInt8) ∉ ascii "\"); \x7d catch(e) \x7b\x7d" := by decide
    unfold pollBody
    split <;> simp_all
  have cut : Lines.cut (ascii "\r\n\r\n") (Request.sendResponse .ok
      (some (pollBody req.getQueries.getCallback body))) =
      some (_, pollBody req.getQueries.getCallback body) := Response.cut_printed whole
  rw [pageReads, cut, Option.bind_some]
  by_cases called : req.getQueries.getCallback = []
  · simp [called, pollBody]
  · simp [called, argument_pollBody called plain]

theorem poll_iff_of_route {req : Request} {uuid : Option Bytes} {handler : Handler}
    (routed : route h req uuid = .ok (id, handler)) : handler = .poll ↔
      req.getMethod = .get ∧ req.getQueries.getCommand = ascii "poll" := by
  have connect : ascii "poll" ≠ ascii "connect" := by decide
  have disconnect : ascii "poll" ≠ ascii "disconnect" := by decide
  unfold route at routed
  grind

@[simp] theorem texts_append (trace out : List Event) :
    texts c (trace ++ out) = texts c trace ++ texts c out := List.filterMap_append

theorem mem_texts {body : Bytes} : body ∈ texts c trace ↔ ∃ n, .polled n c body ∈ trace := by
  simp only [texts, List.mem_filterMap]
  constructor
  · rintro ⟨e, member, found⟩
    cases e <;> simp_all
    exact ⟨_, member⟩
  · rintro ⟨n, member⟩
    exact ⟨_, member, by simp⟩

/-- The payloads of the polls are what their texts stand for. -/
theorem delivered_texts (c : Addr) (trace : List Event) :
    delivered h c trace = (texts c trace).map (decoded h) := by
  rw [delivered, texts, List.map_filterMap]
  refine congrArg (fun f => List.filterMap f trace) (funext fun e => ?_)
  cases e with
  | polled n d body => by_cases same : d = c <;> simp [same]
  | _ => rfl

/-- A body is made of one text. -/
theorem bodyOf_unique : Relator.RightUnique BodyOf := by
  rintro ⟨req, body⟩ text text' (made : body = _) (made' : body = _)
  rw [made, Option.some_inj] at made'
  by_cases plain : req.getQueries.getCallback = []
  · simpa [pollBody, plain] using made'
  · simpa [pollBody, plain] using made'

theorem fetches_eq (id : Bytes) (x : Request × Response.Code × Option Bytes) :
    fetches id x = (polls id x).map fun y => (y.1, Request.sendResponse .ok y.2) := by
  obtain ⟨req, code, body⟩ := x
  simp only [fetches, polls]
  split
  · rename_i poll
    rw [poll.2.2.2, Option.map_some]
  · rfl

/-- The polls that name the session and are answered 200 in a step are the polls
of its client that are. -/
theorem answers_step (run : Reaches (step h) (.start h) s trace)
    (names : ∀ handler d, s.server.serves = some (handler, some d) →
      (d = c ↔ s.request.getQueries.getSessionId = id))
    (t : Transition h s a s' out) :
    (exchanges s.request out).filterMap (polls id) = (texts c out).map fun text =>
      (s.request, some (pollBody s.request.getQueries.getCallback text)) := by
  have handled (busy : s.server ≠ .accept) : ∃ handler, s.server.Within handler ∧ (handler = .poll ↔
      s.request.getMethod = .get ∧ s.request.getQueries.getCommand = ascii "poll") := by
    obtain ⟨uuid, handler, routed, within⟩ := within_of_run run busy
    exact ⟨handler, within, poll_iff_of_route routed⟩
  -- the other handlers' answers are not those of polls
  have unpolled (code : Response.Code) (body : Option Bytes)
      (other : ¬ (s.request.getMethod = .get ∧ s.request.getQueries.getCommand = ascii "poll") ∨
        code ≠ .ok) : polls id (s.request, code, body) = none := by
    simp only [polls, ite_eq_right_iff]
    tauto
  cases t
  case refuse req uuid code at_ routed =>
    have other : code ≠ .ok := by
      unfold route at routed
      grind
    simp [exchanges, polls, texts, other]
  case answer o handler code body at_ refuses =>
    obtain ⟨handler', within, polled⟩ := handled (by simp [at_])
    rw [at_] at within
    obtain rfl : handler' = handler := within
    have other : handler' ≠ .poll ∨ code ≠ .ok := by
      cases handler' <;> simp_all [Handler.Refuses]
    simp [exchanges, texts, unpolled code body (other.imp (mt polled.mpr) fun other => other)]
  case connectReturn o d f body at_ =>
    obtain ⟨handler, within, polled⟩ := handled (by simp [at_])
    rw [at_] at within
    obtain ⟨backend, rfl⟩ := within
    simp [exchanges, texts, unpolled _ body (.inl (mt polled.mpr (by simp)))]
  case disconnectReturn o body at_ =>
    obtain ⟨handler, within, polled⟩ := handled (by simp [at_])
    rw [at_] at within
    obtain rfl : handler = .disconnect := within
    simp [exchanges, texts, unpolled _ body (.inl (mt polled.mpr (by simp)))]
  case pollAnswer o d data body at_ encoded =>
    obtain ⟨handler, within, polled⟩ := handled (by simp [at_])
    rw [at_] at within
    obtain ⟨method, command⟩ := polled.mp within
    have named := names .poll d (by rw [at_]; rfl)
    by_cases same : d = c
    · have session := named.mp same
      simp [exchanges, polls, texts, method, command, session, same]
    · have session := mt named.mpr same
      simp [exchanges, polls, texts, session, same]
  case destroy o d cl at_ live =>
    cases (s.storage.destroy cl.id).2 <;> simp [exchanges, texts]
  all_goals simp [exchanges, texts, polls]

/-- So they are in a run. -/
theorem bodies_of_run {guard : Sys → Action → Prop} (run : Run (step h) guard (.start h) s trace)
    (names : ∀ k d id', .created k d id' ∈ trace → (d = c ↔ id' = id)) :
    List.Forall₂ BodyOf ((answered h trace).filterMap (polls id)) (texts c trace) := by
  refine run.invariant_while (P := fun trace =>
    ∀ k d id', .created k d id' ∈ trace → (d = c ↔ id' = id)) (I := fun _ trace =>
    List.Forall₂ BodyOf ((answered h trace).filterMap (polls id)) (texts c trace))
    (fun _ _ => names_before) .nil ?_ names
  rintro s trace a s' out run bodies - stepped names
  have now := answers_step run.reaches
    (fun _ _ => serves_names run.reaches (names_before names)) (step_cases stepped).2
  rw [answered_append run, List.filterMap_append, now, texts_append]
  refine List.rel_append bodies ?_
  exact List.forall₂_map_left_iff.mpr (List.forall₂_same.mpr fun _ _ => rfl)

/-- In every run in which memory suffices, the polls that name a session and are
answered 200 are answered with texts whose bytes, put together, are a prefix of
what the backend has sent in the session, whatever cuts the other polls off. -/
theorem downlink_prefix (codec : Codec h)
    (run : Run (step h) (fun _ a => a.allocates = true) (.start h) s trace)
    (opens : Opens c id trace) :
    ∃ texts : List Bytes,
      (∀ texts', List.Forall₂ BodyOf ((answered h trace).filterMap (polls id)) texts' ↔
        texts' = texts) ∧
      (texts.map (decoded h)).flatten <+: (received c trace).flatten := by
  have bodies := bodies_of_run run fun _ _ _ created => opens.names run.reaches created
  refine ⟨texts c trace, fun texts' => ⟨fun bodies' => ?_, ?_⟩, ?_⟩
  · exact bodyOf_unique.forall₂ bodies' bodies
  · rintro rfl
    exact bodies
  · rw [← delivered_texts]
    exact delivered_received codec run c

/-- The text of a successful answer, and what it stands for. -/
theorem encodeBody_code (codec : Codec h) (unquoted : Unquoted h) {data body : Bytes} {o : Outcome}
    (encoded : encodeBody h data o = some body) : 0 ∉ body ∧ 34 ∉ body ∧
      (if body = [] then some [] else h.decode body) = some (decoded h body) := by
  unfold encodeBody at encoded
  split at encoded
  · cases encoded
    simp [decoded]
  · rename_i nonempty
    split at encoded
    · cases encoded
    obtain ⟨text, found, filled, text_, back⟩ := codec data nonempty
    obtain rfl : text = body := by simpa [found, cString_of_nulFree text_] using encoded
    exact ⟨text_, unquoted data text found, by simp [decoded, filled, back]⟩

/-- A poll is answered with what was encoded for it. -/
theorem encoded_of_polled {n : Nat} {body : Bytes} (t : Transition h s a s' out)
    (polled : .polled n c body ∈ out) :
    s.server ≠ .accept ∧ ∃ data o, encodeBody h data o = some body := by
  cases t
  case pollAnswer o d data body' at_ encoded =>
    obtain ⟨-, -, rfl⟩ : n = s.exchange ∧ c = d ∧ body = body' := by simpa using polled
    exact ⟨by simp [at_], data, o, encoded⟩
  case destroy o d cl at_ live => cases (s.storage.destroy cl.id).2 <;> simp at polled
  all_goals simp at polled

/-- The page can read every answer to a poll of the session. -/
theorem pageReads_of_run {guard : Sys → Action → Prop} (codec : Codec h) (unquoted : Unquoted h)
    (run : Run (step h) guard (.start h) s trace)
    (names : ∀ k d id', .created k d id' ∈ trace → (d = c ↔ id' = id))
    (callbacks : ∀ n req, .accepted n req ∈ trace → 0 ∉ req.getQueries.getCallback) :
    ((answered h trace).filterMap (fetches id)).map (fun x => pageReads h x.1 x.2) =
      (delivered h c trace).map some := by
  refine run.invariant_while (P := fun trace =>
    (∀ k d id', .created k d id' ∈ trace → (d = c ↔ id' = id)) ∧
    ∀ n req, .accepted n req ∈ trace → 0 ∉ req.getQueries.getCallback) (I := fun _ trace =>
    ((answered h trace).filterMap (fetches id)).map (fun x => pageReads h x.1 x.2) =
      (delivered h c trace).map some)
    (fun trace out plain => ⟨names_before plain.1, fun n req accepted =>
      plain.2 n req (List.mem_append_left out accepted)⟩) rfl ?_ ⟨names, callbacks⟩
  rintro s trace a s' out run earlier - stepped ⟨names, callbacks⟩
  have t := (step_cases stepped).2
  have now : ((exchanges s.request out).filterMap (fetches id)).map
      (fun x => pageReads h x.1 x.2) = (delivered h c out).map some := by
    rw [funext (fetches_eq id), ← List.map_filterMap, answers_step run.reaches
      (fun _ _ => serves_names run.reaches (names_before names)) t, delivered_texts]
    simp only [List.map_map]
    refine List.map_congr_left fun body member => ?_
    obtain ⟨n, emitted⟩ := mem_texts.mp member
    obtain ⟨busy, data, o, encoded⟩ := encoded_of_polled t emitted
    obtain ⟨text, plain, reads⟩ := encodeBody_code codec unquoted encoded
    obtain ⟨before, during, split, -⟩ := handling_of_run run busy
    have callback : 0 ∉ s.request.getQueries.getCallback :=
      callbacks s.exchange _ (List.mem_append_left _ (by simp [split]))
    rw [Function.comp_apply, Function.comp_apply, Function.comp_apply,
      pageReads_pollBody callback text plain, reads]
  rw [answered_append run, List.filterMap_append, List.map_append, earlier, now, delivered_append,
    List.map_append]

/-- In every run in which memory suffices, what the page has read from the
answers to its polls, put together, is a prefix of what the backend sent in the
session, byte for byte, with or without a callback; and it can read every one. -/
theorem stream_arrives (codec : Codec h) (unquoted : Unquoted h)
    (run : Run (step h) (fun _ a => a.allocates = true) (.start h) s trace) (opens : Opens c id trace)
    (texts : ∀ n req, .accepted n req ∈ trace → 0 ∉ req.getQueries.getCallback) :
    ∃ chunks : List Bytes,
      ((answered h trace).filterMap (fetches id)).map (fun x => pageReads h x.1 x.2) =
        chunks.map some ∧
      chunks.flatten <+: (received c trace).flatten := by
  refine ⟨delivered h c trace, ?_, delivered_received codec run c⟩
  exact pageReads_of_run codec unquoted run
    (fun _ _ _ created => opens.names run.reaches created) texts

end

/-- The page posts a message, and the loop thread writes it to the backend. -/
def Sample.arrived : List Action := Sample.posted ++ .onAsync :: List.replicate 5 (.loop .ok)

theorem Sample.message_sends : Sends Sample.host Sample.uuid (ascii "hi") Sample.message where
  message := by decide
  fields := by
    refine ⟨[(Queries.sessionId, Sample.uuid), (Queries.data, ascii "aGk=")], ascii "aGk=",
      ascii "aGk=", congrArg Queries.parse (by decide), by decide, by decide, by simp, by simp,
      by decide, ?_⟩
    exact .literal ⟨by decide, by decide⟩ (.literal ⟨by decide, by decide⟩
      (.literal ⟨by decide, by decide⟩ (.literal ⟨by decide, by decide⟩ .nil)))

theorem messages_arrive_arrived : ∃ s trace,
    exec (restrict (step Sample.host) fun s a => (a.allocates && takesMessages s a) = true)
      (.start Sample.host) Sample.arrived = some (s, trace) ∧
    uvWrites 0 trace = [ascii "hi"] := by
  have ran : exec (restrict (step Sample.host) fun s a => (a.allocates && takesMessages s a) = true)
      (.start Sample.host) Sample.arrived = some (_, [.accepted 1 _, .created 1 0 Sample.uuid,
        .requested 1 _, .dispatched _, .connected 0, .response 1 .ok _, .accepted 2 Sample.message,
        .written 2 0 _, .requested 2 _, .response 2 .noContent none, .dispatched _,
        .unqueued 0 _, .uvWrite 0 _]) := rfl
  have sent := (messages_arrive Sample.codec (run_of_exec ran)
    (show Opens 0 Sample.uuid _ from ⟨⟨1, by simp⟩, by simp⟩) rfl
    (show List.Forall₂ _ [ascii "hi"] _ from .cons Sample.message_sends .nil)).2 (by simp)
  exact ⟨_, _, ran, sent.2 (by decide) (by decide)⟩

/-- Two chunks arrive, and a poll fetches them. -/
def Sample.polled : List Action :=
  Sample.connected ++ [.onRead 0 (some (ascii "he")), .loop .ok, .onRead 0 (some (ascii "llo")),
    .loop .ok, .accept Sample.poll none] ++ List.replicate 14 (.server .ok)

theorem downlink_prefix_polled : ∃ s trace,
    exec (restrict (step Sample.host) fun _ a => a.allocates = true) (.start Sample.host)
      Sample.polled = some (s, trace) ∧
    (answered Sample.host trace).filterMap (polls Sample.uuid) =
      [(Sample.poll, some (ascii "aGVsbG8="))] ∧
    ([ascii "aGVsbG8="].map (decoded Sample.host)).flatten <+: ascii "hello" := by
  have ran : exec (restrict (step Sample.host) fun _ a => a.allocates = true) (.start Sample.host)
      Sample.polled = some (_, [.accepted 1 _, .created 1 0 Sample.uuid, .requested 1 _,
        .dispatched _, .connected 0, .response 1 .ok _, .received 0 (ascii "he"),
        .received 0 (ascii "llo"), .accepted 2 Sample.poll, .live 2 0, .taken 2 0 _, .live 2 0,
        .taken 2 0 _, .live 2 0, .empty 2 0, .polled 2 0 _, .response 2 .ok _]) := rfl
  obtain ⟨texts, only, sent⟩ := downlink_prefix Sample.codec (run_of_exec ran)
    (show Opens 0 Sample.uuid _ from ⟨⟨1, by simp⟩, by simp⟩)
  obtain rfl := (only [ascii "aGVsbG8="]).mp (show List.Forall₂ BodyOf
    [(Sample.poll, some (ascii "aGVsbG8="))] _ from .cons rfl .nil)
  exact ⟨_, _, ran, rfl, sent⟩

theorem Sample.unquoted : Unquoted Sample.host := by
  rintro data _ ⟨⟩
  exact Base64.not_mem_encode (by decide) (by decide) data

/-- The backend sends something, and the page fetches it through a callback. -/
def Sample.called : List Action :=
  Sample.connected ++ [.onRead 0 (some (ascii "he")), .loop .ok, .onRead 0 (some (ascii "llo")),
    .loop .ok, .accept (Sample.request "GET"
      "c=poll&f=cb&sid=123e4567-e89b-12d3-a456-426614174000") none] ++ List.replicate 14 (.server .ok)

theorem stream_arrives_called : ∃ s trace,
    exec (restrict (step Sample.host) fun _ a => a.allocates = true) (.start Sample.host)
      Sample.called = some (s, trace) ∧
    ∃ chunks : List Bytes, ((answered Sample.host trace).filterMap (fetches Sample.uuid)).map
        (fun x => pageReads Sample.host x.1 x.2) = chunks.map some ∧
      chunks.flatten <+: ascii "hello" := by
  have ran : exec (restrict (step Sample.host) fun _ a => a.allocates = true) (.start Sample.host)
      Sample.called = some (_, [.accepted 1 _, .created 1 0 Sample.uuid, .requested 1 _,
        .dispatched _, .connected 0, .response 1 .ok _, .received 0 (ascii "he"),
        .received 0 (ascii "llo"), .accepted 2 _, .live 2 0, .taken 2 0 _, .live 2 0, .taken 2 0 _,
        .live 2 0, .empty 2 0, .polled 2 0 _, .response 2 .ok _]) := rfl
  obtain ⟨chunks, read, sent⟩ := stream_arrives Sample.codec Sample.unquoted (run_of_exec ran)
    (show Opens 0 Sample.uuid _ from ⟨⟨1, by simp⟩, by simp⟩) fun n req accepted => by
      simp at accepted
      rcases accepted with ⟨-, rfl⟩ | ⟨-, rfl⟩ <;> decide
  exact ⟨_, _, ran, chunks, read, sent⟩

end LinearFcgi
