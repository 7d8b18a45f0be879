import LinearFcgi.Channels
import LinearFcgi.LifecycleProofs

/-! From the backend to the browser. A poll gathers chunks one by one and may be
cut off after it has consumed some; they are lost then, but the client is past
all polling, so the browser never sees the gap. -/
namespace LinearFcgi

open TraceMachine

namespace Life

/-- The client is there no longer, or in a state no `Client::read` accepts and
that it does not leave. -/
structure Spent (l : Life) : Prop where
  born : l.born = true
  state : ∀ k, l.core = some k → k.state = .failConnect ∨ k.state = .disconnecting

theorem Spent.step {l l' : Life} {b : Action} {out : List Event} (phase : Phase l)
    (spent : Spent l) (t : Transition l b l' out) : Spent l' := by
  obtain ⟨born, state⟩ := spent
  cases t
  case create => cases born
  case drop => exact ⟨born, state⟩
  case stray => exact ⟨born, nofun⟩
  case destroy => exact ⟨born, nofun⟩
  all_goals
    obtain ⟨-, ⟨opening, -, -, -, -, -, -, -, -, -, -⟩, -⟩ := phase.present _ rfl
    clear phase
    exact ⟨born, by grind⟩

/-- `Client::read` refuses only a client it will never accept again, and so is
one whose backend has hung up. -/
theorem Spent.of_lost {l l' : Life} {b : Action} {out : List Event} (phase : Phase l)
    (t : Transition l b l' out) (lost : .gone ∈ out ∨ .hungUp ∈ out) : Spent l' := by
  cases t
  case gone k born dying requests settled down =>
    obtain ⟨rfl, ⟨opening, -, -, -, -, -, -, -, -, -, -⟩, -⟩ := phase.present _ rfl
    clear phase
    refine ⟨rfl, ?_⟩
    rintro _ ⟨⟩
    cases state : k.state <;> simp_all
  case hangUp open_ state =>
    obtain ⟨rfl, -⟩ := phase.present _ rfl
    refine ⟨rfl, ?_⟩
    rintro _ ⟨⟩
    exact .inr rfl
  all_goals simp at lost

/-- Once a `Client::read` has reported the session gone, or the backend has hung
up, the session stays gone. -/
theorem spent_of_lost {allow : Life → Action → Prop} {l : Life} {trace : List Event}
    (run : Run step allow unborn l trace) (lost : .gone ∈ trace ∨ .hungUp ∈ trace) : Spent l := by
  refine run.invariant (I := fun l trace => .gone ∈ trace ∨ .hungUp ∈ trace → Spent l) (by simp) ?_
    lost
  intro l trace b l' out before spent _ stepped lost
  have t := step_cases stepped
  have phase := phase_of_run before
  simp only [List.mem_append] at lost
  by_cases earlier : .gone ∈ trace ∨ .hungUp ∈ trace
  · exact (spent earlier).step phase t
  · exact .of_lost phase t (by tauto)

end Life

/-- What is relied on of the encoder and the decoder: any bytes at all have a
code, which is a C string, and decoding it gives them back. -/
def Codec (h : Host) : Prop :=
  ∀ data ≠ [], ∃ text, h.encode data = some text ∧ text ≠ [] ∧ 0 ∉ text ∧ h.decode text = some data

/-- The bytes a browser finds in the base64 text of an answer. -/
def decoded (h : Host) (body : Bytes) : Bytes := if body = [] then [] else (h.decode body).getD []

/-- The payloads of the polls answered with success for the client. -/
def delivered (h : Host) (c : Addr) (trace : List Event) : List Bytes :=
  trace.filterMap fun | .polled _ d body => if d = c then some (decoded h body) else none | _ => none

/-- What a poll has taken from the client's read queue and not answered yet. -/
def ServerPc.gathered (c : Addr) : ServerPc → Bytes
  | .pollTest d data | .pollTouch d data | .pollConsume d data | .pollEncode d data =>
    if d = c then data else []
  | .pollStore d data chunk => if d = c then data ++ chunk else []
  | .accept | .lock _ | .locked _ | .disconnectReturn | .postReturn => []
  | .connectBegin _ _ | .connectEnqueue _ | .connectSend _ | .connectPublish _ => []
  | .connectWait _ _ | .connectReturn _ _ => []
  | .disconnectBegin _ _ | .disconnectEnqueue _ _ | .disconnectSend _ _ => []
  | .writeTest _ _ | .writeProduce _ _ | .writeEnqueue _ | .writeSend _ => []

/-- A poll of the client is past a test of `Client::read`. -/
def ServerPc.polls (c : Addr) : ServerPc → Bool
  | .pollTest d data => d = c && data ≠ []
  | .pollTouch d _ | .pollConsume d _ | .pollEncode d _ | .pollStore d _ _ => d = c
  | .accept | .lock _ | .locked _ | .disconnectReturn | .postReturn => false
  | .connectBegin _ _ | .connectEnqueue _ | .connectSend _ | .connectPublish _ => false
  | .connectWait _ _ | .connectReturn _ _ => false
  | .disconnectBegin _ _ | .disconnectEnqueue _ _ | .disconnectSend _ _ => false
  | .writeTest _ _ | .writeProduce _ _ | .writeEnqueue _ | .writeSend _ => false

/-- Everything taken from the read queue has been delivered or is on its way;
or some of it was lost, and the session is gone. -/
def Delivers (h : Host) (c : Addr) (s : Sys) (trace : List Event) : Prop :=
  (delivered h c trace).flatten ++ s.server.gathered c = (taken c trace).flatten ∨
  (delivered h c trace).flatten <+: (taken c trace).flatten ∧ s.server.polls c = false ∧
    ∃ n, .gone n c ∈ trace

section

variable {h : Host} {s s' : Sys} {a : Action} {out trace : List Event} {c : Addr}

@[simp] theorem delivered_append (trace out : List Event) :
    delivered h c (trace ++ out) = delivered h c trace ++ delivered h c out :=
  List.filterMap_append

/-- The text of a successful answer stands for the bytes it was made from. -/
theorem decoded_encodeBody (codec : Codec h) {data body : Bytes} {o : Outcome}
    (encoded : encodeBody h data o = some body) : decoded h body = data := by
  unfold encodeBody at encoded
  split at encoded
  · cases encoded
    simp [decoded, *]
  · rename_i some_
    split at encoded
    · cases encoded
    obtain ⟨text, code, nonempty, terminated, back⟩ := codec data some_
    rw [code, Option.map_some, cString_of_nulFree terminated] at encoded
    cases encoded
    simp [decoded, nonempty, back]

/-- With a codec and enough memory, an answer is always encoded. -/
theorem encodeBody_ne_none (codec : Codec h) (data : Bytes) {o : Outcome} (room : o ≠ .noMemory) :
    encodeBody h data o ≠ none := by
  unfold encodeBody
  split
  · nofun
  · rename_i some_
    obtain ⟨text, code, -⟩ := codec data some_
    simp [code]

attribute [grind =] ServerPc.gathered ServerPc.polls

/-- A step moves bytes from the read queue to the poll, and from the poll to
the answer, or loses those of a poll that finds the session gone. -/
theorem gathered_step (codec : Codec h) (allocates : a.allocates = true)
    (t : Transition h s a s' out) :
    (delivered h c out).flatten ++ s'.server.gathered c =
        s.server.gathered c ++ (taken c out).flatten ∨
      delivered h c out = [] ∧ taken c out = [] ∧ s'.server.polls c = false ∧
        ∃ n, .gone n c ∈ out := by
  cases t
  case pollGone o d data cl at_ live free unreadable =>
    by_cases same : d = c
    · subst same
      exact .inr ⟨rfl, rfl, rfl, _, List.mem_cons_self⟩
    · left
      simp [delivered, taken, at_, ServerPc.gathered, same]
  case pollTake o d data chunk queue cl at_ live oldest nonempty copied =>
    left
    by_cases same : d = c <;> simp [delivered, taken, at_, ServerPc.gathered, same]
  case pollBlank o d data queue cl at_ live oldest =>
    left
    by_cases same : d = c <;> simp [delivered, taken, at_, ServerPc.gathered, same]
  case pollNoMemory d data chunk at_ => cases allocates
  case pollFail o d data at_ failed =>
    exact absurd failed (encodeBody_ne_none codec data (by simpa [Action.allocates] using allocates))
  case pollAnswer o d data body at_ encoded =>
    left
    have back := decoded_encodeBody codec encoded
    by_cases same : d = c <;> simp [delivered, taken, at_, ServerPc.gathered, same, back]
  case destroy o d cl at_ live =>
    left
    cases (s.storage.destroy cl.id).2 <;> simp [delivered, taken]
  case enter o handler d next allowed at_ found enters =>
    left
    cases enters <;> simp [delivered, taken, at_, ServerPc.gathered]
  case skip o handler next at_ skips =>
    left
    cases skips <;> simp [delivered, taken, at_, ServerPc.gathered]
  case disconnectIdle o caller d cl at_ live free idle =>
    left
    cases caller <;> simp [delivered, taken, at_, ServerPc.gathered, Caller.resume]
  case disconnectSend o caller d at_ =>
    left
    cases caller <;> simp [delivered, taken, at_, ServerPc.gathered, Caller.resume]
  all_goals
    left
    first
    | exact (List.append_nil _).symm
    | rw [show s.server = _ from ‹_›]
      first
      | rfl
      | exact (List.append_nil _).symm

/-- Nothing is gathered or answered for a client no poll is past the test of. -/
theorem polls_step (idle : s.server.polls c = false) (t : Transition h s a s' out) :
    delivered h c out = [] ∧ taken c out = [] ∧ s'.server.polls c = false ∨
      ∃ cl, s.storage.heap c = some cl ∧ cl.readable = true := by
  cases t
  case pollLive o d data cl at_ live free readable =>
    by_cases same : d = c
    · exact .inr ⟨cl, same ▸ live, readable⟩
    · left
      simp [delivered, taken, ServerPc.polls, same]
  case destroy o d cl at_ live =>
    left
    cases (s.storage.destroy cl.id).2 <;> simp [delivered, taken, idle]
  case enter o handler d next allowed at_ found enters =>
    left
    cases enters <;> simp [delivered, taken, ServerPc.polls]
  case skip o handler next at_ skips =>
    left
    cases skips <;> simp [delivered, taken, ServerPc.polls]
  case disconnectIdle o caller d cl at_ live free idle =>
    left
    cases caller <;> simp [delivered, taken, ServerPc.polls, Caller.resume]
  case disconnectSend o caller d at_ =>
    left
    cases caller <;> simp [delivered, taken, ServerPc.polls, Caller.resume]
  all_goals
    first
    | exact .inl ⟨rfl, rfl, rfl⟩
    | exact .inl ⟨rfl, rfl, idle⟩
    | rw [show s.server = _ from ‹_›] at idle
      first
      | exact .inl ⟨rfl, rfl, idle⟩
      | exact .inl (by simp_all [delivered, taken, ServerPc.polls])

theorem Delivers.step (codec : Codec h) (delivers : Delivers h c s trace)
    (spent : (∃ n, .gone n c ∈ trace) → Life.Spent (s.life c))
    (allocates : a.allocates = true) (t : Transition h s a s' out) :
    Delivers h c s' (trace ++ out) := by
  simp only [Delivers, delivered_append, taken_append, List.flatten_append] at *
  rcases delivers with whole | ⟨short, idle, n, gone⟩
  · rcases gathered_step (c := c) codec allocates t with moved | ⟨silent, kept, idle, n, gone⟩
    · left
      rw [List.append_assoc, moved, ← List.append_assoc, whole]
    · right
      rw [silent, kept, ← whole]
      exact ⟨by simp, idle, n, List.mem_append_right _ gone⟩
  · rcases polls_step idle t with ⟨silent, kept, idle⟩ | ⟨cl, live, readable⟩
    · right
      rw [silent, kept]
      exact ⟨by simpa using short, idle, n, List.mem_append_left _ gone⟩
    · have state := (spent ⟨n, gone⟩).state cl.core (by simp [Sys.life, live])
      simp only [Client.core] at state
      rcases state with failed | leaving
      · simp [Client.readable, failed] at readable
      · simp [Client.readable, leaving] at readable

theorem delivers_of_run (codec : Codec h)
    (run : Run (step h) (fun _ a => a.allocates = true) (.start h) s trace) (c : Addr) :
    Delivers h c s trace := by
  refine run.invariant (I := fun s trace => Delivers h c s trace) (.inl rfl) ?_
  intro s trace a s' out before delivers allocates stepped
  refine delivers.step codec ?_ allocates (step_cases stepped).2
  rintro ⟨n, gone⟩
  have lived : Run Life.step always Life.unborn (s.life c) (trace.filterMap (observeLife c)) :=
    life_of_run (fun _ _ _ _ _ _ _ => trivial) before
  exact Life.spent_of_lost lived
    (.inl (List.mem_filterMap.mpr ⟨_, gone, by simp [observeLife]⟩))

/-- What the polls of a client have delivered is a prefix of what its backend
sent, whatever cut them off. -/
theorem delivered_received (codec : Codec h)
    (run : Run (step h) (fun _ a => a.allocates = true) (.start h) s trace) (c : Addr) :
    (delivered h c trace).flatten <+: (received c trace).flatten := by
  obtain ⟨q, conserved, -⟩ := reads_conserved run c
  have out : (delivered h c trace).flatten <+: (taken c trace).flatten := by
    rcases delivers_of_run codec run c with whole | ⟨short, -⟩
    · exact ⟨_, whole⟩
    · exact short
  rw [conserved, List.flatten_append]
  exact out.trans (List.prefix_append _ _)

end

theorem Sample.codec : Codec Sample.host := fun data nonempty =>
  ⟨_, rfl, mt Base64.encode_eq_nil.mp nonempty, Base64.zero_not_mem_encode data,
    Base64.decode_encode data⟩

end LinearFcgi
