import LinearFcgi.Channels
import LinearFcgi.Iterations
import LinearFcgi.Library.Batching

/-! What a poll that is not cut off brings: the chunks it finds in the read
queue, up to the one that makes up the response size, whole and in order. A
chunk of no bytes would pass for an empty queue, but none is ever enqueued. -/
namespace LinearFcgi

open TraceMachine Batching

/-- The chunks a poll takes from a queue that holds, or comes to hold, these. -/
abbrev IsPollBatch (queue batch : List Bytes) : Prop :=
  IsBatch List.length dataThreshold queue batch

/-- With `queue` in the read queue at the start of the loop, the loop has taken
its batch of what was there until it ended, and nothing since. -/
def Batched (queue : List Bytes) (c : Addr) (during : List Event) : Prop :=
  ∃ early late, during = early ++ late ∧ taken c late = [] ∧
    IsPollBatch (queue ++ received c early) (taken c during)

/-- The step is none that ends the poll with an error, and no other request is
accepted: the session is connected when `Client::read` tests it, and `malloc`,
`realloc` and the encoder do not fail. -/
def Sys.undisturbed (h : Host) (s : Sys) : Action → Bool
  | .accept _ _ => false
  | .server o => match s.server with
    | .pollTest c _ => (s.storage.heap c).any Client.readable
    | .pollConsume _ _ => o ≠ .noCopy
    | .pollStore _ _ _ => o ≠ .noMemory
    | .pollEncode _ data => encodeBody h data o ≠ none
    | _ => true
  | .loop _ | .onAsync | .onConnect _ _ | .onRead _ _ | .onTimer | .onDisconnect _ | .clock _ => true

/-- A poll that began in `s₀` was answered with its batch. -/
def WasAnswered (h : Host) (s₀ : Sys) (queue : List Bytes) (c : Addr) (during : List Event) : Prop :=
  Batched queue c during ∧ ∃ body, encodeBody h (taken c during).flatten .ok = some body ∧
    .response s₀.exchange .ok (some (pollBody s₀.request.getQueries.getCallback body)) ∈ during

/-- Where a poll that began in `s₀` stands with the client at `c`. -/
def Collects (h : Host) (s₀ : Sys) (queue : List Bytes) (c : Addr) (s : Sys)
    (during : List Event) : Prop :=
  match s.server with
  | .pollTest d data | .pollTouch d data | .pollConsume d data =>
    d = c ∧ data = (taken c during).flatten ∧
      Taking List.length dataThreshold (queue ++ received c during) (taken c during)
  | .pollStore d data chunk => d = c ∧ ∃ front, taken c during = front ++ [chunk] ∧
      data = front.flatten ∧ Taking List.length dataThreshold (queue ++ received c during) front
  | .pollEncode d data => d = c ∧ data = (taken c during).flatten ∧ Batched queue c during
  | .accept => WasAnswered h s₀ queue c during
  | _ => False

section

variable {h : Host} {s s' s₀ : Sys} {a : Action} {out trace before during : List Event} {c : Addr}
  {cl₀ : Client} {queue : List Bytes}

/-- What the chunks weigh is the length of the payload. -/
theorem weight_chunks (chunks : List Bytes) : weight List.length chunks = chunks.flatten.length :=
  List.length_flatten.symm

/-! ## No empty chunks -/

theorem chunks_nonempty {guard : Sys → Action → Prop} (run : Run (step h) guard (.start h) s trace) :
    (∀ c chunk, s.loop = .readTail c chunk → chunk ≠ []) ∧
      ∀ c, [] ∉ received c trace := by
  refine run.invariant (I := fun s trace => (∀ c chunk, s.loop = .readTail c chunk → chunk ≠ []) ∧
      ∀ c, [] ∉ received c trace) ⟨(fun _ _ reading => by cases reading), fun c => by simp [received]⟩ ?_
  rintro s trace a s' out - ⟨pending, stored⟩ - stepped
  have t := (step_cases stepped).2
  clear stepped
  simp only [received_append, List.mem_append, not_or]
  cases t
  case destroy o d cl at_ live =>
    refine ⟨(fun _ _ reading => by cases reading), fun c => ⟨stored c, ?_⟩⟩
    cases (s.storage.destroy cl.id).2 <;> simp [received]
  case onRead d chunk cl at_ live reading open_ connected nonempty =>
    refine ⟨?_, fun c => ⟨stored c, by simp [received]⟩⟩
    rintro _ _ ⟨⟩
    exact nonempty
  case readStore o d chunk cl at_ live room copied =>
    refine ⟨(fun _ _ reading => by cases reading), fun c => ⟨stored c, ?_⟩⟩
    by_cases same : d = c
    · simpa [received, same] using (pending d chunk at_).symm
    · simp [received, same]
  all_goals
    refine ⟨?_, fun c => ⟨stored c, List.not_mem_nil⟩⟩
    first
    | exact pending
    | exact fun _ _ reading => by cases reading

/-- No chunk in a read queue is empty. -/
theorem nonempty_of_queued {guard : Sys → Action → Prop} (run : Run (step h) guard (.start h) s trace)
    {cl : Client} (live : s.storage.heap c = some cl) : [] ∉ cl.readQueue := by
  obtain ⟨q, conserved, holds⟩ := reads_conserved run c
  rw [holds cl live]
  intro empty
  exact (chunks_nonempty run).2 c (by rw [conserved]; exact List.mem_append_right _ empty)

/-! ## One step of the poll -/

/-- From a moment on, what was in the read queue and has come into it since is
what has been taken since, in order, followed by what is in it now. -/
theorem reads_conserved_since (run : Reaches (step h) (.start h) s₀ before)
    (live : s₀.storage.heap c = some cl₀) (rest : Reaches (step h) s₀ s during) :
    ∃ q, cl₀.readQueue ++ received c during = taken c during ++ q ∧
      ∀ cl, s.storage.heap c = some cl → cl.readQueue = q := by
  obtain ⟨q₀, conserved₀, holds₀⟩ := reads_conserved run c
  obtain ⟨q, conserved, holds⟩ := reads_conserved (run.append rest) c
  refine ⟨q, ?_, holds⟩
  rw [received_append, taken_append, conserved₀, ← holds₀ cl₀ live, List.append_assoc,
    List.append_assoc] at conserved
  exact List.append_cancel_left conserved

theorem Batched.later (batched : Batched queue c during) (untaken : taken c out = []) :
    Batched queue c (during ++ out) := by
  obtain ⟨early, late, rfl, silent, isBatch⟩ := batched
  refine ⟨early, late ++ out, by simp, by simp [silent, untaken], ?_⟩
  rwa [taken_append _ _ out, untaken, List.append_nil]

/-- What does not concern the poll leaves it where it is. -/
theorem Collects.aside (collects : Collects h s₀ queue c s during) (same : s'.server = s.server)
    (untaken : taken c out = []) : Collects h s₀ queue c s' (during ++ out) := by
  have taken_eq : taken c (during ++ out) = taken c during := by
    rw [taken_append, untaken, List.append_nil]
  unfold Collects at collects ⊢
  rw [same]
  split at collects
  case h_1 | h_2 | h_3 =>
    obtain ⟨rfl, rfl, taking⟩ := collects
    refine ⟨rfl, by rw [taken_eq], ?_⟩
    rw [taken_eq, received_append, ← List.append_assoc]
    exact taking.grow
  case h_4 =>
    obtain ⟨rfl, front, split, rfl, taking⟩ := collects
    refine ⟨rfl, front, by rw [taken_eq, split], rfl, ?_⟩
    rw [received_append, ← List.append_assoc]
    exact taking.grow
  case h_5 =>
    obtain ⟨rfl, rfl, batched⟩ := collects
    exact ⟨rfl, by rw [taken_eq], batched.later untaken⟩
  case h_6 =>
    obtain ⟨batched, body, encoded, sent⟩ := collects
    refine ⟨batched.later untaken, body, ?_, List.mem_append_left _ sent⟩
    rwa [taken_eq]
  case h_7 => exact collects.elim

theorem encodeBody_some {data body : Bytes} {o : Outcome} (encoded : encodeBody h data o = some body) :
    encodeBody h data .ok = some body := by
  unfold encodeBody at encoded ⊢
  split at encoded
  · rwa [if_pos (by assumption)]
  · rw [if_neg (by assumption)]
    split at encoded
    · cases encoded
    · exact encoded

/-- The loop ends with the batch it has taken. -/
theorem Batched.now (isBatch : IsPollBatch (queue ++ received c during) (taken c during)) :
    Batched queue c during := ⟨during, [], by simp, rfl, isBatch⟩

/-- Each step of the poll takes one chunk more, or ends the loop with the batch
complete or the queue empty. -/
theorem Collects.step (still : s.exchange = s₀.exchange) (request : s.request = s₀.request)
    (conserved : ∃ q, queue ++ received c during = taken c during ++ q ∧
      ∀ cl, s.storage.heap c = some cl → cl.readQueue = q ∧ [] ∉ q)
    (collects : Collects h s₀ queue c s during) (undisturbed : s.undisturbed h a = true)
    (t : Transition h s a s' out) : Collects h s₀ queue c s' (during ++ out) := by
  obtain ⟨q, split, holds⟩ := conserved
  cases t
  case refuse at_ routed => cases undisturbed
  case proceed at_ routed => cases undisturbed
  case destroy o d cl at_ live =>
    refine collects.aside rfl ?_
    cases (s.storage.destroy cl.id).2 <;> simp [taken]
  case pollLive o d data cl at_ live free readable =>
    rw [Collects, at_] at collects
    obtain ⟨rfl, rfl, taking⟩ := collects
    exact ⟨rfl, by simp [taken], by simpa [taken, received] using taking⟩
  case pollGone o d data cl at_ live free unreadable =>
    simp [Sys.undisturbed, at_, live, unreadable] at undisturbed
  case pollTouch o d data cl at_ live =>
    rw [Collects, at_] at collects
    obtain ⟨rfl, rfl, taking⟩ := collects
    exact ⟨rfl, by simp, by simpa using taking⟩
  case pollEmpty o d data cl at_ live drained =>
    rw [Collects, at_] at collects
    obtain ⟨rfl, rfl, taking⟩ := collects
    have whole : queue ++ received d during = taken d during := by
      rw [split, ← (holds cl live).1, drained, List.append_nil]
    rw [whole] at taking
    have batched : Batched queue d during := .now (by rw [whole]; exact taking.whole)
    exact ⟨rfl, by simp [taken], batched.later rfl⟩
  case pollBlank o d data rest cl at_ live oldest =>
    rw [Collects, at_] at collects
    obtain ⟨rfl, -, -⟩ := collects
    obtain ⟨rfl, filled⟩ := holds cl live
    exact absurd (by simp [oldest]) filled
  case pollTake o d data chunk rest cl at_ live oldest nonempty copied =>
    rw [Collects, at_] at collects
    obtain ⟨rfl, rfl, taking⟩ := collects
    refine ⟨rfl, taken d during, by simp [taken], rfl, ?_⟩
    simpa [received] using taking
  case pollCrash d data chunk rest cl at_ live oldest nonempty =>
    simp [Sys.undisturbed, at_] at undisturbed
  case pollNoMemory d data chunk at_ =>
    simp [Sys.undisturbed, at_] at undisturbed
  case pollMore o d data chunk at_ room short =>
    rw [Collects, at_] at collects
    obtain ⟨rfl, front, took, rfl, taking⟩ := collects
    have here : front ++ [chunk] <+: queue ++ received d during := ⟨q, by rw [split, took]⟩
    have light : weight List.length (front ++ [chunk]) < dataThreshold := by
      simpa [weight_chunks] using short
    refine ⟨rfl, by simp [took], ?_⟩
    simpa [took] using (taking.take here).1 light
  case pollEnough o d data chunk at_ room enough =>
    rw [Collects, at_] at collects
    obtain ⟨rfl, front, took, rfl, taking⟩ := collects
    have here : front ++ [chunk] <+: queue ++ received d during := ⟨q, by rw [split, took]⟩
    have heavy : dataThreshold ≤ weight List.length (front ++ [chunk]) := by
      simpa [weight_chunks] using enough
    have batched : Batched queue d during := .now (by rw [took]; exact (taking.take here).2 heavy)
    exact ⟨rfl, by simp [took], batched.later rfl⟩
  case pollFail o d data at_ failed =>
    simp [Sys.undisturbed, at_, failed] at undisturbed
  case pollAnswer o d data body at_ encoded =>
    rw [Collects, at_] at collects
    obtain ⟨rfl, rfl, batched⟩ := collects
    refine ⟨batched.later rfl, body, by simpa [taken] using encodeBody_some encoded, ?_⟩
    rw [← still, ← request]
    exact List.mem_append_right _ (by simp)
  all_goals
    first
    | exact collects.aside rfl rfl
    | rw [Collects, show s.server = _ from ‹_›] at collects
      exact collects.elim

/-! ## The poll -/

theorem collects_of_run (run : Reaches (step h) (.start h) s₀ before)
    (begins : s₀.server = .pollTest c []) (live : s₀.storage.heap c = some cl₀)
    (rest : Run (step h) (fun s a => s.undisturbed h a = true) s₀ s during) :
    s.exchange = s₀.exchange ∧ s.request = s₀.request ∧
      Collects h s₀ cl₀.readQueue c s during := by
  refine rest.invariant (I := fun s during => s.exchange = s₀.exchange ∧ s.request = s₀.request ∧
    Collects h s₀ cl₀.readQueue c s during) ?_ ?_
  · refine ⟨rfl, rfl, ?_⟩
    rw [Collects, begins]
    exact ⟨rfl, rfl, .start⟩
  · rintro s during a s' out rest ⟨still, request, collects⟩ undisturbed stepped
    have t := (step_cases stepped).2
    have same : s'.exchange = s.exchange := t.exchange_eq fun req uuid accepts => by
      rw [accepts] at undisturbed
      cases undisturbed
    have conserved : ∃ q, cl₀.readQueue ++ received c during = taken c during ++ q ∧
        ∀ cl, s.storage.heap c = some cl → cl.readQueue = q ∧ [] ∉ q := by
      obtain ⟨q, split, holds⟩ := reads_conserved_since run live rest.reaches
      refine ⟨q, split, fun cl live => ⟨holds cl live, ?_⟩⟩
      rw [← holds cl live]
      exact nonempty_of_queued (run.append rest.reaches) live
    exact ⟨same.trans still, (t.request_eq same).trans request,
      collects.step still request conserved undisturbed t⟩

/-- The batch is not empty if the queue was not, and without its last chunk it is
below the response size. -/
theorem Batched.sizes (run : Reaches (step h) (.start h) s₀ before)
    (live : s₀.storage.heap c = some cl₀) (rest : Reaches (step h) s₀ s during)
    (batched : Batched cl₀.readQueue c during) :
    (cl₀.readQueue ≠ [] → (taken c during).flatten ≠ []) ∧
    ∀ last ∈ (taken c during).getLast?,
      (taken c during).flatten.length < dataThreshold + last.length := by
  obtain ⟨early, late, rfl, silent, isBatch⟩ := batched
  have filled : [] ∉ taken c (early ++ late) := by
    intro blank
    have inside := isBatch.isPrefix.subset blank
    rcases List.mem_append.mp inside with queued | arrived
    · exact nonempty_of_queued run live queued
    · have every := (chunks_nonempty (run.append rest)).2 c
      simp only [received_append, List.mem_append, not_or] at every
      exact every.2.1 arrived
  constructor
  · intro some_ blank
    have took := isBatch.nonempty (by simp [some_])
    obtain ⟨chunk, member⟩ := List.exists_mem_of_ne_nil _ took
    have empty := List.flatten_eq_nil_iff.mp blank chunk member
    exact filled (empty ▸ member)
  · intro last final
    obtain ⟨front, split⟩ := List.getLast?_eq_some_iff.mp final
    rw [split] at isBatch ⊢
    rw [← weight_chunks]
    exact isBatch.weight_lt (by decide)

/-- Inside a poll the server thread can always go on. -/
theorem Collects.moves (sane : Sane s) (collects : Collects h s₀ queue c s during)
    (alive : s.fault = false) (busy : s.server ≠ .accept) (o : Outcome) :
    ∃ s' out, LinearFcgi.step h s (.server o) = some (s', out) := by
  have may : s.May o := by
    intro d deadline waits
    rw [Collects, waits] at collects
    exact collects.elim
  have locked (handler : Handler) (at_ : s.server = .lock handler) :
      s.storageLock ≠ some .loop := by
    rw [Collects, at_] at collects
    exact collects.elim
  obtain ⟨⟨s', out⟩, moved⟩ :=
    Option.isSome_iff_exists.mp (server_moves (h := h) sane busy may locked)
  exact ⟨s', out, by simpa only [LinearFcgi.step, alive, Bool.false_eq_true, ↓reduceIte] using moved⟩

/-- And each of its steps brings the end nearer. -/
theorem Collects.counts (run : Reaches (LinearFcgi.step h) (.start h) s trace)
    (collects : Collects h s₀ queue c s during) (undisturbed : s.undisturbed h a = true)
    (stepped : LinearFcgi.step h s a = some (s', out)) :
    (serverMoves s a).length + s'.server.rank ≤ s.server.rank := by
  have goesOn : goesOn s a := by
    refine ⟨fun req uuid accepts => ?_, fun d deadline cl o waits => ?_⟩
    · rw [accepts] at undisturbed
      cases undisturbed
    · rw [Collects, waits] at collects
      exact collects.elim
  obtain ⟨alive, t⟩ := step_cases stepped
  refine rank_counts run goesOn t fun o server => ?_
  subst server
  refine Bool.eq_false_iff.mpr fun dead => ?_
  obtain ⟨refused, copies⟩ := (server_survives (sane_of_run run) alive t).mp dead
  unfold Sys.copies at copies
  split at copies
  · rename_i at_
    simp [Sys.undisturbed, at_, refused] at undisturbed
  · cases copies

/-- A poll of a session that is connected while it reads is answered with the
batch of what was in the read queue when it began to read, and what came in while
it read: as many chunks as make up the response size, or all there are. It
removes these and no others, and its payload is all of them together; it is not
empty if the queue was not, and without the last chunk it is below the response
size. No chunk that is ever in a read queue is empty. And the poll does end: the
server thread can always go on, and only so many of its steps are left. -/
theorem poll_batches (run : Reaches (step h) (.start h) s₀ before)
    (begins : s₀.server = .pollTest c []) (live : s₀.storage.heap c = some cl₀)
    (rest : Run (step h) (fun s a => s.undisturbed h a = true) s₀ s during) :
    (∀ data, s.server = .pollEncode c data →
      data = (taken c during).flatten ∧ Batched cl₀.readQueue c during) ∧
    (s.server = .accept → WasAnswered h s₀ cl₀.readQueue c during) ∧
    (Batched cl₀.readQueue c during →
      (cl₀.readQueue ≠ [] → (taken c during).flatten ≠ []) ∧
      ∀ last ∈ (taken c during).getLast?,
        (taken c during).flatten.length < dataThreshold + last.length) ∧
    (∀ cl, s.storage.heap c = some cl →
      cl₀.readQueue ++ received c during = taken c during ++ cl.readQueue) ∧
    (∀ d cl, s.storage.heap d = some cl → [] ∉ cl.readQueue) ∧
    (s.fault = false → s.server ≠ .accept →
      ∀ o, ∃ s' out, step h s (.server o) = some (s', out)) ∧
    ∀ past, Run (record (step h) serverMoves) (fun x a => x.1.undisturbed h a = true) (s₀, [])
      (s, past) during → past.length + s.server.rank ≤ s₀.server.rank := by
  obtain ⟨-, -, collects⟩ := collects_of_run run begins live rest
  have sane := sane_of_run (run.append rest.reaches)
  refine ⟨?_, ?_, Batched.sizes run live rest.reaches, ?_,
    fun d cl live => nonempty_of_queued (run.append rest.reaches) live,
    Collects.moves sane collects, ?_⟩
  · intro data at_
    rw [Collects, at_] at collects
    exact collects.2
  · intro idle
    rw [Collects, idle] at collects
    exact collects
  · intro cl live'
    obtain ⟨q, split, holds⟩ := reads_conserved_since run live rest.reaches
    rw [holds cl live']
    exact split
  · intro past recorded
    have lowers : ∀ s during a s' out, Run (step h) (fun s a => s.undisturbed h a = true) s₀ s during →
        s.undisturbed h a = true → step h s a = some (s', out) →
        (serverMoves s a).length + s'.server.rank ≤ s.server.rank := by
      intro s during a s' out rest undisturbed stepped
      have collects := (collects_of_run run begins live rest).2.2
      exact Collects.counts (run.append rest.reaches) collects undisturbed stepped
    exact Run.counted (fun s : Sys => s.server.rank) lowers recorded

end

/-- Two chunks have arrived, and a poll is about to read the first. -/
def Sample.polling : List Action :=
  Sample.connected ++ [.onRead 0 (some (ascii "he")), .loop .ok, .onRead 0 (some (ascii "llo")),
    .loop .ok, .accept Sample.poll none, .server .ok, .server .ok]

/-- It takes both, and is answered with their code. -/
theorem poll_batches_both : ∃ s₀ before s during,
    exec (step Sample.host) (.start Sample.host) Sample.polling = some (s₀, before) ∧
    exec (restrict (step Sample.host) fun s a => s.undisturbed Sample.host a = true) s₀
      (List.replicate 12 (.server .ok)) = some (s, during) ∧
    WasAnswered Sample.host s₀ [ascii "he", ascii "llo"] 0 during := by
  obtain ⟨⟨s₀, before⟩, ran, fetched⟩ := Option.bind_eq_some_iff.mp
    (show ((exec (step Sample.host) (.start Sample.host) Sample.polling).bind fun r =>
      (exec (restrict (step Sample.host) fun s a => s.undisturbed Sample.host a = true) r.1
        (List.replicate 12 (.server .ok))).map fun r' =>
          (r.1.server, (r.1.storage.heap 0).map Client.readQueue, r'.1.server)) =
      some (.pollTest 0 [], some [ascii "he", ascii "llo"], .accept) by decide +kernel)
  obtain ⟨⟨s, during⟩, fetched, ends⟩ := Option.map_eq_some_iff.mp fetched
  simp only [Prod.mk.injEq] at ends
  obtain ⟨begins, queued, idle⟩ := ends
  obtain ⟨cl₀, live, queue⟩ := Option.map_eq_some_iff.mp queued
  have answered := (poll_batches (reaches_of_exec ran) begins live (run_of_exec fetched)).2.1 idle
  rw [queue] at answered
  exact ⟨s₀, before, s, during, ran, fetched, answered⟩

end LinearFcgi
