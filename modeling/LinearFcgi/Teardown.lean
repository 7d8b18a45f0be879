import LinearFcgi.LifecycleProofs

/-! How a connection ends. Three steps of the loop thread may close a client,
and the close callback deletes it. Whether a client can be closed twice, and
whether a request can outlive the client it names, is decided on the abstract
connection; the process inherits the answers. -/
namespace LinearFcgi

open TraceMachine

namespace Life

/-! ## Closing once -/

/-- The timer does not find a failed connection that is closing already or has
a DISCONNECT request waiting. -/
def ReapsSingly (l : Life) (b : Action) : Prop :=
  b = .reap → ∀ k, l.core = some k → k.state = .failConnect →
    k.handle ≠ .closing ∧ .disconnect ∉ l.requests

/-- After `n` closings, no more than one is done or due; and one that is done
shows in the handle for as long as the client is there. -/
structure Closing (l : Life) (n : Nat) : Prop where
  bound : n + l.requests.count .disconnect + (if l.stage = .leaving then 1 else 0) ≤ 1
  done : 0 < n → l.born = true ∧ ∀ k, l.core = some k → k.handle = .closing

section

variable {l l' : Life} {n : Nat} {k : Core}

theorem Closing.unclosed (closing : Closing l n) (present : l.core = some k)
    (open_ : k.handle ≠ .closing) : n = 0 := by
  by_contra done
  exact open_ ((closing.done (Nat.pos_of_ne_zero done)).2 k present)

/-- A connection that is there or on its way has not been closed, and nobody has
asked for it. -/
theorem Closing.fresh (closing : Closing l n) (phase : Phase l) (present : l.core = some k)
    (up : k.state = .connecting ∨ k.state = .connected) :
    n = 0 ∧ l.requests.count .disconnect = 0 ∧ l.stage ≠ .leaving := by
  obtain ⟨-, shows, -⟩ := phase.present k present
  have standing : ¬ (k.state = .disconnecting ∨ k.state = .failConnect) := by
    rintro (down | down) <;> rw [down] at up <;> rcases up with other | other <;> cases other
  refine ⟨?_, ?_, fun leaves => standing (shows.leaving (.inr leaves))⟩
  · exact closing.unclosed present fun closed => standing (shows.closing closed)
  · exact List.count_eq_zero.mpr fun asked => standing (shows.leaving (.inl asked))

/-- A step that closes nothing, asks for nothing new and does not reopen the handle. -/
theorem Closing.keep (closing : Closing l n) (born : l'.born = l.born)
    (due : l'.requests.count .disconnect + (if l'.stage = .leaving then 1 else 0) ≤
      l.requests.count .disconnect + (if l.stage = .leaving then 1 else 0))
    (handle : ∀ k', l'.core = some k' → ∃ k, l.core = some k ∧ k'.handle = k.handle) :
    Closing l' n where
  bound := by
    have bound := closing.bound
    omega
  done some_ := by
    obtain ⟨was, shows⟩ := closing.done some_
    refine ⟨born.trans was, fun k' present => ?_⟩
    obtain ⟨k, before, same⟩ := handle k' present
    rw [same, shows k before]

/-- The first closing leaves nothing due. -/
theorem Closing.first (born : l.born = true) (unasked : l.requests.count .disconnect = 0)
    (stays : l.stage ≠ .leaving) (closes : ∀ k, l.core = some k → k.handle = .closing) :
    Closing l 1 where
  bound := by simp [unasked, stays]
  done _ := ⟨born, closes⟩

end

theorem Closing.step {l l' : Life} {n : Nat} {b : Action} {out : List Event} (phase : Phase l)
    (closing : Closing l n) (singly : ReapsSingly l b) (t : Transition l b l' out) :
    Closing l' (n + out.count .closed) := by
  cases t
  case create stage dying requests =>
    obtain ⟨rfl, -, -, fresh⟩ := phase.absent rfl
    obtain rfl := fresh rfl
    have unborn : n = 0 := by
      by_contra done
      cases (closing.done (Nat.pos_of_ne_zero done)).1
    subst unborn
    exact ⟨by simp, nofun⟩
  case drop r rest idle =>
    refine closing.keep rfl ?_ fun k' present => ⟨k', present, rfl⟩
    rcases idle with rfl | rfl <;> simp
  case mark stage k born dying requests at_ state =>
    obtain ⟨rfl, unasked, -⟩ := closing.fresh phase rfl state
    exact ⟨by simp [unasked], nofun⟩
  case leave | ask | publish | wake | allow | write | callback | connected | failed =>
    exact closing.keep rfl (by simp) fun k' present => ⟨_, rfl, by cases present; rfl⟩
  case connect stage k born dying rest handle unlocked =>
    obtain ⟨-, shows, -⟩ := phase.present k rfl
    obtain rfl := closing.unclosed rfl (by simp [(shows.asked (by simp)).1])
    exact ⟨by simpa using closing.bound, nofun⟩
  case connectFail stage k born dying rest handle unlocked open_ =>
    obtain ⟨-, shows, -⟩ := phase.present k rfl
    obtain rfl := closing.unclosed rfl (by simp [(shows.asked (by simp)).1])
    exact ⟨by simpa using closing.bound, nofun⟩
  case close stage k born dying rest =>
    obtain ⟨rfl, -, -⟩ := phase.present k rfl
    refine ⟨?_, fun _ => ⟨rfl, fun k' present => by cases present; rfl⟩⟩
    have bound := closing.bound
    simp only [List.count_cons_self, List.count_nil] at bound ⊢
    omega
  case hangUp stage k born dying requests open_ state =>
    obtain ⟨rfl, unasked, stays⟩ := closing.fresh phase rfl (.inr state)
    obtain ⟨rfl, -, -⟩ := phase.present k rfl
    exact .first rfl unasked stays fun k' present => by cases present; rfl
  case reap k born dying requests state =>
    obtain ⟨rfl, unasked⟩ : n = 0 ∧ requests.count .disconnect = 0 := by
      rcases state with connected | connecting | failed
      · obtain ⟨unclosed, unasked, -⟩ := closing.fresh phase rfl (.inr connected)
        exact ⟨unclosed, unasked⟩
      · obtain ⟨unclosed, unasked, -⟩ := closing.fresh phase rfl (.inl connecting)
        exact ⟨unclosed, unasked⟩
      · obtain ⟨open_, unasked⟩ := singly rfl k rfl failed
        exact ⟨closing.unclosed rfl open_, List.count_eq_zero.mpr unasked⟩
    obtain ⟨rfl, -, -⟩ := phase.present k rfl
    exact .first rfl unasked nofun fun k' present => by cases present; rfl
  case destroy =>
    exact closing.keep rfl (by simp) nofun
  case live | gone | stray =>
    exact closing.keep rfl (by simp) fun k' present => ⟨_, present, rfl⟩

/-- A connection the timer reaps singly is closed at most once. -/
theorem closed_once {l : Life} {trace : List Event} (run : Run step ReapsSingly unborn l trace) :
    trace.count .closed ≤ 1 := by
  have closing : Closing l (trace.count .closed) := by
    refine run.invariant (I := fun l trace => Closing l (trace.count .closed)) ?_ ?_
    · constructor <;> simp [unborn]
    · intro l trace b l' out before closing singly stepped
      rw [List.count_append]
      exact closing.step (phase_of_run before) singly (step_cases stepped)
  have bound := closing.bound
  omega

/-! ## Never following a stale pointer -/

/-- The close callback does not start while a WRITE request is owed to the
client, and no message is let through while it waits for the lock. -/
def SparesRequests (l : Life) (b : Action) : Prop :=
  (b = .callback → l.requests = [] ∧ l.stage ≠ .writing) ∧
  (b = .allow → l.dying = true → ∀ k, l.core = some k → k.state = .disconnecting)

/-- Nothing is owed to a connection that is about to go, or gone. -/
structure Spared (l : Life) : Prop where
  dying : l.dying = true → l.requests = [] ∧ l.stage ≠ .writing
  gone : l.core = none → l.requests = []

theorem Spared.step {l l' : Life} {b : Action} {out : List Event} (phase : Phase l)
    (spared : Spared l) (spares : SparesRequests l b) (t : Transition l b l' out) :
    Spared l' ∧ .useAfterFree ∉ out := by
  obtain ⟨dying, gone⟩ := spared
  obtain ⟨callback, allow⟩ := spares
  cases t
  case create stage dying requests =>
    obtain ⟨rfl, rfl, -, -⟩ := phase.absent rfl
    exact ⟨⟨nofun, nofun⟩, nofun⟩
  case ask k born dying requests =>
    obtain ⟨-, shows, last⟩ := phase.present k rfl
    have unset := (shows.unset (shows.opening.mpr (.inl rfl))).1
    refine ⟨⟨fun closing => ?_, nofun⟩, nofun⟩
    rw [(last closing).1] at unset
    cases unset
  case leave k born dying requests =>
    obtain ⟨-, shows, last⟩ := phase.present k rfl
    exact ⟨⟨fun closing => absurd (last closing).1 (shows.single rfl).1, nofun⟩, nofun⟩
  case write => exact ⟨⟨fun closing => absurd rfl (dying closing).2, nofun⟩, nofun⟩
  case allow k born dying requests up begun =>
    exact ⟨⟨fun closing => absurd (allow rfl closing k rfl) up, nofun⟩, nofun⟩
  case callback => exact ⟨⟨fun _ => callback rfl, nofun⟩, nofun⟩
  case destroy => exact ⟨⟨nofun, fun _ => (dying rfl).1⟩, nofun⟩
  case stray owed => exact absurd (gone rfl) owed
  case drop r rest idle =>
    exact ⟨⟨fun closing => absurd (dying closing).1 (List.cons_ne_nil r rest),
      fun lost => absurd (gone lost) (List.cons_ne_nil r rest)⟩, nofun⟩
  case connect | connectFail | close =>
    exact ⟨⟨fun closing => absurd (dying closing).1 (List.cons_ne_nil _ _), nofun⟩, by simp⟩
  case live | gone => exact ⟨⟨dying, nofun⟩, by simp⟩
  case wake | publish | mark => exact ⟨⟨fun closing => ⟨(dying closing).1, nofun⟩, nofun⟩, by simp⟩
  case connected | failed | hangUp | reap =>
    exact ⟨⟨dying, nofun⟩, by simp⟩

/-- A connection whose requests are spared is never touched once it is gone. -/
theorem never_stray {l : Life} {trace : List Event}
    (run : Run step SparesRequests unborn l trace) : Spared l ∧ .useAfterFree ∉ trace := by
  refine run.invariant (I := fun l trace => Spared l ∧ .useAfterFree ∉ trace) ?_ ?_
  · exact ⟨⟨nofun, fun _ => rfl⟩, nofun⟩
  · intro l trace b l' out before ⟨spared, clean⟩ spares stepped
    obtain ⟨spared', quiet⟩ := spared.step (phase_of_run before) spares (step_cases stepped)
    refine ⟨spared', ?_⟩
    rw [List.mem_append]
    rintro (earlier | now)
    · exact clean earlier
    · exact quiet now

end Life

/-! ## In the process -/

section

variable {h : Host} {s : Sys} {trace : List Event}

/-- How often `Client::_disconnect` ran on the client at `c`. -/
def closings (c : Addr) (trace : List Event) : Nat :=
  trace.countP fun | .closed d => d = c | _ => false

/-- The timer does not close a client in `FAIL_CONNECT` that is being closed
already, or that a DISCONNECT request is waiting for. -/
def reapsSingly (s : Sys) : Action → Bool
  | .loop _ => match s.loop with
    | .timerScan (c :: _) => (s.storage.heap c).all fun cl =>
        cl.state ≠ .failConnect || cl.handle ≠ .closing && ⟨.disconnect, c⟩ ∉ s.pending
    | _ => true
  | _ => true

/-- The close callback of a client does not start while a request names it or
`Client::write` is about to make one; and while it waits for the storage lock,
`Client::write` lets nothing through. -/
def sparesRequests (s : Sys) : Action → Bool
  | .onDisconnect c => s.pending.all (·.client ≠ c) && s.server.stage c ≠ .writing
  | .server _ => match s.server with
    | .writeTest c _ => s.loop ≠ .closeLock c || (s.storage.heap c).all (¬ ·.writable)
    | _ => true
  | _ => true

theorem closings_eq (c : Addr) (trace : List Event) :
    (trace.filterMap (observeLife c)).count .closed = closings c trace := by
  rw [List.count, List.countP_filterMap, closings]
  congr 1
  funext e
  cases e <;> simp only [observeLife] <;> first | rfl | (split <;> simp_all)

/-- `Client::_disconnect` runs at most once for each client, in every run in
which the timer leaves alone the failed clients that are closed otherwise. -/
theorem closed_at_most_once
    (run : Run (step h) (fun s a => reapsSingly s a = true) (.start h) s trace) (c : Addr) :
    closings c trace ≤ 1 := by
  rw [← closings_eq]
  refine Life.closed_once (life_of_run ?_ run)
  intro s a b sane singly stands phase reaps k core failed
  subst reaps
  obtain ⟨o, clients, rfl, at_⟩ := stands
  obtain ⟨cl, live, rfl⟩ := Option.map_eq_some_iff.mp core
  simp only [reapsSingly, at_, live, Option.all_some, Bool.or_eq_true, Bool.and_eq_true,
    decide_eq_true_eq] at singly
  obtain other | ⟨open_, unasked⟩ := singly
  · exact absurd failed other
  · exact ⟨open_, fun waiting => unasked (mem_requests.mp waiting)⟩

/-- The backend answers just after the server thread has given the connection
up: the client fails, the timer closes it, and the DISCONNECT request closes it
again. -/
def Sample.answeredLate : List Action :=
  Sample.connecting ++ [.clock 1, .server .timedOut, .server .ok, .server .ok, .server .ok,
    .server .ok, .onConnect 0 0, .onTimer, .loop .ok, .loop .ok, .loop .ok, .onAsync, .loop .ok,
    .loop .ok]

theorem closed_twice : ∃ s trace,
    exec (step Sample.host) (.start Sample.host) Sample.answeredLate = some (s, trace) ∧
      closings 0 trace = 2 := by
  obtain ⟨⟨s, trace⟩, ran, twice⟩ := Option.map_eq_some_iff.mp
    (show (exec (step Sample.host) (.start Sample.host) Sample.answeredLate).map
      (fun r => closings 0 r.2) = some 2 by decide +kernel)
  exact ⟨s, trace, ran, twice⟩

/-- The browser asks for the end of the session, and gets it. -/
def Sample.ended : List Action :=
  Sample.connected ++ .accept (Sample.request "GET"
      "c=disconnect&sid=123e4567-e89b-12d3-a456-426614174000") none ::
    List.replicate 6 (.server .ok) ++ [.onAsync, .loop .ok, .loop .ok, .loop .ok, .onDisconnect 0,
      .loop .ok, .loop .ok]

theorem closed_at_most_once_ended : ∃ s trace,
    exec (restrict (step Sample.host) fun s a => reapsSingly s a = true) (.start Sample.host)
      Sample.ended = some (s, trace) ∧ closings 0 trace = 1 := by
  obtain ⟨⟨s, trace⟩, ran, closed⟩ := Option.map_eq_some_iff.mp
    (show (exec (restrict (step Sample.host) fun s a => reapsSingly s a = true) (.start Sample.host)
      Sample.ended).map (fun r => decide (1 ≤ closings 0 r.2)) = some true by decide +kernel)
  exact ⟨s, trace, ran,
    Nat.le_antisymm (closed_at_most_once (run_of_exec ran) 0) (of_decide_eq_true closed)⟩

/-- No pointer to a deleted client is followed, and none is kept where it will
be, in every run that spares the requests. -/
theorem no_stale_client
    (run : Run (step h) (fun s a => sparesRequests s a = true) (.start h) s trace) :
    (∀ r ∈ s.pending, s.storage.Registered r.client) ∧
      (∀ c, s.server.client = some c → s.storage.Registered c) ∧
      ∀ c, .useAfterFree c ∉ trace := by
  have sane := sane_of_run run
  have life (c : Addr) : Life.Spared (s.life c) ∧
      .useAfterFree ∉ trace.filterMap (observeLife c) := by
    refine Life.never_stray (life_of_run ?_ run)
    intro s a b sane spares stands phase
    constructor
    · rintro rfl
      obtain rfl : a = .onDisconnect c := stands
      simp only [sparesRequests, Bool.and_eq_true, List.all_eq_true, decide_eq_true_eq] at spares
      refine ⟨List.eq_nil_iff_forall_not_mem.mpr fun type waiting => ?_, spares.2⟩
      exact spares.1 _ (mem_requests.mp waiting) rfl
    · rintro rfl dying k core
      obtain ⟨o, data, rfl, at_⟩ := stands
      obtain ⟨cl, live, rfl⟩ := Option.map_eq_some_iff.mp core
      obtain ⟨-, shows, last⟩ := phase.present _ core
      have waits : s.loop = .closeLock c := by
        have holds := sane.serverHolds.mpr (by rw [at_]; rfl)
        have excluded := sane.loopHolds
        cases loop : s.loop <;> simp [Sys.life, loop, LoopPc.dying] at dying
        case closeLock d => rw [dying]
        case destroy d => simp [loop, holds, LoopPc.holdsStorage] at excluded
      have refused : cl.writable = false := by simpa [sparesRequests, at_, waits, live] using spares
      rcases shows.closing (last dying).1 with leaving | failed
      · exact leaving
      · simp [Client.writable, show cl.state = .failConnect from failed] at refused
  refine ⟨fun r waiting => ?_, fun c uses => ?_, fun c used => ?_⟩
  · rw [sane.sound.registered_iff]
    by_contra gone
    have owed : r.type ∈ s.requests r.client := mem_requests.mpr waiting
    have nothing : s.requests r.client = [] :=
      (life r.client).1.gone (by simpa [Sys.life, Option.eq_none_iff_forall_ne_some] using gone)
    rw [nothing] at owed
    cases owed
  · exact (sane.sound.registered_iff c).mpr (sane.serverClient c uses)
  · exact (life c).2 (by simpa using used)

/-- The backend hangs up before the loop thread has looked at the message. -/
def Sample.hungUp : List Action :=
  Sample.posted ++ [.onRead 0 none, .onDisconnect 0, .loop .ok, .loop .ok]

/-- The client is deleted with the WRITE request still in the queue, and the
loop thread follows the pointer the request carries. -/
theorem stale_request : (∃ s trace,
      exec (step Sample.host) (.start Sample.host) Sample.hungUp = some (s, trace) ∧
        ⟨.write, 0⟩ ∈ s.pending ∧ ¬ s.storage.Registered 0) ∧
    ∃ s trace, exec (step Sample.host) (.start Sample.host)
        (Sample.hungUp ++ [.onAsync, .loop .ok, .loop .ok]) = some (s, trace) ∧
      .useAfterFree 0 ∈ trace := by
  constructor
  · obtain ⟨⟨s, trace⟩, ran, stale⟩ := Option.map_eq_some_iff.mp
      (show (exec (step Sample.host) (.start Sample.host) Sample.hungUp).map
        (fun r => decide (⟨.write, 0⟩ ∈ r.1.pending ∧ r.1.storage.heap 0 = none)) = some true by
        decide +kernel)
    obtain ⟨waiting, gone⟩ := of_decide_eq_true stale
    refine ⟨s, trace, ran, waiting, ?_⟩
    rw [(sane_of_run (reaches_of_exec ran)).sound.registered_iff]
    rintro ⟨cl, live⟩
    rw [gone] at live
    cases live
  · obtain ⟨⟨s, trace⟩, ran, used⟩ := Option.map_eq_some_iff.mp
      (show (exec (step Sample.host) (.start Sample.host)
        (Sample.hungUp ++ [.onAsync, .loop .ok, .loop .ok])).map
        (fun r => decide (.useAfterFree ∈ r.2.filterMap (observeLife 0))) = some true by
        decide +kernel)
    exact ⟨s, trace, ran, by simpa using of_decide_eq_true used⟩

theorem no_stale_client_posted : ∃ s trace,
    exec (restrict (step Sample.host) fun s a => sparesRequests s a = true) (.start Sample.host)
      Sample.posted = some (s, trace) ∧ s.pending = [⟨.write, 0⟩] ∧ s.storage.Registered 0 := by
  obtain ⟨⟨s, trace⟩, ran, waiting⟩ := Option.map_eq_some_iff.mp
    (show (exec (restrict (step Sample.host) fun s a => sparesRequests s a = true)
      (.start Sample.host) Sample.posted).map (·.1.pending) = some [⟨.write, 0⟩] by decide +kernel)
  have waiting : s.pending = [⟨.write, 0⟩] := waiting
  exact ⟨s, trace, ran, waiting,
    (no_stale_client (run_of_exec ran)).1 ⟨.write, 0⟩ (by simp [waiting])⟩

end
end LinearFcgi
