import LinearFcgi.Teardown

/-! Whether libuv gets the handles it is promised. `Client::_connect` alone
initialises `handle_`, on the request of `Client::connect`; `uv_write` and
`uv_close` take it for granted. When `uv_tcp_init` fails the client is left in
`FAIL_CONNECT`, which is writable and which the timer closes, so the handle that
was never initialised gets to libuv all the same. This is the only way. -/
namespace LinearFcgi

open TraceMachine

namespace Life

/-- `tried` are the outcomes of the calls of `uv_tcp_init` so far, and `n` is how
often the handle was closed. -/
structure Handled (l : Life) (tried : List Bool) (n : Nat) : Prop where
  untried : tried = [] ↔ l.born = false ∨ l.stage = .unasked ∨ .connect ∈ l.requests
  single : tried.length ≤ 1
  handle : ∀ k, l.core = some k → (k.handle = .unset ↔ true ∉ tried ∧ n = 0)
  asked : l.stage = .asked → .connect ∈ l.requests
  unborn : l.born = false → n = 0

variable {l l' : Life} {tried : List Bool} {n : Nat} {b : Action} {out : List Event}

theorem unborn_handled : Handled unborn [] 0 := by
  constructor <;> simp [unborn]

/-- A step that leaves the CONNECT requests alone. -/
theorem Handled.step (phase : Phase l) (handled : Handled l tried n) (t : Transition l b l' out)
    (other : .connect ∈ l.requests → .connect ∈ l'.requests) :
    Handled l' tried (n + out.count .closed) := by
  obtain ⟨untried, single, handle, asked, unborn⟩ := handled
  cases t
  case create stage dying requests =>
    obtain ⟨rfl, rfl, unasked, fresh⟩ := phase.absent rfl
    constructor <;> grind -linarith
  case live | gone | stray => exact ⟨untried, single, handle, asked, unborn⟩
  case drop stage core born dying r rest idle =>
    constructor <;> grind -linarith
  case destroy k born requests =>
    constructor <;> grind -linarith
  all_goals
    obtain ⟨rfl, shows, last⟩ := phase.present _ rfl
    clear phase
    obtain ⟨opening, unset, unasked, first, asked', connecting, requested, connected, closing,
      leaving, single'⟩ := shows
    constructor <;> grind -linarith

/-- While nobody has tried, the connection is about to be opened. -/
theorem Handled.fresh (phase : Phase l) (handled : Handled l [] n) {k : Core}
    (present : l.core = some k) : k.handle = .unset ∧ n = 0 ∧
      (k.state = .disconnected ∨ k.state = .connecting ∨ k.state = .disconnecting) := by
  obtain ⟨born, shows, -⟩ := phase.present k present
  have unset : k.handle = .unset ∧
      (k.state = .disconnected ∨ k.state = .connecting ∨ k.state = .disconnecting) := by
    rcases handled.untried.mp rfl with unborn | unasked | pending
    · rw [born] at unborn
      cases unborn
    · have state := shows.opening.mpr (.inl unasked)
      exact ⟨(shows.unset state).1, .inl state⟩
    · exact ⟨(shows.asked pending).1, (shows.asked pending).2.2⟩
  exact ⟨unset.1, ((handled.handle k present).mp unset.1).2, unset.2⟩

/-- Whatever else is carried out for the connection comes behind the CONNECT
request. -/
theorem Handled.tried_of_request (phase : Phase l) (handled : Handled l tried n) {k : Core}
    (present : l.core = some k) {type : RequestType} {rest : List RequestType}
    (oldest : l.requests = type :: rest) (other : type ≠ .connect) : tried ≠ [] := by
  obtain ⟨born, shows, -⟩ := phase.present k present
  intro untried
  rcases handled.untried.mp untried with unborn | unasked | pending
  · rw [born] at unborn
    cases unborn
  · have none := shows.unasked unasked
    rw [oldest] at none
    cases none
  · have first := shows.first
    rw [oldest] at pending first
    rcases List.mem_cons.mp pending with same | later
    · exact other same.symm
    · exact first later

/-- And so does every `uv_close`. -/
theorem Handled.closes (phase : Phase l) (handled : Handled l tried n) (t : Transition l b l' out)
    (closes : .closed ∈ out) : tried ≠ [] ∧ l.core ≠ none := by
  cases t <;> simp at closes
  case close stage k born dying rest =>
    exact ⟨handled.tried_of_request phase rfl rfl (by simp), by simp⟩
  case hangUp stage k born dying requests open_ state =>
    refine ⟨?_, by simp⟩
    rintro rfl
    have fresh := (handled.fresh phase rfl).2.2
    simp [state] at fresh
  case reap k born dying requests state =>
    refine ⟨?_, by simp⟩
    rintro rfl
    have fresh := (handled.fresh phase rfl).2.2
    have unlocked : k.state ≠ .connecting := by
      intro connecting
      cases (phase.present k rfl).2.1.connecting connecting
    have opened : k.state ≠ .disconnected := by
      intro opening
      rcases (phase.present k rfl).2.1.opening.mp opening with at_ | at_ <;> cases at_
    grind

end Life

/-- The calls of `uv_tcp_init` a step makes, with whether they succeed. -/
def inits (s : Sys) : Action → List (Addr × Bool)
  | .loop o => match s.loop with
    | .dispatch ⟨.connect, c⟩ => [(c, o ≠ .noHandle)]
    | _ => []
  | _ => []

/-- How those for the client at `c` turned out. -/
def tried (c : Addr) (calls : List (Addr × Bool)) : List Bool :=
  calls.filterMap fun x => if x.1 = c then some x.2 else none

section

variable {h : Host} {s s' : Sys} {a : Action} {out trace : List Event} {c : Addr}
  {calls : List (Addr × Bool)}

@[simp] theorem tried_append (calls later : List (Addr × Bool)) :
    tried c (calls ++ later) = tried c calls ++ tried c later := List.filterMap_append

/-- Only `Client::_connect` takes a CONNECT request off. -/
theorem connect_stays (t : Transition h s a s' out) (other : tried c (inits s a) = [])
    (pending : .connect ∈ s.requests c) : .connect ∈ s'.requests c := by
  rw [mem_requests] at pending ⊢
  cases t
  case connect_ o d cl at_ live free =>
    have elsewhere : d ≠ c := by
      rintro rfl
      simp [inits, tried, at_] at other
    simp only [Sys.pending, at_, LoopPc.dispatching, List.singleton_append, List.mem_cons,
      LoopRequest.mk.injEq, true_and] at pending
    simpa [Sys.pending, LoopPc.dispatching, elsewhere.symm] using pending
  all_goals grind

/-- `Client::_connect` runs. -/
theorem connect_runs (sane : Sane s) (phase : Life.Phase (s.life c)) (t : Transition h s a s' out)
    (tries : tried c (inits s a) ≠ []) : ∃ o cl, a = .loop o ∧
      s.storage.heap c = some cl ∧ s.server.stage c ≠ .asked ∧
      s.requests c = .connect :: s'.requests c ∧ out = [] ∧ s'.server = s.server ∧
      tried c (inits s a) = [decide (o ≠ .noHandle)] ∧
      s' = { s with storage := s.storage.set c (cl.connect_ o), loop := .drain } := by
  obtain ⟨o, rfl, at_⟩ : ∃ o, a = .loop o ∧ s.loop = .dispatch ⟨.connect, c⟩ := by
    unfold inits at tries
    split at tries
    · rename_i o
      split at tries
      · rename_i d at_
        have same : d = c := by
          by_contra other
          simp [tried, other] at tries
        exact ⟨o, rfl, same ▸ at_⟩
      · simp [tried] at tries
    · simp [tried] at tries
  cases t
  case connect_ d cl at_' live free =>
    obtain rfl : d = c := by
      rw [at_] at at_'
      cases at_'
      rfl
    refine ⟨o, cl, rfl, live, sane.not_asked live free, ?_, rfl, rfl, ?_, rfl⟩
    · simp [Sys.requests, Sys.pending, at_, LoopPc.dispatching]
    · simp [inits, at_, tried, List.filterMap_cons]
  case loopStray d dead used =>
    rw [at_] at used
    cases used
    have gone : (s.life c).core = none := by simp [Sys.life, dead]
    have pending : .connect ∈ s.requests c := by
      rw [mem_requests]
      simp [Sys.pending, at_, LoopPc.dispatching]
    exact absurd pending (phase.absent gone).2.2.1
  all_goals simp_all

theorem handled_step (sane : Sane s) (phase : Life.Phase (s.life c)) (t : Transition h s a s' out)
    (handled : Life.Handled (s.life c) (tried c calls) (closings c trace)) :
    Life.Handled (s'.life c) (tried c (calls ++ inits s a)) (closings c (trace ++ out)) := by
  rw [tried_append]
  by_cases other : tried c (inits s a) = []
  · have counted : closings c (trace ++ out) =
        closings c trace + (out.filterMap (observeLife c)).count .closed := by
      rw [closings_eq]
      exact List.countP_append
    rw [other, List.append_nil, counted]
    rcases life_step sane phase t with ⟨same, silent⟩ | ⟨b, -, lived⟩
    · rw [same, silent]
      exact handled
    · exact handled.step phase (Life.step_cases lived) (connect_stays t other)
  · obtain ⟨o, cl, rfl, live, unlocked, pending, rfl, server, tries, moved⟩ :=
      connect_runs sane phase t other
    have oldest : .connect ∈ (s.life c).requests := by
      rw [show (s.life c).requests = _ from pending]
      exact List.mem_cons_self
    have untried : tried c calls = [] := handled.untried.mpr (.inr (.inr oldest))
    have present : (s.life c).core = some cl.core := by simp [Sys.life, live]
    rw [untried] at handled ⊢
    obtain ⟨born, shows, -⟩ := phase.present _ present
    obtain ⟨unset, unclosed, -⟩ := handled.fresh phase present
    have done : .connect ∉ s'.requests c := by
      have first := shows.first
      rwa [show (s.life c).requests = _ from pending] at first
    have begun : (s.life c).stage ≠ .unasked := by
      intro unasked
      rw [shows.unasked unasked] at oldest
      cases oldest
    have core' : (s'.life c).core = some (cl.connect_ o).core := by
      rw [moved]
      simp [Sys.life, ClientStorage.set_heap]
    rw [List.append_nil, unclosed, tries, List.nil_append]
    have stage' : (s'.life c).stage = (s.life c).stage := congrArg (ServerPc.stage c) server
    have born' : (s'.life c).born = true := by
      rw [moved]
      exact born
    constructor
    case untried => simp [stage', begun, born', show .connect ∉ (s'.life c).requests from done]
    case single => simp
    case handle =>
      intro k same
      obtain rfl := Option.some.inj (core'.symm.trans same)
      have unset' : cl.handle = .unset := unset
      cases o <;> simp [Client.connect_, Client.core, unset']
    case asked => exact fun asked => absurd (stage'.symm.trans asked) unlocked
    case unborn => exact fun _ => rfl

/-- Wherever the process is, the handles are as the calls have left them, and a
client being written to has had its call. -/
theorem handled_of_run (run : Reaches (record (step h) inits) (.start h, []) (s, calls) trace)
    (c : Addr) : Life.Handled (s.life c) (tried c calls) (closings c trace) ∧
      (s.loop = .write c → tried c calls ≠ []) := by
  refine run.invariant (I := fun x trace =>
    Life.Handled (x.1.life c) (tried c x.2) (closings c trace) ∧
      (x.1.loop = .write c → tried c x.2 ≠ [])) ⟨?_, by simp [Sys.start]⟩ ?_
  · rw [start_life]
    exact Life.unborn_handled
  · rintro ⟨s, calls⟩ trace a ⟨s', calls'⟩ out before ⟨handled, writes⟩ - moved
    obtain ⟨stepped, noted⟩ := record_eq_some.mp moved
    have plain : Reaches (step h) (.start h) s trace := Run.unrecorded (fun _ _ _ => trivial) before
    have sane := sane_of_run plain
    have phase := phase_of_reached plain c
    have t := (step_cases stepped).2
    simp only at noted t handled writes ⊢
    subst noted
    refine ⟨handled_step sane phase t handled, fun at_ => ?_⟩
    suffices tries : tried c calls ≠ [] by simp [tries]
    by_cases already : s.loop = .write c
    · exact writes already
    · -- a WRITE request is carried out
      obtain ⟨cl, rest, live, pending⟩ : ∃ cl rest, s.storage.heap c = some cl ∧
          s.requests c = .write :: rest := by
        cases t
        case write_ o d cl at_' live =>
          obtain rfl : d = c := by simpa using at_
          exact ⟨cl, _, live, by simp [Sys.requests, Sys.pending, at_', LoopPc.dispatching]; rfl⟩
        all_goals simp_all
      exact handled.tried_of_request phase (k := cl.core) (by simp [Sys.life, live]) pending (by simp)

/-- `uv_tcp_init` is called at most once for a client, and first of all; a
connection is only ever established on a handle it initialised. When the
handle is given to `uv_close` or `uv_write`, it is one that was never
initialised exactly if the call failed and the handle was not closed before. -/
theorem handle_protocol (run : Reaches (record (step h) inits) (.start h, []) (s, calls) trace)
    (stepped : step h s a = some (s', out)) (c : Addr) :
    (tried c calls).length ≤ 1 ∧
    (tried c (inits s a) ≠ [] → tried c calls = [] ∧ closings c trace = 0 ∧
      ∃ cl, s.storage.heap c = some cl ∧ cl.handle = .unset) ∧
    (.connected c ∈ out → ∃ cl, s.storage.heap c = some cl ∧ cl.handle = .init) ∧
    (.closed c ∈ out ∨ (∃ sent, .uvWrite c sent ∈ out) →
      ∃ cl, s.storage.heap c = some cl ∧
        (cl.handle = .unset ↔ tried c calls = [false] ∧ closings c trace = 0)) := by
  have plain : Reaches (step h) (.start h) s trace := Run.unrecorded (fun _ _ _ => trivial) run
  have sane := sane_of_run plain
  have phase := phase_of_reached plain c
  have t := (step_cases stepped).2
  obtain ⟨handled, writes⟩ := handled_of_run run c
  refine ⟨handled.single, fun tries => ?_, fun connects => ?_, fun uses => ?_⟩
  · obtain ⟨o, cl, rfl, live, -, pending, -⟩ := connect_runs sane phase t tries
    have untried : tried c calls = [] := by
      refine handled.untried.mpr (.inr (.inr ?_))
      rw [show (s.life c).requests = _ from pending]
      exact List.mem_cons_self
    rw [untried] at handled
    obtain ⟨unset, unclosed, -⟩ := handled.fresh phase (k := cl.core) (by simp [Sys.life, live])
    exact ⟨untried, unclosed, cl, live, unset⟩
  · cases t <;> simp at connects
    case onConnect status cl at_ live requested open_ free established =>
      obtain rfl := connects
      have shows := (phase.present cl.core (by simp [Sys.life, live])).2.1
      exact ⟨cl, live, (shows.requested requested).2.resolve_right open_⟩
  · obtain ⟨tries, cl, live⟩ : tried c calls ≠ [] ∧ ∃ cl, s.storage.heap c = some cl := by
      rcases uses with closes | ⟨sent, writing⟩
      · have observed : .closed ∈ out.filterMap (observeLife c) :=
          List.mem_filterMap.mpr ⟨_, closes, by simp [observeLife]⟩
        rcases life_step sane phase t with ⟨-, silent⟩ | ⟨b, -, lived⟩
        · rw [silent] at observed
          cases observed
        · obtain ⟨tries, there⟩ := handled.closes phase (Life.step_cases lived) observed
          obtain ⟨k, present⟩ := Option.ne_none_iff_exists'.mp there
          obtain ⟨cl, live, -⟩ := Option.map_eq_some_iff.mp present
          exact ⟨tries, cl, live⟩
      · cases t <;> simp at writing
        case writeSome o d data queue cl at_ live oldest decoded =>
          obtain ⟨rfl, -⟩ := writing
          exact ⟨writes at_, cl, live⟩
    have handle : cl.handle = .unset ↔ true ∉ tried c calls ∧ closings c trace = 0 :=
      handled.handle cl.core (by simp [Sys.life, live])
    obtain ⟨ok, once⟩ : ∃ ok, tried c calls = [ok] :=
      List.length_eq_one_iff.mp (Nat.le_antisymm handled.single (List.length_pos_iff.mpr tries))
    refine ⟨cl, live, ?_⟩
    rw [once] at handle ⊢
    cases ok <;> simpa using handle

end

/-- `uv_tcp_init` fails, the browser is told so, and the timer comes round. -/
def Sample.uninitialised : List Action :=
  .accept (request "GET" "c=connect&ch=ch") (some uuid) :: List.replicate 6 (.server .ok) ++
    [.onAsync, .loop .ok, .loop .noHandle, .loop .ok, .server .ok, .server .ok, .onTimer, .loop .ok]

theorem handle_protocol_uninitialised : ∃ s calls trace s' out,
    exec (record (step Sample.host) inits) (.start Sample.host, []) Sample.uninitialised =
      some ((s, calls), trace) ∧
    step Sample.host s (.loop .ok) = some (s', out) ∧ .closed 0 ∈ out ∧
    ∃ cl, s.storage.heap 0 = some cl ∧ cl.handle = .unset := by
  obtain ⟨⟨⟨s, calls⟩, trace⟩, ran, found⟩ := Option.map_eq_some_iff.mp
    (show (exec (record (step Sample.host) inits) (.start Sample.host, [])
      Sample.uninitialised).map (fun r => ((tried 0 r.1.2, closings 0 r.2),
        (step Sample.host r.1.1 (.loop .ok)).map fun r' => r'.2.filterMap (observeLife 0))) =
      some (([false], 0), some [.reaped, .closed]) from rfl)
  obtain ⟨history, events⟩ := Prod.mk.inj found
  obtain ⟨once, unclosed⟩ := Prod.mk.inj history
  obtain ⟨⟨s', out⟩, stepped, observed⟩ := Option.map_eq_some_iff.mp events
  have closes : .closed 0 ∈ out := by
    have seen : Life.Event.closed ∈ out.filterMap (observeLife 0) := by
      rw [show out.filterMap (observeLife 0) = _ from observed]
      simp
    obtain ⟨e, member, is⟩ := List.mem_filterMap.mp seen
    cases e <;> simp [observeLife] at is
    subst is
    exact member
  obtain ⟨-, -, -, used⟩ := handle_protocol (reaches_of_exec ran) stepped 0
  obtain ⟨cl, live, unset⟩ := used (.inl closes)
  exact ⟨s, calls, trace, s', out, ran, stepped, closes, cl, live, unset.mpr ⟨once, unclosed⟩⟩

end LinearFcgi
