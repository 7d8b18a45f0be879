import LinearFcgi.Batches
import LinearFcgi.Origins
import LinearFcgi.Library.Heap

/-! The memory of `Server::onPoll`, which gathers what it reads in a block that
grows from read to read. Here `onPoll` is a program in a memory of its own, where
any request for memory may be refused; the process, which has values in place of
blocks, agrees with it on what is answered. -/
namespace LinearFcgi

open Heap TraceMachine

/-- What a call of `client->read(buf)` comes to: `-1`, or what it consumes. -/
inductive Read where
  | gone
  | empty
  | chunk (bytes : Bytes)
  deriving DecidableEq

/-- `tcp_buffer_t`. -/
structure TcpBuffer where
  data : Option Ptr
  siz : Nat

/-- Where the loop of `onPoll` leads. -/
inductive Gathered where
  /-- nowhere yet: it reads on -/
  | waiting
  | answered (code : Response.Code)
  | gathered (data : Option Ptr) (totalSiz : Nat)

section

variable (grants : Nat → Bool)

/-- `tcp_buffer_t::operator=`, from a buffer that holds these bytes. -/
def TcpBuffer.assign (rhs : Bytes) : Code UInt8 TcpBuffer :=
  if rhs ≠ [] then do
    -- the source does not look at what `malloc` returns
    let data ← malloc grants rhs.length
    store data 0 rhs
    pure ⟨data, rhs.length⟩
  else pure ⟨none, 0⟩

/-- The body of the loop behind a `read` that consumed something: `none` when
the request has been answered with 500. -/
def pollStore (data : Option Ptr) (totalSiz : Nat) (buf : TcpBuffer) :
    Code UInt8 (Option (Option Ptr)) :=
  match data with
  | none => do
    let data ← malloc grants buf.siz
    if data = none then
      free buf.data
      pure none
    else
      memcpy data 0 buf.data buf.siz
      free buf.data
      pure (some data)
  | some p => do
    let tmp ← realloc grants p (totalSiz + buf.siz)
    if tmp = none then
      free (some p)
      free buf.data
      pure none
    else
      memcpy tmp totalSiz buf.data buf.siz
      free buf.data
      pure (some tmp)

/-- The loop of `onPoll`, for what its reads come to. -/
def pollLoop : List Read → Option Ptr → Nat → Code UInt8 Gathered
  | [], _, _ => pure .waiting
  | .gone :: _, _, _ => pure (.answered .gone)
  | .empty :: _, data, totalSiz => pure (.gathered data totalSiz)
  | .chunk bytes :: reads, data, totalSiz => do
    let buf ← TcpBuffer.assign grants bytes
    if buf.siz = 0 then pure (.gathered data totalSiz)
    else match ← pollStore grants data totalSiz buf with
      | none => pure (.answered .internalServerError)
      | some data =>
        if totalSiz + buf.siz < dataThreshold then pollLoop reads data (totalSiz + buf.siz)
        else pure (.gathered data (totalSiz + buf.siz))

/-- `Server::onPoll`, from its loop on: the answer, once there is one. It is given
`mod_websocket_base64_encode`, which is a library's. -/
def onPoll (base64Encode : Option Ptr → Nat → Code UInt8 (Option Ptr)) (callback : Bytes)
    (reads : List Read) : Code UInt8 (Option (Response.Code × Option Bytes)) := do
  match ← pollLoop grants reads none 0 with
  | .waiting => pure none
  | .answered code => pure (some (code, none))
  | .gathered data totalSiz =>
    if totalSiz = 0 then pure (some (.ok, some (pollBody callback [])))
    else
      let b64 ← base64Encode data totalSiz
      free data
      if b64 = none then pure (some (.internalServerError, none))
      else
        let body ← loadUntil (· = 0) b64
        free b64
        pure (some (.ok, some (pollBody callback body)))

/-- What is relied on of `mod_websocket_base64_encode`: it reads its input and
leaves the text with its terminator in a block of its own, or it fails, where
there is no text or no memory, and leaves nothing. -/
def EncodesInMemory (encode : Bytes → Option Bytes)
    (base64Encode : (Nat → Bool) → Option Ptr → Nat → Code UInt8 (Option Ptr)) : Prop :=
  ∀ (grants : Nat → Bool) (m : Memory UInt8) (base : Ptr → Option (List (Option UInt8))) (p : Ptr)
    (bytes : Bytes), Extends base m [(p, bytes.map some)] →
    (base64Encode grants (some p) bytes.length).Does m fun b64 m' =>
      b64 = none ∧ (encode bytes = none ∨ ∃ k, grants k = false) ∧
          Extends base m' [(p, bytes.map some)] ∨
        ∃ q text rest, b64 = some q ∧ encode bytes = some text ∧
          Extends base m' [(p, bytes.map some), (q, (text ++ [0]).map some ++ rest)]

end

section

variable {m : Memory UInt8} {base : Ptr → Option (List (Option UInt8))}
  {l : List (Ptr × List (Option UInt8))} {data : Option Ptr} {p q : Ptr} {bytes chunk : Bytes}

/-- Beside what was there before, memory holds the bytes gathered so far, in the
block at `data`. -/
structure Owns (base : Ptr → Option (List (Option UInt8))) (m : Memory UInt8) (data : Option Ptr)
    (bytes : Bytes) : Prop where
  memory : Extends base m (data.toList.map fun p => (p, bytes.map some))
  empty : data = none ↔ bytes = []

/-- Where `malloc` is refused, the copy goes to a null pointer. -/
theorem assign_cases (grants : Nat → Bool) (extends_ : Extends base m l) (some_ : chunk ≠ []) :
    (TcpBuffer.assign grants chunk).run m = .error .null ∧ (∃ k, grants k = false) ∨
      (TcpBuffer.assign grants chunk).Does m fun buf m' =>
        ∃ q, buf = ⟨some q, chunk.length⟩ ∧ Extends base m' ((q, chunk.map some) :: l) := by
  rw [TcpBuffer.assign, if_pos some_]
  have asked : (malloc grants chunk.length).Does m _ := malloc_does extends_
  obtain ⟨p, m', ran, ⟨rfl, refused, -⟩ | ⟨q, rfl, extends_⟩⟩ := asked
  · refine .inl ⟨?_, refused⟩
    rw [bind_ok ran]
    exact bind_error rfl
  · obtain ⟨u, m'', wrote, extends_⟩ := store_does extends_ (Nat.le_refl chunk.length)
    refine .inr ⟨⟨some q, chunk.length⟩, m'', (bind_ok ran).trans (bind_ok wrote), q, rfl, ?_⟩
    simpa using extends_

/-- The chunk in `buf` is appended to what was gathered, or everything is given back. -/
theorem pollStore_does (grants : Nat → Bool) (extends_ : Extends base m
      ((q, chunk.map some) :: data.toList.map fun p => (p, bytes.map some)))
    (empty : data = none ↔ bytes = []) (some_ : chunk ≠ []) :
    (pollStore grants data bytes.length ⟨some q, chunk.length⟩).Does m fun r m' =>
      r = none ∧ (∃ k, grants k = false) ∧ m'.blocks = base ∨
        ∃ p, r = some (some p) ∧ Owns base m' (some p) (bytes ++ chunk) := by
  cases data with
  | none =>
    obtain rfl := empty.mp rfl
    refine (malloc_does extends_).bind fun p m' done => ?_
    rcases done with ⟨rfl, refused, extends_⟩ | ⟨p, rfl, extends_⟩
    · exact (free_does extends_).bind fun _ m' extends_ =>
        .pure (.inl ⟨rfl, refused, extends_.blocks⟩)
    · refine (memcpy_does [] extends_ List.mem_cons_self).bind fun _ m' extends_ => ?_
      exact (free_does (extends_.perm (.swap ..))).bind fun _ m' extends_ =>
        .pure (.inr ⟨p, rfl, extends_, by simp [some_]⟩)
  | some p =>
    refine (realloc_does (extends_.perm (.swap ..))).bind fun tmp m' done => ?_
    rcases done with ⟨rfl, refused, extends_⟩ | ⟨p', rfl, extends_⟩
    · refine (free_does extends_).bind fun _ m' extends_ => ?_
      exact (free_does extends_).bind fun _ m' extends_ =>
        .pure (.inl ⟨rfl, refused, extends_.blocks⟩)
    · have grown : Extends base m' ((p', bytes.map some ++ List.replicate chunk.length none) ::
          [(q, chunk.map some)]) := by
        simpa [List.take_of_length_le] using extends_
      refine (memcpy_does bytes grown List.mem_cons_self).bind fun _ m' extends_ => ?_
      exact (free_does (extends_.perm (.swap ..))).bind fun _ m' extends_ =>
        .pure (.inr ⟨p', rfl, extends_, by simp [some_]⟩)

end

/-- What the loop has gathered when it ends, memory aside, and whether the session
was gone by then. -/
def gather (bytes : Bytes) : List Read → Option (Bool × Bytes)
  | [] => none
  | .gone :: _ => some (true, bytes)
  | .empty :: _ => some (false, bytes)
  | .chunk chunk :: reads =>
    if chunk = [] then some (false, bytes)
    else if (bytes ++ chunk).length < dataThreshold then gather (bytes ++ chunk) reads
    else some (false, bytes ++ chunk)

section

variable {grants : Nat → Bool} {m : Memory UInt8} {base : Ptr → Option (List (Option UInt8))}
  {data : Option Ptr} {bytes : Bytes} {reads : List Read}

/-- What a run of the loop can come to: all it allocated is in the block at
`data` or given back. -/
inductive Ends (grants : Nat → Bool) (base : Ptr → Option (List (Option UInt8))) :
    Option (Bool × Bytes) → Except Fault (Gathered × Memory UInt8) → Prop where
  | crashed {found : Option (Bool × Bytes)} (refused : ∃ k, grants k = false) :
      Ends grants base found (.error .null)
  | refused {found : Option (Bool × Bytes)} {m' : Memory UInt8} (refused : ∃ k, grants k = false)
      (back : m'.blocks = base) :
      Ends grants base found (.ok (.answered .internalServerError, m'))
  | waiting {m' : Memory UInt8} : Ends grants base none (.ok (.waiting, m'))
  | gone {data : Option Ptr} {bytes : Bytes} {m' : Memory UInt8} (owns : Owns base m' data bytes) :
      Ends grants base (some (true, bytes)) (.ok (.answered .gone, m'))
  | gathered {data : Option Ptr} {bytes : Bytes} {m' : Memory UInt8}
      (owns : Owns base m' data bytes) :
      Ends grants base (some (false, bytes)) (.ok (.gathered data bytes.length, m'))

/-- The loop, from any of its rounds on. -/
theorem pollLoop_ends (owns : Owns base m data bytes) :
    Ends grants base (gather bytes reads) ((pollLoop grants reads data bytes.length).run m) := by
  induction reads generalizing m data bytes with
  | nil => exact .waiting
  | cons read reads ih =>
    cases read with
    | gone => exact .gone owns
    | empty => exact .gathered owns
    | chunk chunk =>
      by_cases none_ : chunk = []
      · subst none_
        have unassigned : (TcpBuffer.assign grants []).run m = .ok (⟨none, 0⟩, m) := rfl
        rw [pollLoop, bind_ok unassigned, if_pos rfl, gather, if_pos rfl]
        exact .gathered owns
      have some_ : chunk.length ≠ 0 := mt List.length_eq_zero_iff.mp none_
      rw [pollLoop, gather, if_neg none_]
      rcases assign_cases grants owns.memory none_ with
        ⟨crashed, refused⟩ | ⟨buf, m₁, assigned, q, rfl, extends_⟩
      · rw [bind_error crashed]
        exact .crashed refused
      rw [bind_ok assigned, if_neg some_]
      obtain ⟨r, m₂, stored, ⟨rfl, refused, back⟩ | ⟨p, rfl, owns'⟩⟩ :=
        pollStore_does grants extends_ owns.empty none_
      · rw [bind_ok stored]
        exact .refused refused back
      rw [bind_ok stored]
      dsimp only
      rw [← List.length_append]
      by_cases short : (bytes ++ chunk).length < dataThreshold
      · rw [if_pos short, if_pos short]
        exact ih owns'
      · rw [if_neg short, if_neg short]
        exact .gathered owns'

end

/-- What a run of `onPoll` can come to. -/
inductive Serves (h : Host) (grants : Nat → Bool) (base : Ptr → Option (List (Option UInt8)))
    (callback : Bytes) : Option (Bool × Bytes) →
      Except Fault (Option (Response.Code × Option Bytes) × Memory UInt8) → Prop where
  | crashed {found : Option (Bool × Bytes)} (refused : ∃ k, grants k = false) :
      Serves h grants base callback found (.error .null)
  | waiting {m' : Memory UInt8} : Serves h grants base callback none (.ok (none, m'))
  | refused {found : Option (Bool × Bytes)} {m' : Memory UInt8} (refused : ∃ k, grants k = false)
      (back : m'.blocks = base) :
      Serves h grants base callback found (.ok (some (.internalServerError, none), m'))
  | gone {m' : Memory UInt8} (back : m'.blocks = base) :
      Serves h grants base callback (some (true, [])) (.ok (some (.gone, none), m'))
  /-- `data` is not freed -/
  | leaked {bytes : Bytes} {m' : Memory UInt8} {p : Ptr} (some_ : bytes ≠ []) (new : base p = none)
      (left : m'.blocks = Function.update base p (some (bytes.map some))) :
      Serves h grants base callback (some (true, bytes)) (.ok (some (.gone, none), m'))
  | unencodable {bytes : Bytes} {m' : Memory UInt8} (failed : encodeBody h bytes .ok = none)
      (back : m'.blocks = base) :
      Serves h grants base callback (some (false, bytes))
        (.ok (some (.internalServerError, none), m'))
  | answered {bytes body : Bytes} {m' : Memory UInt8} (encoded : encodeBody h bytes .ok = some body)
      (back : m'.blocks = base) :
      Serves h grants base callback (some (false, bytes))
        (.ok (some (.ok, some (pollBody callback body)), m'))

section

variable {h : Host} {grants : Nat → Bool} {m : Memory UInt8}
  {base : Ptr → Option (List (Option UInt8))} {bytes callback : Bytes} {reads : List Read}
  {base64Encode : (Nat → Bool) → Option Ptr → Nat → Code UInt8 (Option Ptr)}

/-- Behind the loop, what was gathered is encoded and everything given back. -/
theorem encode_serves (codec : EncodesInMemory h.encode base64Encode) {p : Ptr}
    (owns : Owns base m (some p) bytes) :
    Serves h grants base callback (some (false, bytes)) ((do
      let b64 ← base64Encode grants (some p) bytes.length
      Heap.free (some p)
      if b64 = none then pure (some (.internalServerError, none))
      else
        let body ← loadUntil (· = 0) b64
        Heap.free b64
        pure (some (Response.Code.ok, some (pollBody callback body))) :
      Code UInt8 (Option (Response.Code × Option Bytes))).run m) := by
  have some_ : bytes ≠ [] := mt owns.empty.mpr (by simp)
  obtain ⟨b64, m₁, coded, ⟨rfl, failed, extends_⟩ | ⟨q, text, rest, rfl, encoded, extends_⟩⟩ :=
    codec grants m base p bytes owns.memory
  · obtain ⟨_, m₂, freed, extends_⟩ := free_does extends_
    rw [bind_ok coded, bind_ok freed, if_pos rfl]
    rcases failed with failed | refused
    · exact .unencodable (by simp [encodeBody, some_, failed]) extends_.blocks
    · exact .refused refused extends_.blocks
  · obtain ⟨_, m₂, freed, extends_⟩ := free_does extends_
    -- the string ends at its first NUL, wherever that is
    obtain ⟨junk, split⟩ := cString_split text
    have body : (q, (cString text).map some ++ some 0 :: (junk.map some ++ rest)) ∈
        [(q, (text ++ [0]).map some ++ rest)] := by simp [split]
    have reads : (loadUntil (· = 0) (some q)).Does m₂ fun body m' => body = cString text ∧ m' = m₂ :=
      loadUntil_does extends_ body (fun b inside => by simpa using ne_zero_of_cString inside)
        (by simp)
    obtain ⟨_, _, read, rfl, rfl⟩ := reads
    obtain ⟨_, m₃, freed', extends_⟩ := free_does extends_
    rw [bind_ok coded, bind_ok freed, if_neg (by simp), bind_ok read, bind_ok freed']
    exact .answered (by simp [encodeBody, some_, encoded]) extends_.blocks

/-- `onPoll` reads and writes only what it allocated, and gives all of it back but
for one case: what was gathered when the session is found gone. It crashes only
where a `malloc` that nobody looks at was refused. -/
theorem onPoll_serves (codec : EncodesInMemory h.encode base64Encode) (grants : Nat → Bool)
    (callback : Bytes) (reads : List Read) (sound : m.Sound) :
    Serves h grants m.blocks callback (gather [] reads)
      ((onPoll grants (base64Encode grants) callback reads).run m) := by
  have owns : Owns m.blocks m none [] := ⟨.nil sound, by simp⟩
  have ends : Ends grants m.blocks (gather [] reads)
      ((pollLoop grants reads none ([] : Bytes).length).run m) := pollLoop_ends owns
  rw [onPoll]
  generalize ran : (pollLoop grants reads none [].length).run m = result at ends
  generalize found : gather [] reads = found at ends
  replace ran : (pollLoop grants reads none 0).run m = result := ran
  cases ends with
  | crashed refused =>
    rw [bind_error ran]
    exact .crashed refused
  | refused refused back =>
    rw [bind_ok ran]
    exact .refused refused back
  | waiting =>
    rw [bind_ok ran]
    exact .waiting
  | @gone data bytes m' owns' =>
    rw [bind_ok ran]
    cases data with
    | none =>
      obtain rfl := owns'.empty.mp rfl
      exact .gone owns'.memory.blocks
    | some p =>
      obtain ⟨new, left⟩ := owns'.memory.single
      exact .leaked (mt owns'.empty.mpr (by simp)) new left
  | @gathered data bytes m' owns' =>
    rw [bind_ok ran]
    dsimp only
    cases data with
    | none =>
      obtain rfl := owns'.empty.mp rfl
      rw [if_pos List.length_nil]
      exact .answered rfl owns'.memory.blocks
    | some p =>
      have some_ : bytes.length ≠ 0 :=
        mt List.length_eq_zero_iff.mp (mt owns'.empty.mpr (by simp))
      rw [if_neg some_]
      exact encode_serves codec owns'

/-- Nothing `onPoll` does is undefined unless memory is refused. -/
theorem onPoll_safe (codec : EncodesInMemory h.encode base64Encode) (sound : m.Sound)
    {fault : Fault}
    (faulted : (onPoll grants (base64Encode grants) callback reads).run m = .error fault) :
    fault = .null ∧ ∃ k, grants k = false := by
  have serves := onPoll_serves codec grants callback reads sound
  rw [faulted] at serves
  generalize gather [] reads = found at serves
  cases serves with
  | crashed refused => exact ⟨rfl, refused⟩

end

/-! ## In the process -/

/-- What the reads of the poll in exchange `n` came to. -/
def reads (n : Nat) (trace : List Event) : List Read :=
  trace.filterMap fun
    | .taken k _ chunk => if k = n then some (.chunk chunk) else none
    | .empty k _ => if k = n then some .empty else none
    | .gone k _ => if k = n then some .gone else none
    | _ => none

/-- The session was found gone when something had been taken from it. -/
def Deserted (code : Response.Code) (n : Nat) (trace : List Event) : Prop :=
  code = .gone ∧ ∃ c chunk, .taken n c chunk ∈ trace

/-- The reads so far have led the loop to where the server thread stands. -/
def Found (s : Sys) (trace : List Event) : Prop :=
  match s.server with
  | .accept => True
  | .pollTest _ data | .pollTouch _ data | .pollConsume _ data =>
    ∀ more, gather [] (reads s.exchange trace ++ more) = gather data more
  | .pollStore _ data chunk => ∀ more, gather [] (reads s.exchange trace ++ more) =
      if (data ++ chunk).length < dataThreshold then gather (data ++ chunk) more
      else some (false, data ++ chunk)
  | .pollEncode _ data => gather [] (reads s.exchange trace) = some (false, data)
  | _ => reads s.exchange trace = []

/-- This is how the handler answers when its reads come to these. -/
def Tells (h : Host) (callback : Bytes) (reads : List Read) (code : Response.Code)
    (body : Option Bytes) : Prop :=
  code = .gone ∧ body = none ∧ (∃ front data, reads = front ++ [.gone] ∧
      ∀ more, gather [] (front ++ more) = gather data more) ∨
    ∃ data, gather [] reads = some (false, data) ∧
      (code = .internalServerError ∧ body = none ∧ encodeBody h data .ok = none ∨
        ∃ text, encodeBody h data .ok = some text ∧ code = .ok ∧
          body = some (pollBody callback text))

section

variable {h : Host} {s s' : Sys} {a : Action} {out trace : List Event} {n : Nat}
  {code : Response.Code} {body : Option Bytes}

@[simp] theorem reads_append (n : Nat) (trace out : List Event) :
    reads n (trace ++ out) = reads n trace ++ reads n out := List.filterMap_append

@[simp] theorem reads_nil (n : Nat) : reads n [] = [] := rfl

/-- Reads are those of the exchange going on. -/
theorem reads_step (t : Transition h s a s' out) (other : n ≠ s.exchange ∨ s.server = .accept) :
    reads n out = [] := by
  cases t
  case destroy o d cl at_ live => cases (s.storage.destroy cl.id).2 <;> simp [reads]
  all_goals
    simp only [reads, List.filterMap_cons, List.filterMap_nil]
    try grind

theorem encodeBody_ok {o : Outcome} {data : Bytes} (room : o ≠ .noMemory) :
    encodeBody h data o = encodeBody h data .ok := by
  simp [encodeBody, room]

theorem Found.same (found : Found s trace) (server : s'.server = s.server)
    (exchange : s'.exchange = s.exchange) (silent : reads s.exchange out = []) :
    Found s' (trace ++ out) := by
  rw [Found, server, exchange, reads_append, silent, List.append_nil]
  exact found

theorem found_step (found : Found s trace) (later : ∀ n, s.exchange < n → reads n trace = [])
    (t : Transition h s a s' out) : Found s' (trace ++ out) := by
  cases t
  case pollLive o c data cl at_ live free readable =>
    simpa [Found, at_, reads] using found
  case pollTouch o c data cl at_ live => simpa [Found, at_] using found
  case pollEmpty o c data cl at_ live drained =>
    rw [Found, at_] at found
    simpa [Found, reads, gather] using found [.empty]
  case pollBlank o c data queue cl at_ live oldest =>
    rw [Found, at_] at found
    simpa [Found, reads, gather] using found [.chunk []]
  case pollTake o c data chunk queue cl at_ live oldest nonempty copied =>
    rw [Found, at_] at found
    intro more
    simpa [reads, gather, nonempty] using found (.chunk chunk :: more)
  case pollMore o c data chunk at_ room short =>
    rw [Found, at_] at found
    intro more
    have now := found more
    rw [if_pos short] at now
    simpa using now
  case pollEnough o c data chunk at_ room enough =>
    rw [Found, at_] at found
    have now := found []
    rw [if_neg (Nat.not_lt.mpr enough)] at now
    simpa [Found] using now
  case proceed req uuid id handler at_ routed =>
    simpa [Found, reads] using later _ (Nat.lt_succ_self _)
  case enter o handler c next allowed at_ found_ enters =>
    rw [Found, at_] at found
    cases enters <;> simp_all [Found]
  case skip o handler next at_ skips =>
    rw [Found, at_] at found
    cases skips <;> simp_all [Found]
  case disconnectIdle o caller c cl at_ live free idle =>
    rw [Found, at_] at found
    cases caller <;> simp_all [Found, Caller.resume]
  case disconnectSend o caller c at_ =>
    rw [Found, at_] at found
    cases caller <;> simp_all [Found, Caller.resume]
  case destroy o d cl at_ live =>
    refine found.same rfl rfl ?_
    cases (s.storage.destroy cl.id).2 <;> simp [reads]
  all_goals
    first
    | exact trivial
    | exact found.same rfl rfl rfl
    | simpa [Found, ‹s.server = _›, reads] using found

theorem answer_step (found : Found s trace) (later : ∀ n, s.exchange < n → reads n trace = [])
    (room : a.allocates = true) (t : Transition h s a s' out)
    (answers : .response n code body ∈ out) (polled : reads n (trace ++ out) ≠ []) :
    n = s.exchange ∧ s.server ≠ .accept ∧
      Tells h s.request.getQueries.getCallback (reads n (trace ++ out)) code body := by
  cases t <;> simp at answers
  case refuse req uuid code' at_ routed =>
    obtain ⟨rfl, -⟩ := answers
    rw [reads_append, later _ (Nat.lt_succ_self _)] at polled
    exact absurd rfl polled
  case pollGone o c data cl at_ live free unreadable =>
    obtain ⟨rfl, rfl, rfl⟩ := answers
    rw [Found, at_] at found
    exact ⟨rfl, by simp [at_],
      .inl ⟨rfl, rfl, reads s.exchange trace, data, by simp [reads], found⟩⟩
  case pollNoMemory c data chunk at_ => simp [Action.allocates] at room
  case pollFail o c data at_ failed =>
    obtain ⟨rfl, rfl, rfl⟩ := answers
    rw [Found, at_] at found
    rw [encodeBody_ok (by simpa [Action.allocates] using room)] at failed
    exact ⟨rfl, by simp [at_], .inr ⟨data, by simpa [reads] using found, .inl ⟨rfl, rfl, failed⟩⟩⟩
  case pollAnswer o c data text at_ encoded =>
    obtain ⟨rfl, rfl, rfl⟩ := answers
    rw [Found, at_] at found
    rw [encodeBody_ok (by simpa [Action.allocates] using room)] at encoded
    exact ⟨rfl, by simp [at_],
      .inr ⟨data, by simpa [reads] using found, .inr ⟨text, encoded, rfl, rfl⟩⟩⟩
  all_goals
    obtain ⟨rfl, -⟩ := answers
    rw [Found, ‹s.server = _›] at found
    have unread : reads s.exchange trace = [] := found
    rw [reads_append, unread] at polled
    exact absurd rfl polled

/-- The polls so far, and the one going on. -/
structure PollsTold (h : Host) (s : Sys) (trace : List Event) : Prop where
  found : Found s trace
  later : ∀ n, s.exchange < n → reads n trace = []
  closed : ∀ n code body, .response n code body ∈ trace →
    n < s.exchange ∨ n = s.exchange ∧ s.server = .accept
  told : ∀ n code body, .response n code body ∈ trace → reads n trace ≠ [] →
    ∃ req, .accepted n req ∈ trace ∧
      Tells h req.getQueries.getCallback (reads n trace) code body

theorem pollsTold_of_run (run : Run (step h) (fun _ a => a.allocates = true) (.start h) s trace) :
    PollsTold h s trace := by
  refine run.invariant (I := PollsTold h) ⟨by simp [Found, Sys.start], by simp, by simp, by simp⟩ ?_
  intro s trace a s' out before held room stepped
  have t := (step_cases stepped).2
  obtain ⟨found, later, closed, told⟩ := held
  have grown := t.counts.1
  have silent (n : Nat) (beyond : s'.exchange < n) : reads n out = [] :=
    reads_step t (.inl (Nat.ne_of_gt (Nat.lt_of_le_of_lt grown beyond)))
  have closes (n : Nat) (code : Response.Code) (body : Option Bytes)
      (answers : .response n code body ∈ out) : n = s'.exchange ∧ s'.server = .accept := by
    cases t <;> simp at answers <;> simp [answers]
  refine ⟨found_step found later t, fun n beyond => ?_, fun n code body answered => ?_,
    fun n code body answered polled => ?_⟩
  · rw [reads_append, later n (Nat.lt_of_le_of_lt grown beyond), silent n beyond, List.nil_append]
  · rcases List.mem_append.mp answered with earlier | now
    · rcases closed n code body earlier with past | ⟨rfl, idle⟩
      · exact .inl (Nat.lt_of_lt_of_le past grown)
      · by_cases waits : s'.server = .accept
        · exact (Nat.lt_or_eq_of_le grown).imp_right fun same => ⟨same, waits⟩
        · obtain ⟨req, uuid, id, handler, -, -, rfl⟩ := t.begins idle waits
          exact .inl (Nat.lt_succ_self _)
    · exact .inr (closes n code body now)
  · rcases List.mem_append.mp answered with earlier | now
    · have unread : reads n out = [] := by
        refine reads_step t ?_
        rcases closed n code body earlier with past | ⟨-, idle⟩
        · exact .inl (Nat.ne_of_lt past)
        · exact .inr idle
      rw [reads_append, unread, List.append_nil] at polled ⊢
      obtain ⟨req, accepted, tells⟩ := told n code body earlier polled
      exact ⟨req, List.mem_append_left _ accepted, tells⟩
    · obtain ⟨rfl, busy, tells⟩ := answer_step found later room t now polled
      obtain ⟨past, during, split, -⟩ := handling_of_run before busy
      exact ⟨s.request, by simp [split], tells⟩

/-- Reads that leave the loop going have each consumed something. -/
theorem chunks_of_gather {front : List Read} {bytes data : Bytes}
    (goes : ∀ more, gather bytes (front ++ more) = gather data more) :
    ∃ chunks : List Bytes, front = chunks.map .chunk ∧ (∀ chunk ∈ chunks, chunk ≠ []) ∧
      data = bytes ++ chunks.flatten := by
  induction front generalizing bytes with
  | nil =>
    have same := goes [.gone]
    simp only [List.nil_append, gather, Option.some.injEq, Prod.mk.injEq, true_and] at same
    exact ⟨[], rfl, by simp, by simp [same]⟩
  | cons read front ih =>
    have on := goes []
    cases read with
    | gone => simp [gather] at on
    | empty => simp [gather] at on
    | chunk chunk =>
      by_cases none_ : chunk = []
      · simp [gather, none_] at on
      · by_cases short : (bytes ++ chunk).length < dataThreshold
        · have later (more : List Read) :
              gather (bytes ++ chunk) (front ++ more) = gather data more := by
            have next := goes more
            rwa [List.cons_append, gather, if_neg none_, if_pos short] at next
          obtain ⟨chunks, rfl, nonempty, rfl⟩ := ih later
          exact ⟨chunk :: chunks, rfl, by simpa [none_] using nonempty, by simp⟩
        · simp only [List.append_nil, gather, if_neg none_, if_neg short, reduceCtorEq] at on

theorem taken_of_chunk {chunk : Bytes} :
    .chunk chunk ∈ reads n trace ↔ ∃ c, .taken n c chunk ∈ trace := by
  simp only [reads, List.mem_filterMap]
  constructor
  · rintro ⟨e, member, is⟩
    cases e <;> simp at is
    obtain ⟨rfl, rfl⟩ := is
    exact ⟨_, member⟩
  · rintro ⟨c, member⟩
    exact ⟨_, member, by simp⟩

/-- Whatever else is in memory, `onPoll` answers a poll as the process does while
every request for memory is granted, and nothing it does is undefined unless one
is refused. All memory is given back but when the session is found gone after
something was taken from it: then everything taken stays behind in one block. -/
theorem poll_leaks
    {base64Encode : (Nat → Bool) → Option Ptr → Nat → Code UInt8 (Option Ptr)}
    (codec : EncodesInMemory h.encode base64Encode)
    (run : Run (step h) (fun _ a => a.allocates = true) (.start h) s trace)
    (answered : .response n code body ∈ trace) (polled : reads n trace ≠ [])
    {m : Memory UInt8} (sound : m.Sound) :
    ∃ req m', .accepted n req ∈ trace ∧
      (onPoll (fun _ => true) (base64Encode fun _ => true) req.getQueries.getCallback
        (reads n trace)).run m = .ok (some (code, body), m') ∧
      (∀ grants fault, (onPoll grants (base64Encode grants) req.getQueries.getCallback
        (reads n trace)).run m = .error fault → fault = .null ∧ ∃ k, grants k = false) ∧
      (¬ Deserted code n trace → m'.blocks = m.blocks) ∧
      (Deserted code n trace → ∃ (p : Ptr) (chunks : List Bytes), m.blocks p = none ∧
        chunks ≠ [] ∧ (∀ chunk ∈ chunks, chunk ≠ []) ∧
        reads n trace = chunks.map .chunk ++ [.gone] ∧
        m'.blocks = Function.update m.blocks p (some (chunks.flatten.map some))) := by
  obtain ⟨req, accepted, tells⟩ := (pollsTold_of_run run).told n code body answered polled
  have serves := onPoll_serves codec (fun _ => true) req.getQueries.getCallback (reads n trace) sound
  generalize ran : (onPoll (fun _ => true) (base64Encode fun _ => true) req.getQueries.getCallback
    (reads n trace)).run m = result at serves
  have granted : ¬ ∃ k : Nat, (fun _ => true) k = false := by simp
  rcases tells with ⟨rfl, rfl, front, data, split, goes⟩ | ⟨data, gathered, encoded⟩
  · obtain ⟨chunks, rfl, nonempty, rfl⟩ := chunks_of_gather goes
    have deserted : Deserted .gone n trace ↔ chunks ≠ [] := by
      simp only [Deserted, true_and]
      rw [exists_comm]
      simp only [← taken_of_chunk, split]
      cases chunks <;> simp
    rw [split, goes [.gone], gather, List.nil_append] at serves
    generalize gathered : chunks.flatten = bytes at serves
    cases serves with
    | crashed refused => exact absurd refused granted
    | refused refused back => exact absurd refused granted
    | gone back =>
      have untouched : chunks = [] := by
        cases chunks with
        | nil => rfl
        | cons chunk _ =>
          rw [List.flatten_cons] at gathered
          exact absurd (List.append_eq_nil_iff.mp gathered).1 (nonempty chunk (by simp))
      exact ⟨req, _, accepted, ran, fun _ _ => onPoll_safe codec sound, fun _ => back,
        fun left => absurd untouched (deserted.mp left)⟩
    | @leaked bytes m' p some_ new left =>
      have some_' : chunks ≠ [] := by
        rintro rfl
        exact some_ gathered.symm
      exact ⟨req, _, accepted, ran, fun _ _ => onPoll_safe codec sound,
        fun no => absurd (deserted.mpr some_') no,
        fun _ => ⟨p, chunks, new, some_', nonempty, split, by rw [left, gathered]⟩⟩
  · rw [gathered] at serves
    cases serves with
    | crashed refused => exact absurd refused granted
    | refused refused back => exact absurd refused granted
    | unencodable failed back =>
      rcases encoded with ⟨rfl, rfl, -⟩ | ⟨text, coded, -⟩
      · exact ⟨req, _, accepted, ran, fun _ _ => onPoll_safe codec sound, fun _ => back,
          fun left => absurd left.1 (by simp)⟩
      · simp [failed] at coded
    | answered coded back =>
      rcases encoded with ⟨-, -, failed⟩ | ⟨text, same, rfl, rfl⟩
      · simp [failed] at coded
      · cases Option.some_inj.mp (coded.symm.trans same)
        exact ⟨req, _, accepted, ran, fun _ _ => onPoll_safe codec sound, fun _ => back,
          fun left => absurd left.1 (by simp)⟩

end

/-- An encoder that asks for the memory of the text and its terminator. -/
def Sample.base64Encode (encode : Bytes → Option Bytes) (grants : Nat → Bool) (data : Option Ptr)
    (totalSiz : Nat) : Code UInt8 (Option Ptr) := do
  let bytes ← load data totalSiz
  match encode bytes with
  | none => pure none
  | some text =>
    let b64 ← malloc grants (text.length + 1)
    if b64 = none then pure none
    else
      store b64 0 (text ++ [0])
      pure b64

theorem Sample.encodesInMemory (encode : Bytes → Option Bytes) :
    EncodesInMemory encode (Sample.base64Encode encode) := by
  intro grants m base p bytes extends_
  refine (load_does extends_ bytes [] (by simp)).bind ?_
  rintro bytes _ ⟨rfl, rfl⟩
  cases coded : encode bytes with
  | none => exact .pure (.inl ⟨rfl, .inl rfl, extends_⟩)
  | some text =>
    refine (malloc_does extends_).bind fun b64 m' done => ?_
    rcases done with ⟨rfl, refused, extends_⟩ | ⟨q, rfl, extends_⟩
    · exact .pure (.inl ⟨rfl, .inr refused, extends_⟩)
    · refine (store_does extends_ (by simp)).bind fun _ m' extends_ => .pure (.inr ?_)
      exact ⟨q, text, [], rfl, rfl, Extends.perm (by simpa using extends_) (.swap ..)⟩

/-- The backend hangs up in the middle of a poll. -/
def Sample.deserted : List Action :=
  Sample.polling ++ List.replicate 4 (.server .ok) ++ [.onRead 0 none, .server .ok]

/-- What it had sent before is left behind. -/
theorem poll_leaks_deserted : ∃ s trace m' p,
    exec (restrict (step Sample.host) fun _ a => a.allocates = true) (.start Sample.host)
      Sample.deserted = some (s, trace) ∧
    (onPoll (fun _ => true) (Sample.base64Encode Sample.host.encode fun _ => true) []
      (reads 2 trace)).run ⟨fun _ => none, 0, 0⟩ = .ok (some (.gone, none), m') ∧
    m'.blocks p = some ((ascii "he").map some) := by
  have ran : exec (restrict (step Sample.host) fun _ a => a.allocates = true) (.start Sample.host)
      Sample.deserted = some (_, [.accepted 1 _, .created 1 0 Sample.uuid, .requested 1 _,
        .dispatched _, .connected 0, .response 1 .ok _, .received 0 (ascii "he"),
        .received 0 (ascii "llo"), .accepted 2 Sample.poll, .live 2 0, .taken 2 0 (ascii "he"),
        .hungUp 0, .closed 0, .gone 2 0, .response 2 .gone none]) := rfl
  have empty : (⟨fun _ => none, 0, 0⟩ : Memory UInt8).Sound := fun _ _ => rfl
  obtain ⟨req, m', accepted, answers, -, -, left⟩ := poll_leaks (Sample.encodesInMemory _)
    (run_of_exec ran)
    (show Event.response 2 .gone none ∈ _ by simp) (by decide) empty
  obtain rfl : req = Sample.poll := by simpa using accepted
  obtain ⟨p, chunks, -, -, -, split, leak⟩ := left ⟨rfl, 0, ascii "he", by simp⟩
  obtain rfl : [ascii "he"] = chunks := by
    have same : [Read.chunk (ascii "he")] ++ [.gone] = chunks.map .chunk ++ [.gone] := split
    obtain ⟨chunk, rfl, is⟩ := List.map_eq_singleton_iff.mp (List.append_cancel_right same).symm
    cases is
    rfl
  exact ⟨_, _, m', p, ran, answers, by simp [leak]⟩

end LinearFcgi
