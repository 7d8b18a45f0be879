import LinearFcgi.Library.Base64
import LinearFcgi.Library.TraceMachine
import LinearFcgi.Backend
import LinearFcgi.ClientStorage
import LinearFcgi.Request
import LinearFcgi.Response

/-! `linear_fcgi_server` and `linear_fcgi_loop`: the two threads and what they
share. The server thread handles one request after the other; the loop thread
runs the callbacks libuv calls. Each step of a thread is one section under a
mutex, one operation on a queue, or one call of a library. -/
namespace LinearFcgi

open TraceMachine

/-- What the process is given: its configuration, and the base64 codec and the
pattern matcher of other libraries. -/
structure Host where
  config : Option Config
  accepts : Bytes → Bytes → Bool
  maxClients : Nat
  timeout : Int
  encode : Bytes → Option Bytes
  decode : Bytes → Option Bytes

inductive RequestType where
  | undefined
  | connect
  | disconnect
  | write
  deriving DecidableEq

/-- `request_t`. -/
structure LoopRequest where
  type : RequestType
  client : Addr
  deriving DecidableEq

inductive Thread where
  | server
  | loop
  deriving DecidableEq

/-- The handlers of `Server`, as they take the storage lock; connecting to a
backend and asking after an existing session are the two halves of `onConnect`. -/
inductive Handler where
  | connect (backend : Backend)
  | attach
  | disconnect
  | poll
  | post
  deriving DecidableEq

/-- Who called `Client::disconnect`. -/
inductive Caller where
  | connect
  | handler
  deriving DecidableEq

/-- Where the server thread stands. -/
inductive ServerPc where
  /-- in `FCGI_Accept` -/
  | accept
  /-- about to lock the storage -/
  | lock (handler : Handler)
  /-- the storage is locked -/
  | locked (handler : Handler)
  /-- about to call `client->connect(backend->host, backend->port)` -/
  | connectBegin (c : Addr) (backend : Backend)
  | connectEnqueue (c : Addr)
  | connectSend (c : Addr)
  | connectPublish (c : Addr)
  /-- in `pthread_cond_timedwait` -/
  | connectWait (c : Addr) (deadline : Int)
  /-- `client->connect` has returned -/
  | connectReturn (c : Addr) (f : Bool)
  /-- about to call `client->disconnect()` -/
  | disconnectBegin (caller : Caller) (c : Addr)
  | disconnectEnqueue (caller : Caller) (c : Addr)
  | disconnectSend (caller : Caller) (c : Addr)
  /-- `onDisconnect` is about to unlock the storage -/
  | disconnectReturn
  /-- about to call `client->read(buf)`, with `data` gathered so far -/
  | pollTest (c : Addr) (data : Bytes)
  | pollTouch (c : Addr) (data : Bytes)
  | pollConsume (c : Addr) (data : Bytes)
  | pollStore (c : Addr) (data chunk : Bytes)
  /-- the storage is unlocked -/
  | pollEncode (c : Addr) (data : Bytes)
  /-- about to call `client->write(data)` -/
  | writeTest (c : Addr) (data : Bytes)
  | writeProduce (c : Addr) (data : Bytes)
  | writeEnqueue (c : Addr)
  | writeSend (c : Addr)
  /-- `onPost` is about to unlock the storage -/
  | postReturn
  deriving DecidableEq

/-- Where `Client::disconnect` returns to. -/
def Caller.resume (c : Addr) : Caller → ServerPc
  | .connect => .connectReturn c false
  | .handler => .disconnectReturn

/-- Where the loop thread stands. -/
inductive LoopPc where
  /-- in `uv_run`, between callbacks -/
  | idle
  /-- in the `while` of `onAsync` -/
  | drain
  | dispatch (r : LoopRequest)
  /-- in the `while` of `Client::_write` -/
  | write (c : Addr)
  /-- in `Client::onConnect`, behind its locked section -/
  | connectTail (c : Addr)
  /-- in `Client::onRead`, behind its locked section -/
  | readTail (c : Addr) (chunk : Bytes)
  /-- in `Loop::onTimer`, about to lock the storage -/
  | timerLock
  /-- in `ClientStorage::onTimer`, with these clients to visit -/
  | timerScan (clients : List Addr)
  /-- in `Loop::onDisconnect`, about to lock the storage -/
  | closeLock (c : Addr)
  | destroy (c : Addr)
  deriving DecidableEq

/-- Both threads and what they share. `exchange` counts the requests accepted,
`uuid` is the local variable of `onConnect`. `fault` records that libuv aborted
or that a null pointer or one to a deleted client was followed: nothing happens
after it. -/
structure Sys where
  storage : ClientStorage
  storageLock : Option Thread
  requestQueue : List LoopRequest
  asyncPending : Bool
  clock : Int
  server : ServerPc
  request : Request
  uuid : Bytes
  exchange : Nat
  loop : LoopPc
  fault : Bool

/-- What happens when `step` is taken, for the properties to speak of. A number
`n` is the exchange during which the server thread did it. -/
inductive Event where
  | accepted (n : Nat) (req : Request)
  | created (n : Nat) (c : Addr) (id : Bytes)
  /-- `Loop::execute` enqueued the request -/
  | requested (n : Nat) (r : LoopRequest)
  | dispatched (r : LoopRequest)
  /-- `onConnect` found a connection established -/
  | connected (c : Addr)
  /-- `Client::disconnect` passed its test -/
  | disconnecting (n : Nat) (c : Addr)
  /-- `onRead` was told that the backend closed the connection -/
  | hungUp (c : Addr)
  /-- `Client::onTimer` found the client expired -/
  | reaped (c : Addr)
  /-- `Client::_disconnect` ran -/
  | closed (c : Addr)
  | destroyed (c : Addr)
  /-- `onRead` enqueued the chunk -/
  | received (c : Addr) (chunk : Bytes)
  /-- `Client::read` passed its test -/
  | live (n : Nat) (c : Addr)
  /-- `Client::read` returned `-1` -/
  | gone (n : Nat) (c : Addr)
  /-- `Client::read` consumed the chunk -/
  | taken (n : Nat) (c : Addr) (chunk : Bytes)
  /-- `Client::read` found the queue empty -/
  | empty (n : Nat) (c : Addr)
  /-- the base64 text a successful poll answers with -/
  | polled (n : Nat) (c : Addr) (body : Bytes)
  /-- `Client::write` enqueued the data -/
  | written (n : Nat) (c : Addr) (data : Bytes)
  /-- `Client::_write` consumed the data -/
  | unqueued (c : Addr) (data : Bytes)
  | uvWrite (c : Addr) (payload : Bytes)
  | response (n : Nat) (code : Response.Code) (body : Option Bytes)
  | useAfterFree (c : Addr)

/-- What can happen next. -/
inductive Action where
  /-- `FCGI_Accept` and `Request::create` return; `uuid` is what `uuid_generate`
  would give -/
  | accept (req : Request) (uuid : Option Bytes)
  /-- the server thread takes its next step -/
  | server (o : Outcome)
  /-- the loop thread takes its next step inside a callback -/
  | loop (o : Outcome)
  | onAsync
  | onConnect (c : Addr) (status : Int)
  /-- the bytes read, or `none` for a negative size -/
  | onRead (c : Addr) (data : Option Bytes)
  | onTimer
  | onDisconnect (c : Addr)
  /-- `time(NULL)` has moved to this -/
  | clock (now : Int)

/-- The body that echoes a session id, as JSON or as a call of `callback`. -/
def sidBody (callback id : Bytes) : Bytes :=
  if callback = [] then ascii "\x7b\"sid\":\"" ++ id ++ ascii "\"\x7d"
  else ascii "try \x7b " ++ callback ++ ascii "(\x7b\"sid\":\"" ++ id ++
    ascii "\"\x7d); \x7d catch(e) \x7b\x7d"

/-- The body of a poll's answer. -/
def pollBody (callback body : Bytes) : Bytes :=
  if callback = [] then body
  else ascii "try \x7b" ++ callback ++ ascii "(\"" ++ body ++ ascii "\"); \x7d catch(e) \x7b\x7d"

/-- What `Server::run` and the handlers do with a request before they lock the
storage: answer it with an error, or go on to the handler, with what `uuid`
holds by then. -/
def route (h : Host) (req : Request) (uuid : Option Bytes) :
    Except Response.Code (Bytes × Handler) :=
  let queries := req.getQueries
  match req.getMethod with
  | .get =>
    if queries.getCommand = ascii "connect" then
      if queries.getSessionId = [] then
        match uuid with
        | none => .error .serviceUnavailable
        | some uuid => match getBackend h.accepts h.config queries.getChannel req.getOrigin with
          | none => .error .notFound
          | some backend => .ok (uuid, .connect backend)
      else .ok ([], .attach)
    else if queries.getCommand = ascii "disconnect" then
      if queries.getSessionId = [] then .error .badRequest else .ok ([], .disconnect)
    else if queries.getCommand = ascii "poll" then
      if queries.getSessionId = [] then .error .badRequest else .ok ([], .poll)
    else .error .badRequest
  | .post => if queries.getSessionId = [] then .error .badRequest else .ok ([], .post)
  | .unknown => .error .methodNotAllowed

/-- `DATA_THRESHOLD`. -/
def dataThreshold : Nat := 16384

/-- The body of a poll that gathered `data`: its base64 code, if there is
anything to encode. -/
def encodeBody (h : Host) (data : Bytes) (o : Outcome) : Option Bytes :=
  if data = [] then some []
  else if o = .noMemory then none
  else (h.encode data).map cString

/-- What `Client::_write` hands to `uv_write` for a string it consumed. -/
def payload (h : Host) (data : Bytes) : Option Bytes := h.decode (cString (urlDecode (cString data)))

namespace Sys

/-- The process before its first request. -/
def start (h : Host) : Sys where
  storage := .new h.maxClients
  storageLock := none
  requestQueue := []
  asyncPending := false
  clock := 0
  server := .accept
  request := ⟨fun _ => [], fun _ => none⟩
  uuid := []
  exchange := 0
  loop := .idle
  fault := false

/-- Follow a `Client*`. -/
def deref (s : Sys) (c : Addr) (use : Client → Option (Sys × List Event)) :
    Option (Sys × List Event) :=
  match s.storage.heap c with
  | some cl => use cl
  | none => some ({ s with fault := true }, [.useAfterFree c])

/-- Enter a section under the client's `state_mutex_`, once it is free. -/
def lock (s : Sys) (c : Addr) (use : Client → Option (Sys × List Event)) :
    Option (Sys × List Event) :=
  s.deref c fun cl => if cl.stateMutex then none else use cl

/-- `Loop::execute` up to its `uv_async_send`. -/
def enqueue (s : Sys) (type : RequestType) (c : Addr) (next : ServerPc) : Sys × List Event :=
  ({ s with requestQueue := Fifo.push s.requestQueue ⟨type, c⟩, server := next },
    [.requested s.exchange ⟨type, c⟩])

/-- The `uv_async_send` of `Loop::execute`. -/
def send (s : Sys) (next : ServerPc) : Sys × List Event :=
  ({ s with asyncPending := true, server := next }, [])

/-- `client_storage_.unlock()`. -/
def unlock (s : Sys) : Sys := { s with storageLock := none }

/-- `sendResponse`, with which every handler ends. -/
def respond (s : Sys) (code : Response.Code) (body : Option Bytes) : Sys × List Event :=
  ({ s with server := .accept }, [.response s.exchange code body])

/-- Note an event that comes before those of the step. -/
def note (e : Event) (r : Sys × List Event) : Sys × List Event := (r.1, e :: r.2)

/-- `Client::_disconnect`. libuv aborts when the handle is closing already. -/
def disconnect_ (s : Sys) (c : Addr) (cl : Client) : Sys :=
  { s with storage := s.storage.set c { cl with handle := .closing },
           fault := cl.handle = .closing }

/-- Each handler, from taking the storage lock to its first call of a client. -/
def handle (h : Host) (s : Sys) (o : Outcome) : Handler → Option (Sys × List Event)
  | .connect backend =>
    match s.storage.create s.uuid backend.origins h.timeout (o ≠ .noMemory) with
    | none => some (s.unlock.respond .serviceUnavailable none)
    | some (c, storage) =>
      some ({ s with storage := storage, server := .connectBegin c backend },
        [.created s.exchange c s.uuid])
  | .attach =>
    -- the source asks for `uuid` here, not for the session id of the request
    match s.storage.get s.uuid with
    | none => some (s.unlock.respond .gone none)
    | some _ => some (s.unlock.respond .ok
        (some (sidBody s.request.getQueries.getCallback s.request.getQueries.getSessionId)))
  | .disconnect =>
    match s.storage.get s.request.getQueries.getSessionId with
    | none => some ({ s with server := .disconnectReturn }, [])
    | some c => some ({ s with server := .disconnectBegin .handler c }, [])
  | .poll =>
    match s.storage.get s.request.getQueries.getSessionId with
    | none => some (s.unlock.respond .gone none)
    | some c => some ({ s with server := .pollTest c [] }, [])
  | .post =>
    match s.storage.get s.request.getQueries.getSessionId with
    | none => some (s.unlock.respond .gone none)
    | some c => s.deref c fun cl =>
      if ¬ isAllowOrigin h.accepts s.request.getOrigin cl.allowOrigins then
        some (s.unlock.respond .badRequest none)
      else if s.request.getQueries.getData = [] then some ({ s with server := .postReturn }, [])
      else some ({ s with server := .writeTest c s.request.getQueries.getData }, [])

/-- The server thread's next step. -/
def serverStep (h : Host) (s : Sys) (o : Outcome) : Option (Sys × List Event) :=
  match s.server with
  | .accept => none
  | .lock handler =>
    if s.storageLock = none then
      some ({ s with storageLock := some .server, server := .locked handler }, [])
    else none
  | .locked handler => handle h s o handler
  | .connectBegin c backend => s.lock c fun cl =>
    match cl.settled with
    | some f => some ({ s with server := .connectReturn c f }, [])
    | none => some ({ s with
        storage := s.storage.set c (cl.prepare backend.host backend.port)
        server := .connectEnqueue c }, [])
  | .connectEnqueue c => some (s.enqueue .connect c (.connectSend c))
  | .connectSend c => some (s.send (.connectPublish c))
  | .connectPublish c => s.deref c fun cl =>
    some ({ s with storage := s.storage.set c cl.await,
                   server := .connectWait c (s.clock + 1) }, [])
  | .connectWait c deadline =>
    -- a wait may end for no reason, but times out only at its deadline
    if o = .timedOut ∧ s.clock < deadline then none else s.lock c fun cl =>
    match cl.wake (o = .timedOut) with
    | .connected => some ({ s with server := .connectReturn c true }, [])
    | .failConnect => some ({ s with server := .connectReturn c false }, [])
    | .timedOut => some ({ s with server := .disconnectBegin .connect c }, [])
    | .again => some ({ s with server := .connectWait c (s.clock + 1) }, [])
  | .connectReturn _ f =>
    if f then some (s.unlock.respond .ok (some (sidBody s.request.getQueries.getCallback s.uuid)))
    else some (s.unlock.respond .serviceUnavailable none)
  | .disconnectBegin caller c => s.lock c fun cl =>
    if cl.idle then some ({ s with server := caller.resume c }, [])
    else some ({ s with storage := s.storage.set c { cl with state := .disconnecting },
                        server := .disconnectEnqueue caller c }, [.disconnecting s.exchange c])
  | .disconnectEnqueue caller c => some (s.enqueue .disconnect c (.disconnectSend caller c))
  | .disconnectSend caller c => some (s.send (caller.resume c))
  | .disconnectReturn => some (s.unlock.respond .ok
      (some (sidBody s.request.getQueries.getCallback s.request.getQueries.getSessionId)))
  | .pollTest c data => s.lock c fun cl =>
    if cl.readable then some ({ s with server := .pollTouch c data }, [.live s.exchange c])
    else some (note (.gone s.exchange c) (s.unlock.respond .gone none))
  | .pollTouch c data => s.deref c fun cl =>
    some ({ s with storage := s.storage.set c { cl with lastAccess := some s.clock },
                   server := .pollConsume c data }, [])
  | .pollConsume c data => s.deref c fun cl =>
    match Fifo.pop cl.readQueue with
    | none => some ({ s.unlock with server := .pollEncode c data }, [.empty s.exchange c])
    | some (chunk, rest) =>
      let s' := { s with storage := s.storage.set c { cl with readQueue := rest } }
      if chunk = [] then
        some ({ s'.unlock with server := .pollEncode c data }, [.taken s.exchange c chunk])
      -- the copy goes to a null pointer
      else if o = .noCopy then some ({ s with fault := true }, [])
      else some ({ s' with server := .pollStore c data chunk }, [.taken s.exchange c chunk])
  | .pollStore c data chunk =>
    if o = .noMemory then some (s.unlock.respond .internalServerError none)
    else if (data ++ chunk).length < dataThreshold then
      some ({ s with server := .pollTest c (data ++ chunk) }, [])
    else some ({ s.unlock with server := .pollEncode c (data ++ chunk) }, [])
  | .pollEncode c data =>
    match encodeBody h data o with
    | none => some (s.respond .internalServerError none)
    | some body => some (note (.polled s.exchange c body)
        (s.respond .ok (some (pollBody s.request.getQueries.getCallback body))))
  | .writeTest c data => s.lock c fun cl =>
    -- `onPost` drops what `write` returns
    if cl.writable then some ({ s with server := .writeProduce c data }, [])
    else some ({ s with server := .postReturn }, [])
  | .writeProduce c data => s.deref c fun cl =>
    some ({ s with storage := s.storage.set c { cl with writeQueue := Fifo.push cl.writeQueue data },
                   server := .writeEnqueue c }, [.written s.exchange c data])
  | .writeEnqueue c => some (s.enqueue .write c (.writeSend c))
  | .writeSend _ => some (s.send .postReturn)
  | .postReturn => some (s.unlock.respond .noContent none)

/-- The loop thread's next step inside a callback. -/
def loopStep (h : Host) (s : Sys) (o : Outcome) : Option (Sys × List Event) :=
  match s.loop with
  | .idle => none
  | .drain => match Fifo.pop s.requestQueue with
    | none => some ({ s with loop := .idle }, [])
    | some (r, rest) => some ({ s with requestQueue := rest, loop := .dispatch r }, [.dispatched r])
  | .dispatch ⟨.undefined, _⟩ => some ({ s with loop := .drain }, [])
  | .dispatch ⟨.connect, c⟩ => s.lock c fun cl =>
    some ({ s with storage := s.storage.set c (cl.connect_ o), loop := .drain }, [])
  | .dispatch ⟨.disconnect, c⟩ => s.deref c fun cl =>
    some ({ s.disconnect_ c cl with loop := .drain }, [.closed c])
  | .dispatch ⟨.write, c⟩ => s.deref c fun _ => some ({ s with loop := .write c }, [])
  | .write c => s.deref c fun cl =>
    match Fifo.pop cl.writeQueue with
    | none => some ({ s with loop := .drain }, [])
    | some (data, rest) =>
      let s' := { s with storage := s.storage.set c { cl with writeQueue := rest } }
      if o = .noMemory then some ({ s' with loop := .drain }, [.unqueued c data])
      else match payload h data with
        | none => some ({ s' with loop := .drain }, [.unqueued c data])
        | some payload => some (s', [.unqueued c data, .uvWrite c payload])
  | .connectTail c => s.deref c fun cl =>
    some ({ s with storage := s.storage.set c { cl with lastAccess := some s.clock, reading := true }
                   loop := .idle }, [])
  | .readTail c chunk => s.deref c fun cl =>
    if o = .noMemory then some ({ s with loop := .idle }, [])
    -- so does the copy in the node of the queue
    else if o = .noCopy then some ({ s with fault := true }, [])
    else some ({ s with
      storage := s.storage.set c { cl with readQueue := Fifo.push cl.readQueue chunk }
      loop := .idle }, [.received c chunk])
  | .timerLock =>
    if s.storageLock = none then
      some ({ s with storageLock := some .loop, loop := .timerScan s.storage.clients }, [])
    else none
  | .timerScan [] => some ({ s.unlock with loop := .idle }, [])
  | .timerScan (c :: clients) => s.lock c fun cl =>
    if cl.expired s.clock o.garbage then
      some ({ s.disconnect_ c { cl with state := .disconnecting } with loop := .timerScan clients },
        [.reaped c, .closed c])
    else some ({ s with loop := .timerScan clients }, [])
  | .closeLock c =>
    if s.storageLock = none then
      some ({ s with storageLock := some .loop, loop := .destroy c }, [])
    else none
  | .destroy c => s.deref c fun cl =>
    let (storage, deleted) := s.storage.destroy cl.id
    some ({ s.unlock with storage := storage, loop := .idle }, deleted.toList.map .destroyed)

/-- A callback libuv may run on a client's handle: the thread is between
callbacks and the handle is still there. -/
def callback (s : Sys) (c : Addr) (run : Client → Option (Sys × List Event)) :
    Option (Sys × List Event) :=
  if s.loop ≠ .idle then none else match s.storage.heap c with
  | none => none
  | some cl => run cl

/-- `Client::onRead`, up to its `malloc`. -/
def onRead (s : Sys) (c : Addr) (cl : Client) (data : Option Bytes) : Sys × List Event :=
  if cl.state ≠ .connected then ({ s with storage := s.storage.set c cl }, [])
  else match data with
    | none => (s.disconnect_ c { cl with state := .disconnecting }, [.hungUp c, .closed c])
    | some [] => ({ s with storage := s.storage.set c cl }, [])
    | some chunk => ({ s with storage := s.storage.set c cl, loop := .readTail c chunk }, [])

end Sys

/-- One step of the process. -/
def step (h : Host) : Step Sys Action Event := fun s a =>
  if s.fault then none else match a with
  | .accept req uuid =>
    -- `uuid_unparse` writes 36 characters
    if uuid.any (·.length ≠ 36) then none else match s.server with
    | .accept =>
      let s := { s with request := req, exchange := s.exchange + 1 }
      match route h req uuid with
      | .error code => some (s.respond code none |> Sys.note (.accepted s.exchange req))
      | .ok (id, handler) =>
        some ({ s with uuid := id, server := .lock handler }, [.accepted s.exchange req])
    | _ => none
  | .server o => s.serverStep h o
  | .loop o => s.loopStep h o
  | .onAsync =>
    if s.loop = .idle ∧ s.asyncPending then
      some ({ s with asyncPending := false, loop := .drain }, [])
    else none
  | .onConnect c status => s.callback c fun cl =>
    -- closing the handle cancels the connect request
    if ¬ cl.connectReq ∨ cl.handle = .closing ∧ status = 0 ∨ cl.stateMutex then none
    else if cl.connects status then
      some ({ s with storage := s.storage.set c { cl with connectReq := false, state := .connected }
                     loop := .connectTail c }, [.connected c])
    else some ({ s with storage := s.storage.set c { cl with connectReq := false
                                                             state := .failConnect } }, [])
  | .onRead c data => s.callback c fun cl =>
    if ¬ cl.reading ∨ cl.handle = .closing ∨ cl.stateMutex then none
    -- libuv reads no further after an error or the end of the stream
    else some (s.onRead c { cl with reading := data.isSome } data)
  | .onTimer => if s.loop = .idle then some ({ s with loop := .timerLock }, []) else none
  | .onDisconnect c => s.callback c fun cl =>
    -- the close callback runs last, after the cancelled connect request's
    if cl.handle ≠ .closing ∨ cl.connectReq then none
    else some ({ s with loop := .closeLock c }, [])
  | .clock now => some ({ s with clock := now }, [])

/-! ## A process to look at -/

namespace Sample

/-- One channel, with one backend behind it. -/
def host : Host where
  config := some [⟨ascii "ch", ⟨ascii "backend", 80, .tcp, []⟩⟩]
  accepts pattern text := pattern == text
  maxClients := 8
  timeout := 30
  encode data := some (Base64.encode data)
  decode := Base64.decode

def request (method queries : String) : Request :=
  ⟨fun | .requestMethod => ascii method | _ => [], Queries.parse (ascii queries)⟩

def uuid : Bytes := ascii "123e4567-e89b-12d3-a456-426614174000"

/-- A browser asks for a session, and libuv is asked to connect to the backend. -/
def connecting : List Action :=
  .accept (request "GET" "c=connect&ch=ch") (some uuid) :: List.replicate 6 (.server .ok) ++
    .onAsync :: List.replicate 3 (.loop .ok)

/-- The backend accepts, and the browser is told. -/
def connected : List Action :=
  connecting ++ [.onConnect 0 0, .loop .ok, .server .ok, .server .ok]

/-- A browser posts a message for the session. -/
def message : Request := request "POST" "sid=123e4567-e89b-12d3-a456-426614174000&data=aGk="

/-- A browser polls the session. -/
def poll : Request := request "GET" "c=poll&sid=123e4567-e89b-12d3-a456-426614174000"

/-- The message is accepted. -/
def posted : List Action := connected ++ .accept message none :: List.replicate 7 (.server .ok)

/-- The backend sends something and hangs up before the session is polled. -/
def polledLate : List Action :=
  connected ++ [.onRead 0 (some (ascii "he")), .loop .ok, .onRead 0 none, .accept poll none] ++
    List.replicate 3 (.server .ok)

end Sample

example : (exec (step Sample.host) (.start Sample.host) Sample.connected).map
    (fun r => (r.1.storage.heap 0).map Client.state) = some (some .connected) := by decide

end LinearFcgi
