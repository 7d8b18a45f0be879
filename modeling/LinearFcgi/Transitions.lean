import LinearFcgi.System

/-! What one step of the process can do, once and for all: every way through
`step` is a constructor of `Transition`, with the tests it passed as its
hypotheses. The invariants of the process are proved from these cases. -/
namespace LinearFcgi

open TraceMachine

/-- The client the server thread holds a pointer to. -/
def ServerPc.client : ServerPc → Option Addr
  | .connectBegin c _ | .connectEnqueue c | .connectSend c | .connectPublish c
  | .connectWait c _ | .connectReturn c _ => some c
  | .disconnectBegin _ c | .disconnectEnqueue _ c | .disconnectSend _ c => some c
  | .pollTest c _ | .pollTouch c _ | .pollConsume c _ | .pollStore c _ _ => some c
  | .writeTest c _ | .writeProduce c _ | .writeEnqueue c | .writeSend c => some c
  | .accept | .lock _ | .locked _ | .disconnectReturn | .pollEncode _ _ | .postReturn => none

/-- The clients the loop thread holds pointers to. -/
def LoopPc.clients : LoopPc → List Addr
  | .dispatch r => [r.client]
  | .write c | .connectTail c | .readTail c _ | .closeLock c | .destroy c => [c]
  | .timerScan clients => clients
  | .idle | .drain | .timerLock => []

/-- The answers a handler gives before it calls a client: an error, unless an
existing session is asked after. -/
def Handler.Refuses (handler : Handler) (code : Response.Code) : Prop :=
  match handler with
  | .connect _ => code = .serviceUnavailable
  | .attach => code = .gone ∨ code = .ok
  | .disconnect => False
  | .poll => code = .gone
  | .post => code = .gone ∨ code = .badRequest

/-- Where a handler goes on to with the client it found. -/
inductive Handler.Enters (req : Request) (c : Addr) : Handler → ServerPc → Prop where
  | disconnect : Enters req c .disconnect (.disconnectBegin .handler c)
  | poll : Enters req c .poll (.pollTest c [])
  | post (given : req.getQueries.getData ≠ []) :
      Enters req c .post (.writeTest c req.getQueries.getData)

/-- Where a handler goes on to without calling a client. -/
inductive Handler.Skips (req : Request) : Handler → ServerPc → Prop where
  | disconnect : Skips req .disconnect .disconnectReturn
  | post (absent : req.getQueries.getData = []) : Skips req .post .postReturn

/-- Every way through `step`, in the order of the source. -/
inductive Transition (h : Host) (s : Sys) : Action → Sys → List Event → Prop where
  | refuse {req : Request} {uuid : Option Bytes} {code : Response.Code}
      (at_ : s.server = .accept) (routed : route h req uuid = .error code) :
      Transition h s (.accept req uuid)
        { s with request := req, exchange := s.exchange + 1, server := .accept }
        [.accepted (s.exchange + 1) req, .response (s.exchange + 1) code none]
  | proceed {req : Request} {uuid : Option Bytes} {id : Bytes} {handler : Handler}
      (at_ : s.server = .accept) (routed : route h req uuid = .ok (id, handler)) :
      Transition h s (.accept req uuid)
        { s with request := req, exchange := s.exchange + 1, uuid := id, server := .lock handler }
        [.accepted (s.exchange + 1) req]
  | lock {o : Outcome} {handler : Handler} (at_ : s.server = .lock handler)
      (free : s.storageLock = none) :
      Transition h s (.server o)
        { s with storageLock := some .server, server := .locked handler } []
  | answer {o : Outcome} {handler : Handler} {code : Response.Code} {body : Option Bytes}
      (at_ : s.server = .locked handler) (refuses : handler.Refuses code) :
      Transition h s (.server o) { s with storageLock := none, server := .accept }
        [.response s.exchange code body]
  | create {o : Outcome} {backend : Backend} (at_ : s.server = .locked (.connect backend))
      (unknown : s.storage.clientMap.lookup s.uuid = none)
      (room : s.storage.clientMap.keys.length < s.storage.maxClients) (alloc : o ≠ .noMemory) :
      Transition h s (.server o)
        { s with
          storage := s.storage.insert s.uuid (Client.new s.uuid backend.origins h.timeout)
          server := .connectBegin s.storage.next backend }
        [.created s.exchange s.storage.next s.uuid]
  | enter {o : Outcome} {handler : Handler} {c : Addr} {next : ServerPc}
      (allowed : handler = .post → ∃ cl, s.storage.heap c = some cl ∧
        isAllowOrigin h.accepts s.request.getOrigin cl.allowOrigins = true)
      (at_ : s.server = .locked handler)
      (found : s.storage.get s.request.getQueries.getSessionId = some c)
      (enters : handler.Enters s.request c next) :
      Transition h s (.server o) { s with server := next } []
  | skip {o : Outcome} {handler : Handler} {next : ServerPc} (at_ : s.server = .locked handler)
      (skips : handler.Skips s.request next) :
      Transition h s (.server o) { s with server := next } []
  | connectSettled {o : Outcome} {c : Addr} {backend : Backend} {cl : Client} {f : Bool}
      (at_ : s.server = .connectBegin c backend) (live : s.storage.heap c = some cl)
      (free : cl.stateMutex = false) (settled : cl.settled = some f) :
      Transition h s (.server o) { s with server := .connectReturn c f } []
  | connectPrepare {o : Outcome} {c : Addr} {backend : Backend} {cl : Client}
      (at_ : s.server = .connectBegin c backend) (live : s.storage.heap c = some cl)
      (free : cl.stateMutex = false) (unsettled : cl.settled = none) :
      Transition h s (.server o)
        { s with storage := s.storage.set c (cl.prepare backend.host backend.port)
                 server := .connectEnqueue c } []
  | connectEnqueue {o : Outcome} {c : Addr} (at_ : s.server = .connectEnqueue c) :
      Transition h s (.server o)
        { s with requestQueue := Fifo.push s.requestQueue ⟨.connect, c⟩, server := .connectSend c }
        [.requested s.exchange ⟨.connect, c⟩]
  | connectSend {o : Outcome} {c : Addr} (at_ : s.server = .connectSend c) :
      Transition h s (.server o) { s with asyncPending := true, server := .connectPublish c } []
  | connectPublish {o : Outcome} {c : Addr} {cl : Client} (at_ : s.server = .connectPublish c)
      (live : s.storage.heap c = some cl) :
      Transition h s (.server o)
        { s with storage := s.storage.set c cl.await, server := .connectWait c (s.clock + 1) } []
  | wakeReturn {o : Outcome} {c : Addr} {deadline : Int} {cl : Client} {f : Bool}
      (at_ : s.server = .connectWait c deadline) (live : s.storage.heap c = some cl)
      (free : cl.stateMutex = false)
      (state : cl.state = if f then .connected else .failConnect) :
      Transition h s (.server o) { s with server := .connectReturn c f } []
  | wakeTimedOut {c : Addr} {deadline : Int} {cl : Client}
      (at_ : s.server = .connectWait c deadline) (live : s.storage.heap c = some cl)
      (free : cl.stateMutex = false) (late : deadline ≤ s.clock)
      (connected : cl.state ≠ .connected) (failed : cl.state ≠ .failConnect) :
      Transition h s (.server .timedOut) { s with server := .disconnectBegin .connect c } []
  | wakeAgain {o : Outcome} {c : Addr} {deadline : Int} {cl : Client}
      (at_ : s.server = .connectWait c deadline) (live : s.storage.heap c = some cl)
      (connected : cl.state ≠ .connected) (failed : cl.state ≠ .failConnect)
      (woken : o ≠ .timedOut) :
      Transition h s (.server o) { s with server := .connectWait c (s.clock + 1) } []
  | connectReturn {o : Outcome} {c : Addr} {f : Bool} {body : Option Bytes}
      (at_ : s.server = .connectReturn c f) :
      Transition h s (.server o) { s with storageLock := none, server := .accept }
        [.response s.exchange (if f then .ok else .serviceUnavailable) body]
  | disconnectIdle {o : Outcome} {caller : Caller} {c : Addr} {cl : Client}
      (at_ : s.server = .disconnectBegin caller c) (live : s.storage.heap c = some cl)
      (free : cl.stateMutex = false) (idle : cl.idle = true) :
      Transition h s (.server o) { s with server := caller.resume c } []
  | disconnectMark {o : Outcome} {caller : Caller} {c : Addr} {cl : Client}
      (at_ : s.server = .disconnectBegin caller c) (live : s.storage.heap c = some cl)
      (free : cl.stateMutex = false) (busy : cl.idle = false) :
      Transition h s (.server o)
        { s with storage := s.storage.set c { cl with state := .disconnecting }
                 server := .disconnectEnqueue caller c }
        [.disconnecting s.exchange c]
  | disconnectEnqueue {o : Outcome} {caller : Caller} {c : Addr}
      (at_ : s.server = .disconnectEnqueue caller c) :
      Transition h s (.server o)
        { s with requestQueue := Fifo.push s.requestQueue ⟨.disconnect, c⟩
                 server := .disconnectSend caller c }
        [.requested s.exchange ⟨.disconnect, c⟩]
  | disconnectSend {o : Outcome} {caller : Caller} {c : Addr}
      (at_ : s.server = .disconnectSend caller c) :
      Transition h s (.server o) { s with asyncPending := true, server := caller.resume c } []
  | disconnectReturn {o : Outcome} {body : Option Bytes} (at_ : s.server = .disconnectReturn) :
      Transition h s (.server o) { s with storageLock := none, server := .accept }
        [.response s.exchange .ok body]
  -- onPoll
  | pollLive {o : Outcome} {c : Addr} {data : Bytes} {cl : Client}
      (at_ : s.server = .pollTest c data) (live : s.storage.heap c = some cl)
      (free : cl.stateMutex = false) (readable : cl.readable = true) :
      Transition h s (.server o) { s with server := .pollTouch c data } [.live s.exchange c]
  | pollGone {o : Outcome} {c : Addr} {data : Bytes} {cl : Client}
      (at_ : s.server = .pollTest c data) (live : s.storage.heap c = some cl)
      (free : cl.stateMutex = false) (unreadable : cl.readable = false) :
      Transition h s (.server o) { s with storageLock := none, server := .accept }
        [.gone s.exchange c, .response s.exchange .gone none]
  | pollTouch {o : Outcome} {c : Addr} {data : Bytes} {cl : Client}
      (at_ : s.server = .pollTouch c data) (live : s.storage.heap c = some cl) :
      Transition h s (.server o)
        { s with storage := s.storage.set c { cl with lastAccess := some s.clock }
                 server := .pollConsume c data } []
  | pollEmpty {o : Outcome} {c : Addr} {data : Bytes} {cl : Client}
      (at_ : s.server = .pollConsume c data) (live : s.storage.heap c = some cl)
      (drained : cl.readQueue = []) :
      Transition h s (.server o) { s with storageLock := none, server := .pollEncode c data }
        [.empty s.exchange c]
  | pollBlank {o : Outcome} {c : Addr} {data : Bytes} {queue : List Bytes} {cl : Client}
      (at_ : s.server = .pollConsume c data) (live : s.storage.heap c = some cl)
      (oldest : cl.readQueue = [] :: queue) :
      Transition h s (.server o)
        { s with storage := s.storage.set c { cl with readQueue := queue }
                 storageLock := none, server := .pollEncode c data }
        [.taken s.exchange c []]
  | pollTake {o : Outcome} {c : Addr} {data chunk : Bytes} {queue : List Bytes} {cl : Client}
      (at_ : s.server = .pollConsume c data) (live : s.storage.heap c = some cl)
      (oldest : cl.readQueue = chunk :: queue) (nonempty : chunk ≠ []) (copied : o ≠ .noCopy) :
      Transition h s (.server o)
        { s with storage := s.storage.set c { cl with readQueue := queue }
                 server := .pollStore c data chunk }
        [.taken s.exchange c chunk]
  | pollCrash {c : Addr} {data chunk : Bytes} {queue : List Bytes} {cl : Client}
      (at_ : s.server = .pollConsume c data) (live : s.storage.heap c = some cl)
      (oldest : cl.readQueue = chunk :: queue) (nonempty : chunk ≠ []) :
      Transition h s (.server .noCopy) { s with fault := true } []
  | pollNoMemory {c : Addr} {data chunk : Bytes} (at_ : s.server = .pollStore c data chunk) :
      Transition h s (.server .noMemory) { s with storageLock := none, server := .accept }
        [.response s.exchange .internalServerError none]
  | pollMore {o : Outcome} {c : Addr} {data chunk : Bytes}
      (at_ : s.server = .pollStore c data chunk) (room : o ≠ .noMemory)
      (short : (data ++ chunk).length < dataThreshold) :
      Transition h s (.server o) { s with server := .pollTest c (data ++ chunk) } []
  | pollEnough {o : Outcome} {c : Addr} {data chunk : Bytes}
      (at_ : s.server = .pollStore c data chunk) (room : o ≠ .noMemory)
      (enough : dataThreshold ≤ (data ++ chunk).length) :
      Transition h s (.server o)
        { s with storageLock := none, server := .pollEncode c (data ++ chunk) } []
  | pollFail {o : Outcome} {c : Addr} {data : Bytes} (at_ : s.server = .pollEncode c data)
      (failed : encodeBody h data o = none) :
      Transition h s (.server o) { s with server := .accept }
        [.response s.exchange .internalServerError none]
  | pollAnswer {o : Outcome} {c : Addr} {data body : Bytes} (at_ : s.server = .pollEncode c data)
      (encoded : encodeBody h data o = some body) :
      Transition h s (.server o) { s with server := .accept }
        [.polled s.exchange c body, .response s.exchange .ok
          (some (pollBody s.request.getQueries.getCallback body))]
  -- onPost
  | writeAllow {o : Outcome} {c : Addr} {data : Bytes} {cl : Client}
      (at_ : s.server = .writeTest c data) (live : s.storage.heap c = some cl)
      (free : cl.stateMutex = false) (writable : cl.writable = true) :
      Transition h s (.server o) { s with server := .writeProduce c data } []
  | writeRefuse {o : Outcome} {c : Addr} {data : Bytes} {cl : Client}
      (at_ : s.server = .writeTest c data) (live : s.storage.heap c = some cl)
      (free : cl.stateMutex = false) (unwritable : cl.writable = false) :
      Transition h s (.server o) { s with server := .postReturn } []
  | writeProduce {o : Outcome} {c : Addr} {data : Bytes} {cl : Client}
      (at_ : s.server = .writeProduce c data) (live : s.storage.heap c = some cl) :
      Transition h s (.server o)
        { s with storage := s.storage.set c { cl with writeQueue := Fifo.push cl.writeQueue data }
                 server := .writeEnqueue c }
        [.written s.exchange c data]
  | writeEnqueue {o : Outcome} {c : Addr} (at_ : s.server = .writeEnqueue c) :
      Transition h s (.server o)
        { s with requestQueue := Fifo.push s.requestQueue ⟨.write, c⟩, server := .writeSend c }
        [.requested s.exchange ⟨.write, c⟩]
  | writeSend {o : Outcome} {c : Addr} (at_ : s.server = .writeSend c) :
      Transition h s (.server o) { s with asyncPending := true, server := .postReturn } []
  | postReturn {o : Outcome} (at_ : s.server = .postReturn) :
      Transition h s (.server o) { s with storageLock := none, server := .accept }
        [.response s.exchange .noContent none]
  -- the loop thread
  | onAsync (at_ : s.loop = .idle) (pending : s.asyncPending = true) :
      Transition h s .onAsync { s with asyncPending := false, loop := .drain } []
  | drained {o : Outcome} (at_ : s.loop = .drain) (drained : s.requestQueue = []) :
      Transition h s (.loop o) { s with loop := .idle } []
  | dequeue {o : Outcome} {r : LoopRequest} {queue : List LoopRequest} (at_ : s.loop = .drain)
      (oldest : s.requestQueue = r :: queue) :
      Transition h s (.loop o) { s with requestQueue := queue, loop := .dispatch r } [.dispatched r]
  | ignore {o : Outcome} {c : Addr} (at_ : s.loop = .dispatch ⟨.undefined, c⟩) :
      Transition h s (.loop o) { s with loop := .drain } []
  | connect_ {o : Outcome} {c : Addr} {cl : Client} (at_ : s.loop = .dispatch ⟨.connect, c⟩)
      (live : s.storage.heap c = some cl) (free : cl.stateMutex = false) :
      Transition h s (.loop o)
        { s with storage := s.storage.set c (cl.connect_ o), loop := .drain } []
  | disconnect_ {o : Outcome} {c : Addr} {cl : Client} (at_ : s.loop = .dispatch ⟨.disconnect, c⟩)
      (live : s.storage.heap c = some cl) :
      Transition h s (.loop o) { s.disconnect_ c cl with loop := .drain } [.closed c]
  | write_ {o : Outcome} {c : Addr} {cl : Client} (at_ : s.loop = .dispatch ⟨.write, c⟩)
      (live : s.storage.heap c = some cl) :
      Transition h s (.loop o) { s with loop := .write c } []
  | writeDone {o : Outcome} {c : Addr} {cl : Client} (at_ : s.loop = .write c)
      (live : s.storage.heap c = some cl) (drained : cl.writeQueue = []) :
      Transition h s (.loop o) { s with loop := .drain } []
  | writeDrop {o : Outcome} {c : Addr} {data : Bytes} {queue : List Bytes} {cl : Client}
      (at_ : s.loop = .write c) (live : s.storage.heap c = some cl)
      (oldest : cl.writeQueue = data :: queue)
      (dropped : o = .noMemory ∨ payload h data = none) :
      Transition h s (.loop o)
        { s with storage := s.storage.set c { cl with writeQueue := queue }, loop := .drain }
        [.unqueued c data]
  | writeSome {o : Outcome} {c : Addr} {data sent : Bytes} {queue : List Bytes} {cl : Client}
      (at_ : s.loop = .write c) (live : s.storage.heap c = some cl)
      (oldest : cl.writeQueue = data :: queue) (decoded : payload h data = some sent) :
      Transition h s (.loop o)
        { s with storage := s.storage.set c { cl with writeQueue := queue } }
        [.unqueued c data, .uvWrite c sent]
  | onConnectFail {c : Addr} {status : Int} {cl : Client} (at_ : s.loop = .idle)
      (live : s.storage.heap c = some cl) (requested : cl.connectReq = true)
      (free : cl.stateMutex = false) (fails : cl.connects status = false) :
      Transition h s (.onConnect c status)
        { s with storage := s.storage.set c { cl with connectReq := false
                                                      state := .failConnect } } []
  | onConnect {c : Addr} {status : Int} {cl : Client} (at_ : s.loop = .idle)
      (live : s.storage.heap c = some cl) (requested : cl.connectReq = true)
      (open_ : cl.handle ≠ .closing) (free : cl.stateMutex = false)
      (connects : cl.connects status = true) :
      Transition h s (.onConnect c status)
        { s with storage := s.storage.set c { cl with connectReq := false, state := .connected }
                 loop := .connectTail c } [.connected c]
  | connectTail {o : Outcome} {c : Addr} {cl : Client} (at_ : s.loop = .connectTail c)
      (live : s.storage.heap c = some cl) :
      Transition h s (.loop o)
        { s with storage := s.storage.set c { cl with lastAccess := some s.clock, reading := true }
                 loop := .idle } []
  | onReadIgnore {c : Addr} {data : Option Bytes} {cl : Client} (at_ : s.loop = .idle)
      (live : s.storage.heap c = some cl) (reading : cl.reading = true)
      (open_ : cl.handle ≠ .closing)
      (ignored : cl.state ≠ .connected ∨ data = some []) :
      Transition h s (.onRead c data)
        { s with storage := s.storage.set c { cl with reading := data.isSome } } []
  | onReadHangUp {c : Addr} {cl : Client} (at_ : s.loop = .idle)
      (live : s.storage.heap c = some cl) (reading : cl.reading = true)
      (open_ : cl.handle ≠ .closing) (connected : cl.state = .connected) :
      Transition h s (.onRead c none)
        (s.disconnect_ c { cl with reading := false, state := .disconnecting })
        [.hungUp c, .closed c]
  | onRead {c : Addr} {chunk : Bytes} {cl : Client} (at_ : s.loop = .idle)
      (live : s.storage.heap c = some cl) (reading : cl.reading = true)
      (open_ : cl.handle ≠ .closing) (connected : cl.state = .connected) (nonempty : chunk ≠ []) :
      Transition h s (.onRead c (some chunk))
        { s with storage := s.storage.set c { cl with reading := true }, loop := .readTail c chunk }
        []
  | readNoMemory {c : Addr} {chunk : Bytes} {cl : Client} (at_ : s.loop = .readTail c chunk)
      (live : s.storage.heap c = some cl) :
      Transition h s (.loop .noMemory) { s with loop := .idle } []
  | readCrash {c : Addr} {chunk : Bytes} {cl : Client} (at_ : s.loop = .readTail c chunk)
      (live : s.storage.heap c = some cl) :
      Transition h s (.loop .noCopy) { s with fault := true } []
  | readStore {o : Outcome} {c : Addr} {chunk : Bytes} {cl : Client}
      (at_ : s.loop = .readTail c chunk) (live : s.storage.heap c = some cl)
      (room : o ≠ .noMemory) (copied : o ≠ .noCopy) :
      Transition h s (.loop o)
        { s with storage := s.storage.set c { cl with readQueue := Fifo.push cl.readQueue chunk }
                 loop := .idle } [.received c chunk]
  | onTimer (at_ : s.loop = .idle) : Transition h s .onTimer { s with loop := .timerLock } []
  | timerLock {o : Outcome} (at_ : s.loop = .timerLock) (free : s.storageLock = none) :
      Transition h s (.loop o)
        { s with storageLock := some .loop, loop := .timerScan s.storage.clients } []
  | timerDone {o : Outcome} (at_ : s.loop = .timerScan []) :
      Transition h s (.loop o) { s with storageLock := none, loop := .idle } []
  | timerReap {o : Outcome} {c : Addr} {clients : List Addr} {cl : Client} {word : Int}
      (at_ : s.loop = .timerScan (c :: clients)) (live : s.storage.heap c = some cl)
      (free : cl.stateMutex = false) (expired : cl.expired s.clock word = true) :
      Transition h s (.loop o)
        { s.disconnect_ c { cl with state := .disconnecting } with loop := .timerScan clients }
        [.reaped c, .closed c]
  | timerSkip {o : Outcome} {c : Addr} {clients : List Addr} {cl : Client} {word : Int}
      (at_ : s.loop = .timerScan (c :: clients)) (live : s.storage.heap c = some cl)
      (free : cl.stateMutex = false) (fresh : cl.expired s.clock word = false) :
      Transition h s (.loop o) { s with loop := .timerScan clients } []
  | onDisconnect {c : Addr} {cl : Client} (at_ : s.loop = .idle)
      (live : s.storage.heap c = some cl) (closing : cl.handle = .closing)
      (finished : cl.connectReq = false) :
      Transition h s (.onDisconnect c) { s with loop := .closeLock c } []
  | closeLock {o : Outcome} {c : Addr} (at_ : s.loop = .closeLock c) (free : s.storageLock = none) :
      Transition h s (.loop o) { s with storageLock := some .loop, loop := .destroy c } []
  | destroy {o : Outcome} {c : Addr} {cl : Client} (at_ : s.loop = .destroy c)
      (live : s.storage.heap c = some cl) :
      Transition h s (.loop o)
        { s with storage := (s.storage.destroy cl.id).1, storageLock := none, loop := .idle }
        ((s.storage.destroy cl.id).2.toList.map .destroyed)
  | clock {now : Int} : Transition h s (.clock now) { s with clock := now } []
  -- a pointer leads nowhere
  | serverStray {o : Outcome} {c : Addr} (dead : s.storage.heap c = none)
      (used : s.server.client = some c ∨ s.storage.Registered c) :
      Transition h s (.server o) { s with fault := true } [.useAfterFree c]
  | loopStray {o : Outcome} {c : Addr} (dead : s.storage.heap c = none)
      (used : s.loop.clients.head? = some c) :
      Transition h s (.loop o) { s with fault := true } [.useAfterFree c]

variable {h : Host} {s s' : Sys} {out : List Event}

/-- A step through a pointer either finds the client or strays. -/
theorem Transition.of_deref {a : Action} {c : Addr} {use : Client → Option (Sys × List Event)}
    (strays : s.storage.heap c = none →
      Transition h s a { s with fault := true } [.useAfterFree c])
    (stepped : s.deref c use = some (s', out))
    (found : ∀ cl, s.storage.heap c = some cl → use cl = some (s', out) →
      Transition h s a s' out) : Transition h s a s' out := by
  unfold Sys.deref at stepped
  split at stepped
  · rename_i cl live
    exact found cl live stepped
  · rename_i dead
    cases stepped
    exact strays dead

/-- So does a step that takes the client's mutex, which it finds free. -/
theorem Transition.of_lock {a : Action} {c : Addr} {use : Client → Option (Sys × List Event)}
    (strays : s.storage.heap c = none →
      Transition h s a { s with fault := true } [.useAfterFree c])
    (stepped : s.lock c use = some (s', out))
    (found : ∀ cl, s.storage.heap c = some cl → cl.stateMutex = false →
      use cl = some (s', out) → Transition h s a s' out) : Transition h s a s' out := by
  refine .of_deref strays stepped fun cl live run => ?_
  split at run
  · cases run
  · rename_i held
    exact found cl live (by simpa using held) run

theorem handle_cases {o : Outcome} {handler : Handler} (at_ : s.server = .locked handler)
    (handled : s.handle h o handler = some (s', out)) : Transition h s (.server o) s' out := by
  cases handler with
  | connect backend =>
    simp only [Sys.handle] at handled
    split at handled
    · cases handled
      exact .answer at_ rfl
    · rename_i created
      obtain ⟨room, unknown, alloc, rfl, rfl⟩ := ClientStorage.create_eq_some.mp created
      cases handled
      exact .create at_ unknown room (of_decide_eq_true alloc)
  | attach =>
    simp only [Sys.handle] at handled
    split at handled <;> cases handled
    · exact .answer at_ (.inl rfl)
    · exact .answer at_ (.inr rfl)
  | disconnect =>
    simp only [Sys.handle] at handled
    split at handled <;> cases handled
    · exact .skip at_ .disconnect
    · exact .enter (by simp) at_ ‹_› .disconnect
  | poll =>
    simp only [Sys.handle] at handled
    split at handled <;> cases handled
    · exact .answer at_ rfl
    · exact .enter (by simp) at_ ‹_› .poll
  | post =>
    simp only [Sys.handle] at handled
    split at handled
    · cases handled
      exact .answer at_ (.inl rfl)
    · rename_i c found
      refine .of_deref (.serverStray · (.inr ⟨_, found⟩)) handled fun cl live used => ?_
      split at used
      · cases used
        exact .answer at_ (.inr rfl)
      rename_i allowed
      split at used <;> cases used
      · exact .skip at_ (.post ‹_›)
      · exact .enter (fun _ => ⟨cl, live, not_not.mp allowed⟩) at_ found (.post ‹_›)

theorem server_cases {o : Outcome} (stepped : s.serverStep h o = some (s', out)) :
    Transition h s (.server o) s' out := by
  have strays (c : Addr) (at_ : s.server.client = some c) (dead : s.storage.heap c = none) :
      Transition h s (.server o) { s with fault := true } [.useAfterFree c] :=
    .serverStray dead (.inl at_)
  cases at_ : s.server with
  | accept => simp [Sys.serverStep, at_] at stepped
  | lock handler =>
    simp only [Sys.serverStep, at_] at stepped
    split at stepped <;> cases stepped
    exact .lock at_ ‹_›
  | locked handler =>
    simp only [Sys.serverStep, at_] at stepped
    exact handle_cases at_ stepped
  | connectBegin c backend =>
    simp only [Sys.serverStep, at_] at stepped
    refine .of_lock (strays c (by rw [at_]; rfl)) stepped fun cl live free run => ?_
    split at run <;> cases run
    · exact .connectSettled at_ live free ‹_›
    · exact .connectPrepare at_ live free ‹_›
  | connectEnqueue c =>
    simp only [Sys.serverStep, at_] at stepped
    cases stepped
    exact .connectEnqueue at_
  | connectSend c =>
    simp only [Sys.serverStep, at_] at stepped
    cases stepped
    exact .connectSend at_
  | connectPublish c =>
    simp only [Sys.serverStep, at_] at stepped
    refine .of_deref (strays c (by rw [at_]; rfl)) stepped fun cl live run => ?_
    cases run
    exact .connectPublish at_ live
  | connectWait c deadline =>
    simp only [Sys.serverStep, at_] at stepped
    split at stepped
    · cases stepped
    rename_i punctual
    refine .of_lock (strays c (by rw [at_]; rfl)) stepped fun cl live free run => ?_
    unfold Client.wake at run
    by_cases connected : cl.state = .connected
    · simp only [connected, ↓reduceIte] at run
      cases run
      exact .wakeReturn at_ live free (by simpa using connected)
    by_cases failed : cl.state = .failConnect
    · simp only [failed, ↓reduceIte] at run
      cases run
      exact .wakeReturn at_ live free (by simpa using failed)
    simp only [connected, failed, ↓reduceIte] at run
    by_cases late : o = .timedOut
    · subst late
      simp only [decide_true, ↓reduceIte] at run
      cases run
      exact .wakeTimedOut at_ live free (by simpa using punctual) connected failed
    · simp only [late, decide_false, Bool.false_eq_true, ↓reduceIte] at run
      cases run
      exact .wakeAgain at_ live connected failed late
  | connectReturn c f =>
    simp only [Sys.serverStep, at_] at stepped
    cases f <;> cases stepped <;> exact .connectReturn at_
  | disconnectBegin caller c =>
    simp only [Sys.serverStep, at_] at stepped
    refine .of_lock (strays c (by rw [at_]; rfl)) stepped fun cl live free run => ?_
    split at run <;> cases run
    · exact .disconnectIdle at_ live free ‹_›
    · exact .disconnectMark at_ live free (Bool.eq_false_iff.mpr ‹_›)
  | disconnectEnqueue caller c =>
    simp only [Sys.serverStep, at_] at stepped
    cases stepped
    exact .disconnectEnqueue at_
  | disconnectSend caller c =>
    simp only [Sys.serverStep, at_] at stepped
    cases stepped
    exact .disconnectSend at_
  | disconnectReturn =>
    simp only [Sys.serverStep, at_] at stepped
    cases stepped
    exact .disconnectReturn at_
  | pollTest c data =>
    simp only [Sys.serverStep, at_] at stepped
    refine .of_lock (strays c (by rw [at_]; rfl)) stepped fun cl live free run => ?_
    split at run <;> cases run
    · exact .pollLive at_ live free ‹_›
    · exact .pollGone at_ live free (Bool.eq_false_iff.mpr ‹_›)
  | pollTouch c data =>
    simp only [Sys.serverStep, at_] at stepped
    refine .of_deref (strays c (by rw [at_]; rfl)) stepped fun cl live run => ?_
    cases run
    exact .pollTouch at_ live
  | pollConsume c data =>
    simp only [Sys.serverStep, at_] at stepped
    refine .of_deref (strays c (by rw [at_]; rfl)) stepped fun cl live run => ?_
    split at run
    · cases run
      exact .pollEmpty at_ live (Fifo.pop_eq_none.mp ‹_›)
    · rename_i chunk rest popped
      have oldest := Fifo.pop_eq_some.mp popped
      split at run
      · rename_i blank
        cases run
        subst blank
        exact .pollBlank at_ live oldest
      · rename_i nonempty
        split at run <;> cases run
        · rename_i refused
          subst refused
          simpa only [at_] using Transition.pollCrash (h := h) at_ live oldest nonempty
        · exact .pollTake at_ live oldest nonempty ‹_›
  | pollStore c data chunk =>
    simp only [Sys.serverStep, at_] at stepped
    split at stepped
    · rename_i failed
      cases stepped
      subst failed
      exact .pollNoMemory at_
    split at stepped <;> cases stepped
    · exact .pollMore at_ ‹_› ‹_›
    · exact .pollEnough at_ ‹_› (Nat.le_of_not_lt ‹_›)
  | pollEncode c data =>
    simp only [Sys.serverStep, at_] at stepped
    split at stepped <;> cases stepped
    · exact .pollFail at_ ‹_›
    · exact .pollAnswer at_ ‹_›
  | writeTest c data =>
    simp only [Sys.serverStep, at_] at stepped
    refine .of_lock (strays c (by rw [at_]; rfl)) stepped fun cl live free run => ?_
    split at run <;> cases run
    · exact .writeAllow at_ live free ‹_›
    · exact .writeRefuse at_ live free (Bool.eq_false_iff.mpr ‹_›)
  | writeProduce c data =>
    simp only [Sys.serverStep, at_] at stepped
    refine .of_deref (strays c (by rw [at_]; rfl)) stepped fun cl live run => ?_
    cases run
    exact .writeProduce at_ live
  | writeEnqueue c =>
    simp only [Sys.serverStep, at_] at stepped
    cases stepped
    exact .writeEnqueue at_
  | writeSend c =>
    simp only [Sys.serverStep, at_] at stepped
    cases stepped
    exact .writeSend at_
  | postReturn =>
    simp only [Sys.serverStep, at_] at stepped
    cases stepped
    exact .postReturn at_

theorem loop_cases {o : Outcome} (stepped : s.loopStep h o = some (s', out)) :
    Transition h s (.loop o) s' out := by
  have strays (c : Addr) (at_ : s.loop.clients.head? = some c) (dead : s.storage.heap c = none) :
      Transition h s (.loop o) { s with fault := true } [.useAfterFree c] :=
    .loopStray dead at_
  cases at_ : s.loop with
  | idle => simp [Sys.loopStep, at_] at stepped
  | drain =>
    simp only [Sys.loopStep, at_] at stepped
    split at stepped <;> cases stepped
    · exact .drained at_ (Fifo.pop_eq_none.mp ‹_›)
    · exact .dequeue at_ (Fifo.pop_eq_some.mp ‹_›)
  | dispatch r =>
    obtain ⟨type, c⟩ := r
    have strays := strays c (by rw [at_]; rfl)
    cases type with
    | undefined =>
      simp only [Sys.loopStep, at_] at stepped
      cases stepped
      exact .ignore at_
    | connect =>
      simp only [Sys.loopStep, at_] at stepped
      refine .of_lock strays stepped fun cl live free run => ?_
      cases run
      exact .connect_ at_ live free
    | disconnect =>
      simp only [Sys.loopStep, at_] at stepped
      refine .of_deref strays stepped fun cl live run => ?_
      cases run
      exact .disconnect_ at_ live
    | write =>
      simp only [Sys.loopStep, at_] at stepped
      refine .of_deref strays stepped fun cl live run => ?_
      cases run
      exact .write_ at_ live
  | write c =>
    simp only [Sys.loopStep, at_] at stepped
    refine .of_deref (strays c (by rw [at_]; rfl)) stepped
      fun cl live run => ?_
    split at run
    · cases run
      exact .writeDone at_ live (Fifo.pop_eq_none.mp ‹_›)
    · rename_i data queue popped
      have oldest := Fifo.pop_eq_some.mp popped
      split at run
      · cases run
        exact .writeDrop at_ live oldest (.inl ‹_›)
      split at run <;> cases run
      · exact .writeDrop at_ live oldest (.inr ‹_›)
      · exact at_ ▸ .writeSome at_ live oldest ‹_›
  | connectTail c =>
    simp only [Sys.loopStep, at_] at stepped
    refine .of_deref (strays c (by rw [at_]; rfl)) stepped
      fun cl live run => ?_
    cases run
    exact .connectTail at_ live
  | readTail c chunk =>
    simp only [Sys.loopStep, at_] at stepped
    refine .of_deref (strays c (by rw [at_]; rfl)) stepped
      fun cl live run => ?_
    split at run
    · rename_i failed
      cases run
      subst failed
      exact .readNoMemory at_ live
    · rename_i room
      split at run <;> cases run
      · rename_i refused
        subst refused
        simpa only [at_] using Transition.readCrash (h := h) at_ live
      · exact .readStore at_ live room ‹_›
  | timerLock =>
    simp only [Sys.loopStep, at_] at stepped
    split at stepped <;> cases stepped
    exact .timerLock at_ ‹_›
  | timerScan clients =>
    cases clients with
    | nil =>
      simp only [Sys.loopStep, at_] at stepped
      cases stepped
      exact .timerDone at_
    | cons c clients =>
      simp only [Sys.loopStep, at_] at stepped
      refine .of_lock (strays c (by rw [at_]; rfl)) stepped
        fun cl live free run => ?_
      split at run <;> cases run
      · exact .timerReap at_ live free ‹_›
      · exact .timerSkip at_ live free (Bool.eq_false_iff.mpr ‹_›)
  | closeLock c =>
    simp only [Sys.loopStep, at_] at stepped
    split at stepped <;> cases stepped
    exact .closeLock at_ ‹_›
  | destroy c =>
    simp only [Sys.loopStep, at_] at stepped
    refine .of_deref (strays c (by rw [at_]; rfl)) stepped
      fun cl live run => ?_
    cases run
    exact .destroy at_ live

/-- A callback runs between callbacks, on a client that is still there. -/
theorem callback_eq_some {c : Addr} {run : Client → Option (Sys × List Event)}
    {x : Sys × List Event} (called : s.callback c run = some x) :
    s.loop = .idle ∧ ∃ cl, s.storage.heap c = some cl ∧ run cl = some x := by
  unfold Sys.callback at called
  split at called
  · cases called
  split at called
  · cases called
  · exact ⟨not_not.mp ‹_›, _, ‹_›, called⟩

/-- Every step of the process is one of the cases. -/
theorem step_cases {a : Action} (stepped : step h s a = some (s', out)) :
    s.fault = false ∧ Transition h s a s' out := by
  unfold step at stepped
  split at stepped
  · cases stepped
  rename_i running
  refine ⟨by simpa using running, ?_⟩
  cases a with
  | accept req uuid =>
    simp only at stepped
    split at stepped
    · cases stepped
    split at stepped
    · rename_i at_
      split at stepped <;> cases stepped
      · exact .refuse at_ ‹_›
      · exact .proceed at_ ‹_›
    · cases stepped
  | server o => exact server_cases stepped
  | loop o => exact loop_cases stepped
  | onAsync =>
    simp only at stepped
    split at stepped <;> cases stepped
    rename_i ready
    exact .onAsync ready.1 ready.2
  | onConnect c status =>
    obtain ⟨at_, cl, live, run⟩ := callback_eq_some stepped
    split at run
    · cases run
    rename_i may
    simp only [not_or, not_not, not_and] at may
    obtain ⟨requested, cancelled, free⟩ := may
    split at run <;> cases run
    · rename_i connects
      have status : status = 0 := by
        simp only [Client.connects, Bool.and_eq_true, decide_eq_true_eq] at connects
        exact connects.1
      have open_ : cl.handle ≠ .closing := fun closing => cancelled closing status
      exact .onConnect at_ live requested open_ (Bool.eq_false_iff.mpr free) connects
    · exact .onConnectFail at_ live requested (Bool.eq_false_iff.mpr free)
        (Bool.eq_false_iff.mpr ‹_›)
  | onRead c data =>
    obtain ⟨at_, cl, live, run⟩ := callback_eq_some stepped
    split at run
    · cases run
    rename_i may
    simp only [not_or, not_not] at may
    obtain ⟨reading, open_, -⟩ := may
    simp only [Sys.onRead, Option.some.injEq] at run
    split at run
    · rename_i other
      cases run
      exact .onReadIgnore at_ live reading open_ (.inl other)
    · rename_i connected
      have connected : cl.state = .connected := not_not.mp connected
      split at run <;> cases run
      · exact .onReadHangUp at_ live reading open_ connected
      · exact .onReadIgnore at_ live reading open_ (.inr rfl)
      · rename_i chunk nonempty
        exact .onRead at_ live reading open_ connected nonempty
  | onTimer =>
    simp only at stepped
    split at stepped <;> cases stepped
    exact .onTimer ‹_›
  | onDisconnect c =>
    obtain ⟨at_, cl, live, run⟩ := callback_eq_some stepped
    split at run <;> cases run
    rename_i may
    simp only [not_or, not_not] at may
    exact .onDisconnect at_ live may.1 (Bool.eq_false_iff.mpr may.2)
  | clock now =>
    cases stepped
    exact .clock

end LinearFcgi
