import LinearFcgi.Library.Fifo
import LinearFcgi.Queue
import LinearFcgi.UrlCodec

/-! `linear_fcgi_client`: one session's connection to its backend. Each section
of the source between `lock()` and `unlock()` is a function of the client here;
the threads of `System` put them together. A queue operation is one step, as
`Queue.lossless_fifo` allows. -/
namespace LinearFcgi

/-- `Client::State`. -/
inductive Client.State where
  | connecting
  | failConnect
  | connected
  | disconnecting
  | disconnected
  deriving DecidableEq

/-- The life of a `uv_tcp_t`. -/
inductive Client.Handle where
  | unset
  | init
  | closing
  deriving DecidableEq

structure Client where
  id : Bytes
  host : Bytes
  port : Nat
  state : Client.State
  allowOrigins : List Bytes
  /-- `none` until it is first assigned -/
  lastAccess : Option Int
  timeout : Int
  /-- `state_mutex_` is held from one step to the next -/
  stateMutex : Bool
  handle : Client.Handle
  /-- a `uv_connect_t` is with libuv -/
  connectReq : Bool
  /-- `uv_read_start` is in effect -/
  reading : Bool
  readQueue : List Bytes
  writeQueue : List Bytes
  deriving DecidableEq

/-- How the calls a step makes turn out. -/
inductive Outcome where
  | ok
  /-- `malloc` or `realloc` returns `NULL`, or `new` throws -/
  | noMemory
  /-- the `malloc` in a copy of a `tcp_buffer_t` returns `NULL`, which nobody looks at -/
  | noCopy
  /-- `uv_tcp_init` fails -/
  | noHandle
  /-- `getaddrinfo` fails -/
  | noAddress
  /-- `uv_tcp_connect` fails -/
  | refused
  /-- `pthread_cond_timedwait` reports an error -/
  | timedOut
  /-- memory that was never assigned reads as this -/
  | word (n : Int)
  deriving DecidableEq

def Outcome.garbage : Outcome → Int
  | .word n => n
  | _ => 0

namespace Client

/-- `Client::Client`. -/
def new (id : Bytes) (allowOrigins : List Bytes) (timeout : Int) : Client where
  id := id
  host := []
  port := 0
  state := .disconnected
  allowOrigins := allowOrigins
  lastAccess := none
  timeout := timeout
  stateMutex := false
  handle := .unset
  connectReq := false
  reading := false
  readQueue := []
  writeQueue := []

/-- What `Client::connect` returns at once, if it does. -/
def settled (cl : Client) : Option Bool :=
  match cl.state with
  | .connecting | .connected => some true
  | .disconnecting => some false
  | .failConnect | .disconnected => none

/-- `Client::connect` from there to the request it enqueues. -/
def prepare (cl : Client) (host : Bytes) (port : Nat) : Client :=
  { cl with host := host, port := port, stateMutex := true }

/-- `Client::connect` from there to the wait, which releases the mutex. -/
def await (cl : Client) : Client := { cl with state := .connecting, stateMutex := false }

/-- What `Client::connect` does when its wait is over. -/
inductive Wake where
  | connected
  | failConnect
  | timedOut
  | again
  deriving DecidableEq

def wake (cl : Client) (err : Bool) : Wake :=
  if cl.state = .connected then .connected
  else if cl.state = .failConnect then .failConnect
  else if err then .timedOut
  else .again

/-- The states in which `Client::disconnect` does nothing. -/
def idle (cl : Client) : Bool :=
  cl.state = .disconnecting || cl.state = .disconnected || cl.state = .failConnect

/-- The test of `Client::read`. -/
def readable (cl : Client) : Bool := cl.state = .connecting || cl.state = .connected

/-- The test of `Client::write`. -/
def writable (cl : Client) : Bool := ¬ (cl.state = .disconnecting || cl.state = .disconnected)

/-- `Client::_connect`. -/
def connect_ (cl : Client) (o : Outcome) : Client :=
  match o with
  | .noHandle => { cl with state := .failConnect }
  | .noMemory | .noAddress | .refused => { cl with handle := .init, state := .failConnect }
  | _ => { cl with handle := .init, connectReq := true }

/-- The test of `Client::onConnect`. -/
def connects (cl : Client) (status : Int) : Bool := status = 0 && cl.state = .connecting

/-- The test of `Client::onTimer` at the time `now`; `word` is what an
unassigned `last_access_` reads as. -/
def expired (cl : Client) (now word : Int) : Bool :=
  (cl.timeout ≤ now - cl.lastAccess.getD word &&
    (cl.state = .connected || cl.state = .connecting)) || cl.state = .failConnect

end Client
end LinearFcgi
