import LinearFcgi.Bytes

/-! `linear_fcgi_env`, `linear_fcgi_queries` and `linear_fcgi_request`: how one
accepted request becomes a `Request`. What outlives a request is explicit: the
function-static string of `getQueryString` and the thread's `errno`. -/
namespace LinearFcgi

/-! ## Env -/

/-- `Env::Ident`. -/
inductive Env.Ident where
  | requestMethod
  | remoteHost
  | remoteAddr
  | remotePort
  | contentType
  | contentLength
  | httpCookie
  | httpOrigin
  | httpUserAgent
  | queryString
  deriving DecidableEq

/-- `LINEAR_FCGI_ENV_MAP`. -/
def Env.Ident.name : Env.Ident → String
  | .requestMethod => "REQUEST_METHOD"
  | .remoteHost => "REMOTE_HOST"
  | .remoteAddr => "REMOTE_ADDR"
  | .remotePort => "REMOTE_PORT"
  | .contentType => "CONTENT_TYPE"
  | .contentLength => "CONTENT_LENGTH"
  | .httpCookie => "HTTP_COOKIE"
  | .httpOrigin => "HTTP_ORIGIN"
  | .httpUserAgent => "HTTP_USER_AGENT"
  | .queryString => "QUERY_STRING"

/-- `Env::get`: an unset variable reads as the empty string. -/
def Env.get (getenv : String → Option Bytes) (ident : Env.Ident) : Bytes :=
  match getenv ident.name with
  | some cptr => cString cptr
  | none => []

/-! ## Queries -/

/-- `std::map<std::string, std::string> queries_`. -/
abbrev Queries := Bytes → Option Bytes

namespace Queries

def sessionId : Bytes := ascii "sid"
def channel : Bytes := ascii "ch"
def command : Bytes := ascii "c"
def data : Bytes := ascii "data"
def callback : Bytes := ascii "f"

/-- `Queries::split`: `getline` on `'&'`, which yields a last segment only if
it is not empty. `tmp` is the segment read so far. -/
def splitFrom (tmp : Bytes) : Bytes → List Bytes
  | [] => if tmp = [] then [] else [tmp]
  | c :: rest => if c = 38 then tmp :: splitFrom [] rest else splitFrom (tmp ++ [c]) rest

def split (data : Bytes) : List Bytes := splitFrom [] data

/-- `queries_.insert(make_pair(key, val))`, which keeps an earlier value. -/
def insert (queries : Queries) (key val : Bytes) : Queries :=
  if (queries key).isSome then queries else Function.update queries key (some val)

/-- The loop body of `Queries::parse`. -/
def parseWord (queries : Queries) (word : Bytes) : Queries :=
  match word.idxOf? 61 with
  | some pos => queries.insert (word.take pos) (word.drop (pos + 1))
  | none => queries

/-- `Queries::Queries(data)`. -/
def parse (data : Bytes) : Queries := (split data).foldl parseWord fun _ => none

/-- What the five getters share: a missing key reads as the empty string. -/
def find (queries : Queries) (key : Bytes) : Bytes := (queries key).getD []

def getSessionId (queries : Queries) : Bytes := queries.find sessionId
def getChannel (queries : Queries) : Bytes := queries.find channel
def getCommand (queries : Queries) : Bytes := queries.find command
def getData (queries : Queries) : Bytes := queries.find data
def getCallback (queries : Queries) : Bytes := queries.find callback

end Queries

/-! ## Request -/

inductive Method where
  | get
  | post
  | unknown
  deriving DecidableEq

/-- A `Request` after `create`, which fills in every variable. -/
structure Request where
  envs : Env.Ident → Bytes
  queries : Queries

namespace Request

def methodOf (envs : Env.Ident → Bytes) : Method :=
  if envs .requestMethod = ascii "GET" then .get
  else if envs .requestMethod = ascii "POST" then .post
  else .unknown

def getMethod (req : Request) : Method := methodOf req.envs
def getOrigin (req : Request) : Bytes := req.envs .httpOrigin
def getQueries (req : Request) : Queries := req.queries

end Request

def ERANGE : Nat := 34
def ENOMEM : Nat := 12

/-- What the process keeps from one request to the next. -/
structure Process where
  /-- `static std::string data` of `getQueryString` -/
  data : Bytes
  errno : Nat

/-- A process before its first request. -/
def Process.start : Process := ⟨[], 0⟩

/-- One accepted request, with the answers the C library gives while it is
read. -/
structure Incoming where
  getenv : String → Option Bytes
  /-- the bytes `FCGI_stdin` will deliver -/
  stdin : Bytes
  /-- whether `malloc` of that many bytes succeeds -/
  malloc : Nat → Bool
  /-- what the calls since the previous request left in `errno`, if they set it -/
  errno : Option Nat

namespace Incoming

def envs (i : Incoming) : Env.Ident → Bytes := Env.get i.getenv

def method (i : Incoming) : Method := Request.methodOf i.envs

end Incoming

section

-- `FCGI_fread(buf, siz, 1, FCGI_stdin)` of libfcgi: the bytes it stored when it
-- returned 1, and `none` when it returned 0.
variable (fread : Nat → Bytes → Option Bytes)

/-- `Request::getQueryString`, with the state it leaves behind. The result is
`none` when the buffer is cleared beyond its end. -/
def Request.getQueryString (p : Process) (i : Incoming) : Option (Bytes × Process) :=
  match i.method with
  | .get => some (i.envs .queryString, p)
  | .post =>
    let (length, overflow) := strtol (i.envs .contentLength)
    let siz := toSize length
    let p := if overflow then { p with errno := ERANGE } else p
    if p.errno = ERANGE then some (p.data, p)
    else if ¬ i.malloc ((siz + 1) % 2 ^ 64) then some (p.data, { p with errno := ENOMEM })
    else if (siz + 1) % 2 ^ 64 < siz then none
    else match fread siz i.stdin with
      | none => some (p.data, p)
      | some query_string => some (cString query_string, { p with data := cString query_string })
  | .unknown => some (p.data, p)

/-- `Request::create`. -/
def Request.create (p : Process) (i : Incoming) : Option (Request × Process) :=
  (Request.getQueryString fread { p with errno := i.errno.getD p.errno } i).map
    fun (text, p') => (⟨i.envs, Queries.parse text⟩, p')

end

example : (Queries.parse (ascii "sid=7&x&c=poll&c=a=b")).getCommand = ascii "poll" := by decide

end LinearFcgi
