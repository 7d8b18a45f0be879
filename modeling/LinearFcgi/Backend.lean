import LinearFcgi.Bytes

/-! What the server uses of mod_websocket's configuration, and how it selects a
backend from it. Whether a pattern accepts a text is a parameter: the sign of
`pcre_exec` in one build of the program, string equality in the other. -/
namespace LinearFcgi

/-- `MOD_WEBSOCKET_BACKEND_PROTOCOL_…`. -/
inductive Protocol where
  | tcp
  | websocket
  deriving DecidableEq

/-- `mod_websocket_backend_t`; an absent origin list is the empty one. -/
structure Backend where
  host : Bytes
  port : Nat
  proto : Protocol
  origins : List Bytes
  deriving DecidableEq

/-- `mod_websocket_resource_t`. -/
structure Resource where
  key : Bytes
  backend : Backend

/-- `mod_websocket_config_t`. -/
abbrev Config := List Resource

section

variable (accepts : Bytes → Bytes → Bool)

/-- `Server::isAllowOrigin`. -/
def isAllowOrigin (origin : Bytes) (allowOrigins : List Bytes) : Bool :=
  if origin = [] ∨ allowOrigins = [] then true
  else allowOrigins.any fun allowOrigin => accepts allowOrigin origin

/-- The loop of `getBackend` over the resources: the first whose key accepts
the channel decides. -/
def selectBackend (channel origin : Bytes) : List Resource → Option Backend
  | [] => none
  | resource :: rest =>
    if accepts resource.key channel then
      if resource.backend.proto = .websocket then none
      else if isAllowOrigin accepts origin resource.backend.origins then some resource.backend
      else none
    else selectBackend channel origin rest

/-- `Server::getBackend`. -/
def getBackend (config : Option Config) (channel origin : Bytes) : Option Backend :=
  match config with
  | none => none
  | some resources => if channel = [] then none else selectBackend accepts channel origin resources

end

end LinearFcgi
