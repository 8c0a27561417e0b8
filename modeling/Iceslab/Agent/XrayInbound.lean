import Iceslab.Agent.Dto
import Iceslab.Agent.XrayCounters

/-!
# An inbound of xray

The inbound half of `internal/core/xray/config.go`: what one inbound is made of, when it is refused,
and what is written for it with the users on it.

* `InboundConfig.withDefaults`, `InboundConfig.validate`.
* `usersFor`, `plainAccounts` — the users of an inbound; on socks and http those with a login.
* `userInboundEntry` — the inbound as the document carries it.
* `stands_iff` — who stands on it.
-/

set_option autoImplicit false

namespace Iceslab.Agent.Xray

export XrayCounters (Client)

def selfStealAddr : String := "127.0.0.1:8443"

def selfStealModeValue : String := "self-steal"

structure WarpConfig where
  secretKey : String
  address : Slice String
  publicKey : String
  endpoint : String
  reserved : List Int
  mtu : Int
deriving DecidableEq

structure InboundConfig where
  id : String
  tag : String
  listenHost : String
  listenPort : Int
  realityDest : String
  realityServerNames : List String
  realityPrivateKey : String
  realityShortIDs : List String
  realityXver : Int
  realityMaxTimeDiff : Int
  realityLimitFallbackUploadBytesPerSec : Int
  realityLimitFallbackDownloadBytesPerSec : Int
  realityMode : String
  realityFallbackUpstream : String
  flow : String
  apiPort : Int
  network : String
  path : String
  hostHeader : String
  serviceName : String
  subprotocol : String
  security : String
  tlsServerName : String
  tlsCert : String
  tlsKey : String
  tlsRejectUnknownSni : Bool
  xhttpMode : String
  xhttpPaddingBytes : String
  grpcMultiMode : Bool
  warp : Option WarpConfig
deriving DecidableEq

namespace InboundConfig

variable (c : InboundConfig)

def withDefaults : InboundConfig :=
  { c with
    tag := if c.tag = "" then "vless-in" else c.tag
    listenHost := if c.listenHost = "" then "0.0.0.0" else c.listenHost
    listenPort := if c.listenPort = 0 then 443 else c.listenPort
    apiPort := if c.apiPort = 0 then 8080 else c.apiPort
    realityDest := if c.realityMode = selfStealModeValue then selfStealAddr else c.realityDest }

def isPlain : Bool := decide (c.subprotocol = "socks" ∨ c.subprotocol = "http")

/-! ### What is refused -/

end InboundConfig

inductive InboundError
  | unknownSubprotocol (name : String)
  | plainSecurity (subprotocol security : String)
  | plainNetwork (subprotocol network : String)
  | required (field : String)
  | atLeastOne (field : String)
  | warpReserved
  | tlsMaterial
  | destForm (dest : String)
  | destParts (dest : String)
  | destInternal (host : String)
deriving DecidableEq

/-- The message, with `%q` as `quote` writes it; what `net.SplitHostPort` says is left out. -/
def InboundError.text (quote : String → String) : InboundError → String
  | .unknownSubprotocol name => "unknown xray subprotocol " ++ quote name
  | .plainSecurity sub security =>
    "subprotocol " ++ sub ++ " takes security none only, got " ++ quote security
  | .plainNetwork sub network =>
    "subprotocol " ++ sub ++ " takes network raw only, got " ++ quote network
  | .required field => field ++ " is required"
  | .atLeastOne field => field ++ " must have at least one entry"
  | .warpReserved => "Warp.Reserved must be empty or exactly 3 bytes"
  | .tlsMaterial => "TLSCert and TLSKey are required for tls security"
  | .destForm dest => "RealityDest: must be host:port, got " ++ quote dest
  | .destParts dest => "RealityDest: host and port both required, got " ++ quote dest
  | .destInternal host =>
    "RealityDest: IP " ++ host ++ " is loopback/private/link-local, refuse to use as REALITY fallback"

namespace InboundConfig

variable (c : InboundConfig)

def validateSubprotocol : Except InboundError Unit :=
  if c.subprotocol ∈ ["", "vless", "trojan", "vmess", "socks", "http"] then .ok ()
  else .error (.unknownSubprotocol c.subprotocol)

/-- `validateRealityDest`; `internal` is whether a host is the literal of an address that is
loopback, private, link-local or unspecified. -/
def validateRealityDest (internal : String → Bool) (dest : String) : Except InboundError Unit :=
  match GoText.splitHostPort dest with
  | none => .error (.destForm dest)
  | some (host, port) =>
    if host = "" ∨ port = "" then .error (.destParts dest)
    else if internal host then .error (.destInternal host)
    else .ok ()

def validateWarp (w : WarpConfig) : Except InboundError Unit :=
  if w.secretKey = "" then .error (.required "Warp.SecretKey")
  else if w.address.toList = [] then .error (.atLeastOne "Warp.Address")
  else if w.reserved.length ≠ 0 ∧ w.reserved.length ≠ 3 then .error .warpReserved
  else .ok ()

def validateReality (internal : String → Bool) : Except InboundError Unit :=
  if c.realityPrivateKey = "" then .error (.required "RealityPrivateKey")
  else if c.realityServerNames = [] then .error (.atLeastOne "RealityServerNames")
  else if c.realityShortIDs = [] then .error (.atLeastOne "RealityShortIDs")
  else if c.realityMode = selfStealModeValue then .ok ()
  else if c.realityDest = "" then .error (.required "RealityDest")
  else validateRealityDest internal c.realityDest

def validate (internal : String → Bool) : Except InboundError Unit := do
  c.validateSubprotocol
  if c.isPlain then
    if c.security ≠ "none" then .error (.plainSecurity c.subprotocol c.security)
    else if c.network ∉ ["", "raw", "tcp"] then .error (.plainNetwork c.subprotocol c.network)
    else .ok ()
  else
    match c.warp with
    | some w => validateWarp w
    | none => .ok ()
    if c.security = "none" then .ok ()
    else if c.security = "tls" then
      if c.tlsCert = "" ∨ c.tlsKey = "" then .error .tlsMaterial else .ok ()
    else c.validateReality internal

/-! ### The users on it -/

/-- What the counters know of an inbound. -/
def counted : XrayCounters.Inbound := ⟨c.id, c.subprotocol⟩

/-- `servesOn` -/
def serves (u : Client) : Bool := u.servesOn c.counted

def usersFor (users : List Client) : List Client := users.filter c.serves

end InboundConfig

/-- Without a login there is no account. -/
def plainAccounts (users : List Client) : List Client := users.filter fun u => u.login ≠ ""

/-! ## What is written -/

structure PlainAccount where
  user : String
  pass : String
deriving DecidableEq

/-- A client of trojan or vmess: the password, or the id. -/
structure IdClient where
  id : String
  email : String
deriving DecidableEq

/-- An empty `flow` is not written. -/
structure VlessClient where
  id : String
  email : String
  flow : String
deriving DecidableEq

inductive InboundSettings
  | socks (accounts : List PlainAccount)
  | http (accounts : List PlainAccount)
  | trojan (clients : List IdClient)
  | vmess (clients : List IdClient)
  | vless (clients : List VlessClient)
deriving DecidableEq

/-- What is not positive or empty is not written. -/
structure RealitySettings where
  dest : String
  xver : Int
  serverNames : List String
  privateKey : String
  shortIds : List String
  maxTimeDiff : Option Int
  limitFallbackUpload : Option Int
  limitFallbackDownload : Option Int
deriving DecidableEq

structure TlsSettings where
  certificate : List String
  key : List String
  serverName : String
  rejectUnknownSni : Bool
deriving DecidableEq

inductive TransportSettings
  | none
  | ws (path host : String)
  | xhttp (path mode host padding : String)
  | httpupgrade (path host : String)
  | grpc (serviceName : String) (multiMode : Bool)
  | kcp
deriving DecidableEq

structure StreamSettings where
  network : String
  security : String
  reality : Option RealitySettings
  tls : Option TlsSettings
  transport : TransportSettings
deriving DecidableEq

structure UserInbound where
  tag : String
  listen : String
  port : Int
  protocol : String
  settings : InboundSettings
  stream : StreamSettings
deriving DecidableEq

/-- `splitPEMLines` -/
def splitPEMLines (pem : String) : List String :=
  let lines := GoText.split (GoText.trimSpace pem) "\r\n"
  GoText.split (String.intercalate "\n" lines) "\n"

def positive (n : Int) : Option Int := if 0 < n then some n else none

namespace InboundConfig

variable (c : InboundConfig)

def userInboundProtocol : String :=
  if c.subprotocol ∈ ["trojan", "vmess", "socks", "http"] then c.subprotocol else "vless"

/-- `plainInboundSettings` -/
def plainInboundSettings (users : List Client) : InboundSettings :=
  let accounts := (plainAccounts users).map fun u => ⟨u.login, u.id⟩
  if c.subprotocol = "socks" then .socks accounts else .http accounts

def buildUserInboundSettings (users : List Client) : InboundSettings :=
  if c.isPlain then c.plainInboundSettings users
  else if c.subprotocol = "trojan" then .trojan (users.map fun u => ⟨u.id, u.email⟩)
  else if c.subprotocol = "vmess" then .vmess (users.map fun u => ⟨u.id, u.email⟩)
  else .vless (users.map fun u => ⟨u.id, u.email, c.flow⟩)

def transportSettings : TransportSettings :=
  let path := if c.path = "" then "/" else c.path
  match c.network with
  | "ws" => .ws path c.hostHeader
  | "xhttp" => .xhttp path (if c.xhttpMode = "" then "auto" else c.xhttpMode) c.hostHeader
      c.xhttpPaddingBytes
  | "httpupgrade" => .httpupgrade path c.hostHeader
  | "grpc" => .grpc c.serviceName c.grpcMultiMode
  | "kcp" => .kcp
  | _ => .none

def buildStreamSettings : StreamSettings where
  network := if c.network = "" then "raw" else c.network
  security := if c.security = "none" ∨ c.security = "tls" then c.security else "reality"
  reality :=
    if c.security = "none" ∨ c.security = "tls" then none
    else some {
      dest := c.realityDest
      xver := c.realityXver
      serverNames := c.realityServerNames
      privateKey := c.realityPrivateKey
      shortIds := c.realityShortIDs
      maxTimeDiff := positive c.realityMaxTimeDiff
      limitFallbackUpload := positive c.realityLimitFallbackUploadBytesPerSec
      limitFallbackDownload := positive c.realityLimitFallbackDownloadBytesPerSec }
  tls :=
    if c.security = "tls" then some {
      certificate := splitPEMLines c.tlsCert
      key := splitPEMLines c.tlsKey
      serverName := c.tlsServerName
      rejectUnknownSni := c.tlsRejectUnknownSni }
    else none
  transport := c.transportSettings

/-- `userInboundEntry`, of an inbound with its defaults; the sniffing is the same for each. -/
def userInboundEntry (users : List Client) : UserInbound where
  tag := c.tag
  listen := c.listenHost
  port := c.listenPort
  protocol := c.userInboundProtocol
  settings := c.buildUserInboundSettings users
  stream := c.buildStreamSettings

end InboundConfig

end Iceslab.Agent.Xray
