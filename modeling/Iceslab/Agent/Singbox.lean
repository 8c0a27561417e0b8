import Iceslab.Lib.Base64
import Iceslab.Lib.Checked
import Iceslab.Lib.GoText
import Iceslab.Lib.JsText
import Iceslab.Lib.OrderedMap

/-!
# The config of a sing-box process

`config.go`, `multi.go` and the pushed inbounds of `adapter.go` of `internal/core/singbox`: one
process for every inbound of a protocol, each drawn alone and joined with the others.

* `parseInbound` — a pushed inbound, by protocol.
* `Install.render` — the config of one inbound.
* `Install.renderAll` — the config of everything held.
-/

set_option autoImplicit false

namespace Iceslab.Agent.Singbox

open Checked (bind_eq_ok pure_eq_ok)

inductive Protocol
  | tuic
  | anytls
  | xray
  | hysteria
  | shadowsocks
  | shadowtls
deriving DecidableEq

/-! ## Inbounds -/

structure InboundConfig where
  listenPort : Int := 0
  serverName : String := ""
  congestionControl : String := ""
  subprotocol : String := ""
  realityDest : String := ""
  realityServerName : String := ""
  realityPrivateKey : String := ""
  realityShortIDsCSV : String := ""
  realityMaxTimeDiff : Int := 0
  flow : String := ""
  obfsPassword : String := ""
  masqueradeURL : String := ""
  brutalUpMbps : Int := 0
  brutalDownMbps : Int := 0
  method : String := ""
  serverPSK : String := ""
  shadowtlsHandshake : String := ""
deriving DecidableEq

/-- The keys of a pushed config; each protocol reads its own. -/
structure InboundWire where
  serverName : String := ""
  congestionControl : String := ""
  subprotocol : String := ""
  security : String := ""
  network : String := ""
  realityDest : String := ""
  realityServerNames : List String := []
  realityPrivateKey : String := ""
  realityShortIds : List String := []
  realityMaxTimeDiff : Int := 0
  realityMode : String := ""
  flow : String := ""
  /-- there is one, and it is not null -/
  cascade : Bool := false
  obfsPassword : String := ""
  masqueradeUrl : String := ""
  brutalUpMbps : Int := 0
  brutalDownMbps : Int := 0
  method : String := ""
  serverPsk : String := ""
  handshake : String := ""
  ssMethod : String := ""
  ssPassword : String := ""
deriving DecidableEq

inductive ParseRefusal
  | parse
  | subprotocol (name : String)
  | security (name : String)
  | selfSteal
  | transport (name : String)
  | cascade
  | required (key : String)
deriving DecidableEq

/-- `xrayFamilyWire.toInboundConfig` -/
def InboundWire.xrayFamily (w : InboundWire) (port : Int) : Except ParseRefusal InboundConfig :=
  let sub := if w.subprotocol = "" then "vless" else w.subprotocol
  if sub ≠ "vless" ∧ sub ≠ "vmess" ∧ sub ≠ "trojan" then .error (.subprotocol sub)
  else if w.security ≠ "" ∧ w.security ≠ "reality" then .error (.security w.security)
  else if w.realityMode = "self-steal" then .error .selfSteal
  else if w.network ≠ "" ∧ w.network ≠ "raw" then .error (.transport w.network)
  else if w.cascade then .error .cascade
  else if w.realityPrivateKey = "" then .error (.required "realityPrivateKey")
  else
    match w.realityServerNames with
    | [] => .error (.required "realityServerNames")
    | serverName :: _ =>
      if w.realityShortIds = [] then .error (.required "realityShortIds")
      else
        .ok {
          listenPort := port
          subprotocol := sub
          realityDest := w.realityDest
          realityServerName := serverName
          realityPrivateKey := w.realityPrivateKey
          realityShortIDsCSV := String.intercalate "," w.realityShortIds
          realityMaxTimeDiff := w.realityMaxTimeDiff
          flow := if sub = "vless" then w.flow else "" }

/-- `hy2FamilyWire.toInboundConfig` -/
def InboundWire.hy2Family (w : InboundWire) (port : Int) : InboundConfig where
  listenPort := port
  serverName := w.serverName
  obfsPassword := w.obfsPassword
  masqueradeURL := w.masqueradeUrl
  brutalUpMbps := w.brutalUpMbps
  brutalDownMbps := w.brutalDownMbps

/-- `ssFamilyWire.toInboundConfig` -/
def InboundWire.ssFamily (w : InboundWire) (port : Int) : Except ParseRefusal InboundConfig :=
  if w.method = "" then .error (.required "method")
  else if w.serverPsk = "" then .error (.required "serverPsk")
  else .ok { listenPort := port, method := w.method, serverPSK := w.serverPsk }

/-- `shadowtlsWire.toInboundConfig` -/
def InboundWire.shadowtls (w : InboundWire) (port : Int) : Except ParseRefusal InboundConfig :=
  if w.handshake = "" then .error (.required "handshake")
  else if w.ssPassword = "" then .error (.required "ssPassword")
  else
    .ok {
      listenPort := port
      shadowtlsHandshake := w.handshake
      method := if w.ssMethod = "" then "2022-blake3-aes-128-gcm" else w.ssMethod
      serverPSK := w.ssPassword }

/-- `parseInbound`, none where the config does not parse for the protocol. -/
def parseInbound (protocol : Protocol) (port : Int) :
    Option InboundWire → Except ParseRefusal InboundConfig
  | none => .error .parse
  | some w =>
    match protocol with
    | .xray => w.xrayFamily port
    | .hysteria => .ok (w.hy2Family port)
    | .shadowsocks => w.ssFamily port
    | .shadowtls => w.shadowtls port
    | .tuic | .anytls =>
      .ok { listenPort := port, serverName := w.serverName
            congestionControl := w.congestionControl }

abbrev Inbounds := OrderedMap String InboundConfig

/-- `sortedHeld` -/
def sortedHeld (inbounds : Inbounds) : List (String × InboundConfig) :=
  inbounds.entries.insertionSort fun a b => a.1 ≤ b.1

/-! ## Users -/

structure UserEntry where
  uuid : String
  password : String
  username : String
  /-- the inbound ids, sorted and joined by commas; empty is every inbound -/
  inbounds : String
deriving DecidableEq

abbrev Users := OrderedMap String UserEntry

def UserEntry.servesOn (u : UserEntry) (id : String) : Bool :=
  decide (u.inbounds = "") || decide (id ∈ JsText.split ',' u.inbounds)

/-- The users drawn on an inbound, in the order of their ids. -/
def usersOn (users : Users) (id : String) : List (String × UserEntry) :=
  (users.entries.filter fun u => u.2.servesOn id).insertionSort fun a b => a.1 ≤ b.1

/-! ## The document -/

structure SbUser where
  name : String
  uuid : String := ""
  password : String := ""
  flow : String := ""
  alterId : Option Int := none
deriving DecidableEq

structure SbReality where
  server : String
  serverPort : Int
  privateKey : String
  shortID : List String
  maxTimeDifference : String
deriving DecidableEq

structure SbTLS where
  serverName : String
  alpn : List String := []
  certificatePath : String := ""
  keyPath : String := ""
  reality : Option SbReality := none
deriving DecidableEq

structure SbInbound where
  type : String
  tag : String
  listen : String := "0.0.0.0"
  listenPort : Option Int := none
  users : List SbUser := []
  congestionControl : String := ""
  tls : Option SbTLS := none
  method : String := ""
  password : String := ""
  managed : Bool := false
  upMbps : Int := 0
  downMbps : Int := 0
  ignoreClientBandwidth : Bool := false
  obfs : Option String := none
  masquerade : String := ""
  handshake : Option (String × Int) := none
  detour : Option String := none
deriving DecidableEq

/-- The ssm-api service: where it listens, and the inbound of each of its paths. -/
structure SsmService where
  listen : String
  listenPort : Int
  servers : List (String × String)
deriving DecidableEq

/-- The v2ray_api: where it listens, and the users it counts. -/
structure StatsApi where
  listen : String
  users : List String
deriving DecidableEq

/-- A config; its log and its direct outbound are always the same. -/
structure Doc where
  inbounds : List SbInbound
  service : Option SsmService
  stats : Option StatsApi
deriving DecidableEq

/-! ## One inbound -/

/-- What the adapter was started with.  `sha256` is of a text, and `countsUsers` what the binary says
of its build. -/
structure Install where
  protocol : Protocol
  binary : Bool
  certPath : String
  keyPath : String
  statsListen : String
  ssmListen : String
  countsUsers : Bool
  sha256 : String → List Nat

/-- `core.DeriveSsPassword` -/
def Install.deriveSsPassword (inst : Install) (uuid method : String) : String :=
  let keyLen := if method = "2022-blake3-aes-128-gcm" then 16 else 32
  Base64.encode ((inst.sha256 (uuid ++ ":ss")).take keyLen)

/-- `splitHostPort` -/
def splitHostPort (hostPort : String) (defPort : Int) : String × Int :=
  if hostPort = "" then ("", defPort)
  else
    match GoText.splitHostPort hostPort with
    | none => (hostPort, defPort)
    | some (host, portText) =>
      match GoText.atoi portText with
      | none => (host, defPort)
      | some port => (host, if port = 0 then defPort else port)

/-- `splitCSV` -/
def splitCSV (s : String) : List String :=
  if s = "" then [] else ((JsText.split ',' s).map GoText.trimSpace).filter (· ≠ "")

inductive RenderRefusal
  | ssmListen (listen : String)
  | noInbound
deriving DecidableEq

section OneInbound

variable (inst : Install) (statsListen : String) (inbound : InboundConfig)
  (users : List (String × UserEntry))

/-- The v2ray_api block, none where nothing listens. -/
def statsBlock (ids : List String) : Option StatsApi :=
  if statsListen = "" then none else some ⟨statsListen, ids⟩

def certTLS (serverName : String) (alpn : List String) : SbTLS where
  serverName := serverName
  alpn := alpn
  certificatePath := inst.certPath
  keyPath := inst.keyPath

/-- `renderConfig` -/
def renderConfig : Doc where
  inbounds := [{
    type := "tuic", tag := "tuic-in", listenPort := some inbound.listenPort
    users := users.map fun u => { name := u.1, uuid := u.2.uuid, password := u.2.password }
    congestionControl := if inbound.congestionControl = "" then "bbr" else inbound.congestionControl
    tls := some (certTLS inst inbound.serverName ["h3"]) }]
  service := none
  stats := statsBlock statsListen (users.map Prod.fst)

def renderAnytlsConfig : Doc where
  inbounds := [{
    type := "anytls", tag := "anytls-in", listenPort := some inbound.listenPort
    users := users.map fun u => { name := u.1, password := u.2.password }
    tls := some (certTLS inst inbound.serverName []) }]
  service := none
  stats := statsBlock statsListen (users.map Prod.fst)

/-- A user of an xray-family inbound: trojan by password, vmess and vless by uuid. -/
def xrayFamilyUser (sub flow : String) (u : String × UserEntry) : SbUser :=
  if sub = "trojan" then { name := u.1, password := u.2.password }
  else if sub = "vmess" then { name := u.1, uuid := u.2.uuid, alterId := some 0 }
  else { name := u.1, uuid := u.2.uuid, flow := flow }

def renderXrayFamilyConfig : Doc :=
  let sub := if inbound.subprotocol = "" then "vless" else inbound.subprotocol
  let dest := splitHostPort inbound.realityDest 443
  { inbounds := [{
      type := sub, tag := sub ++ "-in", listenPort := some inbound.listenPort
      users := users.map (xrayFamilyUser sub inbound.flow)
      tls := some {
        serverName := inbound.realityServerName
        reality := some {
          server := dest.1, serverPort := dest.2
          privateKey := inbound.realityPrivateKey
          shortID := splitCSV inbound.realityShortIDsCSV
          maxTimeDifference :=
            if 0 < inbound.realityMaxTimeDiff then toString inbound.realityMaxTimeDiff ++ "ms"
            else "" } } }]
    service := none
    stats := statsBlock statsListen (users.map Prod.fst) }

def renderHysteria2Config : Doc where
  inbounds := [{
    type := "hysteria2", tag := "hy2-in", listenPort := some inbound.listenPort
    users := users.map fun u => { name := u.1, password := u.2.password }
    ignoreClientBandwidth := inbound.brutalUpMbps = 0 ∧ inbound.brutalDownMbps = 0
    tls := some (certTLS inst inbound.serverName [])
    upMbps := max inbound.brutalUpMbps 0
    downMbps := max inbound.brutalDownMbps 0
    obfs := if inbound.obfsPassword = "" then none else some inbound.obfsPassword
    masquerade := inbound.masqueradeURL }]
  service := none
  stats := statsBlock statsListen (users.map Prod.fst)

/-- A shadowtls inbound in front of a shadowsocks one on loopback. -/
def renderShadowtlsConfig : Doc where
  inbounds := [
    { type := "shadowtls", tag := "shadowtls-in", listenPort := some inbound.listenPort
      users := users.map fun u => { name := u.1, password := u.2.password }
      handshake := some (splitHostPort inbound.shadowtlsHandshake 443)
      detour := some "shadowtls-ss-in" },
    { type := "shadowsocks", tag := "shadowtls-ss-in", listen := "127.0.0.1"
      method := inbound.method, password := inbound.serverPSK }]
  service := none
  stats := statsBlock statsListen (users.map Prod.fst)

/-- The users of a shadowsocks inbound, none where they are handed over the ssm-api. -/
def shadowsocksInbound (managed : Bool) : SbInbound where
  type := "shadowsocks"
  tag := "ss-in"
  listenPort := some inbound.listenPort
  method := inbound.method
  password := inbound.serverPSK
  managed := managed
  users := if managed then [] else users.map fun u =>
    { name := u.1, password := inst.deriveSsPassword u.2.password inbound.method }

def renderShadowsocksConfig : Except RenderRefusal Doc :=
  if inst.ssmListen = "" then
    .ok {
      inbounds := [shadowsocksInbound inst inbound users false]
      service := none
      stats := statsBlock statsListen (users.map Prod.fst) }
  else
    match (GoText.splitHostPort inst.ssmListen).bind fun p =>
        (GoText.atoi p.2).map fun port => (p.1, port) with
    | none => .error (.ssmListen inst.ssmListen)
    | some (host, port) =>
      .ok {
        inbounds := [shadowsocksInbound inst inbound users true]
        service := some ⟨host, port, [("/", "ss-in")]⟩
        stats := none }

/-- `render` -/
def Install.render : Except RenderRefusal Doc :=
  let statsListen := if inst.countsUsers then inst.statsListen else ""
  match inst.protocol with
  | .anytls => .ok (renderAnytlsConfig inst statsListen inbound users)
  | .xray => .ok (renderXrayFamilyConfig statsListen inbound users)
  | .hysteria => .ok (renderHysteria2Config inst statsListen inbound users)
  | .shadowsocks => renderShadowsocksConfig inst statsListen inbound users
  | .shadowtls => .ok (renderShadowtlsConfig statsListen inbound users)
  | .tuic => .ok (renderConfig inst statsListen inbound users)

end OneInbound

/-! ## Every inbound -/

/-- `ssmPath` -/
def ssmPath (id : String) : String := if id = "" then "/" else "/" ++ id

/-- `tagSuffix` -/
def tagSuffix (id : String) : String := if id = "" then "" else "-" ++ id

/-- An inbound with its tags told apart from those of the others. -/
def SbInbound.suffixed (i : SbInbound) (suffix : String) : SbInbound :=
  { i with tag := i.tag ++ suffix, detour := i.detour.map (· ++ suffix) }

/-- Each held inbound drawn alone. -/
def Install.drawn (inst : Install) (users : Users) :
    List (String × InboundConfig) → Except RenderRefusal (List (String × Doc))
  | [] => .ok []
  | h :: held => do
    let doc ← inst.render h.2 (usersOn users h.1)
    let docs ← inst.drawn users held
    return (h.1, doc) :: docs

/-- The drawn inbounds joined: the first document's v2ray_api counts the users of all, and the last
document's service serves all. -/
def joined (docs : List (String × Doc)) : Doc where
  inbounds := docs.flatMap fun d => d.2.inbounds.map (·.suffixed (tagSuffix d.1))
  service := (docs.filterMap fun d => d.2.service).getLast?.map fun service =>
    { service with
      servers := docs.filterMap fun d =>
        d.2.service.map fun _ => (ssmPath d.1, "ss-in" ++ tagSuffix d.1) }
  stats := (docs.head?.bind fun d => d.2.stats).map fun stats =>
    { stats with
      users := (docs.flatMap fun d =>
        (d.2.stats.map StatsApi.users).getD []).eraseDups.insertionSort (· ≤ ·) }

/-- `renderAll` -/
def Install.renderAll (inst : Install) (held : List (String × InboundConfig)) (users : Users) :
    Except RenderRefusal Doc := do
  let docs ← inst.drawn users held
  if docs = [] then throw .noInbound
  return joined docs

end Iceslab.Agent.Singbox
