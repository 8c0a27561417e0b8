import Iceslab.ChainPolicy
import Iceslab.Topology

/-!
# The chain config of one node

`chain.config.ts`, with the ports and names of `chain.ports.ts` and the dial family of
`dial-family.ts`: one node's view of a cascade rendered as one sing-box config.

* `renderChainConfig` — inbounds, ways out and rules, by the node's role.
-/

set_option autoImplicit false

namespace Iceslab

open JsText

/-! ## Ports and names -/

def CHAIN_SOCKS_BASE : Nat := 26000

def CHAIN_TPROXY_PORT : Nat := 25000

/-- The socks user a hand-off arrives as. -/
def chainSocksUser (ordinal : Nat) : String := "p" ++ toString ordinal

def chainSocksPort (directionTag : Nat) : Nat := CHAIN_SOCKS_BASE + directionTag

def outTag (tag : Nat) : String := "out-d" ++ toString tag

def socksTag (tag : Nat) : String := "in-d" ++ toString tag

def TPROXY_IN_TAG : String := "in-tproxy"

/-- One leg inside a pooled direction. -/
def poolLegTag (tag idx : Nat) : String := outTag tag ++ "-" ++ toString idx

/-- The name a link credential carries. -/
def chainLinkUser (tag : Nat) : String := "lnk-d" ++ toString tag

def AUTO_TAG : Nat := 0

def CHAIN_PROBE_URL : String := "https://www.gstatic.com/generate_204"

def CHAIN_PROBE_INTERVAL : String := "1m"

def CHAIN_PROBE_TOLERANCE_MS : Nat := 50

def LINK_TLS_SERVER_NAME : String := "link.iceslab.local"

def LEG_DNS_TAG : String := "leg-dns"

/-! ## The input -/

inductive ChainRole where
  | entry
  | transit
  | exit
  deriving DecidableEq, Repr

/-- A leg out of this node, carrying one direction. -/
structure ChainLegOut where
  tag : Nat
  host : String
  cred : LinkCred
  /-- the tunnel interface the leg is bound to -/
  via : Option String := none
  deriving DecidableEq

inductive ForeignType where
  | vless
  | socks
  deriving DecidableEq, Repr

/-- A way out through a server that is not ours. -/
structure ChainForeignOut where
  tag : Nat
  type : ForeignType
  config : Json

structure ChainClient where
  tag : Nat
  uuid : Option String := none
  shortId : Option String := none
  deriving DecidableEq, Repr

/-- The leg this node receives on. -/
structure ChainLegIn where
  cred : LinkCred
  clients : List ChainClient
  /-- the addresses the listener binds -/
  listen : Option (List String) := none
  deriving DecidableEq

structure ChainWarp where
  privateKey : String
  address : List String
  publicKey : Option String := none
  endpoint : Option String := none
  reserved : Option (List Nat) := none
  mtu : Option Nat := none
  deriving DecidableEq, Repr

structure ExitPolicy where
  rules : List SbRule
  warp : Option ChainWarp := none

structure ChainRenderInput where
  role : ChainRole
  socksPassword : String
  directionTags : List Nat := []
  out : List ChainLegOut := []
  foreign : List ChainForeignOut := []
  legIn : Option ChainLegIn := none
  policies : List ChainPolicy := []
  ruleSets : List RuleSetDecl := []
  /-- the ordinal of the entry policy, where the users arrive by TPROXY -/
  tproxy : Option Nat := none
  exitPolicy : Option ExitPolicy := none
  selfHost : Option String := none

/-! ## Dialling -/

/-- The family a leg out of `selfHost` is pinned to. -/
def dialFamilyOf (selfHost : Option String) (peerHost : String) : Option Nat :=
  if selfHost.getD "" = "" ∨ isIP peerHost ≠ 0 then none
  else if isIP (selfHost.getD "") ≠ 0 then some (isIP (selfHost.getD "")) else none

def singboxDialFields (family : Nat) : String × String :=
  (LEG_DNS_TAG, if family = 4 then "ipv4_only" else "ipv6_only")

/-- PEM as an array of lines. -/
def pemLines (pem : String) : List String :=
  (split '\n' (trim pem)).map fun l =>
    if l.toList.getLast? = some '\r' then String.ofList l.toList.dropLast else l

def legTlsIn (tls : LinkTls) : LegTls :=
  { serverName := LINK_TLS_SERVER_NAME, certificate := pemLines tls.certPem,
    key := some (pemLines tls.keyPem) }

def legTlsOut (tls : LinkTls) : LegTls :=
  { serverName := LINK_TLS_SERVER_NAME, certificate := pemLines tls.certPem, key := none }

def VISION_FLOW : String := "xtls-rprx-vision"

/-- One leg out, one branch per cell. -/
def renderLegCell (leg : ChainLegOut) : OutboundKind :=
  match leg.cred with
  | .shadowsocks c => .shadowsocks leg.host c.port c.method c.psk
  | .hy2 c => .hysteria2 leg.host c.port c.authPassword c.obfsPassword (legTlsOut c.tls)
  | .tuic c => .tuic leg.host c.port c.uuid c.password c.congestion (legTlsOut c.tls)
  | .vless c => .vless leg.host c.port c.uuid (c.reality.map fun _ => VISION_FLOW)
      (c.reality.map fun r =>
        { serverName := r.serverName, publicKey := r.publicKey, shortId := r.shortId })

/-- The family a leg is pinned to; a leg inside a tunnel is not. -/
def legFamily (selfHost : Option String) (leg : ChainLegOut) : Option Nat :=
  if (truthy leg.via).isSome then none else dialFamilyOf selfHost leg.host

def renderLeg (selfHost : Option String) (tag : String) (leg : ChainLegOut) : Outbound :=
  { tag, kind := renderLegCell leg, bind_interface := truthy leg.via,
    domain_resolver := (legFamily selfHost leg).map singboxDialFields }

/-- A named outbound as a sing-box outbound. -/
def foreignOutbound (f : ChainForeignOut) : Outbound :=
  let c := f.config
  let copy (key from_ : String) : List (String × Json) := ((c.field from_).map (key, ·)).toList
  let string (key from_ : String) : List (String × Json) :=
    ((c.str? from_).map (fun s => (key, Json.str s))).toList
  match f.type with
  | .socks =>
    { tag := outTag f.tag
      kind := .foreign ([("type", .str "socks")] ++ copy "server" "server"
        ++ copy "server_port" "port" ++ [("version", .str "5")]
        ++ if (c.str? "username").isSome then copy "username" "username" ++ copy "password" "password"
          else []) }
  | .vless =>
    let reality := c.str? "security" = some "reality"
    let fingerprint := truthy ((c.str? "fingerprint").or (if reality then some "firefox" else none))
    let alpn := match c.field "alpn" with
      | some (.arr (a :: as)) => [("alpn", Json.arr (a :: as))]
      | _ => []
    let tls := .obj ([("enabled", .bool true)] ++ string "server_name" "sni" ++ alpn
      ++ (fingerprint.map fun p => ("utls", Json.obj [("enabled", .bool true),
        ("fingerprint", .str p)])).toList
      ++ if reality then
          [("reality", .obj ([("enabled", .bool true)] ++ copy "public_key" "realityPublicKey"
            ++ [("short_id", match c.field "realityShortId" with
              | none | some .null => .str ""
              | some v => v)]))]
        else [])
    { tag := outTag f.tag
      kind := .foreign ([("type", .str "vless")] ++ copy "server" "server"
        ++ copy "server_port" "port" ++ copy "uuid" "uuid" ++ string "flow" "flow"
        ++ if reality ∨ c.str? "security" = some "tls" then [("tls", tls)] else []) }

def urltestOutbound (tag : String) (outbounds : List String) : Outbound :=
  { tag, kind := .urltest outbounds CHAIN_PROBE_URL CHAIN_PROBE_INTERVAL CHAIN_PROBE_TOLERANCE_MS }

/-- The target of everything that leaves here. -/
def directOutbound : Outbound := { tag := "direct", kind := .direct }

/-! ## Listening -/

/-- `host:port` as the credential stores it, with the server name as the fallback. -/
def splitDest (dest serverName : String) : String × Int :=
  match splitLast ':' dest with
  | none => (serverName, 443)
  | some (host, port) =>
    if host = "" then (serverName, 443)
    else
      match parseInt port with
      | some n => (host, if n > 0 then n else 443)
      | none => (host, 443)

/-- The short ids arriving on one listener, each once. -/
def shortIdsOf (leg : ChainLegIn) : List String :=
  ((leg.clients.map (·.shortId) ++ (leg.cred.reality.map fun r => some r.shortId).toList).filterMap
    truthy).eraseDups

def vlessInbound (leg : ChainLegIn) (c : VlessLinkCred) : InboundKind :=
  .vless
    (leg.clients.map fun client =>
      { uuid := client.uuid.getD c.uuid, name := chainLinkUser client.tag,
        flow := c.reality.map fun _ => VISION_FLOW })
    (c.reality.map fun r =>
      let handshake := splitDest r.dest r.serverName
      { serverName := r.serverName, handshakeServer := handshake.1, handshakePort := handshake.2,
        privateKey := r.privateKey, shortIds := shortIdsOf leg })

/-- The listener this node receives a leg on, one branch per cell. -/
def linkInbound (leg : ChainLegIn) : InboundKind :=
  match leg.cred with
  | .shadowsocks c => .shadowsocks c.method c.psk
  | .hy2 c => .hysteria2 [c.authPassword] c.obfsPassword (legTlsIn c.tls)
  | .tuic c => .tuic [(c.uuid, c.password)] c.congestion (legTlsIn c.tls)
  | .vless c => vlessInbound leg c

def linkInTag (i : Nat) : String := if i = 0 then "link-in" else "link-in-" ++ toString i

/-- One listener per address, the same listener each time. -/
def listenersAt (leg : ChainLegIn) (addrs : List String) : List Inbound :=
  addrs.zipIdx.map fun e =>
    { tag := linkInTag e.2, listen := e.1, listen_port := leg.cred.port, kind := linkInbound leg }

def linkInbounds (leg : ChainLegIn) : List Inbound :=
  listenersAt leg <|
    match leg.listen with
    | some (a :: as) => a :: as
    | _ => ["0.0.0.0"]

/-- Number.parseInt of a WARP endpoint's port, 2408 for none and for zero. -/
def warpPort (s : String) : Int :=
  match parseInt s with
  | some n => if n = 0 then 2408 else n
  | none => 2408

def WARP_DEFAULT_PUBLIC_KEY : String := "bmXOC+F1FxEMF9dyiK2H5/1SUtzH0JuVo51h2wPfgyo="

def WARP_DEFAULT_ENDPOINT : String := "162.159.192.1:2408"

def WARP_DEFAULT_MTU : Nat := 1280

/-- Without the brackets of an IPv6 literal. -/
def unbracket (s : String) : String :=
  let l := (afterPrefix "[" s).getD s
  if l.toList.getLast? = some ']' then String.ofList l.toList.dropLast else l

def warpEndpoint (w : ChainWarp) : WarpEndpoint :=
  let ep := (truthy w.endpoint).getD WARP_DEFAULT_ENDPOINT
  let (host, port) := match splitLast ':' ep with
    | some (h, p) => if h = "" then (ep, 2408) else (unbracket h, warpPort p)
    | none => (ep, 2408)
  { tag := CHAIN_WARP_TAG
    mtu := if w.mtu.getD 0 = 0 then WARP_DEFAULT_MTU else w.mtu.getD 0
    address := w.address.map cidrOf
    privateKey := w.privateKey
    peerAddress := host
    peerPort := port
    publicKey := (truthy w.publicKey).getD WARP_DEFAULT_PUBLIC_KEY
    reserved := w.reserved.filter (fun r => decide (r.length = 3)) }

/-! ## Rules -/

/-- Sniffing first, then the resolver, then what no policy may undo. -/
def protectionRules (hijackOnlyOn : Option (List String)) : List SbRule :=
  [.default {} .sniff,
   .default { protocol := ["dns"], inbound := hijackOnlyOn.getD [] } .hijackDns,
   .default { port := [25] } .reject,
   .default { protocol := ["bittorrent"] } .reject]

/-- The rules of one policy behind one gate: block before direct, names before addresses. -/
def gatedRules (p : ChainPolicy) (gate : SbConds) : List SbRule :=
  (if chainMatchIsEmpty p.block then [] else [.default (gate.spread p.block.conds) .reject])
    ++ (if p.blockIp.isSome ∨ p.directIp.isSome then [.default gate .resolve] else [])
    ++ p.blockIp.toList.map (fun m => .default (gate.spread m.conds) .reject)
    ++ (if chainMatchIsEmpty p.direct then []
      else [.default (gate.spread p.direct.conds) (.route "direct")])
    ++ p.directIp.toList.map (fun m => .default (gate.spread m.conds) (.route "direct"))

/-- Who carries a policy: the socks user of its ordinal, and a TPROXY entry's whole listener. -/
def policyGates (p : ChainPolicy) (tproxy : Option Nat) : List SbConds :=
  { auth_user := [chainSocksUser p.ordinal] }
    :: if tproxy = some p.ordinal then [{ inbound := [TPROXY_IN_TAG] }] else []

def policyRules (policies : List ChainPolicy) (tproxy : Option Nat) : List SbRule :=
  policies.flatMap fun p => (policyGates p tproxy).flatMap (gatedRules p)

/-! ## The config -/

namespace ChainRenderInput

variable (input : ChainRenderInput)

def isEntry : Bool := decide (input.role = .entry)

def entryPolicies : List ChainPolicy := if input.isEntry then input.policies else []

def entryTproxy : Option Nat := if input.isEntry then input.tproxy else none

def policyOfExit : Option ExitPolicy := if input.role = .exit then input.exitPolicy else none

/-- The users of every socks listener: the plain profile and each route policy. -/
def socksUsers : List SocksUser :=
  ((0 :: input.entryPolicies.map (·.ordinal)).eraseDups).map fun o =>
    { username := chainSocksUser o, password := input.socksPassword }

def entryInbounds : List Inbound :=
  (input.directionTags.map fun tag =>
    { tag := socksTag tag, listen := "127.0.0.1", listen_port := chainSocksPort tag,
      kind := .socks input.socksUsers })
    ++ if input.entryTproxy.isSome then
        [{ tag := TPROXY_IN_TAG, listen := "127.0.0.1", listen_port := CHAIN_TPROXY_PORT,
           kind := .tproxy }]
      else []

def inbounds : List Inbound :=
  if input.isEntry then input.entryInbounds else (input.legIn.map linkInbounds).getD []

def legsByDirection : OrderedMap Nat (List ChainLegOut) :=
  OrderedMap.groupBy (·.tag) input.out

/-- The outbounds of one direction: its leg, or its legs and the group over them. -/
def directionOutbounds (e : Nat × List ChainLegOut) : List Outbound :=
  match e.2 with
  | [leg] => [renderLeg input.selfHost (outTag e.1) leg]
  | legs =>
    (legs.zipIdx.map fun l => renderLeg input.selfHost (poolLegTag e.1 l.2) l.1)
      ++ [urltestOutbound (outTag e.1) (legs.zipIdx.map fun l => poolLegTag e.1 l.2)]

def sortedDirections : List (Nat × List ChainLegOut) :=
  input.legsByDirection.entries.insertionSort fun a b => a.1 ≤ b.1

/-- The named outbounds that are drawn: those no leg serves already. -/
def drawnForeign : List ChainForeignOut :=
  (input.foreign.insertionSort fun a b => a.tag ≤ b.tag).filter
    fun f => !input.legsByDirection.has f.tag

def directionsWithLegs : List Nat :=
  (input.sortedDirections.map Prod.fst ++ input.drawnForeign.map (·.tag)).insertionSort (· ≤ ·)

def wantsAuto : Bool :=
  input.isEntry && decide (AUTO_TAG ∈ input.directionTags)
    && !input.legsByDirection.has AUTO_TAG

def autoOutbounds : List Outbound :=
  if input.wantsAuto ∧ input.directionsWithLegs ≠ [] then
    [urltestOutbound (outTag AUTO_TAG) (input.directionsWithLegs.map outTag)]
  else []

def outbounds : List Outbound :=
  input.sortedDirections.flatMap input.directionOutbounds
    ++ input.drawnForeign.map foreignOutbound ++ input.autoOutbounds ++ [directOutbound]

/-- Some outbound of the config has this tag. -/
def hasWayOut (tag : String) : Bool := input.outbounds.any fun o => decide (o.tag = tag)

def entryRules : List SbRule :=
  ((input.directionTags.filter fun tag => input.hasWayOut (outTag tag)).map fun tag =>
    .default { inbound := [socksTag tag] } (.route (outTag tag)))
    ++ if input.entryTproxy.isSome ∧ input.hasWayOut (outTag AUTO_TAG) then
        [.default { inbound := [TPROXY_IN_TAG] } (.route (outTag AUTO_TAG))]
      else []

/-- A transit tells directions apart by the link user; one that cannot forwards nothing. -/
def transitRules (leg : ChainLegIn) : List SbRule :=
  if leg.cred.protocol ≠ .vless
      ∧ (input.out.map (·.tag) ++ input.foreign.map (·.tag)).eraseDups.length > 1 then
    [.default { network := ["tcp", "udp"] } .reject]
  else if leg.cred.protocol = .vless then
    (leg.clients.filter fun c =>
      decide (c.tag ∈ input.out.map (·.tag)) || decide (c.tag ∈ input.foreign.map (·.tag))).map
      fun c => .default { auth_user := [chainLinkUser c.tag] } (.route (outTag c.tag))
  else []

def roleRules : List SbRule :=
  match input.role, input.legIn with
  | .entry, _ => input.entryRules
  | .transit, some leg => input.transitRules leg
  | _, _ => []

def rules : List SbRule :=
  protectionRules (input.entryTproxy.map fun _ => input.directionTags.map socksTag)
    ++ policyRules input.entryPolicies input.entryTproxy
    ++ (input.policyOfExit.map (·.rules)).getD [] ++ input.roleRules

/-- Declared only where something reads them. -/
def declaredRuleSets : List RuleSetDecl :=
  if input.entryPolicies ≠ [] ∨ (input.policyOfExit.map (·.rules)).getD [] ≠ [] then input.ruleSets
  else []

end ChainRenderInput

/-- One node's chain config. -/
def renderChainConfig (input : ChainRenderInput) : ChainConfig where
  dnsServers := if input.out.any fun leg => (legFamily input.selfHost leg).isSome then [LEG_DNS_TAG]
    else []
  inbounds := input.inbounds
  outbounds := input.outbounds
  endpoints := ((input.policyOfExit.bind (·.warp)).map warpEndpoint).toList
  rules := input.rules
  final := input.policyOfExit.map fun _ => "direct"
  ruleSets := input.declaredRuleSets

end Iceslab
