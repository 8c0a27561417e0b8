import Iceslab.SubscriptionXray

/-!
# One xray endpoint is one connection

What each format tells a client of an xray endpoint, and where the four of them tell the same.

* `UriLink.connection`, `VmessLink.connection`, `XrayOutbound.connection`,
  `SingboxProxy.connection`, `ClashProxy.connection` — what a client reads.
* `XrayDoor.connections` — what the formats that carry an endpoint say of it.
* `one_connection_iff` — **they say the same exactly where the link's rule for the flow and the
  JSON formats' rule meet**.
-/

set_option autoImplicit false

namespace Iceslab.Subscription

/-! ## What a client reads -/

inductive ReadLayer
  | reality
  | tls
  | none
deriving DecidableEq

/-- What a field that is absent means is its empty text, and the `auto` of an XHTTP mode. -/
@[ext] structure XrayConnection where
  protocol : String
  address : String
  port : Nat
  username : Option String
  credential : String
  security : ReadLayer
  sni : String
  publicKey : String
  shortId : String
  flow : String
  transport : String
  path : String
  hostHeader : String
  serviceName : String
  xhttpMode : String
deriving DecidableEq

/-- `tcp` is the old name of `raw`. -/
def readTransport (network : String) : String := if network = "tcp" then "raw" else network

def readSecurity (security : String) : ReadLayer :=
  if security = "reality" then .reality else if security = "tls" then .tls else .none

/-- A parameter of a link. -/
def UriLink.get (l : UriLink) (key : String) : Option String := l.params.lookup key

def UriLink.connection (l : UriLink) : XrayConnection where
  protocol := l.scheme
  address := l.host
  port := l.port
  username := none
  credential := l.user
  security := readSecurity ((l.get "security").getD "")
  sni := (l.get "sni").getD ""
  publicKey := (l.get "pbk").getD ""
  shortId := (l.get "sid").getD ""
  flow := (l.get "flow").getD ""
  transport := readTransport ((l.get "type").getD "raw")
  path := (l.get "path").getD ""
  hostHeader := (l.get "host").getD ""
  serviceName := (l.get "serviceName").getD ""
  xhttpMode := (l.get "mode").getD "auto"

/-- Of gRPC the path is the service name, and of XHTTP the type is the mode. -/
def VmessLink.connection (l : VmessLink) : XrayConnection where
  protocol := "vmess"
  address := l.add
  port := l.port
  username := none
  credential := l.id
  security := readSecurity l.tls
  sni := l.sni.getD ""
  publicKey := ""
  shortId := ""
  flow := ""
  transport := readTransport l.net
  path := if l.net = "grpc" then "" else l.path
  hostHeader := l.host
  serviceName := if l.net = "grpc" then l.path else ""
  xhttpMode := if l.net = "xhttp" ∧ l.type ≠ "" then l.type else "auto"

def XrayLink.connection : XrayLink → XrayConnection
  | .uri l => l.connection
  | .vmess l => l.connection

/-- A door: no TLS and no transport. -/
def doorConnection (protocol address : String) (port : Nat) (username : Option String)
    (credential : String) : XrayConnection where
  protocol := protocol
  address := address
  port := port
  username := username
  credential := credential
  security := .none
  sni := ""
  publicKey := ""
  shortId := ""
  flow := ""
  transport := "raw"
  path := ""
  hostHeader := ""
  serviceName := ""
  xhttpMode := "auto"

def PlainLink.connection (l : PlainLink) : XrayConnection :=
  doorConnection l.scheme l.host l.port (some l.username) l.password

def XrayTransportSettings.path : XrayTransportSettings → Option String
  | .ws path _ | .httpupgrade path _ | .xhttp path _ _ => path
  | .grpc _ | .kcp => none

def XrayTransportSettings.host : XrayTransportSettings → Option String
  | .ws _ host | .httpupgrade _ host | .xhttp _ host _ => host
  | .grpc _ | .kcp => none

def XrayTransportSettings.serviceName : XrayTransportSettings → String
  | .grpc name => name
  | _ => ""

def XrayTransportSettings.mode : XrayTransportSettings → String
  | .xhttp _ _ mode => mode
  | _ => "auto"

def XrayOutbound.connection (p : XrayOutbound) : XrayConnection :=
  match p.streamSettings with
  | none => doorConnection p.protocol p.server.address p.server.port p.server.user p.server.secret
  | some s =>
    { protocol := p.protocol, address := p.server.address, port := p.server.port
      username := p.server.user, credential := p.server.secret, security := readSecurity s.security
      sni := ((s.realitySettings.map (·.serverName)).or (s.tlsSettings.map (·.serverName))).getD ""
      publicKey := (s.realitySettings.map (·.publicKey)).getD ""
      shortId := (s.realitySettings.map (·.shortId)).getD ""
      flow := p.server.flow.getD ""
      transport := readTransport s.network
      path := (s.transport.bind (·.path)).getD ""
      hostHeader := (s.transport.bind (·.host)).getD ""
      serviceName := (s.transport.map (·.serviceName)).getD ""
      xhttpMode := (s.transport.map (·.mode)).getD "auto" }

def SingboxTransport.type : SingboxTransport → String
  | .ws _ _ => "ws"
  | .httpupgrade _ _ => "httpupgrade"
  | .grpc _ => "grpc"

def SingboxTransport.path : SingboxTransport → Option String
  | .ws path _ | .httpupgrade path _ => path
  | .grpc _ => none

def SingboxTransport.host : SingboxTransport → Option String
  | .ws _ host | .httpupgrade _ host => host
  | .grpc _ => none

def SingboxTransport.serviceName : SingboxTransport → String
  | .grpc name => name
  | _ => ""

def SingboxProxy.connection (p : SingboxProxy) : XrayConnection where
  protocol := p.type
  address := p.server
  port := p.serverPort
  username := p.user
  credential := p.secret
  security := match p.tls with
    | none => .none
    | some t => if t.reality.isSome then .reality else .tls
  sni := (p.tls.map (·.serverName)).getD ""
  publicKey := ((p.tls.bind (·.reality)).map Prod.fst).getD ""
  shortId := ((p.tls.bind (·.reality)).map Prod.snd).getD ""
  flow := p.flow.getD ""
  transport := (p.transport.map (·.type)).getD "raw"
  path := (p.transport.bind (·.path)).getD ""
  hostHeader := (p.transport.bind (·.host)).getD ""
  serviceName := (p.transport.map (·.serviceName)).getD ""
  xhttpMode := "auto"

def ClashProxy.connection (p : ClashProxy) : XrayConnection where
  protocol := if p.type = "socks5" then "socks" else p.type
  address := p.server
  port := p.port
  username := p.username
  credential := p.secret
  security := if p.realityOpts.isSome then .reality else if p.tls then .tls else .none
  sni := p.servername.getD ""
  publicKey := (p.realityOpts.map Prod.fst).getD ""
  shortId := (p.realityOpts.map Prod.snd).getD ""
  flow := p.flow.getD ""
  transport :=
    if p.network = some "ws" ∧ (p.wsOpts.any (·.v2rayHttpUpgrade)) = true then "httpupgrade"
    else readTransport (p.network.getD "tcp")
  path := ((p.wsOpts.bind (·.path)).or (p.xhttpOpts.bind (·.path))).getD ""
  hostHeader := ((p.wsOpts.bind (·.host)).or (p.xhttpOpts.bind (·.host))).getD ""
  serviceName := p.grpcServiceName.getD ""
  xhttpMode := (p.xhttpOpts.bind (·.mode)).getD "auto"

/-! ## What the formats say of one endpoint -/

def XrayEndpoint.served (e : XrayEndpoint) (format : TransportFormat) : Bool :=
  transportServed format e.subprotocol e.network e.xhttpMode e.securityLayer

/-- What is read of an endpoint under a tag of each format, in the formats that carry it. -/
def XrayEndpoint.connections (e : XrayEndpoint) (fragmentTag : Option String) (tag : String) :
    List XrayConnection :=
  (e.uri.map XrayLink.connection).toList
    ++ (if e.served .xrayjson then [(buildProxyOutbound e fragmentTag tag).connection] else [])
    ++ (if e.served .singbox then [(singboxOutbound e tag).connection] else [])
    ++ (if e.served .clash then [(clashProxy e tag).connection] else [])

def PlainEndpoint.connections (e : PlainEndpoint) (tag : String) : List XrayConnection :=
  [e.uri.connection, (buildPlainOutbound e tag).connection, (singboxPlain e tag).connection,
    (clashPlain e tag).connection]

def XrayDoor.connections (d : XrayDoor) (fragmentTag : Option String) (tag : String) :
    List XrayConnection :=
  match d with
  | .plain e => e.connections tag
  | .transport e => e.connections fragmentTag tag

/-- The formats say one connection. -/
def XrayDoor.OneConnection (d : XrayDoor) : Prop :=
  ∀ fragmentTag tag, ∀ c ∈ d.connections fragmentTag tag,
    ∀ c' ∈ d.connections fragmentTag tag, c = c'

/-! ## The parameters of a link -/

theorem lookup_param (key k : String) (v : Option String) :
    (param k v).lookup key = if key = k then v else none := by
  unfold param
  cases v with
  | none => simp
  | some v => by_cases h : key = k <;> simp [h]

theorem lookup_ite (key : String) (c : Prop) [Decidable c] (l l' : List (String × String)) :
    (if c then l else l').lookup key = if c then l.lookup key else l'.lookup key := by
  split <;> rfl

theorem getD_ite (c : Prop) [Decidable c] (v : Option String) (d : String) :
    (if c then v else none).getD d = if c then v.getD d else d := by
  split <;> rfl

section Params

variable (o : XrayUriOpts)

/-- What the options of a link say, of a flow. -/
def XrayUriOpts.connection (protocol flow : String) : XrayConnection where
  protocol := protocol
  address := o.host
  port := o.port
  username := none
  credential := o.credential
  security := readSecurity o.security
  sni := if o.securityLayer = .none then "" else o.sni
  publicKey := if o.securityLayer = .default then o.publicKey else ""
  shortId := if o.securityLayer = .default then o.shortId else ""
  flow := flow
  transport := readTransport o.network
  path := if o.carriesPath then o.path.getD "" else ""
  hostHeader := if o.carriesPath then o.hostHeader.getD "" else ""
  serviceName := if o.network = "grpc" then o.serviceName.getD "" else ""
  xhttpMode := if o.network = "xhttp" then (truthy o.xhttpMode).getD "auto" else "auto"

theorem getD_truthy (v : Option String) : (truthy v).getD "" = v.getD "" := by
  unfold truthy
  cases v with
  | none => rfl
  | some s =>
    rw [Option.filter_some]
    by_cases h : s = "" <;> simp [h]

theorem getD_filter_auto (v : Option String) :
    (v.filter fun x => !decide (x = "auto")).getD "auto" = v.getD "auto" := by
  cases v with
  | none => rfl
  | some s =>
    rw [Option.filter_some]
    by_cases h : s = "auto" <;> simp [h]

theorem vless_connection :
    (buildVlessRealityUri o).connection = o.connection "vless" (o.linkFlow.getD "") := by
  unfold UriLink.connection XrayUriOpts.connection UriLink.get buildVlessRealityUri
    XrayUriOpts.layerParams XrayUriOpts.transportParams
  cases hlayer : o.securityLayer <;>
    simp [XrayUriOpts.security, hlayer, List.lookup_append, lookup_param, lookup_ite,
      List.lookup_cons, getD_ite, getD_truthy, getD_filter_auto]

theorem trojan_connection : (buildTrojanRealityUri o).connection = o.connection "trojan" "" := by
  unfold UriLink.connection XrayUriOpts.connection UriLink.get buildTrojanRealityUri
    XrayUriOpts.layerParams XrayUriOpts.transportParams
  cases hlayer : o.securityLayer <;>
    simp [XrayUriOpts.security, hlayer, List.lookup_append, lookup_param, lookup_ite,
      List.lookup_cons, getD_ite, getD_truthy, getD_filter_auto]

theorem vmessNet_eq_iff {n m : String} (hraw : m ≠ "tcp") (htcp : m ≠ "raw") :
    vmessNet n = m ↔ n = m := by
  unfold vmessNet
  split
  · rename_i h
    rw [h]
    exact iff_of_false (Ne.symm hraw) (Ne.symm htcp)
  · rfl

theorem readTransport_vmessNet (n : String) : readTransport (vmessNet n) = readTransport n := by
  unfold vmessNet
  split
  · rename_i h
    rw [h]
    rfl
  · rfl

/-- Of the two meanings of the path one is read. -/
theorem carriesPath_of_grpc (h : o.network = "grpc") : o.carriesPath = false := by
  simp [XrayUriOpts.carriesPath, h]

theorem vmess_mode (mode : Option String) :
    (if mode.getD "auto" ≠ "" then mode.getD "auto" else "auto") = (truthy mode).getD "auto" := by
  unfold truthy
  cases mode with
  | none => rfl
  | some m =>
    rw [Option.filter_some]
    by_cases h : m = "" <;> simp [h]

theorem vmess_connection (h : o.securityLayer ≠ .default) :
    (buildVmessUri o).connection = o.connection "vmess" "" := by
  have hgrpc := vmessNet_eq_iff (n := o.network) (m := "grpc") (by decide) (by decide)
  have hxhttp := vmessNet_eq_iff (n := o.network) (m := "xhttp") (by decide) (by decide)
  have hpath : (if o.network = "grpc" then "" else if o.carriesPath then o.path.getD "" else "") =
      if o.carriesPath then o.path.getD "" else "" := by
    split
    · rename_i hg
      rw [carriesPath_of_grpc o hg]
      rfl
    · rfl
  have hmode : (if o.network = "xhttp" ∧ ¬ o.xhttpMode.getD "auto" = "" then
      o.xhttpMode.getD "auto" else "auto") =
        if o.network = "xhttp" then (truthy o.xhttpMode).getD "auto" else "auto" := by
    rw [← vmess_mode, ite_and]
  unfold VmessLink.connection XrayUriOpts.connection buildVmessUri
  cases hlayer : o.securityLayer with
  | default => exact absurd hlayer h
  | tls =>
    by_cases hg : o.network = "grpc" <;> by_cases hx : o.network = "xhttp" <;>
      simp_all [XrayUriOpts.security, readTransport_vmessNet, getD_truthy, readSecurity]
  | none =>
    by_cases hg : o.network = "grpc" <;> by_cases hx : o.network = "xhttp" <;>
      simp_all [XrayUriOpts.security, readTransport_vmessNet, readSecurity]

end Params

/-! ## What is carried -/

/-- The names of a column. -/
def TransportColumn.names : TransportColumn → List String
  | raw => ["", "tcp", "raw"]
  | ws => ["ws"]
  | httpupgrade => ["httpupgrade"]
  | grpc => ["grpc"]
  | xhttp => ["xhttp"]
  | xhttpMode => ["xhttp", "xhttp-mode"]
  | kcp => ["kcp"]

variable {network : String}

theorem mem_names_of_column {mode : Option String} {c : TransportColumn}
    (h : transportColumn network mode = some c) : network ∈ c.names := by
  unfold transportColumn at h
  dsimp only at h
  by_cases hraw : network = "" ∨ network = "tcp"
  · rw [if_pos hraw, if_neg (by decide)] at h
    have hc : c = .raw := (Option.some.inj (by simpa [columnNames] using h)).symm
    subst hc
    rcases hraw with rfl | rfl <;> simp [TransportColumn.names]
  · rw [if_neg hraw] at h
    split at h
    · rename_i hx
      split at h <;> cases h <;> simp [TransportColumn.names, hx]
    · obtain ⟨before, after, hnames, -⟩ := List.lookup_eq_some_iff.mp h
      have hmem : (network, c) ∈ columnNames := hnames ▸ List.mem_append_right _ List.mem_cons_self
      simp only [columnNames, List.mem_cons, Prod.mk.injEq, List.not_mem_nil, or_false] at hmem
      rcases hmem with ⟨rfl, rfl⟩ | ⟨rfl, rfl⟩ | ⟨rfl, rfl⟩ | ⟨rfl, rfl⟩ | ⟨rfl, rfl⟩ | ⟨rfl, rfl⟩ |
        ⟨rfl, rfl⟩ <;> simp [TransportColumn.names]

section Served

variable {e : XrayEndpoint}

theorem served_column {format : TransportFormat} (h : e.served format = true) :
    ∃ c, transportColumn e.network e.xhttpMode = some c ∧
      transportSupport format e.subprotocol c ≠ .skipped := by
  unfold XrayEndpoint.served transportServed at h
  split at h
  · cases h
  · rename_i c hc
    refine ⟨c, hc, fun hskip => ?_⟩
    rw [hskip] at h
    cases h

theorem singbox_networks (h : e.served .singbox = true) :
    e.network ∈ ["", "tcp", "raw", "ws", "httpupgrade", "grpc"] := by
  obtain ⟨c, hc, hcell⟩ := served_column h
  have hname := mem_names_of_column hc
  cases c <;> simp_all [TransportColumn.names, transportSupport, SINGBOX, only]
  tauto

end Served

/-! ## The connection of an endpoint -/

section Endpoint

variable (e : XrayEndpoint) (fragmentTag : Option String) (tag : String)

def XrayEndpoint.carriesPath : Bool :=
  decide (e.network = "ws" ∨ e.network = "xhttp" ∨ e.network = "httpupgrade")

def XrayEndpoint.connection : XrayConnection where
  protocol := e.subprotocol.text
  address := e.host
  port := e.port
  username := none
  credential := e.uuid
  security := readSecurity e.securityText
  sni := if e.securityLayer = .none then "" else e.sni
  publicKey := if e.securityLayer = .default then e.publicKey else ""
  shortId := if e.securityLayer = .default then e.shortId else ""
  flow := if e.subprotocol = .vless ∧ e.securityLayer ≠ .none then e.flow else ""
  transport := readTransport e.network
  path := if e.carriesPath then e.path.getD "" else ""
  hostHeader := if e.carriesPath then e.hostHeader.getD "" else ""
  serviceName := if e.network = "grpc" then e.serviceName.getD "" else ""
  xhttpMode := if e.network = "xhttp" then e.xhttpMode.getD "auto" else "auto"

theorem flow_json : (if e.subprotocol = .vless then e.tlsFlow else none).getD "" =
    if e.subprotocol = .vless ∧ e.securityLayer ≠ .none then e.flow else "" := by
  unfold XrayEndpoint.tlsFlow XrayEndpoint.useTls
  by_cases hsub : e.subprotocol = .vless <;> by_cases hsec : e.securityLayer = .none <;>
    simp [hsub, hsec, getD_truthy]

theorem transportSettings_read :
    (e.transportSettings.bind (·.path)).getD "" = (if e.carriesPath then e.path.getD "" else "") ∧
      (e.transportSettings.bind (·.host)).getD "" =
        (if e.carriesPath then e.hostHeader.getD "" else "") ∧
      (e.transportSettings.map (·.serviceName)).getD "" =
        (if e.network = "grpc" then e.serviceName.getD "" else "") ∧
      (e.transportSettings.map (·.mode)).getD "auto" =
        if e.network = "xhttp" then e.xhttpMode.getD "auto" else "auto" := by
  unfold XrayEndpoint.transportSettings XrayEndpoint.carriesPath
  split_ifs <;>
    simp_all [XrayTransportSettings.path, XrayTransportSettings.host,
      XrayTransportSettings.serviceName, XrayTransportSettings.mode, getD_truthy]

theorem xrayjson_connection : (buildProxyOutbound e fragmentTag tag).connection = e.connection := by
  have hflow := flow_json e
  obtain ⟨hpath, hhost, hservice, hmode⟩ := transportSettings_read e
  unfold XrayOutbound.connection XrayEndpoint.connection buildProxyOutbound
  cases hlayer : e.securityLayer <;>
    simp_all [XrayEndpoint.securityText]

/-- sing-box has no word for the bare TCP of an unnamed network. -/
theorem singbox_connection (h : e.served .singbox = true) (hne : e.network ≠ "") :
    (singboxOutbound e tag).connection = e.connection := by
  have hflow := flow_json e
  have hnetwork := singbox_networks h
  simp only [List.mem_cons, List.not_mem_nil, or_false] at hnetwork
  unfold SingboxProxy.connection XrayEndpoint.connection singboxOutbound
    XrayEndpoint.singboxTransport XrayEndpoint.carriesPath
  rcases hnetwork with hn | hn | hn | hn | hn | hn
  · exact absurd hn hne
  all_goals
    cases hlayer : e.securityLayer <;>
      simp_all [XrayEndpoint.securityText, XrayEndpoint.useTls, readSecurity, readTransport,
        SingboxTransport.type, SingboxTransport.path, SingboxTransport.host,
        SingboxTransport.serviceName, getD_truthy]

theorem singbox_unnamed (hempty : e.network = "") :
    (singboxOutbound e tag).connection.transport = "raw" := by
  simp [SingboxProxy.connection, singboxOutbound, XrayEndpoint.singboxTransport, hempty]

theorem clashNetwork_ws : e.clashNetwork = "ws" ↔ e.network = "ws" ∨ e.network = "httpupgrade" := by
  unfold XrayEndpoint.clashNetwork
  split_ifs with hraw
  · rcases hraw with h | h <;> simp [h]
  · simp_all
  · simp_all

theorem clashNetwork_eq {m : String} (htcp : m ≠ "tcp") (hws : m ≠ "ws") (hraw : m ≠ "raw")
    (hempty : m ≠ "") (hup : m ≠ "httpupgrade") : e.clashNetwork = m ↔ e.network = m := by
  unfold XrayEndpoint.clashNetwork
  split_ifs <;> aesop

theorem clashNetwork_xhttp : e.clashNetwork = "xhttp" ↔ e.network = "xhttp" :=
  clashNetwork_eq e (by decide) (by decide) (by decide) (by decide) (by decide)

theorem wsOpts_read :
    e.wsOpts.bind (·.path) = (if e.clashNetwork = "ws" then truthy e.path else none) ∧
      e.wsOpts.bind (·.host) = (if e.clashNetwork = "ws" then truthy e.hostHeader else none) ∧
      e.wsOpts.any (·.v2rayHttpUpgrade) = decide (e.network = "httpupgrade") := by
  have hws := clashNetwork_ws e
  unfold XrayEndpoint.wsOpts
  by_cases hc : e.clashNetwork = "ws"
  · by_cases hw : (⟨truthy e.path, truthy e.hostHeader, decide (e.network = "httpupgrade")⟩ : WsOpts) =
        ⟨none, none, false⟩
    · obtain ⟨hpath, hhost, hup⟩ := WsOpts.mk.inj hw
      simp [hc, hpath, hhost, hup]
    · simp [hc, hw]
  · have hup : e.network ≠ "httpupgrade" := fun h => hc (hws.mpr (Or.inr h))
    simp [hc, hup]

theorem xhttpOpts_read :
    e.xhttpOpts.bind (·.path) = (if e.clashNetwork = "xhttp" then truthy e.path else none) ∧
      e.xhttpOpts.bind (·.host) = (if e.clashNetwork = "xhttp" then truthy e.hostHeader else none) ∧
      (e.xhttpOpts.bind (·.mode)).getD "auto" =
        if e.clashNetwork = "xhttp" then (truthy e.xhttpMode).getD "auto" else "auto" := by
  unfold XrayEndpoint.xhttpOpts
  by_cases hc : e.clashNetwork = "xhttp"
  · have hmode := getD_filter_auto (truthy e.xhttpMode)
    by_cases hx : (⟨truthy e.path, truthy e.hostHeader,
        (truthy e.xhttpMode).filter (· ≠ "auto")⟩ : XhttpOpts) = ⟨none, none, none⟩
    · obtain ⟨hpath, hhost, hm⟩ := XhttpOpts.mk.inj hx
      simp only [ne_eq, decide_not] at hm
      rw [hm] at hmode
      simp [hc, hpath, hhost, hm, ← hmode]
    · simp_all
  · simp [hc]

theorem clash_transport (hne : e.network ≠ "") :
    (clashProxy e tag).connection.transport = readTransport e.network := by
  obtain ⟨-, -, hup⟩ := wsOpts_read e
  unfold ClashProxy.connection clashProxy
  dsimp only
  simp only [hup, Option.getD_some, Option.some.injEq, decide_eq_true_eq, clashNetwork_ws]
  unfold XrayEndpoint.clashNetwork readTransport
  split_ifs <;> simp_all

theorem clash_path : (clashProxy e tag).connection.path =
    if e.carriesPath then e.path.getD "" else "" := by
  unfold ClashProxy.connection clashProxy XrayEndpoint.carriesPath
  dsimp only
  rw [(wsOpts_read e).1, (xhttpOpts_read e).1]
  simp only [clashNetwork_ws, clashNetwork_xhttp, ← getD_truthy e.path]
  split_ifs <;> simp_all

theorem clash_host : (clashProxy e tag).connection.hostHeader =
    if e.carriesPath then e.hostHeader.getD "" else "" := by
  unfold ClashProxy.connection clashProxy XrayEndpoint.carriesPath
  dsimp only
  rw [(wsOpts_read e).2.1, (xhttpOpts_read e).2.1]
  simp only [clashNetwork_ws, clashNetwork_xhttp, ← getD_truthy e.hostHeader]
  split_ifs <;> simp_all

theorem truthy_of_ne {v : Option String} (h : v ≠ some "") : truthy v = v := by
  unfold truthy
  cases v with
  | none => rfl
  | some s => exact Option.filter_some_pos (by simpa using h)

theorem clash_mode (hmode : e.xhttpMode ≠ some "") : (clashProxy e tag).connection.xhttpMode =
    if e.network = "xhttp" then e.xhttpMode.getD "auto" else "auto" := by
  unfold ClashProxy.connection clashProxy
  dsimp only
  rw [(xhttpOpts_read e).2.2, truthy_of_ne hmode]
  simp only [clashNetwork_xhttp]

theorem clash_service : (clashProxy e tag).connection.serviceName =
    if e.network = "grpc" then e.serviceName.getD "" else "" := by
  unfold ClashProxy.connection clashProxy
  simp only [getD_ite, getD_truthy, clashNetwork_eq e (m := "grpc") (by decide) (by decide)
    (by decide) (by decide) (by decide)]

theorem clash_layer : (clashProxy e tag).connection.security = readSecurity e.securityText ∧
    (clashProxy e tag).connection.sni = (if e.securityLayer = .none then "" else e.sni) ∧
    (clashProxy e tag).connection.publicKey =
      (if e.securityLayer = .default then e.publicKey else "") ∧
    (clashProxy e tag).connection.shortId =
      if e.securityLayer = .default then e.shortId else "" := by
  unfold ClashProxy.connection clashProxy XrayEndpoint.securityText XrayEndpoint.useTls
  cases e.securityLayer <;> simp [readSecurity, getD_truthy]

/-- mihomo names the bare TCP of an unnamed network as sing-box does. -/
theorem clash_connection (hne : e.network ≠ "") (hmode : e.xhttpMode ≠ some "") :
    (clashProxy e tag).connection = e.connection := by
  obtain ⟨hsecurity, hsni, hkey, hid⟩ := clash_layer e tag
  have hsocks : e.subprotocol.text ≠ "socks5" := by cases e.subprotocol <;> decide
  refine XrayConnection.ext ?_ rfl rfl rfl rfl hsecurity hsni hkey hid (flow_json e)
    (clash_transport e tag hne) (clash_path e tag) (clash_host e tag) (clash_service e tag)
    (clash_mode e tag hmode)
  exact if_neg hsocks

end Endpoint

/-! ## The four formats together -/

/-- The networks some format carries. -/
def IsCarried (network : String) : Prop := (transportColumn network none).isSome = true

instance (network : String) : Decidable (IsCarried network) :=
  inferInstanceAs (Decidable (_ = true))

theorem column_isSome_iff (mode : Option String) :
    (transportColumn network mode).isSome = true ↔ IsCarried network := by
  unfold IsCarried transportColumn
  dsimp only
  by_cases hx : (if network = "" ∨ network = "tcp" then "raw" else network) = "xhttp"
  · rw [if_pos hx, if_pos hx]
    split <;> simp [truthy]
  · rw [if_neg hx, if_neg hx]

theorem served_of_all {format : TransportFormat} {sub : TransportSubprotocol}
    {mode : Option String} {layer : ClientSecurityLayer} (h : transportSupport format sub = ALL) :
    transportServed format sub network mode layer = true ↔ IsCarried network := by
  rw [← column_isSome_iff mode]
  unfold transportServed
  cases transportColumn network mode with
  | none => simp
  | some c => simp [h, ALL]

/-- An endpoint with its link, which says what the other formats do but for a flow of its own. -/
structure XrayEndpoint.Linked (e : XrayEndpoint) (linkFlow : String) : Prop where
  carried : IsCarried e.network → ∃ l, e.uri = some l ∧
    l.connection = { e.connection with flow := linkFlow }
  left : ¬ IsCarried e.network → e.uri = none
  mode : e.xhttpMode ≠ some ""

section Together

variable {e : XrayEndpoint} {linkFlow : String}

theorem connections_of_carried (h : e.Linked linkFlow) (hcarried : IsCarried e.network)
    (fragmentTag : Option String) (tag : String) :
    ∃ rest, e.connections fragmentTag tag =
        { e.connection with flow := linkFlow } :: e.connection :: rest ∧
      (e.network ≠ "" → ∀ c ∈ rest, c = e.connection) ∧
      (e.network = "" → ∃ c ∈ rest, c.transport = "raw") := by
  obtain ⟨l, hl, hconn⟩ := h.carried hcarried
  have hjson : e.served .xrayjson = true := (served_of_all rfl).mpr hcarried
  refine ⟨(if e.served .singbox then [(singboxOutbound e tag).connection] else [])
    ++ (if e.served .clash then [(clashProxy e tag).connection] else []), ?_, ?_, ?_⟩
  · unfold XrayEndpoint.connections
    rw [hl, if_pos hjson, Option.map_some, hconn, xrayjson_connection]
    rfl
  · intro hne c hc
    rcases List.mem_append.mp hc with hc | hc
    · split at hc
      · rename_i hserved
        rw [List.mem_singleton.mp hc]
        exact singbox_connection e tag hserved hne
      · cases hc
    · split at hc
      · rw [List.mem_singleton.mp hc]
        exact clash_connection e tag hne h.mode
      · cases hc
  · intro hempty
    have hserved : e.served .singbox = true := by
      unfold XrayEndpoint.served transportServed
      rw [hempty]
      rfl
    refine ⟨(singboxOutbound e tag).connection, ?_, singbox_unnamed e tag hempty⟩
    rw [if_pos hserved]
    exact List.mem_append_left _ (List.mem_singleton_self _)

theorem oneConnection_iff (h : e.Linked linkFlow) : (XrayDoor.transport e).OneConnection ↔
    (IsCarried e.network → e.network ≠ "" ∧ linkFlow = e.connection.flow) := by
  by_cases hcarried : IsCarried e.network
  · constructor
    · intro hone _
      obtain ⟨rest, heq, -, hraw⟩ := connections_of_carried h hcarried none ""
      have hone : ∀ c ∈ e.connections none "", ∀ c' ∈ e.connections none "", c = c' :=
        hone none ""
      rw [heq] at hone
      have hflow := hone _ List.mem_cons_self e.connection (by simp)
      refine ⟨fun hempty => ?_, congrArg XrayConnection.flow hflow⟩
      obtain ⟨c, hc, htransport⟩ := hraw hempty
      have := hone e.connection (by simp) c (by simp [hc])
      have hread : e.connection.transport = "" := by
        show readTransport e.network = ""
        rw [hempty]
        rfl
      rw [← this, hread] at htransport
      exact absurd htransport (by decide)
    · intro hcond fragmentTag tag
      obtain ⟨hne, hflow⟩ := hcond hcarried
      obtain ⟨rest, heq, hsame, -⟩ := connections_of_carried h hcarried fragmentTag tag
      have hall : ∀ c ∈ e.connections fragmentTag tag, c = e.connection := by
        rw [heq, hflow]
        simpa using hsame hne
      exact fun c hc c' hc' => (hall c hc).trans (hall c' hc').symm
  · refine iff_of_true (fun fragmentTag tag c hc => ?_) fun hyes => absurd hyes hcarried
    have hnone : ∀ format, e.served format = false := by
      intro format
      rw [← column_isSome_iff e.xhttpMode, Bool.not_eq_true, Option.isSome_eq_false_iff,
        Option.isNone_iff_eq_none] at hcarried
      unfold XrayEndpoint.served transportServed
      rw [hcarried]
    have hc : c ∈ e.connections fragmentTag tag := hc
    unfold XrayEndpoint.connections at hc
    rw [h.left hcarried, hnone, hnone, hnone] at hc
    simp at hc

end Together

/-! ## What the subscription builds -/

section Built

variable {cfg : XrayInboundConfig} {o : HostOverrides} {b : XrayBinding}
  {sub : TransportSubprotocol}

/-- The flow of a link: of VLESS alone. -/
def XrayInboundConfig.linkFlow (cfg : XrayInboundConfig) (o : HostOverrides) (b : XrayBinding)
    (sub : TransportSubprotocol) : String :=
  if sub = .vless then ((cfg.uriOpts o b).linkFlow).getD "" else ""

/-- Options and endpoint are filled from one place. -/
theorem uriOpts_connection (cfg : XrayInboundConfig) (o : HostOverrides) (b : XrayBinding)
    (sub : TransportSubprotocol) (flow : String) : (cfg.uriOpts o b).connection sub.text flow =
      { (cfg.transportEndpoint o b sub).connection with flow := flow } := by
  refine XrayConnection.ext rfl rfl rfl rfl rfl ?_ rfl rfl rfl rfl rfl rfl rfl rfl ?_
  · have hlayer : (cfg.uriOpts o b).security = (cfg.transportEndpoint o b sub).securityText := by
      show XrayUriOpts.security _ = XrayEndpoint.securityText _
      unfold XrayUriOpts.security XrayEndpoint.securityText
      have huri : (cfg.uriOpts o b).securityLayer = cfg.layerOf o := rfl
      have hendpoint : (cfg.transportEndpoint o b sub).securityLayer = cfg.layerOf o := rfl
      rw [huri, hendpoint]
      cases cfg.layerOf o <;> rfl
    exact congrArg readSecurity hlayer
  · show (if cfg.networkOf = "xhttp" then (truthy cfg.xhttpMode).getD "auto" else "auto") =
      if cfg.networkOf = "xhttp" then
        (if cfg.networkOf = "xhttp" then truthy cfg.xhttpMode else none).getD "auto"
      else "auto"
    split <;> rfl

theorem layerOf_vmess (h : cfg.subprotocol = some "vmess") : cfg.layerOf o ≠ .default := by
  have hcover : ∀ layer : ClientSecurityLayer,
      (if some "vmess" = some "vmess" ∧ layer = .default then .none else layer) ≠
        ClientSecurityLayer.default := by
    intro layer
    cases layer <;> decide
  unfold XrayInboundConfig.layerOf clientSecurityLayer
  rw [h]
  exact hcover _

theorem subprotocol_of_transport (h : cfg.transportSubprotocol = some sub) :
    cfg.subprotocol.getD "vless" = sub.text := by
  unfold XrayInboundConfig.transportSubprotocol at h
  have htext := List.find?_some h
  rw [decide_eq_true_eq] at htext
  exact htext.symm

theorem transportEndpoint_linked (h : cfg.transportSubprotocol = some sub) :
    (cfg.transportEndpoint o b sub).Linked (cfg.linkFlow o b sub) := by
  have hserved : transportServed sub.link sub cfg.networkOf cfg.xhttpMode (cfg.layerOf o) = true ↔
      IsCarried cfg.networkOf := served_of_all (by cases sub <;> rfl)
  constructor
  · intro hcarried
    have hgiven := hserved.mpr hcarried
    refine ⟨_, if_pos hgiven, ?_⟩
    rw [← uriOpts_connection]
    cases sub with
    | vless => exact vless_connection _
    | trojan => exact trojan_connection _
    | vmess =>
      have hsub := subprotocol_of_transport h
      refine vmess_connection _ (layerOf_vmess ?_)
      cases hcfg : cfg.subprotocol with
      | none =>
        rw [hcfg] at hsub
        exact absurd hsub (by decide)
      | some s =>
        rw [hcfg] at hsub
        exact congrArg some hsub
  · intro hnot
    exact if_neg (mt hserved.mp hnot)
  · show (if cfg.networkOf = "xhttp" then truthy cfg.xhttpMode else none) ≠ some ""
    split
    · intro hempty
      unfold truthy at hempty
      have := Option.filter_eq_some_iff.mp hempty
      simp at this
    · exact nofun

/-- A route changes the credential, in the link and in the endpoint alike. -/
theorem routed_linked (h : cfg.transportSubprotocol = some .vless) (route : Route) :
    ((cfg.transportEndpoint o b .vless).routed route).Linked (cfg.linkFlow o b .vless) := by
  have hlinked : (cfg.transportEndpoint o b .vless).Linked _ := transportEndpoint_linked h
  have hserved : transportServed .vlessLink .vless cfg.networkOf cfg.xhttpMode (cfg.layerOf o) =
      true ↔ IsCarried cfg.networkOf := served_of_all rfl
  have huri : (cfg.transportEndpoint o b .vless).uri =
      if transportServed .vlessLink .vless cfg.networkOf cfg.xhttpMode (cfg.layerOf o) then
        some (.uri (buildVlessRealityUri (cfg.uriOpts o b)))
      else none := rfl
  constructor
  · intro hcarried
    obtain ⟨l, hl, hconn⟩ := hlinked.carried hcarried
    have hgiven := huri.trans (if_pos (hserved.mpr hcarried))
    rw [hl] at hgiven
    cases hgiven
    refine ⟨_, congrArg (Option.map _) hl, ?_⟩
    exact congrArg (fun c : XrayConnection =>
      { c with credential := withVlessRouteTag b.xrayUuid route.tag }) hconn
  · intro hnot
    exact congrArg (Option.map _) (hlinked.left hnot)
  · exact hlinked.mode

/-- The doors without a transport. -/
def XrayInboundConfig.IsPlain (cfg : XrayInboundConfig) : Prop :=
  cfg.subprotocol = some "socks" ∨ cfg.subprotocol = some "http"

/-- The link takes a flow by the network, Vision where there is none; the JSON formats take it by
the layer. -/
def XrayInboundConfig.FlowAgrees (cfg : XrayInboundConfig) (o : HostOverrides) : Prop :=
  match cfg.flow with
  | none => cfg.networkOf ≠ "raw" ∧ cfg.networkOf ≠ "xhttp"
  | some flow => flow = "" ∨
      ((cfg.networkOf = "raw" ∨ cfg.networkOf = "xhttp") ↔ cfg.layerOf o ≠ .none)

/-- Where some format carries it, a profile names its network, and its flow is taken alike. -/
def XrayInboundConfig.NoDrift (cfg : XrayInboundConfig) (o : HostOverrides) : Prop :=
  IsCarried cfg.networkOf → cfg.networkOf ≠ "" ∧
    (cfg.subprotocol.getD "vless" = "vless" → cfg.FlowAgrees o)

theorem linkFlow_eq_iff : cfg.linkFlow o b .vless =
    (cfg.transportEndpoint o b .vless).connection.flow ↔ cfg.FlowAgrees o := by
  have hlink : cfg.linkFlow o b .vless = if cfg.networkOf = "raw" ∨ cfg.networkOf = "xhttp" then
      cfg.flow.getD "xtls-rprx-vision" else "" := by
    show (if cfg.networkOf = "raw" ∨ cfg.networkOf = "xhttp" then
      truthy (some (cfg.flow.getD "xtls-rprx-vision")) else none).getD "" = _
    rw [getD_ite, getD_truthy, Option.getD_some]
  have hjson : (cfg.transportEndpoint o b .vless).connection.flow =
      if cfg.layerOf o ≠ .none then cfg.flow.getD "" else "" := by
    show (if TransportSubprotocol.vless = .vless ∧ cfg.layerOf o ≠ .none then cfg.flow.getD ""
      else "") = _
    simp only [true_and]
  rw [hlink, hjson]
  unfold XrayInboundConfig.FlowAgrees
  cases cfg.flow with
  | none =>
    dsimp only [Option.getD_none]
    rw [ite_self, ← not_or]
    split
    · rename_i hnet
      exact iff_of_false (by decide) (not_not.mpr hnet)
    · rename_i hnet
      exact iff_of_true rfl hnet
  | some flow =>
    dsimp only [Option.getD_some]
    by_cases hempty : flow = ""
    · subst hempty
      simp
    · by_cases hnet : cfg.networkOf = "raw" ∨ cfg.networkOf = "xhttp" <;>
        by_cases hlayer : cfg.layerOf o = .none <;>
          simp [hnet, hlayer, hempty, Ne.symm hempty]

theorem flow_eq_iff (h : cfg.transportSubprotocol = some sub) : cfg.linkFlow o b sub =
    (cfg.transportEndpoint o b sub).connection.flow ↔
      (cfg.subprotocol.getD "vless" = "vless" → cfg.FlowAgrees o) := by
  rw [subprotocol_of_transport h]
  cases sub with
  | vless => exact linkFlow_eq_iff.trans (by simp [TransportSubprotocol.text])
  | vmess => exact iff_of_true rfl fun hv => absurd hv (by decide)
  | trojan => exact iff_of_true rfl fun hv => absurd hv (by decide)

/-- The doors say one connection each. -/
theorem plain_oneConnection (o : HostOverrides) (b : XrayBinding) {sub : XraySubprotocol}
    (h : sub = .socks ∨ sub = .http) : (XrayDoor.plain (plainEndpoint o b sub)).OneConnection := by
  intro _ tag
  have hall : ∀ c ∈ (plainEndpoint o b sub).connections tag, c =
      doorConnection sub.text (o.addressOverride.getD b.baseHost) (o.portOverride.getD b.basePort)
        (some b.username) b.xrayUuid := by
    intro c hc
    simp only [PlainEndpoint.connections, List.mem_cons, List.not_mem_nil, or_false] at hc
    rcases h with rfl | rfl <;> rcases hc with rfl | rfl | rfl | rfl <;> rfl
  exact fun c hc c' hc' => (hall c hc).trans (hall c' hc').symm

/-- **The formats that carry an xray endpoint say one connection exactly where the profile names its
network and its flow is empty, or the network takes a flow just where the layer does.** -/
theorem one_connection_iff (cfg : XrayInboundConfig) (o : HostOverrides) (b : XrayBinding)
    (routes : List Route) (d : XrayDoor) (h : d ∈ xrayEndpoints cfg o b routes) :
    d.OneConnection ↔ cfg.IsPlain ∨ cfg.NoDrift o := by
  obtain ⟨door, hdoor, hd⟩ := List.mem_flatMap.mp h
  rw [Option.mem_toList] at hdoor
  unfold xrayDoor at hdoor
  split at hdoor
  · cases hdoor
  split at hdoor
  · rename_i hsocks
    cases hdoor
    rw [List.mem_singleton.mp hd]
    exact iff_of_true (plain_oneConnection o b (Or.inl rfl)) (Or.inl (Or.inl hsocks))
  rename_i hsocks
  split at hdoor
  · rename_i hhttp
    cases hdoor
    rw [List.mem_singleton.mp hd]
    exact iff_of_true (plain_oneConnection o b (Or.inr rfl)) (Or.inl (Or.inr hhttp))
  rename_i hhttp
  obtain ⟨sub, hsub, rfl⟩ := Option.map_eq_some_iff.mp hdoor
  have hplain : ¬ cfg.IsPlain := not_or.mpr ⟨hsocks, hhttp⟩
  rw [or_iff_right hplain]
  unfold XrayInboundConfig.NoDrift
  rw [← flow_eq_iff (b := b) hsub]
  dsimp only [XrayDoor.expand] at hd
  split at hd
  · rw [List.mem_singleton.mp hd]
    exact oneConnection_iff (transportEndpoint_linked hsub)
  · rename_i hroutes
    rw [not_or, not_not] at hroutes
    obtain ⟨route, -, rfl⟩ := List.mem_map.mp hd
    have hvless : sub = .vless := hroutes.1
    subst hvless
    exact oneConnection_iff (routed_linked hsub route)

end Built

/-! ### One profile -/

/-- A profile of REALITY over `raw`, as it is stored with its flow or without one. -/
def realityProfile (flow : Option String) : XrayInboundConfig where
  subprotocol := some "vless"
  security := some "reality"
  network := some "raw"
  flow := flow
  fingerprint := some "chrome"
  realityMode := some "steal-others"
  realityServerNames := some ["www.example.com"]
  realityShortIds := some ["0123abcd"]
  realityPublicKey := some "pubkey"
  tlsServerName := none
  path := none
  host := none
  serviceName := none
  xhttpMode := some "auto"

def noOverrides : HostOverrides := ⟨none, none, none, none, none, none, none, [], false⟩

def nodeBinding : XrayBinding :=
  ⟨"de.example.com", 443, none, "DE", "alice", "0f8fad5b-d9cb-469f-a165-70867728950e"⟩

theorem one_connection_iff_vision :
    ((xrayEndpoints (realityProfile (some "xtls-rprx-vision")) noOverrides nodeBinding []).head
      (by decide)).OneConnection := by
  refine (one_connection_iff _ _ _ _ _ (List.head_mem _)).mpr
    (Or.inr fun _ => ⟨by decide, fun _ => Or.inr ?_⟩)
  exact iff_of_true (Or.inl rfl) (by decide)

/-- Without a flow the link names Vision, and the other formats none. -/
theorem no_flow_drifts : ∃ d ∈ xrayEndpoints (realityProfile none) noOverrides nodeBinding [],
    ¬ d.OneConnection := by
  refine ⟨.transport ((realityProfile none).transportEndpoint noOverrides nodeBinding .vless),
    ?_, fun hone => ?_⟩
  · unfold xrayEndpoints
    have hdoor : xrayDoor (realityProfile none) noOverrides nodeBinding =
        some (.transport ((realityProfile none).transportEndpoint noOverrides nodeBinding .vless)) := by
      rfl
    rw [hdoor]
    exact List.mem_singleton_self _
  · have hlinked : ((realityProfile none).transportEndpoint noOverrides nodeBinding .vless).Linked
        _ := transportEndpoint_linked rfl
    have hflow := ((oneConnection_iff hlinked).mp hone (by decide)).2
    exact absurd (linkFlow_eq_iff.mp hflow).1 (by decide)

end Iceslab.Subscription
