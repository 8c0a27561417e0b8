import Iceslab.Agent.Geometry3
import Iceslab.Lib.Checked
import Iceslab.Lib.IpText
import Iceslab.Lib.OrderedMap

/-!
# The AmneziaWG interface and its config file

`config.go`, `inbound.go` and `chain_tproxy.go` of `internal/core/amneziawg`: what an interface is
configured with, how a pushed inbound becomes it, and the file `awg-quick` reads.

* `chainTProxyHooks` — the lines that hand an interface's users to the chain.
* `toInboundConfig`, `classifyDiff` — a pushed inbound, and what it changes.
* `renderConfig` — the config file, or why there is none.
-/

set_option autoImplicit false

namespace Iceslab.Agent.Amneziawg

open Checked (forEach forEach_eq_ok bind_eq_ok pure_eq_ok)

/-! ## Addresses -/

/-- The last two groups of an address that ends in a dotted quad. -/
def hexTail : List UInt8 → List Char
  | [a, b, c, d] =>
    Nat.toDigits 16 (a.toNat * 256 + b.toNat) ++ ':' :: Nat.toDigits 16 (c.toNat * 256 + d.toNat)
  | _ => []

/-- `netip.ParseAddr` of an address without a zone. -/
def parseAddr (cs : List Char) : Option (List UInt8) :=
  (IpText.readAddress cs).or
    ((JsText.splitLast ':' (String.ofList cs)).bind fun p =>
      (IpText.readQuad p.2.toList).bind fun q => IpText.readV6 (p.1.toList ++ ':' :: hexTail q))

/-- `netip.ParsePrefix` -/
def parsePrefix (s : String) : Option (List UInt8 × Nat) :=
  (JsText.splitLast '/' s).bind fun p =>
    (parseAddr p.1.toList).bind fun ip => (IpText.decimal p.2.toList).bind fun n =>
      if n ≤ 8 * ip.length then some (ip, n) else none

/-- `net.ParseCIDR` -/
def parseCIDR (s : String) : Option (List UInt8 × Nat) :=
  (GoText.cut s '/').bind fun p =>
    (parseAddr p.1.toList).bind fun ip =>
      let n := Nat.ofDigitChars 10 p.2.toList 0
      if p.2 ≠ "" ∧ p.2.toList.all Char.isDigit = true ∧ n ≤ 8 * ip.length then some (ip, n)
      else none

/-- `IP.To4` -/
def to4 (ip : List UInt8) : Option (List UInt8) :=
  if ip.length = 4 then some ip
  else if ip.take 12 = [0, 0, 0, 0, 0, 0, 0, 0, 0, 0, 255, 255] then some (ip.drop 12)
  else none

def quadText (ip : List UInt8) : String :=
  String.intercalate "." (ip.map fun b => toString b.toNat)

/-- An address with its bits past the first `n` cleared. -/
def masked (n : Nat) : List UInt8 → List UInt8
  | [] => []
  | b :: ip => (if n < 8 then b &&& UInt8.ofNat (256 - 2 ^ (8 - n)) else b) :: masked (n - 8) ip

example : parsePrefix "::ffff:10.0.0.1/104" =
    some ([0, 0, 0, 0, 0, 0, 0, 0, 0, 0, 255, 255, 10, 0, 0, 1], 104) := by decide

/-! ## Hooks -/

inductive HookRefusal
  | metacharacter (c : Char)
  | command
deriving DecidableEq

def allowedHookPrefixes : List String := ["iptables ", "ip6tables ", "ip ", "sysctl ", "echo "]

def validatePostHook (cmd : String) : Except HookRefusal Unit :=
  if cmd = "" then .ok ()
  else
    match ";&|$`\n><".toList.find? (· ∈ cmd.toList) with
    | some c => .error (.metacharacter c)
    | none =>
      if allowedHookPrefixes.any (GoText.hasPrefix cmd) then .ok () else .error .command

/-- `ChainTProxy`: the chain's listener, and the mark that is the routing table as well. -/
structure ChainTProxy where
  port : Int
  mark : Nat
deriving DecidableEq

inductive ChainRefusal
  | port (n : Int)
  | zeroMark
  | reservedTable (mark : Nat)
  | markRange (mark : Nat)
  | hook (cmd : String) (e : HookRefusal)
deriving DecidableEq

def ChainTProxy.validate (t : ChainTProxy) : Except ChainRefusal Unit :=
  if t.port < 1 ∨ 65535 < t.port then .error (.port t.port)
  else if t.mark = 0 then .error .zeroMark
  else if 253 ≤ t.mark ∧ t.mark ≤ 255 then .error (.reservedTable t.mark)
  else if 2 ^ 31 - 1 < t.mark then .error (.markRange t.mark)
  else .ok ()

inductive Proto
  | tcp
  | udp
deriving DecidableEq

def Proto.text : Proto → String
  | .tcp => "tcp"
  | .udp => "udp"

/-- What one hook line of a hand-off draws; its `PostUp` line adds it and its `PostDown` line
deletes it. -/
inductive ChainRule
  | ipRule (mark : Nat)
  | route (table : Nat)
  | accept (mark : Nat)
  | toSelf
  | tproxy (proto : Proto) (port : Int) (mark : Nat)
deriving DecidableEq

def hexMark (mark : Nat) : String := "0x" ++ String.ofList (Nat.toDigits 16 mark)

def ChainRule.addLine : ChainRule → String
  | .ipRule mark => "ip rule add fwmark " ++ hexMark mark ++ " lookup " ++ toString mark
  | .route table => "ip route add local 0.0.0.0/0 dev lo table " ++ toString table
  | .accept mark => "iptables -I INPUT 1 -i %i -m mark --mark " ++ hexMark mark ++ " -j ACCEPT"
  | .toSelf => "iptables -t mangle -A PREROUTING -i %i -m addrtype --dst-type LOCAL -j RETURN"
  | .tproxy proto port mark =>
    "iptables -t mangle -A PREROUTING -i %i -p " ++ proto.text
      ++ " -j TPROXY --on-ip 127.0.0.1 --on-port " ++ toString port
      ++ " --tproxy-mark " ++ hexMark mark

def ChainRule.delLine : ChainRule → String
  | .ipRule mark => "ip rule del fwmark " ++ hexMark mark ++ " lookup " ++ toString mark
  | .route table => "ip route del local 0.0.0.0/0 dev lo table " ++ toString table
  | .accept mark => "iptables -D INPUT -i %i -m mark --mark " ++ hexMark mark ++ " -j ACCEPT"
  | .toSelf => "iptables -t mangle -D PREROUTING -i %i -m addrtype --dst-type LOCAL -j RETURN"
  | .tproxy proto port mark =>
    "iptables -t mangle -D PREROUTING -i %i -p " ++ proto.text
      ++ " -j TPROXY --on-ip 127.0.0.1 --on-port " ++ toString port
      ++ " --tproxy-mark " ++ hexMark mark

/-- The rules a hand-off's `PostUp` adds and those its `PostDown` deletes, each in its order. -/
structure ChainHooks where
  up : List ChainRule
  down : List ChainRule
deriving DecidableEq

/-- `chainTProxyHooks` -/
def chainTProxyHooks (t : ChainTProxy) : Except ChainRefusal ChainHooks :=
  match t.validate with
  | .error e => .error e
  | .ok () =>
    let h : ChainHooks :=
      { up := [.ipRule t.mark, .route t.mark, .accept t.mark, .toSelf, .tproxy .tcp t.port t.mark,
          .tproxy .udp t.port t.mark]
        down := [.tproxy .udp t.port t.mark, .tproxy .tcp t.port t.mark, .toSelf, .accept t.mark,
          .route t.mark, .ipRule t.mark] }
    let refused := (h.up.map ChainRule.addLine ++ h.down.map ChainRule.delLine).findSome? fun cmd =>
      match validatePostHook cmd with
      | .ok () => none
      | .error e => some (cmd, e)
    match refused with
    | some (cmd, e) => .error (.hook cmd e)
    | none => .ok h

/-- `hookLines`: no hand-off has no lines. -/
def hookLines : Option ChainTProxy → Except ChainRefusal ChainHooks
  | none => .ok ⟨[], []⟩
  | some t => chainTProxyHooks t

/-! ## The interface -/

structure Obfuscation where
  jc : Int
  jmin : Int
  jmax : Int
  s1 : Int
  s2 : Int
  s3 : Int
  s4 : Int
  h1 : Nat
  h2 : Nat
  h3 : Nat
  h4 : Nat
  i1 : String
  i2 : String
  i3 : String
  i4 : String
  i5 : String
deriving DecidableEq

def Obfuscation.zero : Obfuscation := ⟨0, 0, 0, 0, 0, 0, 0, 0, 0, 0, 0, "", "", "", "", ""⟩

structure InboundConfig where
  interface : String
  listenPort : Int
  privateKey : String
  address : String
  obfuscation : Obfuscation
  postUp : List String
  postDown : List String
  chain : Option ChainTProxy
  geometry : Option Geometry3
deriving DecidableEq

structure Peer where
  publicKey : String
  /-- in CIDR form -/
  allowedIP : String
deriving DecidableEq

/-- The pushed inbound. -/
structure InboundCfgWire where
  subnet : String
  serverPrivateKey : String
  obfuscation : Obfuscation
  listenPort : Int
  inboundId : String
  awgProtocol : Int
  geometry3 : Option AwgGeometry3
deriving DecidableEq

inductive InboundRefusal
  | subnet (s : String)
  | notIPv4 (s : String)
  | noGeometry
  | geometry (e : SpanError)
  | awgProtocol (n : Int)
deriving DecidableEq

def serverAddressFromSubnet (subnet : String) : Except InboundRefusal String :=
  match parseCIDR subnet with
  | none => .error (.subnet subnet)
  | some (ip, ones) =>
    match to4 ip with
    | none => .error (.notIPv4 subnet)
    | some v4 =>
      let host := v4.take 3 ++ (v4.drop 3).map (· + 1)
      .ok (quadText host ++ "/" ++ toString ones)

example : (serverAddressFromSubnet "10.0.0.0/24").toOption = some "10.0.0.1/24" := by
  decide

/-- The geometry of the pushed generation. -/
def InboundCfgWire.geometry (w : InboundCfgWire) : Except InboundRefusal (Option Geometry3) :=
  if w.awgProtocol = 0 ∨ w.awgProtocol = 1 then .ok none
  else if w.awgProtocol = 3 then
    match w.geometry3 with
    | none => .error .noGeometry
    | some g =>
      match toGeometry g with
      | .error e => .error (.geometry e)
      | .ok g => .ok (some g)
  else .error (.awgProtocol w.awgProtocol)

/-- `toInboundConfig`; the hooks and the hand-off are not on the wire. -/
def InboundCfgWire.toInboundConfig (w : InboundCfgWire) (interface : String) (listenPort : Int) :
    Except InboundRefusal InboundConfig := do
  let address ← serverAddressFromSubnet w.subnet
  let geometry ← w.geometry
  return {
    interface, geometry, address
    listenPort := if 0 < w.listenPort then w.listenPort else listenPort
    privateKey := w.serverPrivateKey
    obfuscation := w.obfuscation
    postUp := [], postDown := [], chain := none }

inductive DiffKind
  | none
  | restart
  | subnet
deriving DecidableEq

/-- `classifyDiff`: the hooks and the hand-off are not compared. -/
def classifyDiff (old new : InboundConfig) : DiffKind :=
  if old.address ≠ new.address then .subnet
  else if old.privateKey ≠ new.privateKey ∨ old.listenPort ≠ new.listenPort
      ∨ old.interface ≠ new.interface ∨ old.obfuscation ≠ new.obfuscation
      ∨ old.geometry ≠ new.geometry then .restart
  else .none

/-! ## The config file -/

inductive RenderRefusal
  | noPrivateKey
  | privateKey
  | geometry (e : GeometryError)
  | headerRequired (name : String)
  | headerDefault (name : String) (value : Nat)
  | headersDistinct
  | junkOrder (jmin jmax : Int)
  | signature (name : String)
  | chain (e : ChainRefusal)
  | postUp (e : HookRefusal)
  | postDown (e : HookRefusal)
  | emptyPeer (p : Peer)
  | peerKey
  | peerAllowedIP
deriving DecidableEq

section Obfuscation

variable (o : Obfuscation)

def Obfuscation.headers : List (String × Nat) :=
  [("H1", o.h1), ("H2", o.h2), ("H3", o.h3), ("H4", o.h4)]

def Obfuscation.signatures : List (String × String) :=
  [("I1", o.i1), ("I2", o.i2), ("I3", o.i3), ("I4", o.i4), ("I5", o.i5)]

def checkHeader (h : String × Nat) : Except RenderRefusal Unit :=
  if h.2 = 0 then .error (.headerRequired h.1)
  else if h.2 ≤ 4 then .error (.headerDefault h.1 h.2)
  else .ok ()

def Obfuscation.validate : Except RenderRefusal Unit := do
  forEach checkHeader o.headers
  if ¬ (o.headers.map Prod.snd).Nodup then throw .headersDistinct
  if o.jmin > o.jmax then throw (.junkOrder o.jmin o.jmax)
  forEach (fun i => if validateIField i.2 then .ok () else .error (.signature i.1)) o.signatures

/-- `renderObfuscation1` -/
def Obfuscation.lines : List String :=
  ["Jc = " ++ toString o.jc, "Jmin = " ++ toString o.jmin, "Jmax = " ++ toString o.jmax,
      "S1 = " ++ toString o.s1, "S2 = " ++ toString o.s2, "S3 = " ++ toString o.s3,
      "S4 = " ++ toString o.s4] ++
    o.headers.map (fun h => h.1 ++ " = " ++ toString h.2) ++ iLines o.signatures

end Obfuscation

def InboundConfig.validate (c : InboundConfig) : Except RenderRefusal Unit :=
  if c.privateKey = "" then .error .noPrivateKey
  else if validateWGKey c.privateKey = false then .error .privateKey
  else
    match c.geometry with
    | some g =>
      match g.validate with
      | .error e => .error (.geometry e)
      | .ok () => .ok ()
    | none => c.obfuscation.validate

/-- `peerNetwork` -/
def peerNetwork (address : String) : String :=
  let first := match GoText.cut address ',' with
    | some p => p.1
    | none => address
  match parsePrefix (GoText.trimSpace first) with
  | some (ip, n) =>
    if ip.length = 4 then quadText (masked n ip) ++ "/" ++ toString n else ""
  | none => ""

example : peerNetwork "10.66.66.1/24" = "10.66.66.0/24" := by decide

/-- The `MASQUERADE` of the peers' network, none where there is no network to name. -/
def masquerade (op address : String) : List String :=
  if peerNetwork address ≠ "" then
    ["iptables -t nat -" ++ op ++ " POSTROUTING -s " ++ peerNetwork address
      ++ " ! -o %i -j MASQUERADE"]
  else []

def InboundConfig.withDefaults (c : InboundConfig) : InboundConfig :=
  { c with
    interface := if c.interface = "" then "awg0" else c.interface
    listenPort := if c.listenPort = 0 then 51820 else c.listenPort
    postUp := if c.postUp = [] then
        ["iptables -I FORWARD 1 -i %i -j ACCEPT", "iptables -I FORWARD 1 -o %i -j ACCEPT"]
          ++ masquerade "A" c.address
      else c.postUp
    postDown := if c.postDown = [] then
        ["iptables -D FORWARD -i %i -j ACCEPT", "iptables -D FORWARD -o %i -j ACCEPT"]
          ++ masquerade "D" c.address
      else c.postDown }

/-- `validateAllowedIP` -/
def validateAllowedIP (s : String) : Bool := (parsePrefix s).isSome

def checkPeer (p : Peer) : Except RenderRefusal Unit :=
  if p.publicKey = "" ∨ p.allowedIP = "" then .error (.emptyPeer p)
  else if validateWGKey p.publicKey = false then .error .peerKey
  else if validateAllowedIP p.allowedIP = false then .error .peerAllowedIP
  else .ok ()

/-- The file, section by section. -/
structure Conf where
  settings : List String
  postUp : List String
  chain : ChainHooks
  postDown : List String
  peers : List Peer
deriving DecidableEq

def peerLines (p : Peer) : List String :=
  ["", "[Peer]", "PublicKey = " ++ p.publicKey, "AllowedIPs = " ++ p.allowedIP]

/-- The lines of the file: the hand-off's hooks stand after the interface's own `PostUp` and before
its own `PostDown`. -/
def Conf.lines (c : Conf) : List String :=
  "[Interface]" :: c.settings ++
    (c.postUp ++ c.chain.up.map ChainRule.addLine).map ("PostUp = " ++ ·) ++
    (c.chain.down.map ChainRule.delLine ++ c.postDown).map ("PostDown = " ++ ·) ++
    c.peers.flatMap peerLines

def checkHooks (refuse : HookRefusal → RenderRefusal) (cmds : List String) :
    Except RenderRefusal Unit :=
  forEach (fun cmd =>
    match validatePostHook cmd with
    | .error e => .error (refuse e)
    | .ok () => .ok ()) cmds

/-- The generation's own block. -/
def InboundConfig.block (c : InboundConfig) : Except RenderRefusal (List String) :=
  match c.geometry with
  | some g =>
    match g.interfaceLines with
    | .error e => .error (.geometry e)
    | .ok lines => .ok (("MTU = " ++ toString g.mtu) :: lines)
  | none => .ok c.obfuscation.lines

/-- `renderConfig` up to the peers. -/
def renderInterface (inbound : InboundConfig) : Except RenderRefusal Conf := do
  inbound.validate
  let cfg := inbound.withDefaults
  let head := ["PrivateKey = " ++ cfg.privateKey, "ListenPort = " ++ toString cfg.listenPort,
    "Address = " ++ cfg.address]
  let block ← cfg.block
  let hooks ← (hookLines cfg.chain).mapError .chain
  checkHooks .postUp (cfg.postUp ++ hooks.up.map ChainRule.addLine)
  checkHooks .postDown (hooks.down.map ChainRule.delLine ++ cfg.postDown)
  return {
    settings := head ++ block
    postUp := cfg.postUp, chain := hooks, postDown := cfg.postDown, peers := [] }

def renderConfig (inbound : InboundConfig) (peers : List Peer) : Except RenderRefusal Conf := do
  let conf ← renderInterface inbound
  forEach checkPeer peers
  return { conf with peers }

variable {inbound : InboundConfig} {conf : Conf}

/-- A config file needs a key. -/
theorem renderInterface_noKey (h : inbound.privateKey = "") :
    renderInterface inbound = .error .noPrivateKey := by
  unfold renderInterface InboundConfig.validate
  rw [if_pos h]
  rfl

theorem renderInterface_peers (h : renderInterface inbound = .ok conf) : conf.peers = [] := by
  simp only [renderInterface, bind_eq_ok, pure_eq_ok] at h
  obtain ⟨_, -, _, -, _, -, _, -, _, -, rfl⟩ := h
  rfl

theorem renderConfig_ok {peers : List Peer} (h : renderConfig inbound peers = .ok conf) :
    renderInterface inbound = .ok { conf with peers := [] } ∧ conf.peers = peers ∧
      ∀ p ∈ peers, checkPeer p = .ok () := by
  simp only [renderConfig, bind_eq_ok, pure_eq_ok, forEach_eq_ok] at h
  obtain ⟨c, hc, -, hpeers, rfl⟩ := h
  obtain ⟨settings, postUp, chain, postDown, ps⟩ := c
  have hps : ps = [] := renderInterface_peers hc
  subst hps
  exact ⟨hc, rfl, hpeers⟩

theorem renderConfig_of_renderInterface {peers : List Peer}
    (h : renderInterface inbound = .ok conf) (hpeers : ∀ p ∈ peers, checkPeer p = .ok ()) :
    renderConfig inbound peers = .ok { conf with peers } := by
  simp only [renderConfig, bind_eq_ok, pure_eq_ok, forEach_eq_ok]
  exact ⟨conf, h, (), hpeers, rfl⟩

end Iceslab.Agent.Amneziawg
