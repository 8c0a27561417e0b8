import Iceslab.Lib.JsonScan

/-!
# What the panel sends a node

`internal/dto/dto.go`: the push of a node's configuration as the agent holds it once decoded.

* `RawMessage` — a part the agent does not interpret: empty, or the text of one JSON value.
* `InboundDto`, `NodeCascade`, `NodeChain`, `ApplyInboundsRequest`.
* `ChainUserCore.payload` — what the user's core is handed, or why it is handed nothing.
-/

set_option autoImplicit false

namespace Iceslab.Agent

/-- A Go slice: nil, or its elements. -/
abbrev Slice (α : Type) := Option (List α)

def Slice.toList {α : Type} (s : Slice α) : List α := s.getD []

/-- `json.RawMessage` as decoding leaves it: an absent field is empty, a field that is there holds
one JSON value, verbatim. -/
structure RawMessage where
  text : String
  valid : text = "" ∨ (JsonScan.compact text).isSome
  deriving DecidableEq

namespace RawMessage

def empty : RawMessage := ⟨"", .inl rfl⟩

/-- `len(b) == 0` -/
def isEmpty (b : RawMessage) : Bool := b.text.isEmpty

theorem compact_isSome {b : RawMessage} (h : b.isEmpty = false) :
    (JsonScan.compact b.text).isSome = true := by
  rcases b.valid with hb | hb
  · simp [isEmpty, hb] at h
  · exact hb

end RawMessage

/-! ## Inbounds -/

/-- `NativeEngine`: the core of a protocol that names none. -/
def nativeEngine (protocol : String) : String :=
  if protocol = "shadowsocks" then "xray"
  else if protocol = "tuic" ∨ protocol = "anytls" ∨ protocol = "shadowtls" then "singbox"
  else protocol

structure InboundDto where
  id : String
  name : String
  protocol : String
  engine : String
  port : Int
  config : RawMessage
  deriving DecidableEq

def InboundDto.resolvedEngine (i : InboundDto) : String :=
  if i.engine ≠ "" then i.engine else nativeEngine i.protocol

/-! ## The chain block -/

/-- The only name this agent knows how to run a chain with. -/
def chainEngine : String := "singbox"

def engineXray : String := "xray"
def engineHysteria : String := "hysteria"
def engineAmneziawg : String := "amneziawg"

structure ChainSocks where
  tag : Int
  port : Int
  deriving DecidableEq, Repr

structure ChainUserCoreTProxy where
  port : Int
  mark : Nat
  deriving DecidableEq, Repr

structure ChainUserCoreSocks where
  port : Int
  username : String
  password : String
  deriving DecidableEq, Repr

structure ChainUserCore where
  engine : String
  fragments : RawMessage
  socks : Option ChainUserCoreSocks
  tproxy : Option ChainUserCoreTProxy
  tproxy3 : Option ChainUserCoreTProxy
  deriving DecidableEq

structure ChainTunnel where
  iface : String
  conf : String
  listenPort : Int
  deriving DecidableEq, Repr

structure ChainLinkIngress where
  port : Int
  transports : Slice String
  allowFrom : Slice String
  deriving DecidableEq, Repr

structure NodeChain where
  engine : String
  config : RawMessage
  socks : Slice ChainSocks
  socksPassword : String
  userCore : Option ChainUserCore
  tunnels : Slice ChainTunnel
  linkIngress : Slice ChainLinkIngress
  deriving DecidableEq

/-! ## The hand-off to the user's core -/

structure AwgHandoff where
  port : Int
  mark : Nat
  tproxy3 : Option ChainUserCoreTProxy
  deriving DecidableEq, Repr

/-- What an adapter is handed: the fragments verbatim, or one of the two hand-offs. -/
inductive Handoff where
  | fragments (raw : RawMessage)
  | socks (s : ChainUserCoreSocks)
  | awg (h : AwgHandoff)
  deriving DecidableEq

/-- Why a `userCore` is handed to nobody. -/
inductive PayloadError where
  | noSocks
  | xrayFragments
  | hysteriaTProxy
  | noFragments
  | xraySocks
  | xrayTProxy
  | noTProxy
  | otherHandoff
  | noUserCore (engine : String)
  deriving DecidableEq, Repr

/-- The reason as it travels back; `quote` is `%q`. -/
def PayloadError.text (quote : String → String) : PayloadError → String
  | .noSocks => "chain userCore: engine hysteria carries no socks hand-off"
  | .xrayFragments => "chain userCore: engine hysteria carries xray fragments"
  | .hysteriaTProxy => "chain userCore: engine hysteria carries a tproxy hand-off"
  | .noFragments => "chain userCore: engine xray carries no fragments"
  | .xraySocks => "chain userCore: engine xray carries a socks hand-off"
  | .xrayTProxy => "chain userCore: engine xray carries a tproxy hand-off"
  | .noTProxy => "chain userCore: engine amneziawg carries no tproxy hand-off"
  | .otherHandoff => "chain userCore: engine amneziawg carries another engine's hand-off"
  | .noUserCore engine => "chain userCore: engine " ++ quote engine ++ " draws no user core"

/-- Not absent, and not a `null`. -/
def RawMessage.carries (b : RawMessage) : Bool := !b.isEmpty && decide (b.text ≠ "null")

/-- `Payload`: the half that belongs to the named engine must be there, and no other one may be. -/
def ChainUserCore.payload (u : ChainUserCore) : Except PayloadError Handoff :=
  let hasFragments := u.fragments.carries
  if u.engine = engineHysteria then
    match u.socks with
    | none => .error .noSocks
    | some s =>
      if hasFragments then .error .xrayFragments
      else if u.tproxy.isSome ∨ u.tproxy3.isSome then .error .hysteriaTProxy
      else .ok (.socks s)
  else if u.engine = engineXray then
    if !hasFragments then .error .noFragments
    else if u.socks.isSome then .error .xraySocks
    else if u.tproxy.isSome ∨ u.tproxy3.isSome then .error .xrayTProxy
    else .ok (.fragments u.fragments)
  else if u.engine = engineAmneziawg then
    if u.tproxy = none ∧ u.tproxy3 = none then .error .noTProxy
    else if hasFragments ∨ u.socks.isSome then .error .otherHandoff
    else
      match u.tproxy with
      | some t => .ok (.awg ⟨t.port, t.mark, u.tproxy3⟩)
      | none => .ok (.awg ⟨0, 0, u.tproxy3⟩)
  else .error (.noUserCore u.engine)

/-! ## The push -/

/-- A node's hop in a cascade its own core draws. -/
structure NodeCascade where
  engine : String
  fragments : RawMessage
  deriving DecidableEq

structure ApplyInboundsRequest where
  inbounds : List InboundDto
  policy : RawMessage
  dns : RawMessage
  cascade : Option NodeCascade
  chain : Option NodeChain
  deriving DecidableEq

end Iceslab.Agent
