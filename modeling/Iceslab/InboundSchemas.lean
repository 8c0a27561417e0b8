import Iceslab.Agent.Hysteria
import Iceslab.Agent.Mieru
import Iceslab.GeometryAgreed
import Iceslab.StoredSubnet

/-!
# Stored inbounds and the agent that serves them

The schemas `inbounds.schemas.ts` stores an AmneziaWG, a mieru and a hysteria inbound under, and
what the agent does with such an inbound once it is pushed.

* `StoredInbound.Accepted` — the panel stores it.
* `StoredInbound.Served` — the agent takes it.
* `stored_served_iff` — **which of the stored inbounds the agent takes**.
-/

set_option autoImplicit false

namespace Iceslab

open Checked
open Agent (validateWGKey)
open Agent.Amneziawg (Obfuscation RenderRefusal checkPeer checkHooks validatePostHook peerNetwork
  masquerade renderInterface serverAddressFromSubnet)

/-! ## The schemas -/

/-- `z.number().int().min(lo).max(hi)` -/
def intIn (lo hi n : Int) : Bool := decide (lo ≤ n ∧ n ≤ hi)

/-- `z.string().min(lo).max(hi)`: it counts characters, not UTF-16 units. -/
def textIn (lo hi : Nat) (s : String) : Bool := decide (lo ≤ s.length ∧ s.length ≤ hi)

/-- `.optional()` -/
def optionally {α : Type} (check : α → Bool) (v : Option α) : Bool := v.all check

/-- `\d{1,max}` -/
def isDigitRun (max : Nat) (cs : List Char) : Bool :=
  !cs.isEmpty && decide (cs.length ≤ max) && cs.all Char.isDigit

/-- `/^\d{1,3}(\.\d{1,3}){3}\/\d{1,2}$/` -/
def isSubnetText (s : String) : Bool :=
  match s.toList.splitOn '/' with
  | [addr, len] =>
    decide ((addr.splitOn '.').length = 4) && (addr.splitOn '.').all (isDigitRun 3)
      && isDigitRun 2 len
  | _ => false

/-- `z.string().regex(/^[0-9a-fA-FxX<> rt]*$/).max(256)` -/
def isSignature (s : String) : Bool := s.toList.all iChar && textIn 0 256 s

/-- `ObfuscationSchema` -/
def obfuscationSchema (o : Obfuscation) : Bool :=
  intIn 0 10 o.jc && intIn 64 1024 o.jmin && intIn 64 1024 o.jmax
    && intIn 0 64 o.s1 && intIn 0 64 o.s2 && intIn 0 64 o.s3 && intIn 0 32 o.s4
    && [o.h1, o.h2, o.h3, o.h4].all (fun h => intIn 5 4294967295 h)
    && [o.i1, o.i2, o.i3, o.i4, o.i5].all isSignature

structure AmneziawgConfig where
  subnet : String
  serverPrivateKey : String
  serverPublicKey : String
  obfuscation : Obfuscation
deriving DecidableEq

/-- `AmneziawgConfigSchema` -/
def amneziawgConfigSchema (c : AmneziawgConfig) : Bool :=
  isSubnetText c.subnet && textIn 1 128 c.serverPrivateKey && textIn 1 128 c.serverPublicKey
    && obfuscationSchema c.obfuscation
    && decide [c.obfuscation.h1, c.obfuscation.h2, c.obfuscation.h3, c.obfuscation.h4].Nodup
    && decide (c.obfuscation.s1 + 56 ≠ c.obfuscation.s2)

structure MieruConfig where
  mtu : Int
deriving DecidableEq

/-- `MieruConfigSchema` -/
def mieruConfigSchema (c : MieruConfig) : Bool := intIn 576 1500 c.mtu

structure HysteriaConfig where
  hostname : Option String
  obfsPassword : Option String
  masqueradeUrl : Option String
  brutalUpMbps : Option Int
  brutalDownMbps : Option Int
  portHoppingStart : Option Int
  portHoppingEnd : Option Int
deriving DecidableEq

/-- `HysteriaConfigSchema`; `isURL` is `z.string().url()`. -/
def hysteriaConfigSchema (isURL : String → Bool) (c : HysteriaConfig) : Bool :=
  optionally (textIn 0 253) c.hostname && optionally (textIn 0 128) c.obfsPassword
    && optionally isURL c.masqueradeUrl
    && optionally (intIn 1 10000) c.brutalUpMbps && optionally (intIn 1 10000) c.brutalDownMbps
    && optionally (intIn 1024 65535) c.portHoppingStart
    && optionally (intIn 1024 65535) c.portHoppingEnd

inductive StoredInbound
  | amneziawg (c : AmneziawgConfig)
  | mieru (c : MieruConfig)
  | hysteria (c : HysteriaConfig)
deriving DecidableEq

/-- The schema of its protocol takes it; for AmneziaWG the allocator takes its subnet as well, and
its keys are keys. -/
def StoredInbound.Accepted (isURL : String → Bool) : StoredInbound → Prop
  | .amneziawg c => amneziawgConfigSchema c = true ∧ (∃ r, parseSubnet c.subnet = .ok r) ∧
      validateWGKey c.serverPrivateKey = true ∧ validateWGKey c.serverPublicKey = true
  | .mieru c => mieruConfigSchema c = true
  | .hysteria c => hysteriaConfigSchema isURL c = true

/-! ## The push -/

/-- What an agent was started with, and the name its node is dialled at where a certificate can be
issued for it. -/
structure AgentNode where
  interface : String
  listenPort : Int
  mieru : Agent.Mieru.Install
  mieruValid : mieru.inbound.validate = .ok ()
  libs : Agent.Hysteria.Libs
  hysteria : Agent.Hysteria.Config
  acmeHostname : Option String

def AmneziawgConfig.toWire (c : AmneziawgConfig) (port : Int) (inboundId : String) :
    Agent.Amneziawg.InboundCfgWire where
  subnet := c.subnet
  serverPrivateKey := c.serverPrivateKey
  obfuscation := c.obfuscation
  listenPort := port
  inboundId := inboundId
  awgProtocol := 1
  geometry3 := none

/-- The name that travels. -/
def HysteriaConfig.pushedHostname (c : HysteriaConfig) (acmeHostname : Option String) : String :=
  (acmeHostname.or c.hostname).getD ""

/-- A field that is absent reaches the agent as a zero value. -/
def HysteriaConfig.toWire (c : HysteriaConfig) (acmeHostname : Option String) :
    Agent.Hysteria.InboundCfgWire where
  hostname := c.pushedHostname acmeHostname
  obfsPassword := c.obfsPassword.getD ""
  masqueradeUrl := c.masqueradeUrl.getD ""
  brutalUpMbps := c.brutalUpMbps.getD 0
  brutalDownMbps := c.brutalDownMbps.getD 0
  tlsCertPem := ""
  tlsKeyPem := ""

section Served

variable (n : AgentNode) (port : Int) (id : String)

/-- The interface comes up beside any peers, at the address kept out of the pool. -/
def AmneziawgConfig.Served (c : AmneziawgConfig) : Prop :=
  ∃ inbound, (c.toWire port id).toInboundConfig n.interface n.listenPort = .ok inbound ∧
    (∀ peers, (∀ p ∈ peers, checkPeer p = .ok ()) →
      ∃ conf, Agent.Amneziawg.renderConfig inbound peers = .ok conf) ∧
    ∀ r, parseSubnet c.subnet = .ok r →
      inbound.address = intToIp r.serverIp ++ "/" ++ toString r.pfx ∧
        ∀ k, r.firstUsable ≤ k → k ≤ r.lastUsable →
          inbound.address ≠ intToIp k ++ "/" ++ toString r.pfx

/-- Where no other inbound stands beside it, it is not refused for what it says. -/
def MieruConfig.Served (c : MieruConfig) : Prop :=
  ∀ (a : Agent.Mieru.Answers) (s : Agent.Mieru.State), (∀ k ∈ s.inbounds.keys, k = id) →
    (∀ u ∈ s.users.values, Agent.Mieru.checkUser u = .ok ()) →
    ∀ e, (Agent.Mieru.applyIdentifiedInbound n.mieru a id port (some c.mtu) s).2 = some e →
      e.invalid = false

/-- Its file is written. -/
def HysteriaConfig.Served (c : HysteriaConfig) : Prop :=
  ∃ lines, Agent.Hysteria.renderConfig n.libs n.hysteria
    ((c.toWire n.acmeHostname).toInboundConfig port) none = .ok lines

def StoredInbound.Served : StoredInbound → Prop
  | .amneziawg c => c.Served n port id
  | .mieru c => c.Served n port id
  | .hysteria c => c.Served n port

/-- A certificate can be asked for: hysteria has a name, pushed or its own. -/
def StoredInbound.Named : StoredInbound → Prop
  | .amneziawg _ | .mieru _ => True
  | .hysteria c => c.pushedHostname n.acmeHostname ≠ "" ∨ n.hysteria.hostname ≠ ""

/-- No character that could break out of a value of the agent's YAML. -/
def IsPlainYaml (s : String) : Prop := ∀ ch ∈ "\n\r:\x7b[#".toList, ch ∉ s.toList

/-- The agent's masquerade: an `http` or `https` URL with a host, on one line. -/
def IsMasqueradeURL (libs : Agent.Hysteria.Libs) (s : String) : Prop :=
  '\n' ∉ s.toList ∧ '\r' ∉ s.toList ∧
    ∃ scheme host, libs.parseURL s = some (scheme, host) ∧ (scheme = "http" ∨ scheme = "https") ∧
      host ≠ ""

/-- What the schemas leave unchecked: the order of the junk sizes and a subnet that is no network,
the smallest datagram of mieru, and texts the agent's YAML does not hold. -/
def StoredInbound.Servable : StoredInbound → Prop
  | .amneziawg c => c.obfuscation.jmin ≤ c.obfuscation.jmax ∧ WrittenAsNetwork c.subnet
  | .mieru c => 1280 ≤ c.mtu
  | .hysteria c => IsPlainYaml (c.pushedHostname n.acmeHostname) ∧
      (∀ s, c.obfsPassword = some s → IsPlainYaml s) ∧
      ∀ s, c.masqueradeUrl = some s → s ≠ "" → IsMasqueradeURL n.libs s

end Served

/-! ## AmneziaWG -/

section Amneziawg

variable {c : AmneziawgConfig}

/-- Of a stored obfuscation the agent refuses only junk sizes out of order. -/
theorem obfuscation_validate_iff (h : amneziawgConfigSchema c = true) :
    c.obfuscation.validate = .ok () ↔ c.obfuscation.jmin ≤ c.obfuscation.jmax := by
  unfold amneziawgConfigSchema obfuscationSchema at h
  simp only [Bool.and_eq_true, decide_eq_true_eq] at h
  obtain ⟨⟨⟨-, ⟨⟨-, hheaders⟩, hsigs⟩⟩, hnodup⟩, -⟩ := h
  have hchecked : forEach Agent.Amneziawg.checkHeader c.obfuscation.headers = .ok () := by
    rw [forEach_eq_ok]
    intro header hmem
    have hin : intIn 5 4294967295 header.2 = true := by
      refine List.all_eq_true.mp hheaders header.2 ?_
      simp only [Obfuscation.headers, List.mem_cons, List.not_mem_nil, or_false] at hmem
      rcases hmem with rfl | rfl | rfl | rfl <;> simp
    unfold intIn at hin
    simp only [decide_eq_true_eq] at hin
    unfold Agent.Amneziawg.checkHeader
    rw [if_neg (by omega), if_neg (by omega)]
  have hsigned : forEach (fun i : String × String =>
      if Agent.validateIField i.2 then .ok () else .error (RenderRefusal.signature i.1))
      c.obfuscation.signatures = .ok () := by
    rw [forEach_eq_ok]
    intro sig hmem
    have hin : isSignature sig.2 = true := by
      refine List.all_eq_true.mp hsigs sig.2 ?_
      simp only [Obfuscation.signatures, List.mem_cons, List.not_mem_nil, or_false] at hmem
      rcases hmem with rfl | rfl | rfl | rfl | rfl <;> simp
    unfold isSignature at hin
    simp only [Bool.and_eq_true] at hin
    rw [validateIField_eq, if_pos hin.1]
  have hdistinct : (c.obfuscation.headers.map Prod.snd).Nodup := hnodup
  unfold Obfuscation.validate
  rw [hchecked]
  simp only [hdistinct, not_true_eq_false, if_false, bind_eq_ok, hsigned]
  by_cases horder : c.obfuscation.jmin ≤ c.obfuscation.jmax
  · simp [horder]
  · have hlt : c.obfuscation.jmin > c.obfuscation.jmax := by omega
    simp only [hlt, if_true, horder, iff_false]
    rintro ⟨_, -, hthrow⟩
    obtain ⟨_, hthrow, -⟩ := bind_eq_ok.mp hthrow
    cases hthrow

/-! ### The hooks of an interface that is given none -/

theorem validatePostHook_ok {cmd : String} (hplain : ∀ ch ∈ ";&|$`\n><".toList, ch ∉ cmd.toList)
    (hstart : Agent.Amneziawg.allowedHookPrefixes.any (GoText.hasPrefix cmd) = true) :
    validatePostHook cmd = .ok () := by
  have hnone : ";&|$`\n><".toList.find? (· ∈ cmd.toList) = none := by
    rw [List.find?_eq_none]
    exact fun ch hch => by simpa using hplain ch hch
  unfold validatePostHook
  rw [hnone]
  dsimp only
  rw [if_pos hstart, ite_self]

/-- The network of the peers is written in digits, dots and a slash. -/
theorem peerNetwork_chars {address : String} {ch : Char} (h : ch ∈ (peerNetwork address).toList) :
    ch.isDigit = true ∨ ch = '.' ∨ ch = '/' := by
  unfold peerNetwork at h
  dsimp only at h
  split at h
  · split at h
    · rename_i ip len _ _
      rw [String.toList_append, String.toList_append, List.mem_append, List.mem_append] at h
      rcases h with (h | h) | h
      · rw [toList_quadText] at h
        by_contra hno
        rw [not_or, not_or] at hno
        refine IpText.not_mem_joined hno.2.1 (fun w hw hmem => ?_) h
        obtain ⟨b, -, rfl⟩ := List.mem_map.mp hw
        exact hno.1 (Nat.isDigit_of_mem_toDigits (by decide) (by decide) hmem)
      · exact Or.inr (Or.inr (by simpa using h))
      · refine Or.inl ?_
        have := isDigits_num len
        unfold JsText.isDigits at this
        simp only [Bool.and_eq_true, List.all_eq_true] at this
        exact this.2 ch h
    · simp at h
  · simp at h

theorem masquerade_hook {op address cmd : String} (hop : op = "A" ∨ op = "D")
    (h : cmd ∈ masquerade op address) : validatePostHook cmd = .ok () := by
  unfold masquerade at h
  split at h
  swap
  · exact absurd h List.not_mem_nil
  rw [List.mem_singleton] at h
  subst h
  refine validatePostHook_ok (fun ch hch hmem => ?_) ?_
  · have hfixed : ∀ t ∈ ["iptables -t nat -", op, " POSTROUTING -s ", " ! -o %i -j MASQUERADE"],
        ch ∉ t.toList := by
      have : ∀ ch ∈ ";&|$`\n><".toList, ∀ t ∈ ["iptables -t nat -", "A", "D", " POSTROUTING -s ",
          " ! -o %i -j MASQUERADE"], ch ∉ t.toList := by decide
      intro t ht
      refine this ch hch t ?_
      simp only [List.mem_cons, List.not_mem_nil, or_false] at ht ⊢
      rcases ht with rfl | rfl | rfl | rfl
      · simp
      · rcases hop with rfl | rfl <;> simp
      · simp
      · simp
    have hplain : ∀ ch ∈ ";&|$`\n><".toList, ch.isDigit = false ∧ ch ≠ '.' ∧ ch ≠ '/' := by decide
    simp only [String.toList_append, List.mem_append] at hmem
    rcases hmem with (((hmem | hmem) | hmem) | hmem) | hmem
    · exact hfixed _ (by simp) hmem
    · exact hfixed _ (by simp) hmem
    · exact hfixed _ (by simp) hmem
    · obtain ⟨h1, h2, h3⟩ := hplain ch hch
      rcases peerNetwork_chars hmem with h | h | h
      · rw [h1] at h
        cases h
      · exact h2 h
      · exact h3 h
    · exact hfixed _ (by simp) hmem
  · simp [Agent.Amneziawg.allowedHookPrefixes, GoText.hasPrefix, String.toList_append]

/-- Without hooks of its own, a geometry or a hand-off an interface is rendered once its settings
are taken. -/
theorem renderInterface_iff {inbound : Agent.Amneziawg.InboundConfig}
    (hup : inbound.postUp = []) (hdown : inbound.postDown = []) (hchain : inbound.chain = none)
    (hgeometry : inbound.geometry = none) :
    (∃ conf, renderInterface inbound = .ok conf) ↔ inbound.validate = .ok () := by
  constructor
  · rintro ⟨conf, h⟩
    simp only [renderInterface, bind_eq_ok] at h
    obtain ⟨_, h, -⟩ := h
    exact h
  · intro h
    have hforward : ∀ cmd ∈ ["iptables -I FORWARD 1 -i %i -j ACCEPT",
        "iptables -I FORWARD 1 -o %i -j ACCEPT", "iptables -D FORWARD -i %i -j ACCEPT",
        "iptables -D FORWARD -o %i -j ACCEPT"], validatePostHook cmd = .ok () := by
      decide
    simp only [renderInterface, bind_eq_ok, pure_eq_ok]
    refine ⟨_, ⟨(), h, inbound.obfuscation.lines, ?_, ⟨[], []⟩, ?_, (), ?_, (), ?_, rfl⟩⟩
    · simp [Agent.Amneziawg.InboundConfig.block, Agent.Amneziawg.InboundConfig.withDefaults,
        hgeometry]
    · simp [Agent.Amneziawg.InboundConfig.withDefaults, hchain, Agent.Amneziawg.hookLines,
        Except.mapError]
    · unfold checkHooks
      rw [forEach_eq_ok]
      intro cmd hcmd
      simp only [Agent.Amneziawg.InboundConfig.withDefaults, hup, if_true, List.map_nil,
        List.append_nil, List.mem_append] at hcmd
      obtain hcmd | hcmd := hcmd
      · rw [hforward cmd (by aesop)]
      · rw [masquerade_hook (Or.inl rfl) hcmd]
    · unfold checkHooks
      rw [forEach_eq_ok]
      intro cmd hcmd
      simp only [Agent.Amneziawg.InboundConfig.withDefaults, hdown, if_true, List.map_nil,
        List.nil_append, List.mem_append] at hcmd
      obtain hcmd | hcmd := hcmd
      · rw [hforward cmd (by aesop)]
      · rw [masquerade_hook (Or.inr rfl) hcmd]

variable {n : AgentNode} {port : Int} {id : String} {isURL : String → Bool}

/-- The interface a stored config becomes at an address. -/
def AmneziawgConfig.atAddress (c : AmneziawgConfig) (n : AgentNode) (port : Int)
    (address : String) : Agent.Amneziawg.InboundConfig where
  interface := n.interface
  listenPort := if 0 < port then port else n.listenPort
  privateKey := c.serverPrivateKey
  address := address
  obfuscation := c.obfuscation
  postUp := []
  postDown := []
  chain := none
  geometry := none

theorem toInboundConfig_iff {inbound : Agent.Amneziawg.InboundConfig} :
    (c.toWire port id).toInboundConfig n.interface n.listenPort = .ok inbound ↔
      ∃ address, serverAddressFromSubnet c.subnet = .ok address ∧
        c.atAddress n port address = inbound := by
  unfold Agent.Amneziawg.InboundCfgWire.toInboundConfig Agent.Amneziawg.InboundCfgWire.geometry
    AmneziawgConfig.toWire
  simp only [bind_eq_ok, pure_eq_ok, or_true, if_true, Except.ok.injEq, exists_eq_left']
  rfl

theorem atAddress_validate_iff (h : (StoredInbound.amneziawg c).Accepted isURL) (address : String) :
    (c.atAddress n port address).validate = .ok () ↔ c.obfuscation.jmin ≤ c.obfuscation.jmax := by
  obtain ⟨hschema, -, hkey, -⟩ := h
  have hne : c.serverPrivateKey ≠ "" := by
    intro hempty
    rw [hempty] at hkey
    exact absurd hkey (by decide)
  rw [← obfuscation_validate_iff hschema]
  unfold Agent.Amneziawg.InboundConfig.validate AmneziawgConfig.atAddress
  dsimp only
  rw [if_neg hne, hkey, if_neg (by simp)]

theorem amneziawg_served_iff (h : (StoredInbound.amneziawg c).Accepted isURL) :
    c.Served n port id ↔ (StoredInbound.amneziawg c).Servable n := by
  obtain ⟨r, hr⟩ := h.2.1
  constructor
  · rintro ⟨inbound, hin, hpeers, haddress⟩
    obtain ⟨address, ha, rfl⟩ := toInboundConfig_iff.mp hin
    obtain ⟨conf, hconf⟩ := hpeers [] nofun
    have hrender := (renderInterface_iff rfl rfl rfl rfl).mp
      ⟨_, (Agent.Amneziawg.renderConfig_ok hconf).1⟩
    refine ⟨(atAddress_validate_iff h address).mp hrender, (serverAddress_iff hr).mp ?_⟩
    rw [ha]
    exact congrArg Except.ok (haddress r hr).1
  · rintro ⟨horder, hnetwork⟩
    have ha := (serverAddress_iff hr).mpr hnetwork
    refine ⟨_, toInboundConfig_iff.mpr ⟨_, ha, rfl⟩, ?_, ?_⟩
    · intro peers hpeers
      obtain ⟨conf, hconf⟩ := (renderInterface_iff rfl rfl rfl rfl).mpr
        ((atAddress_validate_iff h _).mpr horder)
      exact ⟨_, Agent.Amneziawg.renderConfig_of_renderInterface hconf hpeers⟩
    · intro r' hr'
      rw [hr] at hr'
      cases hr'
      refine ⟨rfl, fun k hfirst hlast heq => ?_⟩
      unfold AmneziawgConfig.atAddress at heq
      rw [String.append_left_inj, String.append_left_inj] at heq
      exact serverAddress_ne_peer hr hfirst hlast heq

end Amneziawg

/-! ## Mieru -/

section Mieru

open Agent.Mieru

variable {c : MieruConfig} {n : AgentNode} {port : Int} {id : String}

theorem pushedInbound_validate (n : AgentNode) (port : Int) (h : mieruConfigSchema c = true) :
    (pushedInbound n.mieru port c.mtu).validate = .ok () ↔ 1280 ≤ c.mtu := by
  unfold mieruConfigSchema intIn at h
  simp only [decide_eq_true_eq] at h
  have hmtu : c.mtu ≠ 0 := by omega
  unfold InboundConfig.validate pushedInbound
  dsimp only
  rw [if_neg hmtu]
  by_cases hle : 1280 ≤ c.mtu
  · rw [if_neg (by omega)]
    simp [hle]
  · rw [if_pos (by omega)]
    simp [hle]

/-- An inbound alone is rendered where it and the install-time one are valid. -/
theorem renderMulti_alone {inbound base : InboundConfig} {users : List User}
    (hbase : base.validate = .ok ()) (husers : ∀ u ∈ users, checkUser u = .ok ()) :
    (∃ doc, renderMulti [inbound] base users = .ok doc) ↔ inbound.validate = .ok () := by
  have hcheck : forEach checkUser users = .ok () := forEach_eq_ok.mpr husers
  unfold renderMulti
  simp only [bind_eq_ok, pure_eq_ok, forEach, hbase, hcheck, bindPorts, List.not_mem_nil, if_false]
  constructor
  · rintro ⟨_, _, ⟨_, h, -⟩, -⟩
    exact h
  · intro h
    exact ⟨_, (), ⟨(), h, trivial⟩, (), trivial, _, ⟨[], rfl, rfl⟩, (), trivial, rfl⟩

theorem sortedInbounds_set (inbounds : OrderedMap String InboundConfig)
    (h : ∀ k ∈ inbounds.keys, k = id) (next : InboundConfig) :
    sortedInbounds (inbounds.set id next) = [next] := by
  have hentries : (inbounds.set id next).entries = [(id, next)] := by
    obtain ⟨entries, hnodup⟩ := inbounds
    match entries, hnodup, h with
    | [], _, _ => rfl
    | [(k, v)], _, h =>
      have hk : k = id := h k (by simp [OrderedMap.keys])
      subst hk
      simp [OrderedMap.set, OrderedMap.alter, OrderedMap.alterEntries]
    | (k, v) :: (k', v') :: rest, hnodup, h =>
      have hk : k = id := h k (by simp [OrderedMap.keys])
      have hk' : k' = id := h k' (by simp [OrderedMap.keys])
      simp [hk, hk'] at hnodup
  unfold sortedInbounds OrderedMap.values
  rw [hentries]
  rfl

theorem conflictLocked_alone (inbounds : OrderedMap String InboundConfig)
    (h : ∀ k ∈ inbounds.keys, k = id) (next : InboundConfig) :
    conflictLocked inbounds id next = none := by
  unfold conflictLocked
  rw [List.findSome?_eq_none_iff]
  intro other hother
  exact if_pos (h other.1 (List.mem_map_of_mem hother))

/-- A config that renders is refused for no word of it. -/
theorem regenerateAndReload_valid {inst : Install} {a : Answers} {s : State} {doc : Conf}
    (hdoc : s.render inst = .ok doc) {e : MieruError}
    (he : (regenerateAndReload inst a s).2 = some e) : e.invalid = false := by
  unfold regenerateAndReload at he
  rw [hdoc] at he
  split at he
  · cases he
  dsimp only at he
  split at he
  · rename_i hwrite
    unfold writeConfig at hwrite
    split at hwrite
    · cases hwrite
    · obtain ⟨-, hwrite⟩ := Prod.mk.inj hwrite
      cases he
      split at hwrite
      · cases hwrite
      · cases hwrite
        rfl
  split at he
  · cases he
  split at he
  · cases he
  unfold reloadMita awaitUser stopMita startMita at he
  dsimp only at he
  split at he
  · cases he
    rfl
  split at he
  · split at he
    · rename_i hstop
      cases he
      split at hstop
      · obtain ⟨-, hstop⟩ := Prod.mk.inj hstop
        split at hstop
        · cases hstop
          rfl
        · cases hstop
      · cases hstop
    · cases he
  · split at he
    · cases he
    · cases he
      rfl

variable (id) in
theorem regenerateAndReload_refused {inst : Install} {a : Answers} {s : State}
    {e : Agent.Mieru.RenderRefusal} {next : InboundConfig}
    (he : renderMulti [next] inst.inbound (sortedUsers s.users) = .error e)
    (hnone : ∀ k ∈ s.inbounds.keys, k = id) :
    (regenerateAndReload inst a (s.setInbounds (s.inbounds.set id next))).2 = some (.render e) := by
  unfold regenerateAndReload State.render State.setInbounds
  dsimp only
  rw [if_neg, sortedInbounds_set _ hnone, he]
  refine OrderedMap.entries_ne_nil_of_get? (k := id) (v := next) ?_
  rw [OrderedMap.get?_set, if_pos rfl]

theorem mieru_served_iff (h : mieruConfigSchema c = true) : c.Served n port id ↔ 1280 ≤ c.mtu := by
  rw [← pushedInbound_validate n port h]
  constructor
  · intro hserved
    -- a node just started, whose commands would all succeed
    have hfirst := hserved ⟨.done, true, true, .stopped, true⟩
      ⟨.empty, .empty, false, false, false, none, none, none⟩ nofun nofun
    by_contra hrefused
    unfold applyIdentifiedInbound at hfirst
    dsimp only at hfirst
    rw [OrderedMap.get?_empty, if_neg (by simp),
      conflictLocked_alone .empty nofun] at hfirst
    dsimp only at hfirst
    cases hrender : renderMulti [pushedInbound n.mieru port c.mtu] n.mieru.inbound [] with
    | ok doc =>
      refine hrefused ((renderMulti_alone n.mieruValid ?_).mp ⟨doc, hrender⟩)
      exact fun _ hu => absurd hu List.not_mem_nil
    | error e =>
      have hreg : (regenerateAndReload n.mieru ⟨.done, true, true, .stopped, true⟩ _).2 = _ :=
        regenerateAndReload_refused id
          (s := ⟨.empty, .empty, false, false, false, none, none, none⟩) hrender nofun
      split at hfirst
      · rename_i hok
        rw [hok] at hreg
        cases hreg
      · rename_i e' herr
        rw [herr] at hreg
        cases hreg
        have : (MieruError.render e).invalid = false := hfirst _ (congrArg Prod.snd (if_pos rfl))
        cases this
  · intro hvalid a s honly husers e he
    have hsorted : ∀ u ∈ sortedUsers s.users, checkUser u = .ok () :=
      fun u hu => husers u ((List.perm_insertionSort _ _).mem_iff.mp hu)
    obtain ⟨doc, hdoc⟩ := (renderMulti_alone n.mieruValid hsorted).mpr hvalid
    unfold applyIdentifiedInbound at he
    dsimp only at he
    split at he
    · cases he
    rw [conflictLocked_alone _ honly] at he
    dsimp only at he
    have hrender : (s.setInbounds (s.inbounds.set id (pushedInbound n.mieru port c.mtu))).render
        n.mieru = .ok doc := by
      unfold State.render State.setInbounds
      dsimp only
      rw [sortedInbounds_set _ honly]
      exact hdoc
    split at he
    · cases he
    · rename_i hreg
      have := regenerateAndReload_valid hrender (congrArg Prod.snd hreg)
      split at he
      · cases he
        exact this
      · cases he
        exact this

end Mieru

/-! ## Hysteria -/

section Hysteria

open Agent.Hysteria

variable {c : HysteriaConfig} {n : AgentNode} {port : Int} {isURL : String → Bool}

theorem validateInboundYAMLSafe_iff (field value : String) :
    validateInboundYAMLSafe field value = .ok () ↔ IsPlainYaml value := by
  unfold validateInboundYAMLSafe IsPlainYaml
  split
  · rename_i ch hfind
    have hmem := List.mem_of_find?_eq_some hfind
    have hin := List.find?_some hfind
    refine iff_of_false nofun fun h => h ch hmem ?_
    simpa using hin
  · rename_i hfind
    rw [List.find?_eq_none] at hfind
    refine iff_of_true rfl fun ch hch => ?_
    simpa using hfind ch hch

theorem validateMasqueradeURL_iff (libs : Libs) (s : String) :
    validateMasqueradeURL libs s = .ok () ↔ IsMasqueradeURL libs s := by
  unfold validateMasqueradeURL IsMasqueradeURL
  by_cases hline : '\n' ∈ s.toList ∨ '\r' ∈ s.toList
  · rw [if_pos hline]
    refine iff_of_false nofun fun h => ?_
    exact hline.elim h.1 h.2.1
  rw [if_neg hline]
  rw [not_or] at hline
  cases hparse : libs.parseURL s with
  | none => simp
  | some url =>
    obtain ⟨scheme, host⟩ := url
    dsimp only
    by_cases hscheme : scheme = "http" ∨ scheme = "https"
    · rw [if_neg (by rintro ⟨h1, h2⟩; exact hscheme.elim h1 h2)]
      by_cases hhost : host = ""
      · simp [hhost]
      · rw [if_neg hhost]
        exact iff_of_true rfl ⟨hline.1, hline.2, scheme, host, rfl, hscheme, hhost⟩
    · rw [if_pos (not_or.mp hscheme)]
      refine iff_of_false nofun fun h => ?_
      obtain ⟨-, -, scheme', host', heq, hin, -⟩ := h
      cases heq
      exact hscheme hin

theorem isPlainYaml_empty : IsPlainYaml "" := fun _ _ h => absurd h List.not_mem_nil

section Inbound

variable (libs : Libs) (cfg : Config) (inbound : InboundConfig)

theorem renderHostname_iff {hostname : String} : renderHostname cfg inbound = .ok hostname ↔
    IsPlainYaml inbound.hostname ∧
      (if inbound.hostname ≠ "" then inbound.hostname else cfg.hostname) = hostname := by
  unfold renderHostname
  by_cases hset : inbound.hostname ≠ ""
  · rw [if_pos hset, if_pos hset]
    simp only [bind_eq_ok, pure_eq_ok, ← validateInboundYAMLSafe_iff "Hostname"]
    exact ⟨fun ⟨_, h, heq⟩ => ⟨h, heq⟩, fun ⟨h, heq⟩ => ⟨(), h, heq⟩⟩
  · rw [if_neg hset, if_neg hset, pure_eq_ok, not_not.mp hset]
    exact (and_iff_right isPlainYaml_empty).symm

theorem obfsLines_iff : (∃ lines, obfsLines inbound = .ok lines) ↔
    IsPlainYaml inbound.obfsPassword := by
  unfold obfsLines
  by_cases hset : inbound.obfsPassword ≠ ""
  · rw [if_pos hset]
    simp only [bind_eq_ok, pure_eq_ok, ← validateInboundYAMLSafe_iff "ObfsPassword"]
    exact ⟨fun ⟨_, _, h, _⟩ => h, fun h => ⟨_, (), h, rfl⟩⟩
  · rw [if_neg hset, not_not.mp hset]
    exact iff_of_true ⟨_, rfl⟩ isPlainYaml_empty

theorem masqueradeLines_iff : (∃ lines, masqueradeLines libs inbound = .ok lines) ↔
    (inbound.masqueradeURL ≠ "" → IsMasqueradeURL libs inbound.masqueradeURL) := by
  unfold masqueradeLines
  by_cases hset : inbound.masqueradeURL ≠ ""
  · rw [if_pos hset]
    simp only [bind_eq_ok, pure_eq_ok, ← validateMasqueradeURL_iff]
    exact ⟨fun ⟨_, _, h, _⟩ _ => h, fun h => ⟨_, (), h hset, rfl⟩⟩
  · rw [if_neg hset]
    exact iff_of_true ⟨_, rfl⟩ fun h => absurd h hset

/-- Without a pair of its own, and with a name to ask a certificate for, an inbound is rendered
where its texts are taken. -/
theorem renderConfig_iff (hcert : inbound.tlsCertPEM = "")
    (hnamed : inbound.hostname ≠ "" ∨ cfg.hostname ≠ "") :
    (∃ lines, renderConfig libs cfg inbound none = .ok lines) ↔
      IsPlainYaml inbound.hostname ∧ IsPlainYaml inbound.obfsPassword ∧
        (inbound.masqueradeURL ≠ "" → IsMasqueradeURL libs inbound.masqueradeURL) := by
  have hname : (if inbound.hostname ≠ "" then inbound.hostname else cfg.hostname) ≠ "" := by
    split
    · assumption
    · rename_i hempty
      exact hnamed.resolve_left hempty
  have hlines (hostname : String) (hne : hostname ≠ "") :
      ∃ lines, certificateLines cfg inbound hostname = .ok lines := by
    unfold certificateLines
    rw [if_neg (not_not.mpr hcert), if_neg hne]
    exact ⟨_, rfl⟩
  rw [← obfsLines_iff, ← masqueradeLines_iff]
  unfold renderConfig
  simp only [bind_eq_ok, pure_eq_ok, renderHostname_iff]
  constructor
  · rintro ⟨_, _, ⟨h, -⟩, _, -, obfs, hobfs, masq, hmasq, -⟩
    exact ⟨h, ⟨obfs, hobfs⟩, ⟨masq, hmasq⟩⟩
  · rintro ⟨h, ⟨obfs, hobfs⟩, ⟨masq, hmasq⟩⟩
    obtain ⟨lines, hlines⟩ := hlines _ hname
    exact ⟨_, _, ⟨h, rfl⟩, lines, hlines, obfs, hobfs, masq, hmasq, [], rfl, rfl⟩

end Inbound

theorem hysteria_served_iff (hnamed : (StoredInbound.hysteria c).Named n) :
    c.Served n port ↔ (StoredInbound.hysteria c).Servable n := by
  refine (renderConfig_iff n.libs n.hysteria ((c.toWire n.acmeHostname).toInboundConfig port) rfl
    hnamed).trans (and_congr Iff.rfl (and_congr ?_ ?_))
  · show IsPlainYaml (c.obfsPassword.getD "") ↔ _
    cases c.obfsPassword with
    | none => exact iff_of_true isPlainYaml_empty nofun
    | some s => simp
  · show (c.masqueradeUrl.getD "" ≠ "" → IsMasqueradeURL n.libs (c.masqueradeUrl.getD "")) ↔ _
    cases c.masqueradeUrl with
    | none => exact iff_of_true (fun h => absurd rfl h) nofun
    | some s => simp

end Hysteria

/-! ## Every stored inbound -/

/-- **What the panel stores the agent takes exactly where it is `Servable`: the schemas bound neither
the order of the junk sizes nor the text of a subnet, the smallest datagram of mieru or the texts of
hysteria as the agent does.** -/
theorem stored_served_iff (n : AgentNode) (isURL : String → Bool) (c : StoredInbound) (port : Int)
    (id : String) (haccepted : c.Accepted isURL) (hnamed : c.Named n) :
    c.Served n port id ↔ c.Servable n := by
  cases c with
  | amneziawg c => exact amneziawg_served_iff haccepted
  | mieru c => exact mieru_served_iff haccepted
  | hysteria c => exact hysteria_served_iff hnamed

/-! ### One node -/

/-- A node as it is installed, dialled at a name. -/
def installedNode : AgentNode where
  interface := "awg0"
  listenPort := 51820
  mieru := ⟨true, true, ⟨2012, 1400, "INFO"⟩⟩
  mieruValid := by decide
  libs :=
    { parseURL := fun s => if s = "https://www.bing.com" then some ("https", "www.bing.com") else none
      tlsPair := fun _ _ => true }
  hysteria :=
    { authCallbackHost := "", authCallbackPort := 0, authCallbackPath := ""
      configPath := "/etc/hysteria/config.yaml", hostname := "", acmeEmail := "", listenPort := 443
      serviceUnit := "hysteria-server", trafficStatsListen := "", trafficStatsSecret := "" }
  acmeHostname := some "de.example.com"

/-- The form's own obfuscation, with its junk sizes as given. -/
def formObfuscation (jmin jmax : Int) : Obfuscation :=
  ⟨4, jmin, jmax, 32, 56, 32, 16, 100, 200, 300, 400, "", "", "", "", ""⟩

def formAmneziawg (subnet : String) (jmin jmax : Int) : AmneziawgConfig :=
  ⟨subnet, "AAAAAAAAAAAAAAAAAAAAAAAAAAAAAAAAAAAAAAAAAAA=",
    "BBBBBBBBBBBBBBBBBBBBBBBBBBBBBBBBBBBBBBBBBBA=", formObfuscation jmin jmax⟩

def formHysteria (obfsPassword masqueradeUrl : Option String) : HysteriaConfig :=
  ⟨none, obfsPassword, masqueradeUrl, none, none, none, none⟩

theorem stored_served_iff_installed :
    (StoredInbound.amneziawg (formAmneziawg "10.0.0.0/24" 64 128)).Served installedNode 443 "a" ∧
      (StoredInbound.mieru ⟨1400⟩).Served installedNode 443 "m" ∧
      (StoredInbound.hysteria (formHysteria (some "salt") (some "https://www.bing.com"))).Served
        installedNode 443 "h" := by
  refine ⟨(stored_served_iff _ (fun _ => true) _ _ _ ?_ ?_).mpr ?_,
    (stored_served_iff _ (fun _ => true) _ _ _ ?_ ?_).mpr ?_,
    (stored_served_iff _ (fun _ => true) _ _ _ ?_ ?_).mpr ?_⟩
  · exact ⟨by decide, ⟨⟨167772160, 24, 167772161, 167772162, 167772414⟩, by decide⟩,
      by decide, by decide⟩
  · exact trivial
  · exact ⟨by decide, 167772160, "24", by decide, by decide, by decide⟩
  · exact (by decide : mieruConfigSchema ⟨1400⟩ = true)
  · exact trivial
  · exact (by decide : (1280 : Int) ≤ 1400)
  · exact (by decide : hysteriaConfigSchema (fun _ => true)
      (formHysteria (some "salt") (some "https://www.bing.com")) = true)
  · exact Or.inl (by decide)
  · refine ⟨by unfold IsPlainYaml; decide, ?_, ?_⟩
    · rintro s ⟨⟩
      unfold IsPlainYaml
      decide
    · rintro s ⟨⟩ -
      exact ⟨by decide, by decide, "https", "www.bing.com", by decide,
        Or.inr rfl, by decide⟩

/-- Junk sizes out of order, a subnet with host bits, a small datagram and a password with a colon
are stored, and the agent does not take them. -/
theorem stored_not_served :
    (∀ c ∈ [StoredInbound.amneziawg (formAmneziawg "10.0.0.0/24" 128 64),
        .amneziawg (formAmneziawg "10.0.0.5/24" 64 128), .mieru ⟨600⟩,
        .hysteria (formHysteria (some "pa:ss") none)],
      c.Accepted (fun _ => true) ∧ c.Named installedNode ∧ ¬ c.Served installedNode 443 "x") ∧
    ¬ ∀ c : StoredInbound, c.Accepted (fun _ => true) → c.Named installedNode →
      c.Served installedNode 443 "x" := by
  have hrange : parseSubnet "10.0.0.0/24" =
      .ok ⟨167772160, 24, 167772161, 167772162, 167772414⟩ := by decide
  have hrange' : parseSubnet "10.0.0.5/24" =
      .ok ⟨167772160, 24, 167772161, 167772162, 167772414⟩ := by decide
  have horder : (StoredInbound.amneziawg (formAmneziawg "10.0.0.0/24" 128 64)).Accepted
      fun _ => true :=
    ⟨by decide, ⟨_, hrange⟩, by decide, by decide⟩
  have hhost : (StoredInbound.amneziawg (formAmneziawg "10.0.0.5/24" 64 128)).Accepted
      fun _ => true :=
    ⟨by decide, ⟨_, hrange'⟩, by decide, by decide⟩
  have hmtu : mieruConfigSchema ⟨600⟩ = true := by decide
  have hcolon : hysteriaConfigSchema (fun _ => true) (formHysteria (some "pa:ss") none) = true := by
    decide
  have hnamed : (StoredInbound.hysteria (formHysteria (some "pa:ss") none)).Named installedNode :=
    Or.inl (by decide)
  suffices hall : _ from
    ⟨hall, fun hclaim =>
      have ⟨haccepted, hnamed, hserved⟩ := hall _ List.mem_cons_self
      hserved (hclaim _ haccepted hnamed)⟩
  intro c hc
  simp only [List.mem_cons, List.not_mem_nil, or_false] at hc
  rcases hc with rfl | rfl | rfl | rfl
  · refine ⟨horder, trivial, fun h => ?_⟩
    obtain ⟨h, -⟩ := (amneziawg_served_iff horder).mp h
    exact absurd h (by decide)
  · refine ⟨hhost, trivial, fun h => ?_⟩
    obtain ⟨-, h⟩ := (amneziawg_served_iff hhost).mp h
    -- the agent gives itself 10.0.0.6, an address of the pool
    exact absurd ((serverAddress_iff hrange').mpr h) (by decide)
  · refine ⟨hmtu, trivial, fun h => ?_⟩
    exact absurd ((mieru_served_iff hmtu).mp h) (by decide)
  · refine ⟨hcolon, hnamed, fun h => ?_⟩
    obtain ⟨-, h, -⟩ := (hysteria_served_iff hnamed).mp h
    exact h _ rfl ':' (by decide) (by decide)

end Iceslab
