import Iceslab.Agent.AtomicFile
import Iceslab.Lib.Checked
import Iceslab.Lib.GoPath
import Iceslab.Lib.Pushed

/-!
# The hysteria adapter

`inbound.go` and the pushes of `adapter.go` of `internal/core/hysteria`: the config file an inbound
and a hand-off to the chain are rendered to, the pair written beside it and the restart of the
unit.  What becomes of each write and of the restart comes with the push.

* `renderConfig` — the config file, or why there is none.
* `rewriteLocked`, `restartLocked`, `applyInbound`, `applyCascade`.
* `honest` — a push is in force once accepted, where every config that lands is restarted with.
-/

set_option autoImplicit false

namespace Iceslab.Agent.Hysteria

open Checked (bind_eq_ok pure_eq_ok)

/-! ## The config file -/

/-- What the agent was started with. -/
structure Config where
  authCallbackHost : String
  authCallbackPort : Int
  authCallbackPath : String
  configPath : String
  hostname : String
  acmeEmail : String
  listenPort : Int
  serviceUnit : String
  trafficStatsListen : String
  trafficStatsSecret : String

/-- `url.Parse`, as far as its scheme and host are read, and whether a certificate and a key are a
pair and the certificate parses. -/
structure Libs where
  parseURL : String → Option (String × String)
  tlsPair : String → String → Bool

structure InboundConfig where
  port : Int
  hostname : String
  obfsPassword : String
  masqueradeURL : String
  brutalUpMbps : Int
  brutalDownMbps : Int
  tlsCertPEM : String
  tlsKeyPEM : String
deriving DecidableEq

/-- Nothing applied. -/
def InboundConfig.zero : InboundConfig := ⟨0, "", "", "", 0, 0, "", ""⟩

structure InboundCfgWire where
  hostname : String
  obfsPassword : String
  masqueradeUrl : String
  brutalUpMbps : Int
  brutalDownMbps : Int
  tlsCertPem : String
  tlsKeyPem : String
deriving DecidableEq

def InboundCfgWire.toInboundConfig (w : InboundCfgWire) (port : Int) : InboundConfig where
  port := port
  hostname := w.hostname
  obfsPassword := w.obfsPassword
  masqueradeURL := w.masqueradeUrl
  brutalUpMbps := w.brutalUpMbps
  brutalDownMbps := w.brutalDownMbps
  tlsCertPEM := w.tlsCertPem
  tlsKeyPEM := w.tlsKeyPem

structure ChainHandoff where
  port : Int
  username : String
  password : String
deriving DecidableEq

inductive RenderRefusal
  | yamlChar (field : String) (c : Char)
  | masqueradeNewline
  | masqueradeURL
  | masqueradeScheme (scheme : String)
  | masqueradeHost
  | needsConfigPath
  | hostnameRequired
  | chainPort (port : Int)
  | chainCredentials
deriving DecidableEq

/-- `tlsPaths`: the certificate and the key. -/
def tlsPaths (configPath : String) : String × String :=
  (GoPath.join (GoPath.dir configPath) "iceslab-tls.crt",
    GoPath.join (GoPath.dir configPath) "iceslab-tls.key")

def validateInboundYAMLSafe (field value : String) : Except RenderRefusal Unit :=
  match "\n\r:\x7b[#".toList.find? (· ∈ value.toList) with
  | some c => .error (.yamlChar field c)
  | none => .ok ()

section Render

variable (libs : Libs) (cfg : Config) (inbound : InboundConfig)

def validateMasqueradeURL (s : String) : Except RenderRefusal Unit :=
  if '\n' ∈ s.toList ∨ '\r' ∈ s.toList then .error .masqueradeNewline
  else
    match libs.parseURL s with
    | none => .error .masqueradeURL
    | some (scheme, host) =>
      if scheme ≠ "http" ∧ scheme ≠ "https" then .error (.masqueradeScheme scheme)
      else if host = "" then .error .masqueradeHost
      else .ok ()

/-- The pushed hostname, or the install-time one. -/
def renderHostname : Except RenderRefusal String :=
  if inbound.hostname ≠ "" then do
    validateInboundYAMLSafe "Hostname" inbound.hostname
    return inbound.hostname
  else return cfg.hostname

/-- `tls:` for a pushed pair, `acme:` without one. -/
def certificateLines (hostname : String) : Except RenderRefusal (List String) :=
  if inbound.tlsCertPEM ≠ "" then
    if cfg.configPath = "" then .error .needsConfigPath
    else
      .ok ["tls:", "  cert: " ++ (tlsPaths cfg.configPath).1, "  key: " ++ (tlsPaths cfg.configPath).2]
  else if hostname = "" then .error .hostnameRequired
  else
    .ok (["acme:", "  domains:", "    - " ++ hostname] ++
      if cfg.acmeEmail ≠ "" then ["  email: " ++ cfg.acmeEmail] else [])

def listenPort : Int :=
  if inbound.port ≠ 0 then inbound.port else if cfg.listenPort ≠ 0 then cfg.listenPort else 443

def authLines : List String :=
  let host := if cfg.authCallbackHost = "" then "127.0.0.1" else cfg.authCallbackHost
  let port := if cfg.authCallbackPort = 0 then 9000 else cfg.authCallbackPort
  let path := if cfg.authCallbackPath = "" then "/auth" else cfg.authCallbackPath
  ["auth:", "  type: http", "  http:", "    url: http://" ++ host ++ ":" ++ toString port ++ path]

def obfsLines : Except RenderRefusal (List String) :=
  if inbound.obfsPassword ≠ "" then do
    validateInboundYAMLSafe "ObfsPassword" inbound.obfsPassword
    return ["", "obfs:", "  type: salamander", "  salamander:",
      "    password: " ++ inbound.obfsPassword]
  else return []

def masqueradeLines : Except RenderRefusal (List String) :=
  if inbound.masqueradeURL ≠ "" then do
    validateMasqueradeURL libs inbound.masqueradeURL
    return ["", "masquerade:", "  type: proxy", "  proxy:", "    url: " ++ inbound.masqueradeURL,
      "    rewriteHost: true"]
  else return []

/-- Brutal with a bandwidth, BBR without one. -/
def bandwidthLines : List String :=
  (if 0 < inbound.brutalUpMbps ∨ 0 < inbound.brutalDownMbps then
      ["", "bandwidth:"] ++
        (if 0 < inbound.brutalUpMbps then ["  up: " ++ toString inbound.brutalUpMbps ++ " mbps"]
          else []) ++
        if 0 < inbound.brutalDownMbps then
          ["  down: " ++ toString inbound.brutalDownMbps ++ " mbps"]
        else []
    else []) ++
    if inbound.brutalUpMbps = 0 ∧ inbound.brutalDownMbps = 0 then
      ["", "ignoreClientBandwidth: true"]
    else []

def trafficStatsLines : List String :=
  if cfg.trafficStatsListen ≠ "" ∧ cfg.trafficStatsSecret ≠ "" then
    ["", "trafficStats:", "  listen: " ++ cfg.trafficStatsListen,
      "  secret: " ++ cfg.trafficStatsSecret]
  else []

/-- `writeChainOutbound`: one outbound and no acl. -/
def writeChainOutbound (h : ChainHandoff) : Except RenderRefusal (List String) :=
  if h.port < 1 ∨ 65535 < h.port then .error (.chainPort h.port)
  else if h.username = "" ∨ h.password = "" then .error .chainCredentials
  else do
    validateInboundYAMLSafe "chain username" h.username
    validateInboundYAMLSafe "chain password" h.password
    return ["", "outbounds:", "  - name: chain", "    type: socks5", "    socks5:",
      "      addr: 127.0.0.1:" ++ toString h.port, "      username: " ++ h.username,
      "      password: " ++ h.password]

def chainLines : Option ChainHandoff → Except RenderRefusal (List String)
  | none => .ok []
  | some h => writeChainOutbound h

def renderConfig (handoff : Option ChainHandoff) : Except RenderRefusal (List String) := do
  let hostname ← renderHostname cfg inbound
  let certificate ← certificateLines cfg inbound hostname
  let obfs ← obfsLines inbound
  let masquerade ← masqueradeLines libs inbound
  let chain ← chainLines handoff
  return ["listen: :" ++ toString (listenPort cfg inbound), ""] ++ certificate ++ [""] ++
    authLines cfg ++ obfs ++ masquerade ++ bandwidthLines inbound ++ trafficStatsLines cfg ++ chain

end Render

/-! ## The adapter -/

structure State where
  inbound : InboundConfig
  chain : Option ChainHandoff
  /-- the config file, and the pair beside it -/
  config : Option (List String)
  certFile : Option String
  keyFile : Option String
  /-- the last restart: the config it found, and whether it succeeded -/
  restarted : Option (Option (List String) × Bool)
deriving DecidableEq

/-- `raw` is none where it is nil and `some none` where it does not parse. -/
inductive Push
  | applyInbound (port : Int) (cfg : Option InboundCfgWire)
  | applyCascade (raw : Option (Option ChainHandoff))
deriving DecidableEq

/-- A push, and what becomes of the operations it may come to.  A directory that cannot be made is a
write that failed. -/
structure Turn where
  push : Push
  key : Outcome
  cert : Outcome
  config : Outcome
  restart : Bool
deriving DecidableEq

inductive HysteriaError
  | parseCfg
  | parseCascade
  | render (e : RenderRefusal)
  | tlsPair
  | writePair
  | write
  | restart
deriving DecidableEq

/-- The push itself is refused: it does not parse or does not render. -/
def HysteriaError.invalid : HysteriaError → Bool
  | .parseCfg | .parseCascade | .render _ | .tlsPair => true
  | .writePair | .write | .restart => false

abbrev Called := State × Option HysteriaError

section Adapter

variable (libs : Libs) (cfg : Config)

/-- `writeTLSPair`, after the pair is checked: the key before the certificate. -/
def writePair (t : Turn) (inbound : InboundConfig) (s : State) : Called :=
  if inbound.tlsCertPEM = "" then (s, none)
  else if libs.tlsPair inbound.tlsCertPEM inbound.tlsKeyPEM = false then (s, some .tlsPair)
  else
    let s := { s with keyFile := if t.key.lands then some inbound.tlsKeyPEM else s.keyFile }
    if t.key ≠ .done then (s, some .writePair)
    else
      let s := { s with certFile := if t.cert.lands then some inbound.tlsCertPEM else s.certFile }
      if t.cert ≠ .done then (s, some .writePair) else (s, none)

def rewriteLocked (t : Turn) (inbound : InboundConfig) (handoff : Option ChainHandoff) (s : State) :
    Called :=
  match renderConfig libs cfg inbound handoff with
  | .error e => (s, some (.render e))
  | .ok doc =>
    match writePair libs t inbound s with
    | (s, some e) => (s, some e)
    | (s, none) =>
      ({ s with config := if t.config.lands then some doc else s.config },
        if t.config = .done then none else some .write)

def restartLocked (t : Turn) (s : State) : Called :=
  if cfg.serviceUnit = "" then (s, none)
  else
    ({ s with restarted := some (s.config, t.restart) },
      if t.restart then none else some .restart)

/-- `ApplyInbound`: the inbound is stored between the write and the restart. -/
def applyInbound (t : Turn) (port : Int) (raw : Option InboundCfgWire) (s : State) : Called :=
  match raw with
  | none => (s, some .parseCfg)
  | some wire =>
    let new := wire.toInboundConfig port
    if s.inbound = new then (s, none)
    else if cfg.configPath = "" then ({ s with inbound := new }, none)
    else
      match rewriteLocked libs cfg t new s.chain s with
      | (s, some e) => (s, some e)
      | (s, none) => restartLocked cfg t { s with inbound := new }

/-- The hand-off of a payload. -/
def readCascade : Option (Option ChainHandoff) → Except HysteriaError (Option ChainHandoff)
  | none => .ok none
  | some none => .error .parseCascade
  | some (some h) => .ok (some h)

/-- `ApplyCascade`: with no inbound the hand-off is only remembered. -/
def applyCascade (t : Turn) (raw : Option (Option ChainHandoff)) (s : State) : Called :=
  match readCascade raw with
  | .error e => (s, some e)
  | .ok handoff =>
    if s.chain = handoff then (s, none)
    else if s.inbound = .zero ∨ cfg.configPath = "" then ({ s with chain := handoff }, none)
    else
      match rewriteLocked libs cfg t s.inbound handoff s with
      | (s, some e) => (s, some e)
      | (s, none) => restartLocked cfg t { s with chain := handoff }

def State.call (s : State) (t : Turn) : Called :=
  match t.push with
  | .applyInbound port raw => applyInbound libs cfg t port raw s
  | .applyCascade raw => applyCascade libs cfg t raw s

end Adapter

/-! ## What a push leaves -/

variable {e : HysteriaError}

section Push

variable {libs : Libs} {cfg : Config} {t : Turn} {s s' : State} {inbound : InboundConfig}
  {handoff : Option ChainHandoff} {err : Option HysteriaError}

/-- The config file apart, and the files of the pair. -/
structure Beside (s s' : State) : Prop where
  inbound : s'.inbound = s.inbound
  chain : s'.chain = s.chain
  restarted : s'.restarted = s.restarted

theorem Beside.refl (s : State) : Beside s s := ⟨rfl, rfl, rfl⟩

theorem writePair_config (h : writePair libs t inbound s = (s', err)) :
    Beside s s' ∧ s'.config = s.config := by
  unfold writePair at h
  split at h
  · cases h
    exact ⟨.refl s, rfl⟩
  · split at h
    · cases h
      exact ⟨.refl s, rfl⟩
    · dsimp only at h
      split at h
      · cases h
        exact ⟨⟨rfl, rfl, rfl⟩, rfl⟩
      · split at h <;> cases h <;> exact ⟨⟨rfl, rfl, rfl⟩, rfl⟩

theorem writePair_invalid (h : writePair libs t inbound s = (s', some e))
    (he : e.invalid = true) : s' = s := by
  unfold writePair at h
  split at h
  · cases h
  · split at h
    · cases h
      rfl
    · dsimp only at h
      split at h
      · cases h
        cases he
      · split at h
        · cases h
          cases he
        · cases h

/-- A config that was written is in the file, and nothing is restarted with it yet. -/
theorem rewriteLocked_done (h : rewriteLocked libs cfg t inbound handoff s = (s', none)) :
    Beside s s' ∧ t.config = .done ∧
      ∃ doc, renderConfig libs cfg inbound handoff = .ok doc ∧ s'.config = some doc := by
  unfold rewriteLocked at h
  split at h
  · cases h
  · rename_i doc hdoc
    split at h
    · cases h
    · rename_i s₁ hpair
      have hbeside := (writePair_config hpair).1
      by_cases hdone : t.config = .done
      · rw [if_pos hdone] at h
        cases h
        refine ⟨⟨hbeside.inbound, hbeside.chain, hbeside.restarted⟩, hdone, doc, hdoc, ?_⟩
        simp [hdone, Outcome.lands]
      · rw [if_neg hdone] at h
        cases h

/-- A config that was not written leaves the file, unless it landed all the same. -/
theorem rewriteLocked_error (h : rewriteLocked libs cfg t inbound handoff s = (s', some e)) :
    Beside s s' ∧ (t.config ≠ .landed → s'.config = s.config) ∧ (e.invalid = true → s' = s) := by
  unfold rewriteLocked at h
  split at h
  · cases h
    exact ⟨.refl s, fun _ => rfl, fun _ => rfl⟩
  · split at h
    · rename_i s₁ e' hpair
      cases h
      exact ⟨(writePair_config hpair).1, fun _ => (writePair_config hpair).2,
        writePair_invalid hpair⟩
    · rename_i s₁ hpair
      obtain ⟨hbeside, hconfig⟩ := writePair_config hpair
      by_cases hdone : t.config = .done
      · rw [if_pos hdone] at h
        cases h
      · rw [if_neg hdone] at h
        cases h
        refine ⟨⟨hbeside.inbound, hbeside.chain, hbeside.restarted⟩, fun hlanded => ?_, ?_⟩
        · have hfailed : t.config = .failed := by
            cases hc : t.config with
            | done => exact absurd hc hdone
            | failed => rfl
            | landed => exact absurd hc hlanded
          simp only [hfailed, Outcome.lands]
          exact hconfig
        · intro he
          cases he

end Push

/-! ## Pushes one after another -/

section Pushes

variable (libs : Libs) (cfg : Config)

/-- The file is the render of what is held, and the unit was last restarted with that file. -/
structure InForce (s : State) : Prop where
  config : ∃ doc, renderConfig libs cfg s.inbound s.chain = .ok doc ∧ s.config = some doc
  restarted : cfg.serviceUnit ≠ "" → s.restarted = some (s.config, true)

/-- What the push asks for is held, and in force where there is an inbound. -/
def Asked (p : Push) (s : State) : Prop :=
  match p with
  | .applyInbound port raw =>
    (∃ wire, raw = some wire ∧ s.inbound = wire.toInboundConfig port) ∧ InForce libs cfg s
  | .applyCascade raw =>
    readCascade raw = .ok s.chain ∧ (s.inbound = .zero ∨ InForce libs cfg s)

/-- An adapter no push has reached, over any files. -/
def IsNew (s : State) : Prop := s.inbound = .zero ∧ s.chain = none

def pushed : Pushed State Turn where
  start := IsNew
  step s t := (s.call libs cfg t).1
  accepted s t := (s.call libs cfg t).2 = none
  refused s t := ∃ e, (s.call libs cfg t).2 = some e ∧ e.invalid = true
  inForce t s := Asked libs cfg t.push s
  same s s' := s' = s

/-- The inbound of the push says something, a config that lands is answered so, and the unit comes
back up with it. -/
structure Restarts (t : Turn) : Prop where
  path : cfg.configPath ≠ ""
  inbound : ∀ port wire, t.push = .applyInbound port (some wire) →
    wire.toInboundConfig port ≠ .zero
  write : t.config ≠ .landed
  restart : cfg.serviceUnit ≠ "" → t.config = .done → t.restart = true

variable {libs cfg} {t : Turn} {s s' : State} {err : Option HysteriaError}

theorem InForce.of_beside (h : InForce libs cfg s) (hb : Beside s s')
    (hconfig : s'.config = s.config) : InForce libs cfg s' := by
  obtain ⟨doc, hdoc, hfile⟩ := h.config
  refine ⟨⟨doc, ?_, by rw [hconfig, hfile]⟩, fun hunit => ?_⟩
  · rw [hb.inbound, hb.chain]
    exact hdoc
  · rw [hb.restarted, hconfig]
    exact h.restarted hunit

/-- A config written and restarted with is in force. -/
theorem restartLocked_inForce (hc : Restarts cfg t) (hdone : t.config = .done) {doc : List String}
    (hdoc : renderConfig libs cfg s.inbound s.chain = .ok doc) (hfile : s.config = some doc)
    (h : restartLocked cfg t s = (s', err)) :
    err = none ∧ s'.inbound = s.inbound ∧ s'.chain = s.chain ∧ InForce libs cfg s' := by
  unfold restartLocked at h
  split at h
  · rename_i hunit
    cases h
    exact ⟨rfl, rfl, rfl, ⟨doc, hdoc, hfile⟩, fun h => absurd hunit h⟩
  · rename_i hunit
    rw [if_pos (hc.restart hunit hdone)] at h
    cases h
    refine ⟨rfl, rfl, rfl, ⟨doc, hdoc, hfile⟩, fun _ => ?_⟩
    rw [hc.restart hunit hdone]

/-- What a call leaves, from a state where what is held is in force. -/
structure Kept (libs : Libs) (cfg : Config) (t : Turn) (s s' : State)
    (err : Option HysteriaError) : Prop where
  inForce : s'.inbound = .zero ∨ InForce libs cfg s'
  accepted : err = none → Asked libs cfg t.push s'
  refused : ∀ e, err = some e → e.invalid = true → s' = s

/-- A rewrite that failed leaves what was in force. -/
theorem kept_of_error {inbound : InboundConfig} {handoff : Option ChainHandoff}
    (hinv : s.inbound = .zero ∨ InForce libs cfg s) (hc : Restarts cfg t)
    (h : rewriteLocked libs cfg t inbound handoff s = (s', some e)) :
    Kept libs cfg t s s' (some e) := by
  obtain ⟨hbeside, hconfig, hinvalid⟩ := rewriteLocked_error h
  refine ⟨?_, nofun, ?_⟩
  · rcases hinv with hzero | hforce
    · exact Or.inl (by rw [hbeside.inbound, hzero])
    · exact Or.inr (hforce.of_beside hbeside (hconfig hc.write))
  · intro e' he'
    cases he'
    exact hinvalid

theorem applyInbound_kept {port : Int} {raw : Option InboundCfgWire}
    (hpush : t.push = .applyInbound port raw) (hinv : s.inbound = .zero ∨ InForce libs cfg s)
    (hc : Restarts cfg t) (h : applyInbound libs cfg t port raw s = (s', err)) :
    Kept libs cfg t s s' err := by
  unfold applyInbound at h
  split at h
  · cases h
    exact ⟨hinv, nofun, fun _ _ _ => rfl⟩
  · rename_i wire
    have hne := hc.inbound port wire hpush
    dsimp only at h
    split at h
    · rename_i hsame
      cases h
      have hforce : InForce libs cfg s := hinv.resolve_left (by rw [hsame]; exact hne)
      refine ⟨hinv, fun _ => ?_, nofun⟩
      rw [hpush]
      exact ⟨⟨wire, rfl, hsame⟩, hforce⟩
    · rw [if_neg hc.path] at h
      split at h
      · rename_i s₁ e hrewrite
        cases h
        exact kept_of_error hinv hc hrewrite
      · rename_i s₁ hrewrite
        obtain ⟨hbeside, hdone, doc, hdoc, hfile⟩ := rewriteLocked_done hrewrite
        obtain ⟨rfl, hin, -, hforce⟩ :=
          restartLocked_inForce hc hdone
            (s := { s₁ with inbound := wire.toInboundConfig port })
            (by rw [hbeside.chain]; exact hdoc) hfile h
        refine ⟨Or.inr hforce, fun _ => ?_, nofun⟩
        rw [hpush]
        exact ⟨⟨wire, rfl, hin⟩, hforce⟩

theorem applyCascade_kept {raw : Option (Option ChainHandoff)} (hpush : t.push = .applyCascade raw)
    (hinv : s.inbound = .zero ∨ InForce libs cfg s) (hc : Restarts cfg t)
    (h : applyCascade libs cfg t raw s = (s', err)) : Kept libs cfg t s s' err := by
  unfold applyCascade at h
  split at h
  · cases h
    exact ⟨hinv, nofun, fun _ _ _ => rfl⟩
  · rename_i handoff hread
    split at h
    · rename_i hsame
      cases h
      refine ⟨hinv, fun _ => ?_, nofun⟩
      rw [hpush]
      exact ⟨by rw [hsame]; exact hread, hinv⟩
    · split at h
      · rename_i hnone
        cases h
        have hzero : s.inbound = .zero := hnone.resolve_right hc.path
        refine ⟨Or.inl hzero, fun _ => ?_, nofun⟩
        rw [hpush]
        exact ⟨hread, Or.inl hzero⟩
      · split at h
        · rename_i s₁ e hrewrite
          cases h
          exact kept_of_error hinv hc hrewrite
        · rename_i s₁ hrewrite
          obtain ⟨hbeside, hdone, doc, hdoc, hfile⟩ := rewriteLocked_done hrewrite
          obtain ⟨rfl, -, hchain, hforce⟩ :=
            restartLocked_inForce hc hdone (s := { s₁ with chain := handoff })
              (by rw [hbeside.inbound]; exact hdoc) hfile h
          refine ⟨Or.inr hforce, fun _ => ?_, nofun⟩
          rw [hpush]
          exact ⟨by rw [hchain]; exact hread, Or.inr hforce⟩

theorem call_kept (hinv : s.inbound = .zero ∨ InForce libs cfg s) (hc : Restarts cfg t) :
    Kept libs cfg t s (s.call libs cfg t).1 (s.call libs cfg t).2 := by
  unfold State.call
  cases hpush : t.push with
  | applyInbound port raw => exact applyInbound_kept hpush hinv hc rfl
  | applyCascade raw => exact applyCascade_kept hpush hinv hc rfl

/-- Every push of a run is in force once accepted, and changes nothing when refused for what it
says, where every config that lands is restarted with. -/
theorem honest : (pushed libs cfg).HonestWhen fun _ t => Restarts cfg t := by
  refine Pushed.honestWhen_of_inv (I := fun s => s.inbound = .zero ∨ InForce libs cfg s) ?_ ?_ ?_
  · intro s hs
    exact Or.inl hs.1
  · intro s t hinv hc
    exact (call_kept hinv hc).inForce
  · intro s t hinv hc
    have hkept := call_kept hinv hc
    refine ⟨hkept.accepted, ?_⟩
    rintro ⟨e, he, hinvalid⟩
    exact hkept.refused e he hinvalid

end Pushes

end Iceslab.Agent.Hysteria
