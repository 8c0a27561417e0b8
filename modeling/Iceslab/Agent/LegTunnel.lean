import Iceslab.Agent.Dto
import Iceslab.Lib.GoText
import Iceslab.Lib.OrderedMap

/-!
# The tunnels under the legs

`internal/chain/tunnels.go`: the AmneziaWG tunnels of a chain block.  A tunnel is checked before
anything is touched (`validateTunnel`); the tunnels of an accepted block are raised and every other
leg interface of the machine is taken down (`applyTunnels`, `sweepTunnels`).
-/

set_option autoImplicit false

namespace Iceslab.Agent

/-! ## What a tunnel may carry -/

def chainTunnelIfacePrefix : String := "awg-l"

/-- `tunnelIfaceRe`: the prefix and one to three digits. -/
def isTunnelIface (iface : String) : Bool :=
  let digits := iface.toList.drop chainTunnelIfacePrefix.toList.length
  GoText.hasPrefix iface chainTunnelIfacePrefix && digits.all Char.isDigit
    && decide (1 ≤ digits.length) && decide (digits.length ≤ 3)

/-- `tunnelKeys`: every key a leg tunnel's config may carry, by section; none for a section a leg
tunnel does not have. -/
def tunnelKeys (sect : String) : Option (List String) :=
  if sect = "Interface" then
    some ["PrivateKey", "Address", "ListenPort", "Table", "MTU", "Jc", "Jmin", "Jmax",
      "S1", "S2", "S3", "S4", "H1", "H2", "H3", "H4"]
  else if sect = "Peer" then
    some ["PublicKey", "PresharedKey", "Endpoint", "AllowedIPs", "PersistentKeepalive"]
  else none

/-- Why a tunnel is refused. -/
inductive TunnelRefusal where
  | badName (iface : String)
  | badPort (iface : String) (port : Int)
  | unknownSection (iface sect : String)
  | twoInterfaces (iface : String)
  | twoPeers (iface : String)
  | badLine (iface line : String)
  | badKey (iface key sect : String)
  | missingSection (iface : String)
  deriving DecidableEq, Repr

def TunnelRefusal.text (quote : String → String) : TunnelRefusal → String
  | .badName iface =>
    "tunnel interface " ++ quote iface ++ " is not a leg tunnel name ("
      ++ chainTunnelIfacePrefix ++ "<n>)"
  | .badPort iface port => "tunnel " ++ iface ++ ": listen port " ++ toString port
      ++ " is not a port"
  | .unknownSection iface sect => "tunnel " ++ iface ++ ": section [" ++ sect
      ++ "] is not one a leg tunnel has"
  | .twoInterfaces iface => "tunnel " ++ iface ++ ": two [Interface] sections"
  | .twoPeers iface => "tunnel " ++ iface ++ ": a leg tunnel has one peer"
  | .badLine iface line => "tunnel " ++ iface ++ ": line " ++ quote line
      ++ " is not key = value inside a section"
  | .badKey iface key sect => "tunnel " ++ iface ++ ": key " ++ quote key ++ " is not allowed in ["
      ++ sect ++ "] (hooks and DNS are refused)"
  | .missingSection iface => "tunnel " ++ iface ++ ": needs one [Interface] and one [Peer]"

/-- Where the reading of a config stands: the section it is in, and which it has seen. -/
structure ConfRead where
  sect : String
  seenInterface : Bool
  seenPeer : Bool
  deriving DecidableEq, Repr

/-- One trimmed line. -/
def readConfLine (iface : String) (r : ConfRead) (line : String) : Except TunnelRefusal ConfRead :=
  if line = "" ∨ GoText.hasPrefix line "#" then .ok r
  else if GoText.hasPrefix line "[" ∧ GoText.hasSuffix line "]" then
    let sect := GoText.trimSuffix (GoText.trimPrefix line "[") "]"
    if tunnelKeys sect = none then .error (.unknownSection iface sect)
    else if sect = "Interface" then
      if r.seenInterface then .error (.twoInterfaces iface)
      else .ok { r with sect, seenInterface := true }
    else
      if r.seenPeer then .error (.twoPeers iface) else .ok { r with sect, seenPeer := true }
  else
    match GoText.cut line '=' with
    | none => .error (.badLine iface line)
    | some (before, _) =>
      if r.sect = "" then .error (.badLine iface line)
      else
        let key := GoText.trimSpace before
        if key ∈ (tunnelKeys r.sect).getD [] then .ok r else .error (.badKey iface key r.sect)

def readConf (iface : String) : ConfRead → List String → Except TunnelRefusal ConfRead
  | r, [] => .ok r
  | r, line :: lines =>
    match readConfLine iface r (GoText.trimSpace line) with
    | .error e => .error e
    | .ok r' => readConf iface r' lines

/-- `validateTunnel` -/
def validateTunnel (t : ChainTunnel) : Except TunnelRefusal Unit :=
  if !isTunnelIface t.iface then .error (.badName t.iface)
  else if t.listenPort < 0 ∨ 65535 < t.listenPort then .error (.badPort t.iface t.listenPort)
  else
    match readConf t.iface ⟨"", false, false⟩ (GoText.scanLines t.conf) with
    | .error e => .error e
    | .ok r => if r.seenInterface ∧ r.seenPeer then .ok () else .error (.missingSection t.iface)

/-- The tunnels of a block in their order: the first refusal, if any. -/
def firstRefusal : List ChainTunnel → Option TunnelRefusal
  | [] => none
  | t :: ts =>
    match validateTunnel t with
    | .error e => some e
    | .ok _ => firstRefusal ts

/-! ## The machine -/

/-- The interfaces of the machine, and the tunnel configs beside the chain config. -/
structure TunnelHost where
  links : List String
  confs : OrderedMap String String

/-- How a file write ends: done, failed with the old file in place, or failed with the new one in
place, which is what `atomicfile.Write` returns when it cannot sync the directory it has just
renamed into. -/
inductive WriteOutcome where
  | done
  | failed (err : String)
  | failedInPlace (err : String)
  deriving DecidableEq, Repr

def WriteOutcome.err : WriteOutcome → Option String
  | .done => none
  | .failed e => some e
  | .failedInPlace e => some e

/-- Whether the path holds the new content afterwards. -/
def WriteOutcome.replaces : WriteOutcome → Bool
  | .failed _ => false
  | _ => true

/-- What a command answers: its error and output, and the interfaces it leaves. -/
structure CmdOutcome where
  err : Option String
  out : String
  links : List String
  deriving DecidableEq, Repr

/-- What the machine answers while the tunnels of one push are applied; commands and writes are
numbered in the order they are made. -/
structure TunnelAnswers where
  /-- reading /sys/class/net fails -/
  listErr : Option String
  /-- the commands of the sweep, by interface -/
  sweep : String → CmdOutcome
  /-- an unwanted config stays, its removal or the listing of the directory having failed -/
  keeps : String → Bool
  mkdirErr : Nat → Option String
  write : Nat → WriteOutcome
  down : Nat → CmdOutcome
  up : Nat → CmdOutcome

/-- Why the tunnels of an accepted block are not up; the chain then stays down. -/
inductive TunnelFailure where
  | list (err : String)
  | takeDown (failed : List (String × String × String))
  | mkdir (iface err : String)
  | write (iface err : String)
  | up (iface err out : String)
  deriving DecidableEq, Repr

def takeDownText (f : String × String × String) : String :=
  "take down " ++ f.1 ++ ": " ++ f.2.1 ++ " (" ++ GoText.trimSpace f.2.2 ++ ")"

def TunnelFailure.text : TunnelFailure → String
  | .list err => "list interfaces for the tunnel sweep: " ++ err
  | .takeDown failed => String.intercalate "\n" (failed.map takeDownText)
  | .mkdir iface err => "tunnel " ++ iface ++ ": mkdir: " ++ err
  | .write iface err => "tunnel " ++ iface ++ ": write config: " ++ err
  | .up iface err out =>
    "tunnel " ++ iface ++ ": awg-quick up: " ++ err ++ " (" ++ GoText.trimSpace out ++ ")"

/-- The sweep of the interfaces that were there: one the command takes down loses its config. -/
def sweepLinks (a : TunnelAnswers) (wanted : List String) :
    TunnelHost → List String → TunnelHost × List (String × String × String)
  | h, [] => (h, [])
  | h, iface :: rest =>
    if !isTunnelIface iface ∨ iface ∈ wanted then sweepLinks a wanted h rest
    else
      let c := a.sweep iface
      match c.err with
      | some e =>
        let (h', failed) := sweepLinks a wanted { h with links := c.links } rest
        (h', (iface, e, c.out) :: failed)
      | none =>
        sweepLinks a wanted
          { links := c.links, confs := h.confs.filter fun x => decide (x ≠ iface) || a.keeps x } rest

/-- `sweepTunnels` -/
def sweepTunnels (a : TunnelAnswers) (wanted : List String) (h : TunnelHost) :
    TunnelHost × Option TunnelFailure :=
  match a.listErr with
  | some e => (h, some (.list e))
  | none =>
    let (h', failed) := sweepLinks a wanted h h.links
    -- configs of tunnels that are neither wanted nor up
    let confs := h'.confs.filter fun x => !isTunnelIface x || decide (x ∈ wanted) || a.keeps x
    ({ h' with confs }, if failed = [] then none else some (.takeDown failed))

/-- The tunnels of the block, each raised unless it is up with this config already. -/
def raiseTunnels (a : TunnelAnswers) :
    Nat → TunnelHost → List ChainTunnel → TunnelHost × Option TunnelFailure
  | _, h, [] => (h, none)
  | n, h, t :: ts =>
    let up := decide (t.iface ∈ h.links)
    if up ∧ (h.confs.get? t.iface).getD "" = t.conf then raiseTunnels a (n + 1) h ts
    else
      match a.mkdirErr n with
      | some e => (h, some (.mkdir t.iface e))
      | none =>
        let h := if (a.write n).replaces then { h with confs := h.confs.set t.iface t.conf } else h
        match (a.write n).err with
        | some e => (h, some (.write t.iface e))
        | none =>
          let h := if up then { h with links := (a.down n).links } else h
          let h := { h with links := (a.up n).links }
          match (a.up n).err with
          | some e => (h, some (.up t.iface e (a.up n).out))
          | none => raiseTunnels a (n + 1) h ts

/-- `applyTunnels` -/
def applyTunnels (a : TunnelAnswers) (tunnels : List ChainTunnel) (h : TunnelHost) :
    TunnelHost × Option TunnelFailure :=
  match sweepTunnels a (tunnels.map (·.iface)) h with
  | (h', some e) => (h', some e)
  | (h', none) => raiseTunnels a 0 h' tunnels

end Iceslab.Agent
