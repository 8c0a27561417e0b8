import Iceslab.Agent.AmneziawgAdapter
import Iceslab.InboundSchemas
import Iceslab.Lib.IniText
import Iceslab.Lib.JsBytes
import Iceslab.Lib.JsonText
import Iceslab.PeerAllocation

/-!
# What an AmneziaWG client is handed

`core-adapters/amneziawg`: `wgconf.ts` writes the `.conf`, `vpnlink.ts` the `vpn://` key of the
AmneziaVPN app and the text of its QR code.  With them the endpoint of `generateSubscription` that
fills them, what `inbounds.queue.ts` pushes of the same binding, and how a node comes by its 3.1
geometry (`ensureAwg3Geometry`).

* `buildAmneziawgClientConfig`, `buildAmneziaVpnLink`, `amneziaQrChunkFromKey` — the three texts.
* `AwgBinding.endpoint`, `AwgBinding.wire`, `rosterUser` — the subscription's side and the push's.
* `geometryStore` — the geometry of a node, asked for by any number of calls at once.
-/

set_option autoImplicit false

namespace Iceslab.AwgClient

open Agent.Amneziawg (Obfuscation InboundCfgWire)

/-! ## The .conf -/

/-- A key as `generateWireguardKeyPair` writes it. -/
structure WireguardKey where
  text : String
  wellFormed : isWgKey text = true

/-- `AmneziaVpnLinkOpts`: jc to i5 are the obfuscation, and a slot that is absent is empty. -/
structure AmneziaVpnLinkOpts where
  privateKey : String
  allowedIp : String
  serverPublicKey : String
  host : String
  port : Nat
  obfuscation : Obfuscation
  geometry3 : Option AwgGeometry3 := none
  clientAllowedIps : List String := []
  dns : List String := []
  persistentKeepalive : Option Nat := none
  pskKey : String := ""
  description : Option String := none

/-- The slots that are set. -/
def iLines (i1 i2 i3 i4 i5 : String) : List (String × String) :=
  [("I1", i1), ("I2", i2), ("I3", i3), ("I4", i4), ("I5", i5)].filter fun i => i.2 ≠ ""

/-- `awg3ClientLines` -/
def awg3ClientLines (g : AwgGeometry3) : List (String × String) :=
  [("Jc", toString g.jc), ("Jmin", toString g.jmin), ("Jmax", toString g.jmax),
      ("S1", toString g.s1), ("S2", toString g.s2), ("S3", toString g.s3), ("S4", toString g.s4),
      ("H1", g.h1), ("H2", g.h2), ("H3", g.h3), ("H4", g.h4)] ++
    iLines g.i1 g.i2 g.i3 g.i4 g.i5 ++
    [("HeaderProtectionKey", g.headerProtectionKey),
      ("ContentPaddingAddition", g.contentPaddingAddition),
      ("RekeyAfterTime", g.rekeyAfterTime), ("RekeyTimeout", g.rekeyTimeout),
      ("RejectAfterTime", g.rejectAfterTime), ("KeepaliveTimeout", g.keepaliveTimeout),
      ("MaxHandshakeAttempts", g.maxHandshakeAttempts), ("RandomTrailers", "on")]

/-- `S3` and `S4`, where they are not zero. -/
def s34Lines (o : Obfuscation) : List (String × String) :=
  (if o.s3 ≠ 0 then [("S3", toString o.s3)] else []) ++
    (if o.s4 ≠ 0 then [("S4", toString o.s4)] else [])

/-- The 1.x block of the `.conf`. -/
def awg1ConfLines (o : Obfuscation) : List (String × String) :=
  [("Jc", toString o.jc), ("Jmin", toString o.jmin), ("Jmax", toString o.jmax),
      ("S1", toString o.s1), ("S2", toString o.s2)] ++ s34Lines o ++
    [("H1", toString o.h1), ("H2", toString o.h2), ("H3", toString o.h3), ("H4", toString o.h4)] ++
    iLines o.i1 o.i2 o.i3 o.i4 o.i5

def fullTunnel : List String := ["0.0.0.0/0", "::/0"]

namespace AmneziaVpnLinkOpts

variable (opts : AmneziaVpnLinkOpts)

/-- `opts.clientAllowedIps?.length ? opts.clientAllowedIps : ['0.0.0.0/0', '::/0']` -/
def allowed : List String := if opts.clientAllowedIps = [] then fullTunnel else opts.clientAllowedIps

def keepalive : Nat := opts.persistentKeepalive.getD 25

/-- The settings of the `[Interface]` section, key by key. -/
def interfaceSettings : List (String × String) :=
  [("PrivateKey", opts.privateKey), ("Address", opts.allowedIp)] ++
    (if opts.dns = [] then [] else [("DNS", String.intercalate ", " opts.dns)]) ++
    match opts.geometry3 with
    | some g => ("MTU", toString g.mtu) :: awg3ClientLines g
    | none => awg1ConfLines opts.obfuscation

/-- `peerBlock` -/
def peerBlock : List String :=
  ["", "[Peer]", "PublicKey = " ++ opts.serverPublicKey,
    "AllowedIPs = " ++ String.intercalate ", " opts.allowed,
    "Endpoint = " ++ opts.host ++ ":" ++ toString opts.port,
    "PersistentKeepalive = " ++ toString opts.keepalive]

end AmneziaVpnLinkOpts

def buildAmneziawgClientConfig (opts : AmneziaVpnLinkOpts) : String :=
  String.intercalate "\n"
    ("[Interface]" :: opts.interfaceSettings.map IniText.lineOf ++ opts.peerBlock) ++ "\n"

/-! ## The key of the AmneziaVPN app -/

/-- `node:zlib`, at the one level it is used at. -/
structure Zlib where
  deflate : List UInt8 → List UInt8
  inflate : List UInt8 → Option (List UInt8)
  /-- a stream inflates to what was deflated -/
  inflate_deflate : ∀ bytes, inflate (deflate bytes) = some bytes

inductive KeyError
  /-- `ERR_OUT_OF_RANGE` of `writeUInt32BE` -/
  | outOfRange (n : Nat)
  | notVpnKey
deriving DecidableEq

/-- A number below `2 ^ 32`, big-endian. -/
def be32 (n : Nat) : List UInt8 :=
  [UInt8.ofNat (n / 2 ^ 24), UInt8.ofNat (n / 2 ^ 16), UInt8.ofNat (n / 2 ^ 8), UInt8.ofNat n]

def writeUInt32BE (n : Nat) : Except KeyError (List UInt8) :=
  if n < 2 ^ 32 then .ok (be32 n) else .error (.outOfRange n)

/-- `buffer.toString('base64url')` -/
def base64url (bytes : List UInt8) : String := Base64.encodeUrl (bytes.map UInt8.toNat)

/-- `Buffer.from(text, 'base64url')` -/
def fromBase64url (text : String) : List UInt8 := (Base64.ofText text).map UInt8.ofNat

def VPN_KEY_PREFIX : String := "vpn://"

section Key

variable (z : Zlib)

def qCompressJson (config : Json) : Except KeyError (List UInt8) := do
  let json := JsBytes.utf8Encode config.stringify
  let header ← writeUInt32BE json.length
  return header ++ z.deflate json

def encodeAmneziaVpnKey (config : Json) : Except KeyError String := do
  let body ← qCompressJson z config
  return VPN_KEY_PREFIX ++ base64url body

/-- `AMNEZIA_QR_MAGIC`, one chunk, its id, and the bytes after their length. -/
def qrChunk (compressed : List UInt8) : Except KeyError String := do
  let len ← writeUInt32BE compressed.length
  return base64url ([0x07, 0xC0, 1, 0] ++ len ++ compressed)

def amneziaQrChunkFromKey (key : String) : Except KeyError String :=
  match JsText.afterPrefix VPN_KEY_PREFIX key with
  | none => .error .notVpnKey
  | some body => qrChunk (fromBase64url body)

def AWG_CONTAINER : String := "amnezia-awg"

def AWG3_CONTAINER : String := "amnezia-awg2"

/-- `obf`: the 1.x obfuscation of the key. -/
def obf (o : Obfuscation) : List (String × String) :=
  [("Jc", toString o.jc), ("Jmin", toString o.jmin), ("Jmax", toString o.jmax),
      ("S1", toString o.s1), ("S2", toString o.s2), ("H1", toString o.h1), ("H2", toString o.h2),
      ("H3", toString o.h3), ("H4", toString o.h4)] ++ s34Lines o ++
    iLines o.i1 o.i2 o.i3 o.i4 o.i5

def texts (kvs : List (String × String)) : List (String × Json) :=
  kvs.map fun kv => (kv.1, .str kv.2)

/-- `lastConfig`, what the app builds the tunnel from. -/
def lastConfig (opts : AmneziaVpnLinkOpts) (obfuscation : List (String × String)) : Json :=
  .obj (texts obfuscation ++
    [("allowed_ips", .arr (opts.allowed.map .str)), ("client_ip", .str opts.allowedIp),
      ("client_priv_key", .str opts.privateKey), ("hostName", .str opts.host),
      ("persistent_keep_alive", .str (toString opts.keepalive)), ("port", .num opts.port),
      ("server_pub_key", .str opts.serverPublicKey)] ++
    if opts.pskKey = "" then [] else [("psk_key", .str opts.pskKey)])

/-- The envelope round one container. -/
def envelope (opts : AmneziaVpnLinkOpts) (container : String) (awg : List (String × Json)) : Json :=
  .obj ([("containers", .arr [.obj [("awg", .obj awg), ("container", .str container)]]),
      ("defaultContainer", .str container),
      ("description", .str (opts.description.getD ("AmneziaWG " ++ opts.host))),
      ("hostName", .str opts.host)] ++
    texts (["dns1", "dns2"].zip (opts.dns.take 2) |>.filter fun d => d.2 ≠ ""))

/-- The envelope of `buildAwg3Link`. -/
def awg3Envelope (opts : AmneziaVpnLinkOpts) (g : AwgGeometry3) : Json :=
  envelope opts AWG3_CONTAINER
    [("last_config", .str (lastConfig opts (awg3ClientLines g)).stringify),
      ("port", .str (toString opts.port)), ("protocol_version", .str "3.1"),
      ("transport_proto", .str "udp")]

def buildAwg3Link (opts : AmneziaVpnLinkOpts) (g : AwgGeometry3) : Except KeyError String :=
  encodeAmneziaVpnKey z (awg3Envelope opts g)

/-- The envelope of a 1.x key. -/
def awg1Envelope (opts : AmneziaVpnLinkOpts) : Json :=
  envelope opts AWG_CONTAINER
    [("isThirdPartyConfig", .bool true),
      ("last_config", .str (lastConfig opts (obf opts.obfuscation)).stringify),
      ("port", .str (toString opts.port)), ("transport_proto", .str "udp")]

def buildAmneziaVpnLink (opts : AmneziaVpnLinkOpts) : Except KeyError String :=
  match opts.geometry3 with
  | some g => buildAwg3Link z opts g
  | none => encodeAmneziaVpnKey z (awg1Envelope opts)

end Key

/-! ## The subscription and the push -/

/-- The stored config of a profile; a row of before the schema may lack its obfuscation. -/
structure StoredConfig where
  subnet : String
  serverPrivateKey : String
  serverPublicKey : String
  obfuscation : Option Obfuscation

/-- A binding of an AmneziaWG profile to a node, with what of the profile is read. -/
structure AwgBinding where
  id : String
  profileId : String
  port : Nat
  awgProtocol : Option Nat
  config : StoredConfig

structure AwgUser where
  id : String
  amneziawgPrivateKey : WireguardKey
  amneziawgPublicKey : WireguardKey

/-- `AmneziawgSubscriptionEndpoint` -/
structure AmneziawgSubscriptionEndpoint where
  nodeName : String
  host : String
  port : Nat
  privateKey : String
  allowedIp : String
  serverPublicKey : String
  obfuscation : Obfuscation
  geometry3 : Option AwgGeometry3

namespace AwgBinding

variable (b : AwgBinding)

def is3 : Bool := decide (b.awgProtocol = some 3)

/-- The AmneziaWG branch of `generateSubscription`: none where the endpoint is skipped.  `geometry`
is what the node has, `ip` the address of the user's peer. -/
def endpoint (geometry : Option AwgGeometry3) (user : AwgUser) (ip nodeName host : String)
    (port : Nat) : Option AmneziawgSubscriptionEndpoint :=
  match b.config.obfuscation with
  | none => none
  | some obf =>
    if b.config.subnet = "" then none
    else
      let geometry3 := if b.is3 then geometry else none
      if b.is3 = true ∧ geometry3 = none then none
      else some {
        nodeName := if b.is3 then nodeName ++ " · 3.1" else nodeName
        host, port
        privateKey := user.amneziawgPrivateKey.text
        allowedIp := ip ++ "/32"
        serverPublicKey := b.config.serverPublicKey
        obfuscation := obf
        geometry3 }

/-- The inbound as `fetchEnabledInbounds` pushes it and the agent decodes it. -/
def wire (geometry : Option AwgGeometry3) : InboundCfgWire where
  subnet := b.config.subnet
  serverPrivateKey := b.config.serverPrivateKey
  obfuscation := b.config.obfuscation.getD Obfuscation.zero
  listenPort := b.port
  inboundId := b.id
  awgProtocol := if b.is3 = true ∧ geometry.isSome = true then 3 else 0
  geometry3 := if b.is3 then geometry else none

end AwgBinding

namespace AmneziawgSubscriptionEndpoint

variable (e : AmneziawgSubscriptionEndpoint)

/-- The options of `buildWgQuickConf`. -/
def confOpts : AmneziaVpnLinkOpts where
  privateKey := e.privateKey
  allowedIp := e.allowedIp
  serverPublicKey := e.serverPublicKey
  host := e.host
  port := e.port
  obfuscation := e.obfuscation
  geometry3 := e.geometry3

/-- The options of `buildAwgVpnLink`. -/
def linkOpts : AmneziaVpnLinkOpts :=
  { e.confOpts with description := some ("AmneziaWG " ++ e.nodeName) }

end AmneziawgSubscriptionEndpoint

/-- The binding of a generation that `inbounds.queue.ts` gives the users addresses of:
`inbounds.filter(...).at(-1)`. -/
def servedBinding (inbounds : List AwgBinding) (three : Bool) : Option AwgBinding :=
  (inbounds.filter fun b => b.is3 == three).getLast?

/-- `assertAdapterSlotFree`: a node has one binding a generation. -/
def SlotsFree (inbounds : List AwgBinding) : Prop :=
  inbounds.Pairwise fun b b' => b.is3 ≠ b'.is3

/-- A user in the roster of a push, with the addresses `allocateAwgAddresses` answered by profile. -/
def rosterUser (inbounds : List AwgBinding) (user : AwgUser) (addresses : String → Option String) :
    Agent.Amneziawg.User where
  userID := user.id
  amneziaWGPublicKey := user.amneziawgPublicKey.text
  amneziaWGAllowedIP := ((servedBinding inbounds false).bind fun b => addresses b.profileId).getD ""
  amneziaWGAllowedIP3 := ((servedBinding inbounds true).bind fun b => addresses b.profileId).getD ""

/-! ## The geometry of a node -/

/-- The column of the node, and what the calls have answered. -/
structure GeometryStore where
  awg3Geometry : Option AwgGeometry3
  answered : List AwgGeometry3

/-- The statements of `ensureAwg3Geometry`, and of the subscription's read of the node: a read
answers what is stored, and the write lands only where nothing is. -/
inductive GeometryEvent
  | read
  | updateWhereNull (minted : AwgGeometry3)

def GeometryStore.step (s : GeometryStore) : GeometryEvent → GeometryStore
  | .read =>
    match s.awg3Geometry with
    | some g => { s with answered := g :: s.answered }
    | none => s
  | .updateWhereNull g => { s with awg3Geometry := s.awg3Geometry.or (some g) }

/-- The geometry came out of the mint. -/
def Minted (g : AwgGeometry3) : Prop :=
  ∃ (r : GeometryRandom) (fuel : Nat) (mtu : Int), mintAwg3Geometry r fuel mtu = some (.ok g)

/-- A write carries what was minted for it. -/
inductive GeometryStore.Step : GeometryStore → GeometryEvent → GeometryStore → Prop
  | read (s : GeometryStore) : Step s .read (s.step .read)
  | write (s : GeometryStore) {g : AwgGeometry3} (h : Minted g) :
    Step s (.updateWhereNull g) (s.step (.updateWhereNull g))

def geometryStore : Machine GeometryStore GeometryEvent where
  start s := s = ⟨none, []⟩
  step := GeometryStore.Step

end Iceslab.AwgClient
