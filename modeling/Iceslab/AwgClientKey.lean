import Iceslab.AwgClientAgreed

/-!
# The texts an AmneziaWG client is handed, read back

* `documentOf`, `clientConfig`, `keyParam` — a `vpn://` key as the app reads it.
* `documentOf_encode` — a key is read as the document it was made from.
* `client_runs_node` — **the `.conf`, the key and the interface of the node say the same**, and the
  client's address is the one its peer is allowed.
* `qr_carries_key` — **the QR code carries the payload of the key**.
-/

set_option autoImplicit false

namespace Iceslab.AwgClient

open IniText
open Agent.Amneziawg (Obfuscation)
open Checked (bind_eq_ok pure_eq_ok)

/-! ## Bytes -/

section Bytes

variable {bytes : List UInt8} {n : Nat}

theorem fromBase64url_base64url (bytes : List UInt8) : fromBase64url (base64url bytes) = bytes := by
  have hlt : ∀ b ∈ bytes.map UInt8.toNat, b < 256 := by
    intro b hb
    obtain ⟨byte, -, rfl⟩ := List.mem_map.mp hb
    exact byte.toNat_lt
  unfold fromBase64url base64url
  rw [Base64.ofText_encodeUrl hlt, List.map_map]
  exact (List.map_congr_left fun b _ => UInt8.ofNat_toNat).trans (List.map_id _)

theorem writeUInt32BE_ok {header : List UInt8} (h : writeUInt32BE n = .ok header) :
    header = be32 n := by
  unfold writeUInt32BE at h
  split at h
  · exact (Except.ok.inj h).symm
  · cases h

end Bytes

/-! ## A key, as the app reads it -/

variable {config : Json}

section Read

variable (z : Zlib)

/-- The bytes a key carries. -/
def payloadOf (key : String) : Option (List UInt8) :=
  (JsText.afterPrefix VPN_KEY_PREFIX key).map fromBase64url

/-- `qUncompress`: the header is the length of what inflates. -/
def qUncompress (payload : List UInt8) : Option (List UInt8) :=
  (z.inflate (payload.drop 4)).bind fun bytes =>
    if payload.take 4 = be32 bytes.length then some bytes else none

def documentOf (key : String) : Option Json :=
  (((payloadOf key).bind (qUncompress z)).bind JsBytes.utf8Decode).bind Json.parse

/-- `last_config` of the first container, a document of its own. -/
def clientConfig (document : Json) : Option Json :=
  match document.field "containers" with
  | some (.arr (container :: _)) =>
    ((container.field "awg").bind (·.str? "last_config")).bind Json.parse
  | _ => none

/-- The parameter a key sets, by its field or its absence. -/
def keyParam (key name : String) : Option String :=
  ((documentOf z key).bind clientConfig).bind fun config => param absent name (config.str? name)

variable {z}

theorem payloadOf_encode {key : String} (h : encodeAmneziaVpnKey z config = .ok key) :
    ∃ payload, qCompressJson z config = .ok payload ∧ payloadOf key = some payload := by
  unfold encodeAmneziaVpnKey at h
  simp only [bind_eq_ok, pure_eq_ok] at h
  obtain ⟨payload, hpayload, rfl⟩ := h
  refine ⟨payload, hpayload, ?_⟩
  unfold payloadOf
  rw [JsText.afterPrefix_append, Option.map_some, fromBase64url_base64url]

theorem qUncompress_qCompress {payload : List UInt8} (h : qCompressJson z config = .ok payload) :
    qUncompress z payload = some (JsBytes.utf8Encode config.stringify) := by
  unfold qCompressJson at h
  simp only [bind_eq_ok, pure_eq_ok] at h
  obtain ⟨header, hheader, rfl⟩ := h
  rw [writeUInt32BE_ok hheader]
  generalize hjson : JsBytes.utf8Encode config.stringify = json
  have hlen : (be32 json.length).length = 4 := rfl
  unfold qUncompress
  rw [← hlen, List.drop_left, List.take_left, z.inflate_deflate, Option.bind_some, if_pos rfl]

/-- **A key is read as the document it was made from.** -/
theorem documentOf_encode {fields : List (String × Json)} {key : String}
    (h : encodeAmneziaVpnKey z (.obj fields) = .ok key) :
    documentOf z key = some (.obj fields) := by
  obtain ⟨payload, hpayload, hkey⟩ := payloadOf_encode h
  have hbom : ¬ JsBytes.BeginsWithBOM (Json.obj fields).stringify := by
    unfold JsBytes.BeginsWithBOM Json.stringify
    rw [String.toList_ofList, Json.text, List.head?_cons]
    decide
  unfold documentOf
  rw [hkey, Option.bind_some, qUncompress_qCompress hpayload, Option.bind_some,
    JsBytes.utf8Decode_utf8Encode, JsBytes.dropBOM_of_not hbom, Option.bind_some,
    Json.parse_stringify]

end Read

/-! ### Its client part -/

section Config

variable {opts : AmneziaVpnLinkOpts} {obfuscation : List (String × String)} {name : String}
  {o : Obfuscation} {g : AwgGeometry3} {z : Zlib}

theorem str?_texts (kvs : List (String × String)) {rest : List (String × Json)}
    (hrest : ∀ f ∈ rest, f.1 ≠ name) :
    (Json.obj (texts kvs ++ rest)).str? name = kvs.lookup name := by
  have hfield : (Json.obj (texts kvs ++ rest)).field name = (kvs.lookup name).map .str := by
    induction kvs with
    | nil =>
      show (rest.find? fun f => decide (f.1 = name)).map Prod.snd = none
      rw [Option.map_eq_none_iff, List.find?_eq_none]
      intro f hf
      simpa using hrest f hf
    | cons kv kvs ih =>
      show Json.field (.obj ((kv.1, .str kv.2) :: (texts kvs ++ rest))) name = _
      rw [Json.field_cons, ih, List.lookup_cons]
      by_cases hname : kv.1 = name
      · rw [if_pos hname, beq_iff_eq.mpr hname.symm]
        rfl
      · rw [if_neg hname, beq_eq_false_iff_ne.mpr (Ne.symm hname)]
  unfold Json.str?
  rw [hfield]
  cases kvs.lookup name <;> rfl

theorem str?_lastConfig (hname : name ∈ paramKeys) :
    (lastConfig opts obfuscation).str? name = obfuscation.lookup name := by
  unfold lastConfig
  rw [List.append_assoc]
  refine str?_texts obfuscation fun f hf => ?_
  have hother : ∀ key ∈ ["allowed_ips", "client_ip", "client_priv_key", "hostName",
      "persistent_keep_alive", "port", "server_pub_key", "psk_key"], key ∉ paramKeys := by
    decide
  have hkey : f.1 ∈ ["allowed_ips", "client_ip", "client_priv_key", "hostName",
      "persistent_keep_alive", "port", "server_pub_key", "psk_key"] := by
    rcases List.mem_append.mp hf with hf | hf
    · have := List.mem_map_of_mem (f := Prod.fst) hf
      simp only [List.map_cons, List.map_nil] at this
      exact List.mem_append_left ["psk_key"] this
    · split at hf
      · cases hf
      · rw [List.mem_singleton.mp hf]
        show "psk_key" ∈ _
        decide
  rintro rfl
  exact hother _ hkey hname

theorem clientConfig_envelope {container : String} {awg : List (String × Json)} {text : String}
    (h : (Json.obj awg).str? "last_config" = some text) :
    clientConfig (envelope opts container awg) = Json.parse text := by
  have hcontainers : (envelope opts container awg).field "containers" =
      some (.arr [.obj [("awg", .obj awg), ("container", .str container)]]) := rfl
  unfold clientConfig
  rw [hcontainers]
  show ((some (Json.obj awg)).bind _).bind _ = _
  rw [Option.bind_some, h, Option.bind_some]

theorem clientConfig_encode {container key text : String} {awg : List (String × Json)}
    (h : encodeAmneziaVpnKey z (envelope opts container awg) = .ok key)
    (htext : (Json.obj awg).str? "last_config" = some text) :
    (documentOf z key).bind clientConfig = Json.parse text := by
  have hdoc : documentOf z key = some (envelope opts container awg) := documentOf_encode h
  rw [hdoc, Option.bind_some, clientConfig_envelope htext]

/-- The obfuscation of a key, whatever its generation. -/
def keyLines (opts : AmneziaVpnLinkOpts) : List (String × String) :=
  match opts.geometry3 with
  | some g => awg3ClientLines g
  | none => obf opts.obfuscation

theorem clientConfig_link {key : String} (h : buildAmneziaVpnLink z opts = .ok key) :
    (documentOf z key).bind clientConfig = some (lastConfig opts (keyLines opts)) := by
  unfold buildAmneziaVpnLink keyLines at *
  cases hg : opts.geometry3 with
  | some g =>
    simp only [hg] at h ⊢
    unfold buildAwg3Link awg3Envelope at h
    rw [clientConfig_encode h rfl, Json.parse_stringify]
  | none =>
    simp only [hg] at h ⊢
    unfold awg1Envelope at h
    rw [clientConfig_encode h rfl, Json.parse_stringify]

/-- Either way what the key says is the parameters of its tunnel. -/
theorem keyParam_link {key : String} (h : buildAmneziaVpnLink z opts = .ok key)
    (hname : name ∈ paramKeys) :
    keyParam z key name =
      param absent name ((params opts.obfuscation opts.geometry3).lookup name) := by
  have hcarries : Carries absent paramKeys (keyLines opts)
      (params opts.obfuscation opts.geometry3) := by
    unfold keyLines params
    cases opts.geometry3 with
    | some g => exact carries_conf3
    | none => exact carries_obf
  unfold keyParam
  rw [clientConfig_link h, Option.bind_some, str?_lastConfig hname]
  exact param_eq (nodup_params _) hcarries hname

end Config

/-! ## The `.conf`, as it is read -/

section Conf

variable {opts : AmneziaVpnLinkOpts} {name : String}

theorem conf_read (hclean : Clean opts.interfaceSettings)
    (hname : name ∈ "MTU" :: "Address" :: paramKeys) :
    interfaceValue (buildAmneziawgClientConfig opts) name =
      opts.interfaceSettings.lookup name := by
  unfold buildAmneziawgClientConfig interfaceValue
  rw [join_unlines (by simp)]
  exact value_section (by unfold NoBreak; decide) (word_key hname) hclean
    (.inr ⟨"[Peer]", _, rfl, by unfold NoBreak; decide, by decide⟩)

/-- The tunnel part of a `.conf`. -/
def confBlock (o : Obfuscation) : Option AwgGeometry3 → List (String × String)
  | some g => ("MTU", toString g.mtu) :: awg3ClientLines g
  | none => awg1ConfLines o

theorem confBlock_carries (o : Obfuscation) (geometry : Option AwgGeometry3) :
    Carries absent paramKeys (confBlock o geometry) (params o geometry) := by
  cases geometry with
  | some g => exact carries_conf3.cons (by decide : "MTU" ∉ paramKeys)
  | none => exact carries_conf1

theorem tunnelBlock_carries (o : Obfuscation) (geometry : Option AwgGeometry3) :
    Carries absent paramKeys (tunnelBlock o geometry) (params o geometry) := by
  cases geometry with
  | some g => exact carries_conf3.cons (by decide : "MTU" ∉ paramKeys)
  | none => exact carries_nodeLines1

/-- The settings of a subscription's `.conf`. -/
theorem confOpts_settings (e : AmneziawgSubscriptionEndpoint) :
    e.confOpts.interfaceSettings =
      [("PrivateKey", e.privateKey), ("Address", e.allowedIp)] ++
        confBlock e.obfuscation e.geometry3 := by
  unfold AmneziaVpnLinkOpts.interfaceSettings AmneziawgSubscriptionEndpoint.confOpts confBlock
  cases e.geometry3 <;> rfl

end Conf

/-! ## The endpoint and the node -/

section Endpoint

variable {b : AwgBinding} {asked pushed : Option AwgGeometry3} {user : AwgUser} {n port : Nat}
  {ip nodeName host : String} {e : AmneziawgSubscriptionEndpoint} {s : GeometryStore}

theorem step_read (s : GeometryStore) : (s.step .read).awg3Geometry = s.awg3Geometry ∧
    ∀ g ∈ (s.step .read).answered, g ∈ s.answered ∨ s.awg3Geometry = some g := by
  unfold GeometryStore.step
  dsimp only
  split
  · rename_i g hstored
    refine ⟨rfl, fun g' hg' => ?_⟩
    rcases List.mem_cons.mp hg' with rfl | hg'
    · exact .inr hstored
    · exact .inl hg'
  · exact ⟨rfl, fun g' hg' => .inl hg'⟩

/-- Every answer is the geometry the node keeps, and that is a minted one. -/
theorem store_answers (h : geometryStore.Reachable s) :
    (∀ g ∈ s.answered, s.awg3Geometry = some g) ∧ ∀ g, s.awg3Geometry = some g → Minted g := by
  apply h.invariant
  · rintro s rfl
    exact ⟨fun g hg => (by cases hg), fun g hg => by cases hg⟩
  · rintro s event s' - ⟨hanswered, hminted⟩ hs
    cases hs with
    | read =>
      obtain ⟨hstored, hnew⟩ := step_read s
      rw [hstored]
      refine ⟨fun g hg => ?_, hminted⟩
      exact (hnew g hg).elim (hanswered g) id
    | @write g hmint =>
      show (∀ x ∈ s.answered, s.awg3Geometry.or (some g) = some x) ∧
        ∀ x, s.awg3Geometry.or (some g) = some x → Minted x
      cases hstored : s.awg3Geometry with
      | none =>
        refine ⟨fun x hx => ?_, fun x hx => ?_⟩
        · rw [hanswered x hx] at hstored
          cases hstored
        · cases hx
          exact hmint
      | some g' =>
        refine ⟨fun x hx => ?_, fun x hx => hminted x (hstored.trans hx)⟩
        exact hstored.symm.trans (hanswered x hx)

theorem endpoint_some (h : b.endpoint asked user ip nodeName host port = some e) :
    b.config.obfuscation = some e.obfuscation ∧ e.geometry3 = (if b.is3 then asked else none) ∧
      (b.is3 = true → asked.isSome = true) ∧ e.privateKey = user.amneziawgPrivateKey.text ∧
      e.allowedIp = ip ++ "/32" := by
  unfold AwgBinding.endpoint at h
  split at h
  · cases h
  rename_i o hobf
  split at h
  · cases h
  cases h3 : b.is3 with
  | false =>
    simp only [h3, Bool.false_eq_true, if_false, false_and] at h
    cases h
    exact ⟨hobf, rfl, fun h => (by cases h), rfl, rfl⟩
  | true =>
    simp only [h3, if_true, true_and] at h
    split at h
    · cases h
    rename_i hgeo
    cases h
    exact ⟨hobf, rfl, fun _ => Option.isSome_iff_ne_none.mpr hgeo, rfl, rfl⟩

theorem clean_confBlock {o : Obfuscation} {geometry : Option AwgGeometry3}
    (hmint : ∀ g, geometry = some g → Minted g) (hpackets : geometry = none → PacketsClean o) :
    Clean (confBlock o geometry) := by
  cases geometry with
  | some g =>
    have hword : IsWord "MTU" := by decide
    exact List.forall_mem_cons.mpr
      ⟨⟨hword, noBreak_int _⟩, clean_conf3 (hmint g rfl).printable⟩
  | none => exact clean_conf1 (hpackets rfl)

theorem clean_settings (hpriv : e.privateKey = user.amneziawgPrivateKey.text)
    (hip : e.allowedIp = intToIp n ++ "/32") (hblock : Clean (confBlock e.obfuscation e.geometry3)) :
    Clean e.confOpts.interfaceSettings := by
  rw [confOpts_settings]
  refine Clean.append ?_ hblock
  have haddress : NoBreak (intToIp n ++ "/32") :=
    (noBreak_ip n).append (by unfold NoBreak; decide)
  simp only [Clean, List.forall_mem_cons, List.not_mem_nil, false_imp_iff, implies_true, and_true]
  rw [hpriv, hip]
  exact ⟨⟨by decide, noBreak_wgKey user.amneziawgPrivateKey.wellFormed⟩, ⟨by decide, haddress⟩⟩

theorem confBlock_mtu (o : Obfuscation) (geometry : Option AwgGeometry3) :
    (confBlock o geometry).lookup "MTU" = (tunnelBlock o geometry).lookup "MTU" := by
  cases geometry with
  | some g => rfl
  | none =>
    have hslots {i1 i2 i3 i4 i5 : String} : ∀ kv ∈ iLines i1 i2 i3 i4 i5, kv.1 ≠ "MTU" := by
      intro kv hkv
      have := List.mem_map_of_mem (f := Prod.fst) (List.mem_filter.mp hkv).1
      rintro heq
      rw [heq] at this
      exact absurd this (by decide : "MTU" ∉ ["I1", "I2", "I3", "I4", "I5"])
    have hsizes : ∀ kv ∈ s34Lines o, kv.1 ≠ "MTU" := by
      intro kv hkv heq
      unfold s34Lines at hkv
      rcases List.mem_append.mp hkv with hkv | hkv
      · split at hkv
        · rw [List.mem_singleton.mp hkv] at heq
          exact (by decide : "S3" ≠ "MTU") heq
        · cases hkv
      · split at hkv
        · rw [List.mem_singleton.mp hkv] at heq
          exact (by decide : "S4" ≠ "MTU") heq
        · cases hkv
    show (awg1ConfLines o).lookup "MTU" = (nodeLines1 o).lookup "MTU"
    unfold awg1ConfLines nodeLines1
    simp only [List.lookup_append, lookup_eq_none hslots, lookup_eq_none hsizes]
    rfl

/-- The peer of a user on the interface of a binding. -/
def AwgBinding.peerOf (b : AwgBinding) (user : Agent.Amneziawg.User) : Agent.Amneziawg.Peer :=
  if b.is3 then user.on3.peer else user.peer

theorem servedBinding_eq {inbounds : List AwgBinding} (hfree : SlotsFree inbounds)
    (hb : b ∈ inbounds) : servedBinding inbounds b.is3 = some b := by
  unfold servedBinding
  have hmem : b ∈ inbounds.filter fun x => x.is3 == b.is3 := List.mem_filter.mpr ⟨hb, by simp⟩
  have hgen : ∀ x ∈ inbounds.filter (fun x => x.is3 == b.is3), x.is3 = b.is3 := fun x hx =>
    beq_iff_eq.mp (List.mem_filter.mp hx).2
  have hpair := List.Pairwise.filter (fun x => x.is3 == b.is3) hfree
  generalize inbounds.filter (fun x => x.is3 == b.is3) = l at *
  cases l with
  | nil => cases hmem
  | cons x xs =>
    obtain ⟨hne, -⟩ := List.pairwise_cons.mp hpair
    have hxs : xs = [] := by
      rw [List.eq_nil_iff_forall_not_mem]
      intro y hy
      exact hne y hy ((hgen x List.mem_cons_self).trans (hgen y (List.mem_cons_of_mem _ hy)).symm)
    subst hxs
    rw [List.mem_singleton.mp hmem]
    rfl

theorem ensureCIDR_ip (n : Nat) : Agent.Amneziawg.ensureCIDR (intToIp n) = intToIp n ++ "/32" := by
  refine if_neg fun hmem => ?_
  unfold intToIp at hmem
  rw [String.toList_intercalate] at hmem
  refine IpText.not_mem_joined (by decide : '/' ≠ '.') (fun w hw hslash => ?_) hmem
  simp only [List.map_cons, List.map_nil, List.mem_cons, List.not_mem_nil, or_false] at hw
  have hdigit (k : Nat) : '/' ∉ (toString k).toList := by
    rw [Nat.toString_eq_repr, Nat.toList_repr]
    intro h
    exact absurd (Nat.isDigit_of_mem_toDigits (by decide) (by decide) h) (by decide)
  rcases hw with rfl | rfl | rfl | rfl <;> exact hdigit _ hslash

/-- The node allows a user's key the address the user was given. -/
theorem peerOf_roster {inbounds : List AwgBinding} {addresses : String → Option String}
    (hfree : SlotsFree inbounds) (hb : b ∈ inbounds)
    (haddr : addresses b.profileId = some (intToIp n)) :
    b.peerOf (rosterUser inbounds user addresses) =
      ⟨user.amneziawgPublicKey.text, intToIp n ++ "/32"⟩ := by
  have hserved := servedBinding_eq hfree hb
  unfold AwgBinding.peerOf rosterUser Agent.Amneziawg.User.on3 Agent.Amneziawg.User.peer
  cases h3 : b.is3 with
  | false =>
    rw [h3] at hserved
    simp [hserved, haddr, ensureCIDR_ip]
  | true =>
    rw [h3] at hserved
    simp [hserved, haddr, ensureCIDR_ip]

end Endpoint

/-! ## The client and the node -/

section Agreement

open Agent.Amneziawg

variable {b : AwgBinding} {asked pushed : Option AwgGeometry3} {user : AwgUser} {n clientPort : Nat}
  {nodeName host key : String} {e : AmneziawgSubscriptionEndpoint} {s : GeometryStore} {z : Zlib}
  {held inbound : InboundConfig} {port : Int} {peers : List Peer} {conf : Conf}
  {inbounds : List AwgBinding} {addresses : String → Option String}

/-- **The client runs what its node runs**: the parameters of the `.conf` and of the key are those of
the interface the agent renders, the MTU too; and where no two bindings of the node are of one
generation, the client's address is the one its peer is allowed. -/
theorem client_runs_node (hstore : geometryStore.Reachable s)
    (hasked : ∀ g, asked = some g → g ∈ s.answered)
    (hpushed : ∀ g, pushed = some g → g ∈ s.answered)
    (hensured : b.is3 = true → pushed.isSome = true) (hb : b ∈ inbounds)
    (haddr : addresses b.profileId = some (intToIp n))
    (hend : b.endpoint asked user (intToIp n) nodeName host clientPort = some e)
    (hkey : buildAmneziaVpnLink z e.linkOpts = .ok key)
    (hin : pushedInbound held port (b.wire pushed) = .ok inbound)
    (hconf : renderConfig inbound peers = .ok conf) :
    (∀ name ∈ paramKeys,
      fileParam (buildAmneziawgClientConfig e.confOpts) name =
        fileParam (unlines conf.lines) name ∧
      keyParam z key name = fileParam (unlines conf.lines) name) ∧
    interfaceValue (buildAmneziawgClientConfig e.confOpts) "MTU" =
      interfaceValue (unlines conf.lines) "MTU" ∧
    (SlotsFree inbounds → interfaceValue (buildAmneziawgClientConfig e.confOpts) "Address" =
      some (b.peerOf (rosterUser inbounds user addresses)).allowedIP) := by
  obtain ⟨hanswers, hminted⟩ := store_answers hstore
  obtain ⟨hobf, hgeo, hsome, hpriv, hip⟩ := endpoint_some hend
  have hmint : ∀ g, pushed = some g → Minted g := fun g hg => hminted g (hanswers g (hpushed g hg))
  have hsame : (if b.is3 then asked else none) = if b.is3 then pushed else none := by
    cases h3 : b.is3 with
    | false => rfl
    | true =>
      obtain ⟨g, hg⟩ := Option.isSome_iff_exists.mp (hsome h3)
      obtain ⟨g', hg'⟩ := Option.isSome_iff_exists.mp (hensured h3)
      have := (hanswers g (hasked g hg)).symm.trans (hanswers g' (hpushed g' hg'))
      rw [if_pos rfl, if_pos rfl, hg, hg', this]
  obtain ⟨kvs, hnode, hpackets⟩ := wire_block hin hconf hobf hensured hmint
  rw [← hsame, ← hgeo] at hnode
  have hblock : Clean (confBlock e.obfuscation e.geometry3) := by
    refine clean_confBlock (fun g hg => ?_) fun hnone => hpackets ?_
    · rw [hgeo, hsame] at hg
      split at hg
      · exact hmint g hg
      · cases hg
    · cases h3 : b.is3 with
      | false => rfl
      | true =>
        rw [hgeo, if_pos h3] at hnone
        rw [hnone] at hsome
        exact absurd (hsome h3) (by decide)
  have hclean := clean_settings hpriv hip hblock
  have hsettings := confOpts_settings e
  refine ⟨fun name hname => ?_, ?_, fun hfree => ?_⟩
  · have hnodeParam := hnode.param (tunnelBlock_carries _ _) (nodup_params _) hname
    have hfirst : ∀ kv ∈ [("PrivateKey", e.privateKey), ("Address", e.allowedIp)],
        kv.1 ∉ paramKeys := by
      simp only [List.forall_mem_cons, List.not_mem_nil, false_imp_iff, implies_true, and_true]
      exact ⟨(by decide : "PrivateKey" ∉ paramKeys), (by decide : "Address" ∉ paramKeys)⟩
    have hcarries := (confBlock_carries e.obfuscation e.geometry3).prepend hfirst
    rw [← hsettings] at hcarries
    refine ⟨?_, ?_⟩
    · rw [hnodeParam, fileParam,
        conf_read hclean (List.mem_cons_of_mem _ (List.mem_cons_of_mem _ hname))]
      exact param_eq (nodup_params _) hcarries hname
    · rw [hnodeParam]
      exact keyParam_link hkey hname
  · rw [conf_read hclean List.mem_cons_self, hnode.mtu, ← confBlock_mtu, hsettings]
    rfl
  · rw [conf_read hclean (List.mem_cons_of_mem _ List.mem_cons_self), hsettings,
      peerOf_roster hfree hb haddr, ← hip]
    rfl

/-! ### A node and a user -/

def sampleBinding : AwgBinding :=
  ⟨"in-1", "p-1", 51820, none, ⟨"10.0.0.0/24", "AAAAAAAAAAAAAAAAAAAAAAAAAAAAAAAAAAAAAAAAAAA=",
    "BBBBBBBBBBBBBBBBBBBBBBBBBBBBBBBBBBBBBBBBBBA=", some (formObfuscation 64 128)⟩⟩

def sampleUser : AwgUser :=
  ⟨"u-1", ⟨"CCCCCCCCCCCCCCCCCCCCCCCCCCCCCCCCCCCCCCCCCCA=", by decide⟩,
    ⟨"DDDDDDDDDDDDDDDDDDDDDDDDDDDDDDDDDDDDDDDDDDA=", by decide⟩⟩

def sampleEndpoint : AmneziawgSubscriptionEndpoint :=
  ⟨"Berlin", "de.example.com", 51820, sampleUser.amneziawgPrivateKey.text, "10.0.0.2/32",
    "BBBBBBBBBBBBBBBBBBBBBBBBBBBBBBBBBBBBBBBBBBA=", formObfuscation 64 128, none⟩

/-- A library that knows one document, and what the real one makes of it. -/
def knowing (document stream : List UInt8) : Zlib where
  deflate bytes := if bytes = document then 0x78 :: stream else 0 :: bytes
  inflate bytes := if bytes = 0x78 :: stream then some document else some bytes.tail
  inflate_deflate bytes := by
    by_cases h : bytes = document
    · rw [if_pos h, if_pos rfl, h]
    · have hhead : (0 :: bytes) ≠ 0x78 :: stream := fun heq =>
        absurd (List.cons.inj heq).1 (by decide : (0 : UInt8) ≠ 0x78)
      rw [if_neg h, if_neg hhead, List.tail_cons]

def sampleZlib : Zlib :=
  knowing (JsBytes.utf8Encode (awg1Envelope sampleEndpoint.linkOpts).stringify) (fromBase64url (
  "2o2Sy2rDMBBFf6XM2k1s5UEwdJFk0dJFKaTQRRyMaiuNiCwJSc6jxv_esWS3dFGItNGZe2c0ejRQKOkol8xYSLcN0PMn" ++
  "pA1w-3bgpnylxl3XSu45Rp2pWQSCWpcXfQiaDJ6LDNIMphlECBWXHucD04vnhCx8YJN4nJBAxNNs7ukpaEkcBwwiGXAS" ++
  "Mgechm173Ez-1A1iEupSIdSZlTnXFsPbDOKRn-OQmqbdYoerQnAmHfr6PryNjPuivaoNP-VHdvWe9c1j-eCLHJR1L7Ri" ++
  "PrtkI3ahlRZsVKjK6xofglvXbXRkTOdU8FMwk1kwKOOQZ8mCxIiWmRMzua4_fnpa3Ty6nlqIfE18TF8T0RkqbRfDsyqn" ++
  "UKlLDW30-1cwRCvJvji97z5Mu4vwLHtaC7f-x9IZbGG4dlxJ1JZBe3-8WzEjuETDcDWo_r0YaL8BbHvMrA"))

theorem link_of_length {document : Json}
    (hdocument : ∀ z, buildAmneziaVpnLink z e.linkOpts = encodeAmneziaVpnKey z document)
    (hlen : (JsBytes.utf8Encode document.stringify).length < 2 ^ 32) :
    ∃ key, buildAmneziaVpnLink z e.linkOpts = .ok key := by
  rw [hdocument]
  unfold encodeAmneziaVpnKey qCompressJson writeUInt32BE
  simp only [if_pos hlen]
  exact ⟨_, rfl⟩

theorem length_envelope (opts : AmneziaVpnLinkOpts) (container : String)
    (awg : List (String × Json)) :
    (envelope opts container awg).text.length + 2 =
      (Json.obj awg).text.length + (envelope opts container []).text.length := by
  have hempty : (Json.obj []).text.length = 2 := rfl
  simp only [envelope, List.cons_append, Json.length_obj, Json.length_arr_singleton, hempty]
  omega

/-- A key fits its header, without its text being written out. -/
theorem length_document {opts : AmneziaVpnLinkOpts} {container : String}
    {before after : List (String × Json)} (hconfig : config.text.length < 2000)
    (hrest : (envelope opts container
      (before ++ ("last_config", .str "") :: after)).text.length < 1000) :
    (JsBytes.utf8Encode (envelope opts container
      (before ++ ("last_config", .str config.stringify) :: after)).stringify).length < 2 ^ 32 := by
  have hlen := length_envelope opts container
    (before ++ ("last_config", .str config.stringify) :: after)
  have hlen' := length_envelope opts container (before ++ ("last_config", .str "") :: after)
  have hquote := Json.length_obj_str before after "last_config" config.stringify
  rw [Json.stringify, String.toList_ofList, ← Json.stringify] at hquote
  refine lt_of_le_of_lt (JsBytes.length_utf8Encode_le _) ?_
  omega

theorem sample_length :
    (JsBytes.utf8Encode (awg1Envelope sampleEndpoint.linkOpts).stringify).length < 2 ^ 32 := by
  have hconfig : (lastConfig sampleEndpoint.linkOpts
      (obf sampleEndpoint.linkOpts.obfuscation)).text.length < 2000 := by
    decide +kernel
  exact @length_document _ _ _ [("isThirdPartyConfig", .bool true)] _ hconfig (by decide +kernel)

def sampleHeld : InboundConfig := ⟨"awg0", 51820, "", "", .zero, [], [], none, none⟩

theorem sample_rendered {wire : InboundCfgWire}
    (h : ((pushedInbound sampleHeld 51820 wire).toOption.bind fun inbound =>
      (renderConfig inbound []).toOption).isSome = true) :
    ∃ inbound conf, pushedInbound sampleHeld 51820 wire = .ok inbound ∧
      renderConfig inbound [] = .ok conf := by
  cases hin : pushedInbound sampleHeld 51820 wire with
  | error e =>
    rw [hin] at h
    cases h
  | ok inbound =>
    rw [hin] at h
    obtain ⟨conf, hconf⟩ := Checked.exists_ok_of_isSome h
    exact ⟨inbound, conf, rfl, hconf⟩

def sampleBinding3 : AwgBinding :=
  { sampleBinding with
    id := "in-3"
    profileId := "p-3"
    awgProtocol := some 3
    config := { sampleBinding.config with subnet := "10.0.1.0/24" } }

/-- The bindings of a node of both generations. -/
def sampleBindings : List AwgBinding := [sampleBinding, sampleBinding3]

theorem slotsFree_sample : SlotsFree sampleBindings := by
  unfold SlotsFree
  decide

def sampleAddresses (profile : String) : Option String :=
  some (intToIp (if profile = "p-3" then 167772418 else 167772162))

/-- What a source of numbers that goes round in every range comes to. -/
def sampleGeometry : AwgGeometry3 :=
  ⟨1376, 7, 45, 81, 19, 20, 21, 22, "16", "17", "18", "19",
    "<r 2><b 0x0100><b 0x00010000><b 0x00000000><b 0x04><rc 4><b 0x03636f6d00><b 0x0001><b 0x0001>",
    "<r 60>", "<b 0x0001><b 0x000c><b 0x2112a442><r 12><b 0x8022><b 0x0008><rc 8>", "", "",
    "AAAAAAAAAAAAAAAAAAAAAAAAAAAAAAAAAAAAAAAAAAA=", "1-32", "112-155", "5-9", "221-273", "11-16",
    "12-17", true⟩

def sampleEndpoint3 : AmneziawgSubscriptionEndpoint :=
  { sampleEndpoint with
    nodeName := "Berlin · 3.1"
    allowedIp := "10.0.1.2/32"
    geometry3 := some sampleGeometry }

def sampleZlib3 : Zlib :=
  knowing (JsBytes.utf8Encode (awg3Envelope sampleEndpoint3.linkOpts sampleGeometry).stringify)
    (fromBase64url (
  "2o1UXU_bMBT9K5GfmxI7aQlVh1T6sG5oE2JIe6AoMskteM2XHLcUqv6uve-X7drXQNA0qalU3eNzP46PnexZ3tRGqhp0" ++
  "xya3eyafHthkz0rZmQyplULI9kv2NV-yyZKdLtkAQaVqB5ORx3LncMod_sEd4meEhEMiIhQT8pkJIeHQwteNCVEdp5kL" ++
  "quMpoaQ_4QvVTXUgzqf3QbSLeBT5KLJxD0U9lJxPdR4kHsXjeLwaF_3KXkSDxOugceRXSNa_FTlFgnMhkwR16YB7dWkk" ++
  "xFte6jSk1G0BsgB9pRsDuVFNfQnPrv3s-OeTazTHU4XaXMmiUPXDDP9tO_IsjMnta1jD82xlQN-oCojjIuSj0TttmWZj" ++
  "HDkKzzzxC9V9LBSCh-I0dvwlQCtLtYV-MeehP9ZvcreQddE9yjXMjIGqNR2l4Gw662vkm-pGS1XivXSkFY-MLMvmCYpM" ++
  "tXb5dsmiofud0OWaTGxwh1FeKtw_5lFrm8SH4sRv3bOtVtts7T2eH_14jx-bznyX3oAChrCTVVvCMG8qx7eoXXX2GHAG" ++
  "tJnzhNwih9tGW3NGPBURwg70FnTWbu7fNF0c_VhNBzZwPfGNdT0txKvU5E2Zba2YpkYqHnIkjJZ1Z5Mzl4Lrm6Jlh8H7" ++
  "9wCXZFXDi5IhfhQEO9wNcJcruSnN_H85NqPLtWoNzZoR-fNzcAG6VHXw53dA81_Nw6SP1rHDX_CbV6w"))

theorem sample3_length : (JsBytes.utf8Encode
    (awg3Envelope sampleEndpoint3.linkOpts sampleGeometry).stringify).length < 2 ^ 32 := by
  have hconfig : (lastConfig sampleEndpoint3.linkOpts
      (awg3ClientLines sampleGeometry)).text.length < 2000 := by
    decide +kernel
  exact @length_document _ _ _ [] _ hconfig (by decide +kernel)

/-- What the texts of an endpoint and the push of its binding come to. -/
def RunsNode (z : Zlib) (b : AwgBinding) (e : AmneziawgSubscriptionEndpoint)
    (geometry : Option AwgGeometry3) : Prop :=
  ∃ key inbound conf, buildAmneziaVpnLink z e.linkOpts = .ok key ∧
    pushedInbound sampleHeld 51820 (b.wire geometry) = .ok inbound ∧
    renderConfig inbound [] = .ok conf ∧
    (∀ name ∈ paramKeys,
      fileParam (buildAmneziawgClientConfig e.confOpts) name =
        fileParam (unlines conf.lines) name ∧
      keyParam z key name = fileParam (unlines conf.lines) name) ∧
    interfaceValue (buildAmneziawgClientConfig e.confOpts) "MTU" =
      interfaceValue (unlines conf.lines) "MTU" ∧
    interfaceValue (buildAmneziawgClientConfig e.confOpts) "Address" =
      some (b.peerOf (rosterUser sampleBindings sampleUser sampleAddresses)).allowedIP

theorem client_runs_node_berlin : RunsNode sampleZlib sampleBinding sampleEndpoint none ∧
    RunsNode sampleZlib3 sampleBinding3 sampleEndpoint3 (some sampleGeometry) := by
  constructor
  · obtain ⟨key, hkey⟩ := @link_of_length sampleEndpoint sampleZlib _ (fun _ => rfl) sample_length
    have hend : sampleBinding.endpoint none sampleUser (intToIp 167772162) "Berlin"
        "de.example.com" 51820 = some sampleEndpoint := by
      have hip : intToIp 167772162 ++ "/32" = "10.0.0.2/32" := by decide
      unfold AwgBinding.endpoint
      rw [hip]
      rfl
    obtain ⟨inbound, conf, hin, hconf⟩ :=
      @sample_rendered (sampleBinding.wire none) (by decide +kernel)
    have hstore : geometryStore.Reachable ⟨none, []⟩ := .start rfl
    have hnone (g : AwgGeometry3) (hg : none = some g) : g ∈ ([] : List AwgGeometry3) := by
      cases hg
    have hmem : sampleBinding ∈ sampleBindings := List.mem_cons_self
    have haddr : sampleAddresses sampleBinding.profileId = some (intToIp 167772162) := rfl
    obtain ⟨hparams, hmtu, haddress⟩ :=
      client_runs_node hstore hnone hnone (by decide) hmem haddr hend hkey hin hconf
    exact ⟨key, inbound, conf, hkey, hin, hconf, hparams, hmtu, haddress slotsFree_sample⟩
  · obtain ⟨key, hkey⟩ :=
      @link_of_length sampleEndpoint3 sampleZlib3 _ (fun _ => rfl) sample3_length
    have hend : sampleBinding3.endpoint (some sampleGeometry) sampleUser (intToIp 167772418)
        "Berlin" "de.example.com" 51820 = some sampleEndpoint3 := by
      have hip : intToIp 167772418 ++ "/32" = "10.0.1.2/32" := by decide
      have hname : "Berlin" ++ " · 3.1" = "Berlin · 3.1" := by decide
      unfold AwgBinding.endpoint
      rw [hip, hname]
      rfl
    obtain ⟨inbound, conf, hin, hconf⟩ :=
      @sample_rendered (sampleBinding3.wire (some sampleGeometry)) (by decide +kernel)
    have hminted : Minted sampleGeometry := ⟨countingRandom, 10, 1376, by decide⟩
    have hstore : geometryStore.Reachable ⟨some sampleGeometry, [sampleGeometry]⟩ :=
      .step (.step (.start rfl) (.write _ hminted)) (.read _)
    have hasked : ∀ g, some sampleGeometry = some g → g ∈ [sampleGeometry] := fun g hg =>
      List.mem_singleton.mpr (Option.some.inj hg).symm
    have hmem : sampleBinding3 ∈ sampleBindings := List.mem_cons_of_mem _ List.mem_cons_self
    have haddr : sampleAddresses sampleBinding3.profileId = some (intToIp 167772418) := rfl
    obtain ⟨hparams, hmtu, haddress⟩ :=
      client_runs_node hstore hasked hasked (fun _ => rfl) hmem haddr hend hkey hin hconf
    exact ⟨key, inbound, conf, hkey, hin, hconf, hparams, hmtu, haddress slotsFree_sample⟩

end Agreement

/-! ## The QR code -/

section Qr

variable {key chunk : String}

/-- What the scanner takes of a code: one chunk, numbered 0 of 1, of the length it names. -/
def chunkPayload (text : String) : Option (List UInt8) :=
  let bytes := fromBase64url text
  let payload := bytes.drop 8
  if bytes.take 4 = [0x07, 0xC0, 1, 0] ∧ (bytes.drop 4).take 4 = be32 payload.length then
    some payload
  else none

/-- The code of a key carries its payload, and is no key itself. -/
theorem qr_carries_key (h : amneziaQrChunkFromKey key = .ok chunk) :
    ∃ payload, payloadOf key = some payload ∧ chunkPayload chunk = some payload := by
  unfold amneziaQrChunkFromKey at h
  split at h
  · cases h
  rename_i body hbody
  unfold qrChunk at h
  simp only [bind_eq_ok, pure_eq_ok] at h
  obtain ⟨len, hlen, rfl⟩ := h
  rw [writeUInt32BE_ok hlen]
  refine ⟨fromBase64url body, by rw [payloadOf, hbody, Option.map_some], ?_⟩
  unfold chunkPayload
  rw [fromBase64url_base64url]
  exact if_pos ⟨rfl, rfl⟩

theorem qr_carries_key_short : ∃ chunk, amneziaQrChunkFromKey "vpn://AAAAAngB" = .ok chunk ∧
    ∃ payload, payloadOf "vpn://AAAAAngB" = some payload ∧ chunkPayload chunk = some payload := by
  have hchunk : amneziaQrChunkFromKey "vpn://AAAAAngB" =
      .ok (base64url [0x07, 0xC0, 1, 0, 0, 0, 0, 6, 0, 0, 0, 2, 0x78, 1]) := by
    rfl
  exact ⟨_, hchunk, qr_carries_key hchunk⟩

end Qr

end Iceslab.AwgClient
