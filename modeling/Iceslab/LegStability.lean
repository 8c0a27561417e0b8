import Iceslab.SavedTopology

/-!
# Re-saving a topology rotates nothing

The legs of a save are stored, and the next save starts from them.  Saving the same topology
again draws the very same legs, whatever minting would have drawn; and whatever else changed, a
leg stored with the cell and the port it has now keeps its own secrets.

* `legCred_fixed` — a leg whose stored credential is the one it was drawn with is drawn so again.
* `nodeReality_stored` — the pair of a node survives, although the first stored leg decides it
  and every leg landing there was overwritten with it.
* `generateTopologyLinks_resave` — the whole save.
-/

set_option autoImplicit false

namespace Iceslab

open Checked

/-- What the writer reads back of the stored legs, by key. -/
def storedLinks (rows : List TopologyLink) : OrderedMap String LinkCred :=
  OrderedMap.collect Prod.fst (fun _ e => e.2) (rows.filterMap fun l =>
    (parseLinkCred (serializeLinkCred l.cred)).map fun cred =>
      (topologyLinkKey l.fromNodeId l.toNodeId l.directionTag, cred))

/-- The secrets that are a leg's own: all it has, but for a vless leg's key pair, which is the
receiving node's. -/
def KeepsOwnSecrets (stored cred : LinkCred) : Prop :=
  match stored, cred with
  | .vless a, .vless b =>
    b.uuid = a.uuid ∧ ∀ r, a.reality = some r → ∃ r', b.reality = some r' ∧ r'.shortId = r.shortId
  | .shadowsocks a, .shadowsocks b => b.psk = a.psk ∧ b.method = a.method
  | .hy2 a, .hy2 b =>
    b.authPassword = a.authPassword ∧ b.obfsPassword = a.obfsPassword ∧ b.tls = a.tls
  | .tuic a, .tuic b => b.uuid = a.uuid ∧ b.password = a.password ∧ b.tls = a.tls
  | _, _ => False

variable {plan : List PlannedLeg} {p : PlannedLeg} {directions : List TaggedDirection}
  {positions : List CascadePosition} {links : List TopologyLink}

section Credentials

variable (mint : Minting) (existing : String → Option LinkCred)
  {existing' : String → Option LinkCred} {i : Nat}

/-- The credential of a leg before the node's pair is put on it. -/
def baseCred (p : PlannedLeg) (i : Nat) : LinkCred :=
  (keptFor existing p).getD (newLinkCred (mint.leg i) p.protocol p.port p.congestion)

theorem baseCred_protocol (p : PlannedLeg) (i : Nat) :
    (baseCred mint existing p i).protocol = p.protocol := by
  unfold baseCred
  cases hk : keptFor existing p with
  | none => simp
  | some kept =>
    obtain ⟨-, -, -, -, -, h, -⟩ := reuseLinkCred_eq_some hk
    simpa using h

theorem baseCred_port (p : PlannedLeg) (i : Nat) : (baseCred mint existing p i).port = p.port := by
  unfold baseCred
  cases hk : keptFor existing p with
  | none => simp
  | some kept =>
    obtain ⟨-, -, -, -, -, -, h⟩ := reuseLinkCred_eq_some hk
    simpa using h

/-- A tuic leg runs the controller asked for. -/
theorem baseCred_congestion {c : TuicLinkCred} {k : LinkCongestion}
    (h : baseCred mint existing p i = .tuic c) (hk : p.congestion = some k) : c.congestion = k := by
  unfold baseCred at h
  cases hkept : keptFor existing p with
  | none =>
    rw [hkept, Option.getD_none] at h
    cases hcell : p.protocol <;> rw [hcell] at h <;> cases h
    simp [hk]
  | some kept =>
    rw [hkept, Option.getD_some] at h
    subst h
    rw [keptFor, hk] at hkept
    exact reuseLinkCred_congestion hkept

theorem get?_keyByNode (plan : List PlannedLeg) (hp : p ∈ plan) (hv : p.protocol = .vless) :
    (keyByNode mint existing plan).get? p.toNodeId
      = some (nodeReality mint existing plan p.toNodeId) := by
  rw [keyByNode, OrderedMap.get?_collect_keep]
  cases hf : (plan.filter (fun q => decide (q.protocol = .vless))).find?
      (fun q => decide (q.toNodeId = p.toNodeId)) with
  | none =>
    have := List.find?_eq_none.mp hf p (List.mem_filter.mpr ⟨hp, decide_eq_true hv⟩)
    simp at this
  | some q =>
    have : q.toNodeId = p.toNodeId := by simpa using List.find?_some hf
    simp [this]

/-- The credential drawn for a planned leg, cell by cell. -/
theorem legCred_of_vless (hp : p ∈ plan)
    {c : VlessLinkCred} (h : baseCred mint existing p i = .vless c) :
    legCred mint existing plan p i = .vless { c with
      reality := some ({ nodeReality mint existing plan p.toNodeId with
        shortId := (c.reality.map (·.shortId)).getD (newLinkReality (mint.shortId i)).shortId }) } := by
  have hv : p.protocol = .vless := by rw [← baseCred_protocol mint existing p i, h]; rfl
  unfold baseCred at h
  simp only [legCred, h, get?_keyByNode mint existing plan hp hv, Option.map_some]

theorem legCred_of_not_vless
    (h : p.protocol ≠ .vless) : legCred mint existing plan p i = baseCred mint existing p i := by
  have hb := baseCred_protocol mint existing p i
  unfold baseCred at hb ⊢
  unfold legCred
  split
  · rename_i c hc
    rw [hc] at hb
    exact absurd hb.symm h
  · rfl

theorem legCred_protocol (hp : p ∈ plan) (i : Nat) :
    (legCred mint existing plan p i).protocol = p.protocol := by
  have hb := baseCred_protocol mint existing p i
  cases h : baseCred mint existing p i with
  | vless c =>
    rw [legCred_of_vless mint existing hp h]
    rw [h] at hb
    exact hb
  | _ c =>
    rw [h] at hb
    rw [legCred_of_not_vless mint existing (by rw [← hb]; simp [LinkCred.protocol]), h]
    exact hb

theorem legCred_port (hp : p ∈ plan) (i : Nat) :
    (legCred mint existing plan p i).port = p.port := by
  have hb := baseCred_protocol mint existing p i
  have hport := baseCred_port mint existing p i
  cases h : baseCred mint existing p i with
  | vless c =>
    rw [legCred_of_vless mint existing hp h]
    rw [h] at hport
    exact hport
  | _ c =>
    rw [h] at hb
    rw [legCred_of_not_vless mint existing (by rw [← hb]; simp [LinkCred.protocol])]
    exact hport

theorem nodeReality_camouflage (plan : List PlannedLeg) (n : String) :
    ∃ privateKey publicKey shortId,
      nodeReality mint existing plan n = withCamouflage privateKey publicKey shortId := by
  simp only [nodeReality]
  split
  · exact ⟨_, _, _, rfl⟩
  · exact ⟨_, _, _, rfl⟩

theorem nodeReality_of_cons {plan qs : List PlannedLeg} {n : String} {q : PlannedLeg}
    {r : LinkReality}
    (hf : plan.filter (fun q => decide (q.toNodeId = n ∧ q.protocol = .vless)) = q :: qs)
    (hr : (keptFor existing q).bind LinkCred.reality = some r) :
    nodeReality mint existing plan n = withCamouflage r.privateKey r.publicKey r.shortId := by
  simp only [nodeReality, hf, List.findSome?_cons, hr]

/-- Where nothing stored fits, a node wears a fresh pair. -/
theorem nodeReality_of_fresh (hfresh : ∀ p ∈ plan, keptFor existing p = none) (n : String) :
    nodeReality mint existing plan n = newLinkReality (mint.node n) := by
  have hnone : (plan.filter (fun q => decide (q.toNodeId = n ∧ q.protocol = .vless))).findSome?
      (fun q => (keptFor existing q).bind LinkCred.reality) = none := by
    rw [List.findSome?_eq_none_iff]
    intro q hq
    rw [hfresh q (List.mem_filter.mp hq).1, Option.bind_none]
  simp only [nodeReality, hnone]

/-- A leg stored as it was drawn is kept as it was drawn. -/
theorem keptFor_stored (hp : p ∈ plan)
    (hs : existing' (topologyLinkKey p.fromNodeId p.toNodeId p.directionTag)
      = some (legCred mint existing plan p i)) :
    keptFor existing' p = some (legCred mint existing plan p i) := by
  rw [keptFor, hs]
  have h := reuseLinkCred_self (legCred mint existing plan p i) p.congestion
    (fun c k hc hk => ?_)
  · rwa [legCred_protocol mint existing hp, legCred_port mint existing hp] at h
  · have hcell := legCred_protocol mint existing hp i
    rw [hc] at hcell
    rw [legCred_of_not_vless mint existing (by rw [← hcell]; simp [LinkCred.protocol])] at hc
    exact baseCred_congestion mint existing hc hk

/-- **The pair of a node survives**: the first stored leg into it wears it. -/
theorem nodeReality_stored (mint' : Minting) (hs : ∀ e ∈ plan.zipIdx,
      existing' (topologyLinkKey e.1.fromNodeId e.1.toNodeId e.1.directionTag)
        = some (legCred mint existing plan e.1 e.2)) (hp : p ∈ plan) (hv : p.protocol = .vless) :
    ∃ shortId, nodeReality mint' existing' plan p.toNodeId
      = { nodeReality mint existing plan p.toNodeId with shortId } := by
  have hin : p ∈ plan.filter (fun q => decide (q.toNodeId = p.toNodeId ∧ q.protocol = .vless)) :=
    List.mem_filter.mpr ⟨hp, by simpa using hv⟩
  cases hf : plan.filter (fun q => decide (q.toNodeId = p.toNodeId ∧ q.protocol = .vless)) with
  | nil =>
    rw [hf] at hin
    cases hin
  | cons q qs =>
    have hq : q ∈ plan.filter (fun q => decide (q.toNodeId = p.toNodeId ∧ q.protocol = .vless)) := by
      rw [hf]
      exact List.mem_cons_self
    obtain ⟨hqp, hqn⟩ := List.mem_filter.mp hq
    obtain ⟨hqn, hqv⟩ := of_decide_eq_true hqn
    obtain ⟨i, hi⟩ := List.mem_iff_getElem?.mp hqp
    have hkept := keptFor_stored mint existing hqp
      (hs (q, i) (List.mk_mem_zipIdx_iff_getElem?.mpr hi))
    have hbase := baseCred_protocol mint existing q i
    rw [hqv] at hbase
    cases hb : baseCred mint existing q i with
    | vless c =>
      rw [legCred_of_vless mint existing hqp hb, hqn] at hkept
      obtain ⟨a, b, s, hnode⟩ := nodeReality_camouflage mint existing plan p.toNodeId
      rw [nodeReality_of_cons mint' existing' hf (by rw [hkept]; rfl), hnode]
      exact ⟨_, rfl⟩
    | _ c =>
      rw [hb] at hbase
      cases hbase

/-- **A leg stored as it was drawn is drawn so again**, whatever is minted. -/
theorem legCred_fixed (mint' : Minting) (hs : ∀ e ∈ plan.zipIdx,
      existing' (topologyLinkKey e.1.fromNodeId e.1.toNodeId e.1.directionTag)
        = some (legCred mint existing plan e.1 e.2)) (hi : (p, i) ∈ plan.zipIdx) :
    legCred mint' existing' plan p i = legCred mint existing plan p i := by
  have hp : p ∈ plan := List.mem_of_getElem? (List.mk_mem_zipIdx_iff_getElem?.mp hi)
  have hkept := keptFor_stored mint existing hp (hs (p, i) hi)
  have hbase' : baseCred mint' existing' p i = legCred mint existing plan p i := by
    simp [baseCred, hkept]
  cases hb : baseCred mint existing p i with
  | vless c =>
    have hv : p.protocol = .vless := by
      rw [← baseCred_protocol mint existing p i, hb]
      rfl
    obtain ⟨s, hnode⟩ := nodeReality_stored mint existing mint' hs hp hv
    rw [legCred_of_vless mint existing hp hb] at hbase' ⊢
    rw [legCred_of_vless mint' existing' hp hbase', hnode]
    simp
  | _ c =>
    have hcell := baseCred_protocol mint existing p i
    rw [hb] at hcell
    rw [legCred_of_not_vless mint' existing' (by rw [← hcell]; simp [LinkCred.protocol]), hbase']

end Credentials

/-- A minting that marks what it draws with `seed` and the place it is drawn at. -/
def sampleMinting (seed : String) : Minting where
  node n := ⟨"priv-" ++ seed ++ n, "pub-" ++ seed ++ n, seed⟩
  leg i :=
    { uuid := "uuid-" ++ seed ++ toString i
      psk := "psk-" ++ seed ++ toString i
      authPassword := "auth-" ++ seed ++ toString i
      obfsPassword := "obfs-" ++ seed ++ toString i
      password := "pass-" ++ seed ++ toString i
      tls := sampleTls
      reality := ⟨"priv-" ++ seed ++ toString i, "pub-" ++ seed ++ toString i, seed⟩ }
  shortId i := ⟨"", "", seed ++ toString i⟩

/-! ## The whole save -/

theorem generateTopologyLinks_eq_ok {mint : Minting} {existing : String → Option LinkCred} :
    generateTopologyLinks mint existing positions directions = .ok links
      ↔ ∃ plan, planLegs directions 0 positions = .ok plan
        ∧ links = plan.zipIdx.map (linkOf mint existing plan) := by
  simp only [generateTopologyLinks, bind_eq_ok, pure_eq_ok, @eq_comm _ links]

/-- Every leg the topology implies is drawn. -/
theorem link_of_leg {mint : Minting} {existing : String → Option LinkCred}
    (h : generateTopologyLinks mint existing positions directions = .ok links)
    (hp : Planned directions 0 positions p) :
    ∃ plan i, p ∈ plan ∧ linkOf mint existing plan (p, i) ∈ links := by
  obtain ⟨plan, hplan, rfl⟩ := generateTopologyLinks_eq_ok.mp h
  have hmem := (mem_plan_iff hplan p).mpr hp
  obtain ⟨i, hi⟩ := List.mem_iff_getElem?.mp hmem
  exact ⟨plan, i, hmem, List.mem_map_of_mem (List.mk_mem_zipIdx_iff_getElem?.mpr hi)⟩

theorem leg_of_link {mint : Minting} {existing : String → Option LinkCred}
    (h : generateTopologyLinks mint existing positions directions = .ok links)
    {l : TopologyLink} (hl : l ∈ links) :
    ∃ plan p i, Planned directions 0 positions p ∧ p ∈ plan
      ∧ l = linkOf mint existing plan (p, i) := by
  obtain ⟨plan, hplan, rfl⟩ := generateTopologyLinks_eq_ok.mp h
  obtain ⟨⟨p, i⟩, he, rfl⟩ := List.mem_map.mp hl
  have hmem : p ∈ plan := List.mem_of_getElem? (List.mk_mem_zipIdx_iff_getElem?.mp he)
  exact ⟨plan, p, i, (mem_plan_iff hplan p).mp hmem, hmem, rfl⟩

theorem SavedTopology.nodup_plan (T : SavedTopology)
    (h : planLegs T.directions 0 T.positions = .ok plan) : plan.Nodup :=
  nodup_planLegs h T.tags (fun _ ha => T.nodeIds_nodup ha) (fun _ hd => T.pool_nodup hd)

theorem get?_storedLinks (T : SavedTopology) (mint : Minting) (existing : String → Option LinkCred)
    (h : planLegs T.directions 0 T.positions = .ok plan) {e : PlannedLeg × Nat}
    (he : e ∈ plan.zipIdx) :
    (storedLinks (plan.zipIdx.map (linkOf mint existing plan))).get?
        (topologyLinkKey e.1.fromNodeId e.1.toNodeId e.1.directionTag)
      = some (legCred mint existing plan e.1 e.2) := by
  have hrows : (plan.zipIdx.map (linkOf mint existing plan)).filterMap (fun l =>
      (parseLinkCred (serializeLinkCred l.cred)).map fun cred =>
        (topologyLinkKey l.fromNodeId l.toNodeId l.directionTag, cred))
      = plan.zipIdx.map (fun e => (topologyLinkKey e.1.fromNodeId e.1.toNodeId e.1.directionTag,
          legCred mint existing plan e.1 e.2)) := by
    simp only [parseLinkCred_serializeLinkCred, Option.map_some, linkOf, List.filterMap_eq_map',
      List.map_map, Function.comp_def]
  have hkeys : ((plan.zipIdx.map (fun e =>
      (topologyLinkKey e.1.fromNodeId e.1.toNodeId e.1.directionTag,
        legCred mint existing plan e.1 e.2))).map Prod.fst).Nodup := by
    have hfst : plan.zipIdx.map (fun e =>
        topologyLinkKey e.1.fromNodeId e.1.toNodeId e.1.directionTag)
        = plan.map (fun p => topologyLinkKey p.fromNodeId p.toNodeId p.directionTag) := by
      conv_rhs => rw [← List.zipIdx_map_fst 0 plan]
      rw [List.map_map]
      rfl
    rw [List.map_map]
    simp only [Function.comp_def, hfst]
    refine List.Nodup.map_on (fun p hp q hq hpq => ?_) (T.nodup_plan h)
    exact T.key_unique ((mem_plan_iff h p).mp hp) ((mem_plan_iff h q).mp hq) hpq
  have := OrderedMap.get?_collect_of_nodup Prod.fst (fun _ e => e.2) hkeys
    (List.mem_map_of_mem (f := fun e : PlannedLeg × Nat =>
      (topologyLinkKey e.1.fromNodeId e.1.toNodeId e.1.directionTag,
        legCred mint existing plan e.1 e.2)) he)
  rw [storedLinks, hrows]
  exact this

theorem reuseLinkCred_of_fit (stored : LinkCred) (congestion : Option LinkCongestion) :
    ∃ kept, reuseLinkCred (some stored) stored.protocol stored.port congestion = some kept
      ∧ KeepsOwnSecrets stored kept ∧ (∀ c, stored = .vless c → kept = stored) := by
  have hfit : ¬ (stored.protocol ≠ stored.protocol ∨ stored.port ≠ stored.port) := by simp
  simp only [reuseLinkCred, hfit, if_false]
  split
  · rename_i c k
    refine ⟨_, rfl, ?_, fun c' hc => by cases hc⟩
    split <;> exact ⟨rfl, rfl, rfl⟩
  · refine ⟨stored, rfl, ?_, fun c _ => rfl⟩
    cases stored with
    | vless c => exact ⟨rfl, fun r hr => ⟨r, hr, rfl⟩⟩
    | shadowsocks c => exact ⟨rfl, rfl⟩
    | hy2 c => exact ⟨rfl, rfl, rfl⟩
    | tuic c => exact ⟨rfl, rfl, rfl⟩

/-- **A leg stored with the cell and the port it has now keeps its own secrets.** -/
theorem legCred_keepsOwnSecrets {mint : Minting} {existing : String → Option LinkCred}
    (hp : p ∈ plan) (i : Nat) {stored : LinkCred}
    (hs : existing (topologyLinkKey p.fromNodeId p.toNodeId p.directionTag) = some stored)
    (hcell : stored.protocol = p.protocol) (hport : stored.port = p.port) :
    KeepsOwnSecrets stored (legCred mint existing plan p i) := by
  obtain ⟨kept, hkept, hown, hsame⟩ := reuseLinkCred_of_fit stored p.congestion
  have hbase : baseCred mint existing p i = kept := by
    rw [baseCred, keptFor, hs, ← hcell, ← hport, hkept, Option.getD_some]
  cases stored with
  | vless c =>
    rw [hsame c rfl] at hbase
    rw [legCred_of_vless mint existing hp hbase]
    refine ⟨rfl, fun r hr => ⟨_, rfl, ?_⟩⟩
    simp [hr]
  | _ c =>
    rw [legCred_of_not_vless mint existing (by rw [← hcell]; simp [LinkCred.protocol]), hbase]
    exact hown

/-- **Re-saving an unchanged topology draws the same legs, whatever is minted; and a leg stored
with the same cell and port keeps its own secrets, whatever else changed.** -/
theorem generateTopologyLinks_resave (T : SavedTopology) (mint : Minting)
    (existing : String → Option LinkCred) {links : List TopologyLink}
    (h : generateTopologyLinks mint existing T.positions T.directions = .ok links) :
    (∀ mint' : Minting,
      generateTopologyLinks mint' (storedLinks links).get? T.positions T.directions = .ok links)
    ∧ (∀ l ∈ links, ∀ stored,
        existing (topologyLinkKey l.fromNodeId l.toNodeId l.directionTag) = some stored →
        stored.protocol = l.protocol → stored.port = l.cred.port →
        KeepsOwnSecrets stored l.cred) := by
  obtain ⟨plan, hplan, rfl⟩ := generateTopologyLinks_eq_ok.mp h
  refine ⟨fun mint' => generateTopologyLinks_eq_ok.mpr ⟨plan, hplan, ?_⟩, ?_⟩
  · refine List.map_congr_left (fun e he => ?_)
    have hfixed := legCred_fixed mint existing mint'
      (fun e he => get?_storedLinks T mint existing hplan he) he
    simp only [linkOf, hfixed]
  · intro l hl stored hs hcell hport
    obtain ⟨⟨p, i⟩, he, rfl⟩ := List.mem_map.mp hl
    have hp : p ∈ plan := List.mem_of_getElem? (List.mk_mem_zipIdx_iff_getElem?.mp he)
    simp only [linkOf] at hs hcell hport ⊢
    rw [legCred_port mint existing hp] at hport
    exact legCred_keepsOwnSecrets hp i hs hcell hport

/-- A first save of `vlessPath` and a second one that would mint other values. -/
theorem generateTopologyLinks_resave_vlessPath :
    ∃ links, generateTopologyLinks (sampleMinting "1") (fun _ => none) vlessPath.positions
        vlessPath.directions = .ok links ∧ links.length = 1
      ∧ generateTopologyLinks (sampleMinting "2") (storedLinks links).get? vlessPath.positions
          vlessPath.directions = .ok links := by
  refine ⟨_, rfl, rfl, ?_⟩
  exact (generateTopologyLinks_resave vlessPath (sampleMinting "1") (fun _ => none) rfl).1
    (sampleMinting "2")

end Iceslab
