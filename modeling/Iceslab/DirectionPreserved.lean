import Mathlib.Data.List.Perm.Subperm
import Iceslab.LegAcceptance
import Iceslab.NodeRouting

/-!
# A direction is kept to its end

The nodes of a cascade as one system: a connection handed to the socks listener of a direction on
an entry node is routed there, dials a leg, arrives on the listener the leg lands on as the user
that listener takes it for, and is routed again.

* `Hop` — one node further, whatever member a group picks and whatever row of the leg it is.
* `Arrived` — what a connection of a direction looks like where it arrived; `Hop.arrived` keeps it.
* `direction_preserved` — every run passes one node of each later position and leaves where the
  direction leaves.
* `pooledCascade_strands` — two entry nodes, one exit, shadowsocks: one entry's connection is
  refused at the exit.
-/

set_option autoImplicit false

namespace Iceslab

open RuleRun

variable {Addr : Type}

/-- A connection on a node. -/
structure Carried (Addr : Type) where
  node : String
  conn : SbConn Addr

/-- An outbound the config may send a connection to, whatever member its groups pick. -/
def Takes (cfg : ChainConfig) (E : SbEngine Addr) (x : SbConn Addr) (o : Outbound) : Prop :=
  ∃ tag, cfg.verdict E x = .outbound tag ∧ LeadsTo cfg tag o

/-- The user a listener takes a dialled credential for; only vless listeners name theirs. -/
def TakenAs (i : Inbound) (o : Outbound) (user : Option String) : Prop :=
  match i.kind, o.kind with
  | .vless users _, .vless _ _ uuid flow _ =>
    ∃ u ∈ users, u.uuid = uuid ∧ u.flow = flow ∧ user = some u.name
  | _, _ => user = none

/-- A leg of direction `t` among the ways out, or its named outbound. -/
def WayOut (input : ChainRenderInput) (t : Nat) (o : Outbound) : Prop :=
  (∃ leg ∈ input.out, leg.tag = t ∧ ∃ tag, WayTag t tag ∧ o = renderLeg input.selfHost tag leg)
    ∨ ∃ f ∈ input.foreign, f.tag = t ∧ o = foreignOutbound f

theorem eraseDups_length_le_one {l : List Nat} {t : Nat} (h : ∀ k ∈ l, k = t) :
    l.eraseDups.length ≤ 1 := by
  have hsub : l.eraseDups ⊆ [t] := fun k hk =>
    List.mem_singleton.mpr (h k (List.mem_eraseDups.mp hk))
  exact (List.subperm_of_subset (List.nodup_eraseDups l) hsub).length_le

/-- Only a leg dials a port of the cascade. -/
theorem renderLeg_port (self : Option String) (tag : String) (leg : ChainLegOut) :
    (renderLeg self tag leg).kind.port = some leg.cred.port :=
  renderLegCell_port leg

theorem renderLeg_ne_foreign (self : Option String) (tag : String) (leg : ChainLegOut)
    (f : ChainForeignOut) : renderLeg self tag leg ≠ foreignOutbound f := by
  intro h
  have hport := renderLeg_port self tag leg
  rw [h] at hport
  unfold foreignOutbound at hport
  cases hf : f.type <;> rw [hf] at hport <;> cases hport

theorem renderLeg_ne_direct (self : Option String) (tag : String) (leg : ChainLegOut) :
    renderLeg self tag leg ≠ directOutbound := by
  intro h
  have hport := renderLeg_port self tag leg
  rw [h] at hport
  cases hport

namespace DrawnCascade

variable (K : DrawnCascade) (lib : TextLib) (secret : String → String)
  (KeyPair : String → String → Prop) (E : SbEngine Addr)

/-! ## The system -/

/-- `o`, drawn on the node `n`, dials the leg of row `r`. -/
structure Dials (near : ChainRenderInput) (n : String) (o : Outbound) (r : TopologyLinkRow) :
    Prop where
  row : r ∈ K.read.links
  start : r.fromNodeId = n
  drawn : ∃ leg tag, K.read.legOut r = some leg ∧ WayTag leg.tag tag
    ∧ o = renderLeg near.selfHost tag leg

/-- One node further: `o` is taken, its leg is dialled, and the listener takes the credential. -/
inductive Hop : Carried Addr → Outbound → Carried Addr → Prop
  | hop {s : Carried Addr} {near far : ChainRenderInput} {o : Outbound} {r : TopologyLinkRow}
      {i : Inbound} {user : Option String} (hnear : K.chainAt lib secret s.node = some near)
      (hquiet : near.Quiet E s.conn) (htakes : Takes (renderChainConfig near) E s.conn o)
      (hdials : K.Dials near s.node o r) (hfar : K.chainAt lib secret r.toNodeId = some far)
      (hi : i ∈ (renderChainConfig far).inbounds) (haccepts : Accepts KeyPair i o)
      (htaken : TakenAs i o user) :
      Hop s o ⟨r.toNodeId, { s.conn with inbound := i.tag, user }⟩

/-- A run of so many hops. -/
inductive Hops (start : Carried Addr) : Nat → Carried Addr → Prop
  | start : Hops start 0 start
  | hop {k : Nat} {s s' : Carried Addr} {o : Outbound} (h : Hops start k s)
      (hs : K.Hop lib secret KeyPair E s o s') : Hops start (k + 1) s'

variable {K lib secret KeyPair E} {d : TaggedDirection} {near : ChainRenderInput} {n : String}
  {o : Outbound} {s : Carried Addr} {r : TopologyLinkRow} {k : Nat} {i : Nat} {x : SbConn Addr}

/-- What holds at the start and over every hop holds all along a run. -/
theorem Hops.invariant {P : Nat → Carried Addr → Prop} {start : Carried Addr} (h0 : P 0 start)
    (hstep : ∀ k s o s', P k s → K.Hop lib secret KeyPair E s o s' → P (k + 1) s')
    (h : K.Hops lib secret KeyPair E start k s) : P k s := by
  induction h with
  | start => exact h0
  | hop _ hs ih => exact hstep _ _ _ _ ih hs

variable (K)

/-- Where a connection of direction `d` may leave: through the node itself behind the direction,
or by its named outbound on the last position. -/
def Leaves (d : TaggedDirection) (n : String) (o : Outbound) : Prop :=
  (n ∈ d.direction.nodeIds ∧ o = directOutbound)
    ∨ K.At K.lastIndex n ∧ ∃ f ∈ K.read.foreignOf n, f.tag = d.tag ∧ o = foreignOutbound f

variable (lib secret KeyPair E)

/-- A connection of direction `d` after `k` hops: on one node of position `k`, or past the last
one behind the direction; and unless something there decides it, whatever way out is picked
leaves where the direction leaves or goes one node further. -/
structure OnCourse (d : TaggedDirection) (k : Nat) (s : Carried Addr) : Prop where
  place : K.At k s.node ∨ k = K.lastIndex + 1 ∧ s.node ∈ d.direction.nodeIds
  goesOn : ∃ near, K.chainAt lib secret s.node = some near ∧ (near.Quiet E s.conn →
    (∃ o, Takes (renderChainConfig near) E s.conn o)
      ∧ ∀ o, Takes (renderChainConfig near) E s.conn o →
          K.Leaves d s.node o ∨ ∃ s', K.Hop lib secret KeyPair E s o s')

/-- The link users of one node name their direction: two vless legs into it that carry different
directions have different uuids. -/
def UuidsApart : Prop := ∀ p i q j, (p, i) ∈ K.plan.zipIdx → (q, j) ∈ K.plan.zipIdx →
  p.toNodeId = q.toNodeId → p.protocol = .vless →
  legUuid K.mint K.existing p i = legUuid K.mint K.existing q j → p.directionTag = q.directionTag

/-- What a connection of direction `d` looks like where it arrived, after `k` hops. -/
inductive Arrived (d : TaggedDirection) : Nat → Carried Addr → Prop
  | entry {s : Carried Addr} (hn : K.At 0 s.node) (hx : s.conn.inbound = socksTag d.tag) :
      Arrived d 0 s
  | transit {s : Carried Addr} {i : Nat} (hn : K.At (i + 1) s.node)
      (hx : ∀ leg, K.read.legIn s.node = some leg → leg.cred.protocol = .vless →
        s.conn.user = some (chainLinkUser d.tag)) : Arrived d (i + 1) s
  | exit {s : Carried Addr} (hn : s.node ∈ d.direction.nodeIds) : Arrived d (K.lastIndex + 1) s

variable {K lib secret KeyPair E}

/-! ## Where a connection goes on one node -/

theorem tag_pos (hd : d ∈ K.saved.directions) : d.tag ≠ AUTO_TAG := by
  have := (K.saved.tags_range d hd).1
  intro h0
  rw [h0] at this
  cases this

/-- A node on a position has a way out for every direction, as the renderer is told it. -/
theorem HostsKnown.out_or_foreign (h : K.HostsKnown) (hn : K.At i n) (hd : d ∈ K.saved.directions) :
    d.tag ∈ ((K.read.linksFrom n).filterMap K.read.legOut).map (·.tag)
      ∨ d.tag ∈ (K.read.foreignOf n).map (·.tag) := by
  rcases K.way_of hn hd with ⟨r, hr, hfrom, htag⟩ | ⟨f, hf, htag⟩
  · obtain ⟨leg, hleg, hlt, -⟩ := h.legOut hr
    exact Or.inl (List.mem_map.mpr ⟨leg, mem_out.mpr ⟨r, hr, hfrom, hleg⟩, hlt.trans htag⟩)
  · exact Or.inr (List.mem_map.mpr ⟨f, hf, htag⟩)

/-- On an entry the socks listener says the direction. -/
theorem HostsKnown.entry_routes (h : K.HostsKnown) (hn : K.At 0 n) (hd : d ∈ K.saved.directions)
    (hx : x.inbound = socksTag d.tag) (hq : (entryInput K lib n (secret n)).Quiet E x) :
    ∃ tag, (renderChainConfig (entryInput K lib n (secret n))).verdict E x = .outbound tag
      ∧ WayTag d.tag tag
      ∧ tag ∈ (entryInput K lib n (secret n)).outbounds.map (·.tag) := by
  have hway := h.out_or_foreign hn hd
  have hmem : outTag d.tag ∈ (entryInput K lib n (secret n)).outbounds.map (·.tag) :=
    (ChainRenderInput.outTag_mem_outbounds _).mpr (ChainRenderInput.exists_way hway)
  have htags : d.tag ∈ K.read.directionTags n := by
    have hw : d.tag ∈ K.read.wayTags n := by
      rw [mem_wayTags]
      rcases K.way_of hn hd with ⟨r, hr, hfrom, htag⟩ | hf
      · exact Or.inl ⟨r, List.mem_filter.mpr ⟨hr, decide_eq_true hfrom⟩, htag⟩
      · exact Or.inr hf
    unfold TopologyInput.directionTags
    split
    · exact List.mem_cons_of_mem _ hw
    · exact hw
  exact ⟨_, ChainRenderInput.entry_verdict rfl htags hmem hx hq, Or.inl rfl, hmem⟩

/-- Into a position only vless legs can carry more than one direction. -/
theorem single_direction (hr : r ∈ K.read.links)
    (hn : K.At (i + 1) r.toNodeId) (hv : r.cred.protocol ≠ .vless) :
    ∀ d ∈ K.saved.directions, ∀ e ∈ K.saved.directions, d = e := by
  obtain ⟨p, j, hp⟩ := K.row_planned hr
  rw [hp.protocol] at hv
  rw [hp.toNodeId] at hn
  have hle : K.saved.directions.length ≤ 1 := by
    by_contra hmany
    have hlt : 1 < (K.saved.directions.map (·.direction)).length := by
      rw [List.length_map]
      omega
    have hleg := hp.leg
    unfold Leg at hleg
    cases hleg with
    | between ha hb hf ht hd =>
      refine hv ?_
      have hi := (List.getElem?_eq_some_iff.mp hb).1
      have := K.saved.admitted.transits hlt _ _ ha hi
      simp only [cellOut, this, Option.getD_some]
    | into hlast hi hf hd ht => exact hn.not_inPool ⟨_, hd, ht⟩
  intro d hd e he
  obtain ⟨a, ha, rfl⟩ := List.mem_iff_getElem.mp hd
  obtain ⟨b, hb, rfl⟩ := List.mem_iff_getElem.mp he
  obtain rfl : a = b := by omega
  rfl

/-- On a transit the link user says the direction, or there is only one. -/
theorem HostsKnown.transit_routes (h : K.HostsKnown) (hn : K.At (i + 1) n)
    {leg : ChainLegIn} (hleg : K.read.legIn n = some leg) (hd : d ∈ K.saved.directions)
    (hx : leg.cred.protocol = .vless → x.user = some (chainLinkUser d.tag))
    (hq : (transitInput K n (secret n) leg).Quiet E x) :
    ∃ tag, (renderChainConfig (transitInput K n (secret n) leg)).verdict E x = .outbound tag
      ∧ WayTag d.tag tag ∧ tag ∈ (transitInput K n (secret n) leg).outbounds.map (·.tag) := by
  have hway := h.out_or_foreign hn hd
  by_cases hv : leg.cred.protocol = .vless
  · have hclient : ∃ c ∈ leg.clients, c.tag = d.tag := by
      obtain ⟨f, hf⟩ := K.exists_at (Nat.lt_of_succ_lt hn.lt)
      obtain ⟨r, hr, -, hto, htag⟩ := K.row_between hf hn hd
      refine ⟨_, K.legIn_client hleg hr hto, ?_⟩
      unfold TopologyInput.clientOf
      split <;> exact htag
    exact ⟨_, ChainRenderInput.transit_verdict rfl rfl hv hclient hway (hx hv) hq, Or.inl rfl,
      (ChainRenderInput.outTag_mem_outbounds _).mpr (ChainRenderInput.exists_way hway)⟩
  · obtain ⟨⟨r, hr, hto, hcred⟩, -⟩ := K.legIn_eq_some hleg
    have hone := single_direction hr (by rw [hto]; exact hn) (by rwa [hcred])
    have hout : ∀ l ∈ (transitInput K n (secret n) leg).out, l.tag = d.tag := by
      intro l hl
      obtain ⟨r', hr', -, hl'⟩ := mem_out.mp hl
      obtain ⟨p, j, hp⟩ := K.row_planned hr'
      obtain ⟨e, he, htag⟩ := hp.leg.direction
      rw [(legOut_tag hl').1, hp.directionTag, htag, hone e he d hd]
    have hforeign : ∀ f ∈ (transitInput K n (secret n) leg).foreign, f.tag = d.tag := by
      intro f hf
      obtain ⟨-, e, he, o, -, rfl⟩ := K.mem_foreignOf.mp hf
      obtain ⟨e', he', htag⟩ :=
        List.mem_map.mp (K.perm_read_tags.mem_iff.mp (List.mem_map_of_mem he))
      rw [← hone e' he' d hd]
      exact htag.symm
    obtain ⟨hdef, hmem⟩ := ChainRenderInput.default_of_single rfl hout hforeign hway
    obtain ⟨y, -, hver⟩ := hq.verdict
    have hrules : (transitInput K n (secret n) leg).roleRules = [] := by
      show (transitInput K n (secret n) leg).transitRules leg = []
      unfold ChainRenderInput.transitRules
      rw [if_neg, if_neg hv]
      rintro ⟨-, hmany⟩
      refine absurd (eraseDups_length_le_one (t := d.tag) fun k hk => ?_) (Nat.not_le.mpr hmany)
      rcases List.mem_append.mp hk with hk | hk
      · obtain ⟨l, hl, rfl⟩ := List.mem_map.mp hk
        exact hout l hl
      · obtain ⟨f, hf, rfl⟩ := List.mem_map.mp hk
        exact hforeign f hf
    rw [hrules] at hver
    exact ⟨_, hver, hdef, hmem⟩

/-! ## One hop -/

theorem out_of_at (h : K.HostsKnown) (hnear : K.chainAt lib secret n = some near) (hn : K.At i n) :
    near.out = (K.read.linksFrom n).filterMap K.read.legOut
      ∧ near.foreign = K.read.foreignOf n := by
  cases i with
  | zero =>
    rw [h.chainAt_entry lib secret hn] at hnear
    cases hnear
    exact ⟨rfl, rfl⟩
  | succ i =>
    obtain ⟨leg, -, hat⟩ := h.chainAt_transit lib secret hn
    rw [hat] at hnear
    cases hnear
    exact ⟨rfl, rfl⟩

variable (lib secret E) in
/-- **Where a connection arrived decides where it goes**: on a position, to a way out of its
direction; behind the direction, out. -/
theorem Arrived.routes (h : K.HostsKnown) (hd : d ∈ K.saved.directions) (ha : K.Arrived d k s) :
    ∃ near, K.chainAt lib secret s.node = some near ∧ (near.Quiet E s.conn →
      (∃ o, Takes (renderChainConfig near) E s.conn o)
        ∧ ∀ o, Takes (renderChainConfig near) E s.conn o →
          (K.At k s.node ∧ WayOut near d.tag o)
            ∨ s.node ∈ d.direction.nodeIds ∧ o = directOutbound) := by
  have htag := tag_pos hd
  have hpos : ∀ near : ChainRenderInput, K.At k s.node →
      (∃ tag, (renderChainConfig near).verdict E s.conn = .outbound tag ∧ WayTag d.tag tag
        ∧ tag ∈ near.outbounds.map (·.tag)) →
      (∃ o, Takes (renderChainConfig near) E s.conn o)
        ∧ ∀ o, Takes (renderChainConfig near) E s.conn o →
          (K.At k s.node ∧ WayOut near d.tag o)
            ∨ s.node ∈ d.direction.nodeIds ∧ o = directOutbound := by
    rintro near hat ⟨tag, hver, hway, hmem⟩
    obtain ⟨o, ho⟩ := ChainRenderInput.exists_leadsTo htag hway hmem
    refine ⟨⟨o, tag, hver, ho⟩, ?_⟩
    rintro o' ⟨tag', hver', ho'⟩
    rw [hver] at hver'
    cases hver'
    exact Or.inl ⟨hat, ChainRenderInput.leadsTo_way htag hway ho'⟩
  cases ha with
  | entry hn hx =>
    exact ⟨_, h.chainAt_entry lib secret hn, fun hq => hpos _ hn (h.entry_routes hn hd hx hq)⟩
  | transit hn hx =>
    obtain ⟨leg, hleg, hat⟩ := h.chainAt_transit lib secret hn
    exact ⟨_, hat, fun hq => hpos _ hn (h.transit_routes hn hleg hd (hx leg hleg) hq)⟩
  | exit hn =>
    obtain ⟨leg, hleg, hat⟩ := h.chainAt_exit lib secret ⟨d, hd, hn⟩
    refine ⟨_, hat, fun hq => ?_⟩
    have hver := ChainRenderInput.exit_verdict hq
    refine ⟨⟨directOutbound, "direct", hver, .leaf (o := directOutbound) ?_ rfl⟩, ?_⟩
    · exact List.mem_singleton_self _
    · rintro o ⟨tag, hver', ho⟩
      rw [hver] at hver'
      cases hver'
      exact Or.inr ⟨hn, ChainRenderInput.exit_leadsTo ho⟩

/-- A row that a way out of direction `d` dials carries `d`. -/
theorem Dials.carries
    (h : K.Dials near n o r) {t : Nat} (hway : WayOut near t o) : r.directionTag = t := by
  obtain ⟨leg, tag, hleg, htag, rfl⟩ := h.drawn
  rcases hway with ⟨leg', -, -, tag', htag', heq⟩ | ⟨f, -, -, heq⟩
  · have : tag = tag' := congrArg Outbound.tag heq
    rw [← (legOut_tag hleg).1]
    exact htag.unique (by rw [this]; exact htag')
  · exact absurd heq (renderLeg_ne_foreign _ _ _ f)

theorem exists_takenAs {i : Inbound} (h : Accepts KeyPair i o) : ∃ user, TakenAs i o user := by
  obtain ⟨-, h⟩ := h
  unfold TakesSecret at h
  unfold TakenAs
  split at h
  · rename_i users tls server port uuid flow tls' hi ho
    obtain ⟨⟨u, hu, huuid, hflow⟩, -⟩ := h
    rw [hi, ho]
    exact ⟨_, u, hu, huuid, hflow, rfl⟩
  · rename_i hi ho
    rw [hi, ho]
    exact ⟨none, rfl⟩
  · rename_i hi ho
    rw [hi, ho]
    exact ⟨none, rfl⟩
  · rename_i hi ho
    rw [hi, ho]
    exact ⟨none, rfl⟩
  · exact h.elim

/-- A way out of a position leaves there, or its leg is taken on the next node. -/
theorem OneListener.leaves_or_hop (hone : K.OneListener KeyPair) (h : K.HostsKnown)
    (hn : K.At k s.node) (hnear : K.chainAt lib secret s.node = some near)
    (hq : near.Quiet E s.conn) (ho : Takes (renderChainConfig near) E s.conn o)
    (hway : WayOut near d.tag o) :
    K.Leaves d s.node o ∨ ∃ s', K.Hop lib secret KeyPair E s o s' := by
  obtain ⟨hout, hforeign⟩ := out_of_at h hnear hn
  rcases hway with ⟨leg, hleg, hcarried, tag, htag, rfl⟩ | ⟨f, hf, htag, rfl⟩
  · rw [hout] at hleg
    rw [← hcarried] at htag
    obtain ⟨r, hr, hfrom, hlegr⟩ := mem_out.mp hleg
    obtain ⟨held, far, hheld, hfar, hins⟩ := h.chainAt_to lib secret hr
    obtain ⟨p, j, hp⟩ := K.row_planned hr
    obtain ⟨i, hi⟩ := List.exists_mem_of_ne_nil _ (linkInbounds_ne_nil held)
    have haccepts := (accepts_iff_served hr hp hheld (legOut_tag hlegr).2 hi near.selfHost tag).mpr
      (hone.served hp hheld)
    obtain ⟨user, huser⟩ := exists_takenAs haccepts
    rw [← hins] at hi
    exact Or.inr ⟨_, .hop hnear hq ho ⟨hr, hfrom, leg, tag, hlegr, htag, rfl⟩ hfar hi haccepts
      huser⟩
  · rw [hforeign] at hf
    exact Or.inl (Or.inr ⟨(K.mem_foreignOf.mp hf).1, f, hf, htag, rfl⟩)

/-- A leg that is taken is one the listener serves. -/
theorem Hop.served (h : K.HostsKnown) {s s' : Carried Addr}
    (hs : K.Hop lib secret KeyPair E s o s') : ∃ r, r.fromNodeId = s.node ∧ ∃ p i held,
      K.RowOf p i r ∧ K.read.legIn r.toNodeId = some held ∧ K.Served KeyPair held.cred p i := by
  cases hs with
  | hop hnear hquiet htakes hdials hfar hi haccepts htaken =>
    rename_i near far r i user
    obtain ⟨p, j, hp⟩ := K.row_planned hdials.row
    obtain ⟨held, far', hheld, hfar', hins⟩ := h.chainAt_to lib secret hdials.row
    obtain rfl : far = far' := by simpa [hfar] using hfar'
    rw [hins] at hi
    obtain ⟨leg, tag, hleg, -, rfl⟩ := hdials.drawn
    exact ⟨r, hdials.start, p, j, held, hp, hheld,
      (accepts_iff_served hdials.row hp hheld (legOut_tag hleg).2 hi _ _).mp haccepts⟩

/-- The user a vless listener takes a leg for names the leg's direction. -/
theorem UuidsApart.user (hap : K.UuidsApart) (hr : r ∈ K.read.links)
    {held : ChainLegIn} (hheld : K.read.legIn r.toNodeId = some held)
    (hv : held.cred.protocol = .vless) {leg : ChainLegOut} (hleg : K.read.legOut r = some leg)
    {selfHost : Option String} {tag : String} {i : Inbound} (hi : i ∈ linkInbounds held)
    {user : Option String} (htaken : TakenAs i (renderLeg selfHost tag leg) user) :
    user = some (chainLinkUser r.directionTag) := by
  obtain ⟨⟨r₀, hr₀, hto, hcred⟩, hclients⟩ := K.legIn_eq_some hheld
  have hcell : r.cred.protocol = .vless := by
    rw [← (K.rows_to_same hr₀ hr hto).1, hcred, hv]
  obtain ⟨p, j, hp⟩ := K.row_planned hr
  have hpv : p.protocol = .vless := by rw [← hp.protocol, hcell]
  obtain ⟨c, hc, huuid, -⟩ := hp.of_vless hpv
  cases hcred₀ : held.cred with
  | vless c₀ =>
    have hkind : i.kind = vlessInbound held c₀ := by
      rw [(mem_linkInbounds hi).2, linkInbound, hcred₀]
    have hdial : (renderLeg selfHost tag leg).kind = renderLegCell leg := rfl
    simp only [TakenAs, hkind, vlessInbound, hdial, renderLegCell, (legOut_tag hleg).2, hc] at htaken
    obtain ⟨u, hu, heq, -, rfl⟩ := htaken
    obtain ⟨client, hclient, rfl⟩ := List.mem_map.mp hu
    rw [hclients] at hclient
    obtain ⟨r', hr', rfl⟩ := List.mem_map.mp hclient
    obtain ⟨hr', hto'⟩ := List.mem_filter.mp hr'
    obtain ⟨q, j', hq⟩ := K.row_planned hr'
    have hnode : p.toNodeId = q.toNodeId := by
      rw [← hp.toNodeId, ← hq.toNodeId, of_decide_eq_true hto']
    have hqv : q.protocol = .vless := by rw [← (K.saved.same_node hp.leg hq.leg hnode).2.1, hpv]
    obtain ⟨c', hc', huuid', -⟩ := hq.of_vless hqv
    have hsame : legUuid K.mint K.existing p j = legUuid K.mint K.existing q j' := by
      simp only [TopologyInput.clientOf, hc', Option.getD_some] at heq
      rw [huuid, huuid', heq]
    have hdir := hap p j q j' hp.at_index hq.at_index hnode hpv hsame
    simp only [TopologyInput.clientOf, hc', hp.directionTag, hdir, hq.directionTag]
  | _ c₀ =>
    rw [hcred₀] at hv
    cases hv

/-- **A hop keeps the direction.** -/
theorem Hop.arrived (h : K.HostsKnown) (hap : K.UuidsApart)
    (hd : d ∈ K.saved.directions) {s s' : Carried Addr}
    (ha : K.Arrived d k s) (hs : K.Hop lib secret KeyPair E s o s') : K.Arrived d (k + 1) s' := by
  obtain ⟨near', hnear', hroutes⟩ := ha.routes lib secret E h hd
  cases hs with
  | hop hnear hquiet htakes hdials hfar hi haccepts htaken =>
    rename_i near far r i user
    obtain rfl : near = near' := by simpa [hnear] using hnear'
    rcases (hroutes hquiet).2 o htakes with ⟨hat, hway⟩ | ⟨-, rfl⟩
    · have hcarries := hdials.carries hway
      obtain ⟨held, far', hheld, hfar', hins⟩ := h.chainAt_to lib secret hdials.row
      obtain rfl : far = far' := by simpa [hfar] using hfar'
      rw [hins] at hi
      obtain ⟨leg, tag, hleg, htag, rfl⟩ := hdials.drawn
      obtain ⟨j, hfrom, hto⟩ := K.row_ends hdials.row
      rw [hdials.start] at hfrom
      obtain rfl := hat.unique hfrom
      rcases hto with hto | ⟨rfl, e, he, hetag, hn⟩
      · refine .transit hto fun held' hheld' hv => ?_
        obtain rfl : held = held' := by simpa [hheld] using hheld'
        rw [← hcarries]
        exact hap.user hdials.row hheld hv hleg hi htaken
      · obtain rfl := K.saved.direction_of_tag he hd (hetag.trans hcarries)
        exact .exit hn
    · obtain ⟨leg, tag, -, -, heq⟩ := hdials.drawn
      exact absurd heq.symm (renderLeg_ne_direct _ _ _)

theorem Arrived.onCourse (h : K.HostsKnown) (hone : K.OneListener KeyPair)
    (hd : d ∈ K.saved.directions) (ha : K.Arrived d k s) :
    K.OnCourse lib secret KeyPair E d k s := by
  obtain ⟨near, hnear, hroutes⟩ := ha.routes lib secret E h hd
  refine ⟨?_, near, hnear, fun hq => ⟨(hroutes hq).1, fun o ho => ?_⟩⟩
  · cases ha with
    | entry hn _ => exact Or.inl hn
    | transit hn _ => exact Or.inl hn
    | exit hn => exact Or.inr ⟨rfl, hn⟩
  · rcases (hroutes hq).2 o ho with ⟨hat, hway⟩ | hout
    · exact hone.leaves_or_hop h hat hnear hq ho hway
    · exact Or.inl (Or.inl hout)

/-- On a transit a link user is never routed into another direction. -/
theorem HostsKnown.transit_keeps (h : K.HostsKnown) (hn : K.At (i + 1) n)
    (hnear : K.chainAt lib secret n = some near)
    (hd : d ∈ K.saved.directions) (hx : x.user = some (chainLinkUser d.tag))
    {u : Nat} (hu : u ≠ d.tag) : (renderChainConfig near).verdict E x ≠ .outbound (outTag u) := by
  obtain ⟨leg, hleg, hat⟩ := h.chainAt_transit lib secret hn
  obtain rfl : transitInput K n (secret n) leg = near := by simpa [hat] using hnear
  by_cases hq : (transitInput K n (secret n) leg).Quiet E x
  · obtain ⟨tag, hver, hway, -⟩ := h.transit_routes hn hleg hd (fun _ => hx) hq
    rw [hver]
    intro heq
    cases heq
    exact hu (WayTag.unique (Or.inl rfl) hway)
  · exact ChainRenderInput.transit_guarded rfl hq _

/-- **A direction is kept to its end.**  Where one listener can serve every leg into its node and
link users name their direction, every run from the socks listener of a direction stays on course;
and, always, a transit never routes a link user into another direction, and one that cannot tell
its directions apart forwards nothing. -/
theorem direction_preserved (K : DrawnCascade) (h : K.HostsKnown) (lib : TextLib)
    (secret : String → String) (KeyPair : String → String → Prop) (E : SbEngine Addr) :
    (K.OneListener KeyPair → K.UuidsApart → ∀ d ∈ K.saved.directions, ∀ start : Carried Addr,
      K.At 0 start.node → start.conn.inbound = socksTag d.tag →
      ∀ k s, K.Hops lib secret KeyPair E start k s → K.OnCourse lib secret KeyPair E d k s)
    ∧ (∀ i n, K.At (i + 1) n → ∀ near, K.chainAt lib secret n = some near →
      ∀ d ∈ K.saved.directions, ∀ x : SbConn Addr, x.user = some (chainLinkUser d.tag) →
      ∀ u, u ≠ d.tag → (renderChainConfig near).verdict E x ≠ .outbound (outTag u))
    ∧ ∀ (input : ChainRenderInput) (leg : ChainLegIn), input.role = .transit →
      input.legIn = some leg → leg.cred.protocol ≠ .vless →
      (input.out.map (·.tag) ++ input.foreign.map (·.tag)).eraseDups.length > 1 →
      ∀ (x : SbConn Addr) (s : String), (renderChainConfig input).verdict E x ≠ .outbound s := by
  refine ⟨?_, ?_, ?_⟩
  · intro hone hap d hd start hn hx k s hrun
    have harrived : K.Arrived d k s :=
      hrun.invariant (.entry hn hx) fun k s o s' ha hs => hs.arrived h hap hd ha
    exact harrived.onCourse h hone hd
  · intro i n hn near hnear d hd x hx u hu
    exact h.transit_keeps hn hnear hd hx hu
  · intro input leg hrole hleg hv hways x s
    exact ChainRenderInput.transit_refuses hrole hleg hv hways x s

/-- An engine that matches no item and resolves no name. -/
def blankEngine : SbEngine Nat where
  domain _ _ := false
  domain_suffix _ _ := false
  domain_keyword _ _ := false
  domain_regex _ _ := false
  ip_cidr _ _ := false
  port_range _ _ := false
  setName _ _ := false
  setAddr _ _ := false
  resolve _ := []

/-- An https connection handed to the socks listener of direction 1. -/
def sampleCarried (node : String) : Carried Nat where
  node
  conn := { inbound := socksTag 1, user := some (chainSocksUser 0), protocol := some "tls",
            network := .tcp, port := 443, dest := .name "example.org" [] }

theorem uuidsApart_vlessCascade : vlessCascade.UuidsApart := by
  intro p i q j hp hq _ _ _
  rw [List.mem_singleton.mp (vlessCascade.mem_plan_of_zipIdx hp),
    List.mem_singleton.mp (vlessCascade.mem_plan_of_zipIdx hq)]

/-- The connection of `vlessCascade` goes one node further, to the exit. -/
theorem direction_preserved_vlessCascade :
    ∃ s, vlessCascade.Hops asciiText (fun _ => "secret") SamplePair blankEngine
        (sampleCarried nodeA) 1 s ∧ s.node = nodeB
      ∧ vlessCascade.OnCourse asciiText (fun _ => "secret") SamplePair blankEngine
          ⟨1, { nodeIds := [nodeB] }⟩ 1 s := by
  have hrun := (direction_preserved vlessCascade (hostsKnown_firstSave _ _ _) asciiText
    (fun _ => "secret") SamplePair blankEngine).1 oneListener_vlessCascade uuidsApart_vlessCascade
    ⟨1, { nodeIds := [nodeB] }⟩ (List.mem_singleton_self _) (sampleCarried nodeA)
    ⟨_, rfl, List.mem_singleton_self _⟩ rfl
  obtain ⟨near, hnear, hgoes⟩ := (hrun 0 _ .start).goesOn
  cases hnear
  obtain ⟨⟨o, ho⟩, hall⟩ := hgoes ⟨_, rfl⟩
  rcases hall o ho with (⟨hmem, -⟩ | ⟨-, f, hf, -⟩) | ⟨s, hs⟩
  · exact absurd hmem (by decide)
  · cases hf
  · have hone := hrun 1 s (.hop .start hs)
    refine ⟨s, .hop .start hs, ?_, hone⟩
    rcases hone.place with ⟨p, hp, -⟩ | ⟨-, hmem⟩
    · cases hp
    · exact List.mem_singleton.mp hmem

end DrawnCascade

/-- The second entry's connection is stranded: the exit refuses its leg. -/
theorem pooledCascade_strands : pooledCascade.HostsKnown
    ∧ ⟨1, { nodeIds := [nodeB] }⟩ ∈ pooledCascade.saved.directions
    ∧ pooledCascade.At 0 nodeC
    ∧ ¬ ∀ k s, pooledCascade.Hops asciiText (fun _ => "secret") (fun _ _ => True)
          DrawnCascade.blankEngine (DrawnCascade.sampleCarried nodeC) k s →
        pooledCascade.OnCourse asciiText (fun _ => "secret") (fun _ _ => True)
          DrawnCascade.blankEngine ⟨1, { nodeIds := [nodeB] }⟩ k s := by
  have hosts : pooledCascade.HostsKnown := DrawnCascade.hostsKnown_firstSave _ _ _
  refine ⟨hosts, List.mem_singleton_self _, ⟨_, rfl, by decide⟩, fun hall => ?_⟩
  obtain ⟨near, hnear, hgoes⟩ := (hall 0 _ .start).goesOn
  cases hnear
  obtain ⟨⟨o, ho⟩, hevery⟩ := hgoes ⟨_, rfl⟩
  rcases hevery o ho with (⟨hmem, -⟩ | ⟨-, f, hf, -⟩) | ⟨s, hs⟩
  · exact absurd hmem (by decide)
  · cases hf
  · obtain ⟨r, hstart, p, j, held, hp, hheld, hserved⟩ := hs.served hosts
    have hlegs : (p, j) ∈ [(pooledLeg nodeA, 0), (pooledLeg nodeC, 1)] := hp.at_index
    have hfrom : p.fromNodeId = nodeC := by rw [← hp.fromNodeId, hstart]; rfl
    obtain ⟨rfl, rfl⟩ : p = pooledLeg nodeC ∧ j = 1 := by
      rcases List.mem_cons.mp hlegs with he | he
      · cases he
        exact absurd hfrom (by decide)
      · cases List.mem_singleton.mp he
        exact ⟨rfl, rfl⟩
    have hfirst : (pooledCascade.read.legIn nodeB).map (·.cred)
        = some (baseCred pooledCascade.mint pooledCascade.existing (pooledLeg nodeA) 0) := rfl
    have hto : r.toNodeId = nodeB := hp.toNodeId
    rw [← hto, hheld, Option.map_some, Option.some.injEq] at hfirst
    rw [hfirst] at hserved
    have hpsk : "psk-10" = "psk-11" := hserved.2
    exact absurd hpsk (by decide)

end Iceslab
