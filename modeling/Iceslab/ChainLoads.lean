import Iceslab.DrawnCascade

/-!
# Every chain config loads

sing-box refuses a config with two inbounds or outbounds of one tag, with two listeners on one
socket, or with a name nothing defines.  A rendered chain config has none of these.

* `Loadable` — what the engine asks of a config, and where the protections stand.
* `Renderable` — what the renderer asks of its input; `Renderable.renderChainConfig_loadable`.
* `chainInputOf_renderable` — every input of a saved cascade is so.
* `chain_config_loadable` — every node of every saved cascade loads.
-/

set_option autoImplicit false

namespace Iceslab

def port25Reject : SbRule := .default { port := [25] } .reject

def bittorrentReject : SbRule := .default { protocol := ["bittorrent"] } .reject

/-- A config the engine loads. -/
structure Loadable (c : ChainConfig) : Prop where
  inboundTags : (c.inbounds.map (·.tag)).Nodup
  outboundTags : (c.outbounds.map (·.tag) ++ c.endpoints.map (·.tag)).Nodup
  sockets : (c.inbounds.map fun i => (i.listen, i.listen_port)).Nodup
  routes : ∀ r ∈ c.rules, ∀ o, r.outbound? = some o →
    o ∈ c.outbounds.map (·.tag) ++ c.endpoints.map (·.tag)
  final : ∀ o, c.final = some o → o ∈ c.outbounds.map (·.tag)
  members : ∀ o ∈ c.outbounds, ∀ m ∈ o.members, m ∈ c.outbounds.map (·.tag)
  ruleSets : ∀ r ∈ c.rules, ∀ s ∈ r.ruleSets, (c.ruleSets.map (·.tag)).count s = 1
  conds : ∀ r ∈ c.rules, r.action ≠ .sniff → r.action ≠ .resolve →
    r.conds ≠ [] ∧ ∀ x ∈ r.conds, x ≠ {}
  protections : ∃ before after, c.rules = before ++ after ∧ port25Reject ∈ before
    ∧ bittorrentReject ∈ before ∧ ∀ r ∈ before, r.outbound? = none

/-! ## Tags -/

variable {a b i j k : Nat}

theorem outTag_inj (h : outTag a = outTag b) : a = b := Names.append_num_inj h

theorem socksTag_inj (h : socksTag a = socksTag b) : a = b := Names.append_num_inj h

theorem poolLegTag_inj (h : poolLegTag a i = poolLegTag b j) : a = b ∧ i = j :=
  Names.append_num_dash_inj h

theorem outTag_ne_poolLegTag (a b i : Nat) : outTag a ≠ poolLegTag b i := Names.num_ne_num_dash

/-- Tags of different kinds differ at some place. -/
theorem ne_of_char {s t : String} (i : Nat) (h : s.toList[i]? ≠ t.toList[i]?) : s ≠ t :=
  fun heq => h (by rw [heq])

theorem linkInTag_inj (h : linkInTag i = linkInTag j) : i = j := by
  have hne : ∀ n : Nat, "link-in" ≠ "link-in-" ++ toString n :=
    fun n => ne_of_char 7 (by simp)
  unfold linkInTag at h
  split at h <;> split at h
  · omega
  · exact absurd h (hne j)
  · exact absurd h.symm (hne i)
  · exact Names.append_num_inj h

theorem outTag_ne_direct (a : Nat) : outTag a ≠ "direct" :=
  ne_of_char 0 (by simp [outTag])

theorem poolLegTag_ne_direct (a i : Nat) : poolLegTag a i ≠ "direct" :=
  ne_of_char 0 (by simp [poolLegTag, outTag])

theorem outTag_ne_warp (a : Nat) : outTag a ≠ CHAIN_WARP_TAG :=
  ne_of_char 0 (by simp [outTag, CHAIN_WARP_TAG])

theorem poolLegTag_ne_warp (a i : Nat) : poolLegTag a i ≠ CHAIN_WARP_TAG :=
  ne_of_char 0 (by simp [poolLegTag, outTag, CHAIN_WARP_TAG])

/-- A tag of an outbound of direction `t`. -/
def WayTag (t : Nat) (s : String) : Prop := s = outTag t ∨ ∃ i, s = poolLegTag t i

variable {s : String} {r : SbRule}

theorem WayTag.unique {t u : Nat} (h : WayTag t s) (h' : WayTag u s) : t = u := by
  rcases h with rfl | ⟨i, rfl⟩ <;> rcases h' with h' | ⟨j, h'⟩
  · exact outTag_inj h'
  · exact absurd h' (outTag_ne_poolLegTag _ _ _)
  · exact absurd h'.symm (outTag_ne_poolLegTag _ _ _)
  · exact (poolLegTag_inj h').1

theorem WayTag.ne_direct {t : Nat} (h : WayTag t s) : s ≠ "direct" := by
  rcases h with rfl | ⟨i, rfl⟩
  · exact outTag_ne_direct t
  · exact poolLegTag_ne_direct t i

theorem socksTag_ne_tproxy (a : Nat) : socksTag a ≠ TPROXY_IN_TAG :=
  ne_of_char 3 (by simp [socksTag, TPROXY_IN_TAG])

/-! ## The outbound tags -/

/-- The tags of a direction's outbounds when it has this many legs. -/
def wayOutTags (w : Nat × Nat) : List String :=
  if w.2 = 1 then [outTag w.1] else (List.range w.2).map (poolLegTag w.1) ++ [outTag w.1]

theorem outTag_mem_wayOutTags (w : Nat × Nat) : outTag w.1 ∈ wayOutTags w := by
  unfold wayOutTags
  split <;> simp

theorem mem_wayOutTags {w : Nat × Nat} (h : s ∈ wayOutTags w) : WayTag w.1 s := by
  unfold wayOutTags at h
  split at h
  · exact Or.inl (List.mem_singleton.mp h)
  · rcases List.mem_append.mp h with h | h
    · obtain ⟨i, -, rfl⟩ := List.mem_map.mp h
      exact Or.inr ⟨i, rfl⟩
    · exact Or.inl (List.mem_singleton.mp h)

theorem nodup_wayOutTags (w : Nat × Nat) : (wayOutTags w).Nodup := by
  unfold wayOutTags
  split
  · simp
  · refine List.Nodup.append (List.nodup_range.map fun i j h => (poolLegTag_inj h).2)
      (List.nodup_singleton _) ?_
    intro s hs hs'
    obtain ⟨i, -, rfl⟩ := List.mem_map.mp hs
    exact outTag_ne_poolLegTag _ _ _ (List.mem_singleton.mp hs').symm

theorem wayOutTags_disjoint {w v : Nat × Nat} (h : w.1 ≠ v.1)
    (hw : s ∈ wayOutTags w) : s ∉ wayOutTags v :=
  fun hv => h ((mem_wayOutTags hw).unique (mem_wayOutTags hv))

theorem wayOutTag_ne {w : Nat × Nat} (h : s ∈ wayOutTags w) :
    s ≠ "direct" ∧ s ≠ CHAIN_WARP_TAG := by
  rcases mem_wayOutTags h with rfl | ⟨i, rfl⟩
  · exact ⟨outTag_ne_direct _, outTag_ne_warp _⟩
  · exact ⟨poolLegTag_ne_direct _ _, poolLegTag_ne_warp _ _⟩

@[simp] theorem foreignOutbound_tag (f : ChainForeignOut) :
    (foreignOutbound f).tag = outTag f.tag := by
  unfold foreignOutbound
  cases f.type <;> rfl

@[simp] theorem foreignOutbound_members (f : ChainForeignOut) : (foreignOutbound f).members = [] := by
  unfold foreignOutbound
  cases f.type <;> rfl

@[simp] theorem renderLeg_tag (self : Option String) (tag : String) (leg : ChainLegOut) :
    (renderLeg self tag leg).tag = tag := rfl

@[simp] theorem renderLeg_members (self : Option String) (tag : String) (leg : ChainLegOut) :
    (renderLeg self tag leg).members = [] := by
  unfold renderLeg renderLegCell Outbound.members
  cases leg.cred <;> rfl

namespace ChainRenderInput

variable (input : ChainRenderInput)

theorem map_tag_directionOutbounds (e : Nat × List ChainLegOut) :
    (input.directionOutbounds e).map (·.tag) = wayOutTags (e.1, e.2.length) := by
  obtain ⟨k, legs⟩ := e
  have hpool : (legs.zipIdx.map fun l => poolLegTag k l.2)
      = (List.range legs.length).map (poolLegTag k) := by
    rw [List.range_eq_range', ← List.zipIdx_map_snd 0 legs, List.map_map]
    rfl
  unfold directionOutbounds wayOutTags
  split
  · rename_i leg hleg
    simp only at hleg
    simp [hleg]
  · rename_i hmany
    have hlen : legs.length ≠ 1 := fun h => by
      obtain ⟨leg, hleg⟩ := List.length_eq_one_iff.mp h
      exact hmany leg hleg
    rw [if_neg hlen, ← hpool]
    simp [urltestOutbound, Function.comp_def]

/-- The ways out of a config, each with its number of legs. -/
def ways : List (Nat × Nat) :=
  input.sortedDirections.map (fun e => (e.1, e.2.length))
    ++ input.drawnForeign.map (fun f => (f.tag, 1))
    ++ if input.wantsAuto ∧ input.directionsWithLegs ≠ [] then [(AUTO_TAG, 1)] else []

theorem map_tag_outbounds :
    input.outbounds.map (·.tag) = input.ways.flatMap wayOutTags ++ ["direct"] := by
  unfold outbounds ways autoOutbounds
  simp only [List.map_append, List.map_flatMap, map_tag_directionOutbounds, List.flatMap_append,
    List.flatMap_map, List.map_map, Function.comp_def, foreignOutbound_tag]
  congr 1
  congr 1
  · congr 1
    exact List.map_eq_flatMap
  · split <;> simp [urltestOutbound, wayOutTags]

theorem outTag_mem_outbounds :
    outTag k ∈ input.outbounds.map (·.tag) ↔ ∃ w ∈ input.ways, w.1 = k := by
  rw [map_tag_outbounds, List.mem_append, List.mem_flatMap]
  constructor
  · rintro (⟨w, hw, h⟩ | h)
    · exact ⟨w, hw, (mem_wayOutTags h).unique (Or.inl rfl)⟩
    · exact absurd (List.mem_singleton.mp h) (outTag_ne_direct k)
  · rintro ⟨w, hw, rfl⟩
    exact Or.inl ⟨w, hw, outTag_mem_wayOutTags w⟩

/-- What the renderer asks of its input. -/
structure Renderable : Prop where
  foreignTags : (input.foreign.map (·.tag)).Nodup
  foreign_pos : ∀ f ∈ input.foreign, f.tag ≠ AUTO_TAG
  directionTags : input.directionTags.Nodup
  listen : ∀ leg ∈ input.legIn, ∀ l ∈ leg.listen, l.Nodup
  ruleSets : (input.ruleSets.map (·.tag)).Nodup
  policySets : ∀ p ∈ input.entryPolicies, ∀ t ∈ p.ruleSets, t ∈ input.ruleSets.map (·.tag)
  exitRules : ∀ e ∈ input.policyOfExit, ∀ r ∈ e.rules,
    NodeRuleOk e.warp.isSome (input.ruleSets.map (·.tag)) r

variable {input}

theorem mem_drawnForeign {f : ChainForeignOut} (h : f ∈ input.drawnForeign) :
    f ∈ input.foreign ∧ input.legsByDirection.has f.tag = false := by
  obtain ⟨h1, h2⟩ := List.mem_filter.mp h
  exact ⟨(List.perm_insertionSort _ _).mem_iff.mp h1, by simpa using h2⟩

theorem perm_sortedDirections :
    (input.sortedDirections.map Prod.fst).Perm input.legsByDirection.keys :=
  (List.perm_insertionSort _ _).map _

theorem not_has (h : input.legsByDirection.has k = false) :
    k ∉ input.sortedDirections.map Prod.fst := by
  rw [perm_sortedDirections.mem_iff, ← OrderedMap.has_iff, h]
  exact Bool.false_ne_true

/-- **Each way out is one direction's.** -/
theorem nodup_ways (h : input.Renderable) : (input.ways.map Prod.fst).Nodup := by
  have hkeys : input.ways.map Prod.fst = (input.sortedDirections.map Prod.fst
      ++ input.drawnForeign.map (·.tag))
      ++ if input.wantsAuto ∧ input.directionsWithLegs ≠ [] then [AUTO_TAG] else [] := by
    unfold ways
    simp only [List.map_append, List.map_map, Function.comp_def]
    congr 1
    split <;> rfl
  have hsub : ((input.foreign.insertionSort fun a b => a.tag ≤ b.tag).map (·.tag)).Nodup :=
    ((List.perm_insertionSort _ _).map _).nodup_iff.mpr h.foreignTags
  rw [hkeys]
  refine List.Nodup.append (List.Nodup.append ?_ ?_ ?_) ?_ ?_
  · exact perm_sortedDirections.nodup_iff.mpr (OrderedMap.nodup_keys _)
  · exact hsub.sublist (List.filter_sublist.map _)
  · intro k hk hf
    obtain ⟨f, hdrawn, rfl⟩ := List.mem_map.mp hf
    exact not_has (mem_drawnForeign hdrawn).2 hk
  · split <;> simp
  · intro k hk ha
    split at ha
    · rename_i hauto
      rw [List.mem_singleton.mp ha] at hk
      have hnone : input.legsByDirection.has AUTO_TAG = false := by
        have := hauto.1
        simp only [wantsAuto, Bool.and_eq_true, Bool.not_eq_true'] at this
        exact this.2
      rcases List.mem_append.mp hk with hk | hk
      · exact not_has hnone hk
      · obtain ⟨f, hf, htag⟩ := List.mem_map.mp hk
        exact h.foreign_pos f (mem_drawnForeign hf).1 htag
    · cases ha

theorem nodup_wayTags (h : input.Renderable) : (input.ways.flatMap wayOutTags).Nodup := by
  rw [List.nodup_flatMap]
  exact ⟨fun w _ => nodup_wayOutTags w, (List.pairwise_map.mp (nodup_ways h)).imp
    fun hne s hs hs' => wayOutTags_disjoint hne hs hs'⟩

theorem not_mem_wayTags (h : s = "direct" ∨ s = CHAIN_WARP_TAG) :
    s ∉ input.ways.flatMap wayOutTags := by
  intro hm
  obtain ⟨w, -, hw⟩ := List.mem_flatMap.mp hm
  obtain ⟨h1, h2⟩ := wayOutTag_ne hw
  rcases h with rfl | rfl
  · exact h1 rfl
  · exact h2 rfl

theorem map_tag_endpoints :
    (renderChainConfig input).endpoints.map (·.tag)
      = ((input.policyOfExit.bind (·.warp)).map fun _ => CHAIN_WARP_TAG).toList := by
  unfold renderChainConfig
  cases input.policyOfExit.bind (·.warp) <;> rfl

theorem nodup_outboundTags (h : input.Renderable) :
    ((renderChainConfig input).outbounds.map (·.tag)
      ++ (renderChainConfig input).endpoints.map (·.tag)).Nodup := by
  rw [map_tag_endpoints]
  show (input.outbounds.map (·.tag) ++ _).Nodup
  rw [map_tag_outbounds, List.append_assoc]
  refine List.Nodup.append (nodup_wayTags h) ?_ ?_
  · cases input.policyOfExit.bind (·.warp) <;> simp [CHAIN_WARP_TAG]
  · intro s hs hs'
    have hother : s = "direct" ∨ s = CHAIN_WARP_TAG → s ∉ input.ways.flatMap wayOutTags :=
      not_mem_wayTags
    refine hother ?_ hs
    rcases List.mem_append.mp hs' with hs' | hs'
    · exact Or.inl (List.mem_singleton.mp hs')
    · cases hw : input.policyOfExit.bind (·.warp) with
      | none => simp [hw] at hs'
      | some w => exact Or.inr (by simpa [hw] using hs')

theorem mem_members {o : Outbound} (ho : o ∈ input.outbounds) {m : String} (hm : m ∈ o.members) :
    m ∈ input.outbounds.map (·.tag) := by
  unfold outbounds at ho
  simp only [List.mem_append, List.mem_flatMap, List.mem_map, List.mem_singleton] at ho
  rcases ho with ((⟨e, he, ho⟩ | ⟨f, -, rfl⟩) | ho) | rfl
  · -- a group over a direction's own legs
    have hmem : m ∈ (input.directionOutbounds e).map (·.tag) := by
      unfold directionOutbounds at ho ⊢
      split at ho
      · rw [List.mem_singleton.mp ho, renderLeg_members] at hm
        cases hm
      · rcases List.mem_append.mp ho with ho | ho
        · obtain ⟨l, -, rfl⟩ := List.mem_map.mp ho
          rw [renderLeg_members] at hm
          cases hm
        · rw [List.mem_singleton.mp ho] at hm
          rw [List.map_append, List.map_map]
          exact List.mem_append_left _ hm
    unfold outbounds
    simp only [List.map_append, List.map_flatMap, List.mem_append, List.mem_flatMap]
    exact Or.inl (Or.inl (Or.inl ⟨e, he, hmem⟩))
  · simp at hm
  · -- the Auto line over the directions
    unfold autoOutbounds at ho
    split at ho
    · rw [List.mem_singleton.mp ho] at hm
      obtain ⟨k, hk, rfl⟩ := List.mem_map.mp hm
      rw [directionsWithLegs, (List.perm_insertionSort _ _).mem_iff, List.mem_append] at hk
      rw [outTag_mem_outbounds]
      unfold ways
      simp only [List.mem_append]
      rcases hk with hk | hk
      · obtain ⟨e, he, rfl⟩ := List.mem_map.mp hk
        exact ⟨_, Or.inl (Or.inl (List.mem_map_of_mem he)), rfl⟩
      · obtain ⟨f, hf, rfl⟩ := List.mem_map.mp hk
        exact ⟨_, Or.inl (Or.inr (List.mem_map_of_mem hf)), rfl⟩
    · cases ho
  · cases hm

theorem direct_mem : "direct" ∈ input.outbounds.map (·.tag) := by
  rw [map_tag_outbounds]
  exact List.mem_append_right _ List.mem_cons_self

theorem hasWayOut_iff {tag : String} :
    input.hasWayOut tag = true ↔ tag ∈ input.outbounds.map (·.tag) := by
  simp only [hasWayOut, List.any_eq_true, decide_eq_true_eq, List.mem_map]

/-- A direction with a leg or a named outbound has a way out. -/
theorem exists_way (h : k ∈ input.out.map (·.tag) ∨ k ∈ input.foreign.map (·.tag)) :
    ∃ w ∈ input.ways, w.1 = k := by
  unfold ways
  simp only [List.mem_append]
  by_cases hk : input.legsByDirection.has k = true
  · rw [OrderedMap.has_iff, ← perm_sortedDirections.mem_iff] at hk
    obtain ⟨e, he, rfl⟩ := List.mem_map.mp hk
    exact ⟨_, Or.inl (Or.inl (List.mem_map_of_mem he)), rfl⟩
  · rcases h with h | h
    · refine absurd ?_ hk
      rw [OrderedMap.has_iff, legsByDirection, OrderedMap.mem_keys_groupBy]
      exact List.mem_map.mp h
    · obtain ⟨f, hf, rfl⟩ := List.mem_map.mp h
      refine ⟨_, Or.inl (Or.inr (List.mem_map_of_mem (List.mem_filter.mpr ⟨?_, ?_⟩))), rfl⟩
      · exact (List.perm_insertionSort _ _).mem_iff.mpr hf
      · simpa using hk

end ChainRenderInput

/-! ## The rules -/

/-- One rule against the outbounds and the rule-sets of its config. -/
structure RuleOk (outs sets : List String) (r : SbRule) : Prop where
  outbound : ∀ o, r.outbound? = some o → o ∈ outs
  conds : r.action ≠ .sniff → r.action ≠ .resolve → r.conds ≠ [] ∧ ∀ c ∈ r.conds, c ≠ {}
  ruleSets : ∀ t ∈ r.ruleSets, t ∈ sets

variable {outs sets : List String}

theorem RuleOk.default {c : SbConds} {a : SbAction} (ho : ∀ o, a = .route o → o ∈ outs)
    (hc : a ≠ .sniff → a ≠ .resolve → c ≠ {}) (hs : ∀ t ∈ c.rule_set, t ∈ sets) :
    RuleOk outs sets (.default c a) where
  outbound := fun o h => ho o (by cases a <;> simp_all [SbRule.outbound?, SbRule.action])
  conds := fun h1 h2 => by simpa [SbRule.conds] using hc h1 h2
  ruleSets := fun t ht => hs t (by simpa [SbRule.ruleSets, SbRule.conds] using ht)

theorem mem_protectionRules {on : Option (List String)}
    (h : r ∈ protectionRules on) : RuleOk outs sets r ∧ r.outbound? = none := by
  simp only [protectionRules, List.mem_cons, List.not_mem_nil, or_false] at h
  rcases h with rfl | rfl | rfl | rfl
  all_goals
    refine ⟨RuleOk.default (fun o ho => by cases ho) (fun h1 h2 => ?_)
      (fun t ht => by cases ht), rfl⟩
  · exact absurd rfl h1
  all_goals simp

theorem mem_gatedRules {p : ChainPolicy} {gate : SbConds} (hgate : gate ≠ {})
    (hsets : gate.rule_set = []) (hdirect : "direct" ∈ outs) (hp : ∀ t ∈ p.ruleSets, t ∈ sets)
    (h : r ∈ gatedRules p gate) : RuleOk outs sets r := by
  have hspread : ∀ c : SbConds, gate.spread c ≠ {} :=
    fun c he => hgate (SbConds.spread_eq_empty.mp he).1
  have hnamed : ∀ c : SbConds, (∀ t ∈ c.rule_set, t ∈ p.ruleSets) →
      ∀ t ∈ (gate.spread c).rule_set, t ∈ sets := by
    intro c hc t ht
    rcases SbConds.mem_spread_rule_set ht with ht | ht
    · rw [hsets] at ht
      cases ht
    · exact hp t (hc t ht)
  have hip : ∀ (o : Option ChainIpMatch) (m : ChainIpMatch), m ∈ o.toList →
      ∀ t ∈ m.conds.rule_set, t ∈ (o.map (·.rule_set)).getD [] := by
    intro o m hm t ht
    rw [Option.mem_toList.mp hm]
    exact ht
  have hreject : ∀ c : SbConds, (∀ t ∈ c.rule_set, t ∈ p.ruleSets) →
      RuleOk outs sets (.default (gate.spread c) .reject) := fun c hc =>
    RuleOk.default (fun o ho => by cases ho) (fun _ _ => hspread c) (hnamed c hc)
  have hroute : ∀ c : SbConds, (∀ t ∈ c.rule_set, t ∈ p.ruleSets) →
      RuleOk outs sets (.default (gate.spread c) (.route "direct")) := fun c hc =>
    RuleOk.default (fun o ho => by cases ho; exact hdirect) (fun _ _ => hspread c) (hnamed c hc)
  simp only [gatedRules, List.mem_append] at h
  unfold ChainPolicy.ruleSets at hreject hroute
  rcases h with (((h | h) | h) | h) | h
  · split at h
    · cases h
    · rw [List.mem_singleton.mp h]
      exact hreject _ fun t ht => by simp_all [ChainMatch.conds]
  · split at h
    · rw [List.mem_singleton.mp h]
      exact RuleOk.default (fun o ho => by cases ho) (fun _ hne => absurd rfl hne)
        (fun t ht => by rw [hsets] at ht; cases ht)
    · cases h
  · obtain ⟨m, hm, rfl⟩ := List.mem_map.mp h
    exact hreject _ fun t ht => by
      have := hip _ _ hm t ht
      simp_all
  · split at h
    · cases h
    · rw [List.mem_singleton.mp h]
      exact hroute _ fun t ht => by simp_all [ChainMatch.conds]
  · obtain ⟨m, hm, rfl⟩ := List.mem_map.mp h
    exact hroute _ fun t ht => by
      have := hip _ _ hm t ht
      simp_all

theorem mem_policyRules {policies : List ChainPolicy} {tproxy : Option Nat}
    (hdirect : "direct" ∈ outs) (hp : ∀ p ∈ policies, ∀ t ∈ p.ruleSets, t ∈ sets)
    (h : r ∈ policyRules policies tproxy) : RuleOk outs sets r := by
  obtain ⟨p, hmem, h⟩ := List.mem_flatMap.mp h
  obtain ⟨gate, hgate, h⟩ := List.mem_flatMap.mp h
  have hg : gate ≠ {} ∧ gate.rule_set = [] := by
    rcases List.mem_cons.mp hgate with rfl | hgate
    · simp
    · split at hgate
      · rw [List.mem_singleton.mp hgate]
        simp
      · cases hgate
  exact mem_gatedRules hg.1 hg.2 hdirect (hp p hmem) h

namespace ChainRenderInput

variable {input : ChainRenderInput}

theorem mem_roleRules (h : r ∈ input.roleRules) : RuleOk (input.outbounds.map (·.tag)) sets r := by
  unfold roleRules at h
  split at h
  · -- an entry: the listener of each direction that has a way out
    unfold entryRules at h
    rcases List.mem_append.mp h with h | h
    · obtain ⟨k, hk, rfl⟩ := List.mem_map.mp h
      exact RuleOk.default (fun o ho => by cases ho; exact hasWayOut_iff.mp (List.mem_filter.mp hk).2)
        (fun _ _ => by simp) (fun t ht => by cases ht)
    · split at h
      · rename_i hauto
        rw [List.mem_singleton.mp h]
        exact RuleOk.default (fun o ho => by cases ho; exact hasWayOut_iff.mp hauto.2)
          (fun _ _ => by simp) (fun t ht => by cases ht)
      · cases h
  · -- a transit: the link user of each direction it has a way out for
    rename_i leg hrole hleg
    unfold transitRules at h
    split at h
    · rw [List.mem_singleton.mp h]
      exact RuleOk.default (fun o ho => by cases ho) (fun _ _ => by simp) (fun t ht => by cases ht)
    · split at h
      · obtain ⟨c, hc, rfl⟩ := List.mem_map.mp h
        refine RuleOk.default (fun o ho => ?_) (fun _ _ => by simp) (fun t ht => by cases ht)
        cases ho
        rw [outTag_mem_outbounds]
        have hhas := (List.mem_filter.mp hc).2
        simp only [Bool.or_eq_true, decide_eq_true_eq] at hhas
        exact exists_way hhas
      · cases h
  · cases h

theorem mem_rules (h : input.Renderable) (hr : r ∈ input.rules) :
    RuleOk (input.outbounds.map (·.tag) ++ (renderChainConfig input).endpoints.map (·.tag))
      (input.declaredRuleSets.map (·.tag)) r := by
  have hdirect : "direct" ∈ input.outbounds.map (·.tag)
      ++ (renderChainConfig input).endpoints.map (·.tag) := List.mem_append_left _ direct_mem
  unfold rules at hr
  simp only [List.mem_append] at hr
  rcases hr with ((hr | hr) | hr) | hr
  · exact (mem_protectionRules hr).1
  · refine mem_policyRules hdirect (fun p hp t ht => ?_) hr
    rw [declaredRuleSets, if_pos (Or.inl (List.ne_nil_of_mem hp))]
    exact h.policySets p hp t ht
  · cases hp : input.policyOfExit with
    | none => simp [hp] at hr
    | some e =>
      simp only [hp, Option.map_some, Option.getD_some] at hr
      have hok := h.exitRules e hp r hr
      refine ⟨fun o ho => ?_, fun _ hres => hok.conds hres, fun t ht => ?_⟩
      · rcases hok.outbound o ho with rfl | ⟨rfl, hwarp⟩
        · exact hdirect
        · rw [List.mem_append, map_tag_endpoints, hp, Option.bind_some]
          obtain ⟨w, hw⟩ := Option.isSome_iff_exists.mp hwarp
          exact Or.inr (by simp [hw])
      · rw [declaredRuleSets, if_pos (Or.inr (by simpa [hp] using List.ne_nil_of_mem hr))]
        exact hok.ruleSets t ht
  · have hok : RuleOk (input.outbounds.map (·.tag)) (input.declaredRuleSets.map (·.tag)) r :=
      mem_roleRules hr
    exact ⟨fun o ho => List.mem_append_left _ (hok.outbound o ho), hok.conds, hok.ruleSets⟩

/-! ## The listeners -/

theorem nodup_listenersAt (leg : ChainLegIn) {addrs : List String} (h : addrs.Nodup) :
    ((listenersAt leg addrs).map (·.tag)).Nodup
      ∧ ((listenersAt leg addrs).map fun i => (i.listen, i.listen_port)).Nodup := by
  simp only [listenersAt, List.map_map, Function.comp_def]
  constructor
  · have hidx : (List.range' 0 addrs.length).Nodup := List.nodup_range'
    have := hidx.map fun i j => linkInTag_inj (i := i) (j := j)
    rwa [← List.zipIdx_map_snd 0 addrs, List.map_map] at this
  · have := h.map (f := fun a => (a, leg.cred.port)) fun a b hab => by simpa using hab
    rwa [← List.zipIdx_map_fst 0 addrs, List.map_map] at this

theorem nodup_inbounds (h : input.Renderable) :
    (input.inbounds.map (·.tag)).Nodup
      ∧ (input.inbounds.map fun i => (i.listen, i.listen_port)).Nodup := by
  unfold inbounds
  split
  · unfold entryInbounds
    simp only [List.map_append, List.map_map, Function.comp_def]
    constructor
    · refine List.Nodup.append (h.directionTags.map fun a b => socksTag_inj) ?_ ?_
      · split <;> simp
      · intro s hs hs'
        obtain ⟨k, -, rfl⟩ := List.mem_map.mp hs
        split at hs'
        · exact socksTag_ne_tproxy k (List.mem_singleton.mp hs')
        · cases hs'
    · refine List.Nodup.append (h.directionTags.map fun a b hab => ?_) ?_ ?_
      · simpa [chainSocksPort] using hab
      · split <;> simp
      · intro s hs hs'
        obtain ⟨k, -, rfl⟩ := List.mem_map.mp hs
        split at hs'
        · simp [chainSocksPort, CHAIN_SOCKS_BASE, CHAIN_TPROXY_PORT] at hs'
          omega
        · cases hs'
  · cases hleg : input.legIn with
    | none => simp
    | some leg =>
      simp only [Option.map_some, Option.getD_some, linkInbounds]
      split
      · rename_i a as hl
        exact nodup_listenersAt leg (h.listen leg hleg _ hl)
      · exact nodup_listenersAt leg (List.nodup_singleton _)

/-- **What the renderer is given decides that the engine loads what it renders.** -/
theorem Renderable.renderChainConfig_loadable (h : input.Renderable) :
    Loadable (renderChainConfig input) where
  inboundTags := (nodup_inbounds h).1
  outboundTags := nodup_outboundTags h
  sockets := (nodup_inbounds h).2
  routes := fun r hr o ho => (mem_rules h hr).outbound o ho
  final := fun o ho => by
    obtain ⟨e, -, rfl⟩ := Option.map_eq_some_iff.mp ho
    exact direct_mem
  members := fun o ho m hm => mem_members ho hm
  ruleSets := fun r hr s hs => by
    have hmem := (mem_rules h hr).ruleSets s hs
    refine List.count_eq_one_of_mem ?_ hmem
    show (input.declaredRuleSets.map (·.tag)).Nodup
    unfold declaredRuleSets
    split
    · exact h.ruleSets
    · exact List.nodup_nil
  conds := fun r hr => (mem_rules h hr).conds
  protections := by
    refine ⟨protectionRules (input.entryTproxy.map fun _ => input.directionTags.map socksTag),
      policyRules input.entryPolicies input.entryTproxy
        ++ ((input.policyOfExit.map (·.rules)).getD [] ++ input.roleRules), ?_, ?_, ?_, ?_⟩
    · show input.rules = _
      simp only [rules, List.append_assoc]
    · simp [protectionRules, port25Reject]
    · simp [protectionRules, bittorrentReject]
    · intro r hr
      have hok : RuleOk [] [] r ∧ r.outbound? = none := mem_protectionRules hr
      exact hok.2

end ChainRenderInput

/-! ## Every input of a saved cascade -/

namespace DrawnCascade

variable (K : DrawnCascade)

theorem foreignOf_tags (n : String) :
    ((K.read.foreignOf n).map (·.tag)).Sublist (K.read.directions.map (·.tag)) := by
  unfold TopologyInput.foreignOf
  split
  · simp
  · split
    · rw [List.map_filterMap]
      induction K.read.directions with
      | nil => simp
      | cons d ds ih =>
        cases hd : d.outbound with
        | none => simpa [List.filterMap_cons, hd] using ih.cons d.tag
        | some o => simpa [List.filterMap_cons, hd] using ih
    · simp

theorem foreignOf_range {n : String} {f : ChainForeignOut} (hf : f ∈ K.read.foreignOf n) :
    1 ≤ f.tag ∧ f.tag ≤ MAX_DIRECTION_TAG := by
  obtain ⟨d, hd, htag⟩ := List.mem_map.mp ((K.foreignOf_tags n).subset (List.mem_map_of_mem hf))
  rw [← htag]
  exact K.read_tag_range hd

theorem mem_wayTags (n : String) (k : Nat) : k ∈ K.read.wayTags n
    ↔ (∃ r ∈ K.read.linksFrom n, r.directionTag = k) ∨ ∃ f ∈ K.read.foreignOf n, f.tag = k := by
  rw [TopologyInput.wayTags, (List.perm_insertionSort _ _).mem_iff, List.mem_eraseDups,
    List.mem_append, List.mem_map, List.mem_map]

theorem nodup_wayTags (n : String) : (K.read.wayTags n).Nodup :=
  (List.perm_insertionSort _ _).nodup_iff.mpr (List.nodup_eraseDups _)

theorem wayTags_range {n : String} (h : k ∈ K.read.wayTags n) : 1 ≤ k ∧ k ≤ MAX_DIRECTION_TAG := by
  rcases (K.mem_wayTags n k).mp h with ⟨r, hr, rfl⟩ | ⟨f, hf, rfl⟩
  · exact K.row_tag_range (List.mem_filter.mp hr).1
  · exact K.foreignOf_range hf

theorem nodup_directionTags (n : String) : (K.read.directionTags n).Nodup := by
  unfold TopologyInput.directionTags
  split
  · refine List.nodup_cons.mpr ⟨fun h0 => ?_, K.nodup_wayTags n⟩
    have := (K.wayTags_range h0).1
    omega
  · exact K.nodup_wayTags n

end DrawnCascade

theorem TopologyInput.nodup_listen {t : TopologyInput} {nodeId : String} {leg : ChainLegIn}
    (h : t.legIn nodeId = some leg) : ∀ l ∈ leg.listen, l.Nodup := by
  intro l hl
  unfold TopologyInput.legIn at h
  split at h
  · cases h
  · cases h
    simp only [TopologyInput.linkInListen] at hl
    split at hl
    · cases hl
    · cases hl
      exact List.nodup_eraseDups _

theorem map_decl_tag (refs : List ChainRuleSetRef) :
    (refs.map fun r => (⟨r.tag, r.path⟩ : RuleSetDecl)).map (·.tag) = refs.map (·.tag) := by
  simp

/-- An exit's policy is whole: rules into WARP come with the account. -/
theorem exitPolicyFor_eq_ok {lib : TextLib} {node : NodeSettings} {p : Option ExitPolicy}
    {sets : List RuleSetDecl} (h : exitPolicyFor lib node = .ok (p, sets)) :
    (sets.map (·.tag)).Nodup ∧ ∀ e ∈ p, ∀ r ∈ e.rules,
      NodeRuleOk e.warp.isSome (sets.map (·.tag)) r := by
  have hrules : ∀ r ∈ (chainNodePolicyOf lib (node.policy.getD [])).rules,
      NodeRuleOk (chainNodePolicyOf lib (node.policy.getD [])).usesWarp
        ((chainNodePolicyOf lib (node.policy.getD [])).ruleSets.map (·.tag)) r :=
    fun r hr => chainNodePolicyOf_rules lib hr
  have hnodup : ((chainNodePolicyOf lib (node.policy.getD [])).ruleSets.map (·.tag)).Nodup :=
    nodup_sortedSets lib _
  simp only [exitPolicyFor] at h
  split at h
  · cases h
    exact ⟨List.nodup_nil, fun e he => by cases he⟩
  · split at h
    · rename_i huses
      split at h
      · rename_i warp hwarp
        cases h
        rw [map_decl_tag]
        refine ⟨hnodup, fun e he r hr => ?_⟩
        cases he
        have hok := hrules r hr
        rwa [huses] at hok
      · cases h
    · rename_i huses
      cases h
      rw [map_decl_tag]
      refine ⟨hnodup, fun e he r hr => ?_⟩
      cases he
      have hok := hrules r hr
      rwa [(Bool.not_eq_true _).mp huses] at hok

/-- **Every input of a saved cascade can be rendered.** -/
theorem chainInputOf_renderable (K : DrawnCascade) {lib : TextLib} {node : NodeSettings}
    {nodeId socksPassword : String} {input : ChainRenderInput}
    (h : chainInputOf lib K.read node nodeId socksPassword = .ok (some input)) :
    input.Renderable := by
  have hforeign : ((K.read.foreignOf nodeId).map (·.tag)).Nodup :=
    K.nodup_read_tags.sublist (K.foreignOf_tags nodeId)
  have hpos : ∀ f ∈ K.read.foreignOf nodeId, f.tag ≠ AUTO_TAG := fun f hf h0 => by
    have := (K.foreignOf_range hf).1
    rw [h0] at this
    cases this
  unfold chainInputOf at h
  split at h
  · cases h
  · rename_i role hrole
    split at h
    · cases h
    · rename_i base hbase
      simp only [TopologyInput.chainInputFor] at hbase
      split at hbase
      · cases hbase
      · split at hbase
        · -- an entry
          cases hbase
          cases h
          refine ⟨hforeign, hpos, K.nodup_directionTags nodeId, fun leg hleg => (by cases hleg), ?_,
            fun p hp t ht => ?_, fun e he => (by cases he)⟩
          · rw [map_decl_tag]
            exact nodup_sortedSets lib _
          · rw [map_decl_tag]
            exact chainPoliciesOf_ruleSets lib hp ht
        · cases hbase
        · -- an exit
          rename_i leg hleg
          cases hbase
          rw [if_pos rfl] at h
          cases hp : exitPolicyFor lib node with
          | error e =>
            rw [hp] at h
            cases h
          | ok p =>
            rw [hp] at h
            cases h
            obtain ⟨hsets, hrules⟩ := exitPolicyFor_eq_ok hp
            refine ⟨List.nodup_nil, fun f hf => (by cases hf), List.nodup_nil, ?_, hsets,
              fun p hp => (by cases hp), hrules⟩
            intro leg' hleg'
            cases hleg'
            exact TopologyInput.nodup_listen hleg
        · -- a transit
          rename_i leg hleg
          cases hbase
          cases h
          refine ⟨hforeign, hpos, List.nodup_nil, ?_, List.nodup_nil, fun p hp => (by cases hp),
            fun e he => (by cases he)⟩
          intro leg' hleg'
          cases hleg'
          exact TopologyInput.nodup_listen hleg

/-- **Every chain config of a saved cascade loads**, whatever the node, the policies stored beside
the cascade and the tunnels under its legs. -/
theorem chain_config_loadable (K : DrawnCascade) (lib : TextLib) (node : NodeSettings)
    (nodeId socksPassword : String) (input : ChainRenderInput)
    (h : chainInputOf lib K.read node nodeId socksPassword = .ok (some input)) :
    Loadable (renderChainConfig input) :=
  (chainInputOf_renderable K h).renderChainConfig_loadable

/-- The entry and the exit of `vlessCascade` load. -/
theorem chain_config_loadable_vlessCascade :
    (∃ input, chainInputOf asciiText vlessCascade.read {} nodeA "secret" = .ok (some input)
      ∧ input.role = .entry ∧ Loadable (renderChainConfig input))
    ∧ ∃ input, chainInputOf asciiText vlessCascade.read {} nodeB "secret" = .ok (some input)
      ∧ input.role = .exit ∧ Loadable (renderChainConfig input) :=
  ⟨⟨_, rfl, rfl, chain_config_loadable vlessCascade asciiText {} nodeA "secret" _ rfl⟩,
    ⟨_, rfl, rfl, chain_config_loadable vlessCascade asciiText {} nodeB "secret" _ rfl⟩⟩

end Iceslab
