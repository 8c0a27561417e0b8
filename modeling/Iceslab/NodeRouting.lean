import Iceslab.NodeInputs
import Iceslab.SingboxRouting

/-!
# How a chain config routes

A connection no protection and no policy takes is routed by what its node tells directions apart
by: the socks listener on an entry, the link user on a transit, nothing at all on an exit.

* `Quiet` — no protection and no policy rule decides the connection.
* `entry_verdict`, `transit_verdict`, `exit_verdict` — where it goes then.
* `transit_refuses` — a transit that cannot tell its directions apart forwards nothing.
* `leadsTo_way` — behind the tags of a direction stand its legs and its named outbound.
* `default_of_single` — what no rule decides stays in the one direction there is.
-/

set_option autoImplicit false

namespace Iceslab

open RuleRun

theorem chainLinkUser_inj {a b : Nat} (h : chainLinkUser a = chainLinkUser b) : a = b :=
  Names.append_num_inj h

/-! ## Rules of one condition -/

section Apply

variable {Addr : Type} (E : SbEngine Addr) (x : SbConn Addr)

theorem apply_inbound (t o : String) :
    (SbRule.default { inbound := [t] } (.route o)).apply E x
      = if t = x.inbound then .done (.outbound o) else .next x := by
  simp [SbRule.apply, SbRule.admits, SbRule.conds, SbConds.admits, SbConds.admitsRest,
    SbConds.hasDestination, SbRule.action, SbAction.apply]

theorem apply_auth_user (u o : String) :
    (SbRule.default { auth_user := [u] } (.route o)).apply E x
      = if some u = x.user then .done (.outbound o) else .next x := by
  simp [SbRule.apply, SbRule.admits, SbRule.conds, SbConds.admits, SbConds.admitsRest,
    SbConds.hasDestination, SbRule.action, SbAction.apply]

theorem apply_networks :
    (SbRule.default { network := ["tcp", "udp"] } .reject).apply E x = .done .reject := by
  cases hn : x.network <;>
    simp [SbRule.apply, SbRule.admits, SbRule.conds, SbConds.admits, SbConds.admitsRest,
      SbConds.hasDestination, SbRule.action, SbAction.apply, anyOf, Network.name, hn]

end Apply

variable {s : String}

/-- A rule that names no outbound sends nothing to one. -/
theorem SbRule.apply_ne_outbound {Addr : Type} (E : SbEngine Addr) {r : SbRule} {x : SbConn Addr}
    (h : r.outbound? = none) : r.apply E x ≠ .done (.outbound s) := by
  intro hd
  unfold SbRule.apply at hd
  split at hd
  · unfold SbRule.outbound? at h
    unfold SbAction.apply at hd
    split at hd <;> cases hd
    simp_all
  · cases hd

namespace ChainRenderInput

variable {Addr : Type} (E : SbEngine Addr) (input : ChainRenderInput)

/-- The rules before the ways out: protections and policies. -/
def guardRules : List SbRule :=
  protectionRules (input.entryTproxy.map fun _ => input.directionTags.map socksTag)
    ++ policyRules input.entryPolicies input.entryTproxy
    ++ (input.policyOfExit.map (·.rules)).getD []

theorem rules_eq : input.rules = input.guardRules ++ input.roleRules := rfl

/-- No protection and no policy rule decides the connection. -/
def Quiet (x : SbConn Addr) : Prop := ∃ y, run (SbRule.apply E) input.guardRules x = .next y

variable {E input} {leg : ChainLegIn} {o : Outbound} {t : Nat}

/-- A quiet connection is decided by the rules of the node's role, as it arrived. -/
theorem Quiet.verdict {x : SbConn Addr} (h : input.Quiet E x) : ∃ y, x.SameArrival y
    ∧ (renderChainConfig input).verdict E x = match run (SbRule.apply E) input.roleRules y with
      | .done v => v
      | .next _ => .outbound (renderChainConfig input).default := by
  obtain ⟨y, hy⟩ := h
  refine ⟨y, run_sameArrival E hy, ?_⟩
  show (match run (SbRule.apply E) input.rules x with
    | .done v => v
    | .next _ => SbVerdict.outbound (renderChainConfig input).default) = _
  rw [rules_eq, run_append_next hy]

/-! ## Where each role sends a connection -/

theorem entry_verdict (hrole : input.role = .entry) (ht : t ∈ input.directionTags)
    (hway : outTag t ∈ input.outbounds.map (·.tag)) {x : SbConn Addr} (hx : x.inbound = socksTag t)
    (hq : input.Quiet E x) : (renderChainConfig input).verdict E x = .outbound (outTag t) := by
  obtain ⟨y, harr, hv⟩ := hq.verdict
  have hin : y.inbound = socksTag t := harr.inbound.trans hx
  have hrules : input.roleRules = input.entryRules := by
    unfold roleRules
    rw [hrole]
  have hdone : run (SbRule.apply E) input.roleRules y = .done (.outbound (outTag t)) := by
    rw [hrules]
    unfold entryRules
    refine run_append_done (run_agree ?_ ?_)
    · intro r hr
      obtain ⟨k, hk, rfl⟩ := List.mem_map.mp hr
      rw [apply_inbound]
      split
      · rename_i heq
        rw [hin] at heq
        rw [socksTag_inj heq]
        exact Or.inr rfl
      · exact Or.inl rfl
    · refine ⟨_, List.mem_map_of_mem (List.mem_filter.mpr ⟨ht, hasWayOut_iff.mpr hway⟩), ?_⟩
      rw [apply_inbound, if_pos hin.symm]
  rw [hv, hdone]

/-- The clients of a vless transit tell the directions apart. -/
theorem transit_verdict (hrole : input.role = .transit)
    (hleg : input.legIn = some leg) (hv : leg.cred.protocol = .vless)
    (hclient : ∃ c ∈ leg.clients, c.tag = t)
    (hway : t ∈ input.out.map (·.tag) ∨ t ∈ input.foreign.map (·.tag)) {x : SbConn Addr}
    (hx : x.user = some (chainLinkUser t)) (hq : input.Quiet E x) :
    (renderChainConfig input).verdict E x = .outbound (outTag t) := by
  obtain ⟨y, harr, hver⟩ := hq.verdict
  have huser : y.user = some (chainLinkUser t) := harr.user.trans hx
  have hrules : input.roleRules = input.transitRules leg := by
    unfold roleRules
    rw [hrole, hleg]
  have hdone : run (SbRule.apply E) input.roleRules y = .done (.outbound (outTag t)) := by
    rw [hrules]
    unfold transitRules
    rw [if_neg (fun h => h.1 hv), if_pos hv]
    refine run_agree ?_ ?_
    · intro r hr
      obtain ⟨c, hc, rfl⟩ := List.mem_map.mp hr
      rw [apply_auth_user]
      split
      · rename_i heq
        rw [huser, Option.some.injEq] at heq
        rw [chainLinkUser_inj heq]
        exact Or.inr rfl
      · exact Or.inl rfl
    · obtain ⟨c, hc, rfl⟩ := hclient
      refine ⟨_, List.mem_map_of_mem (List.mem_filter.mpr ⟨hc, ?_⟩), ?_⟩
      · simpa only [Bool.or_eq_true, decide_eq_true_eq] using hway
      · rw [apply_auth_user, if_pos huser.symm]
  rw [hver, hdone]

theorem transitGuards_outbound (hrole : input.role = .transit) :
    ∀ r ∈ input.guardRules, r.outbound? = none := by
  intro r hr
  simp only [guardRules, entryPolicies, entryTproxy, policyOfExit, isEntry, hrole] at hr
  have hmem : r ∈ protectionRules none := by simpa [policyRules] using hr
  have hok : RuleOk [] [] r ∧ r.outbound? = none := mem_protectionRules hmem
  exact hok.2

/-- On a transit a connection that is not quiet goes nowhere. -/
theorem transit_guarded (hrole : input.role = .transit) {x : SbConn Addr}
    (hq : ¬ input.Quiet E x) (s : String) :
    (renderChainConfig input).verdict E x ≠ .outbound s := by
  cases hrun : run (SbRule.apply E) input.guardRules x with
  | next y => exact absurd ⟨y, hrun⟩ hq
  | done v =>
    have hver : (renderChainConfig input).verdict E x = v := by
      show (match run (SbRule.apply E) input.rules x with
        | .done v => v
        | .next _ => SbVerdict.outbound (renderChainConfig input).default) = _
      rw [rules_eq, run_append_done hrun]
    rw [hver]
    rintro rfl
    obtain ⟨r, hr, y, -, hd⟩ := run_done (P := fun _ => True) (fun _ _ _ _ _ _ => trivial)
      trivial hrun
    exact SbRule.apply_ne_outbound E (transitGuards_outbound hrole r hr) hd

/-- **A transit that cannot tell its directions apart forwards nothing.** -/
theorem transit_refuses (hrole : input.role = .transit)
    (hleg : input.legIn = some leg) (hv : leg.cred.protocol ≠ .vless)
    (hways : (input.out.map (·.tag) ++ input.foreign.map (·.tag)).eraseDups.length > 1)
    (x : SbConn Addr) (s : String) : (renderChainConfig input).verdict E x ≠ .outbound s := by
  by_cases hq : input.Quiet E x
  · obtain ⟨y, -, hver⟩ := hq.verdict
    have hrules : input.roleRules = [.default { network := ["tcp", "udp"] } .reject] := by
      unfold roleRules
      rw [hrole, hleg]
      unfold transitRules
      exact if_pos ⟨hv, hways⟩
    rw [hver, hrules, run_cons_done (apply_networks E y)]
    simp
  · exact transit_guarded hrole hq s

/-- An exit lets everything leave. -/
theorem exit_verdict {secret : String} {x : SbConn Addr}
    (hq : (DrawnCascade.exitInput secret leg).Quiet E x) :
    (renderChainConfig (DrawnCascade.exitInput secret leg)).verdict E x = .outbound "direct" := by
  obtain ⟨y, -, hv⟩ := hq.verdict
  rw [hv]
  rfl

theorem exit_leadsTo {secret : String}
    (h : LeadsTo (renderChainConfig (DrawnCascade.exitInput secret leg)) s o) :
    o = directOutbound := by
  cases h with
  | leaf ho hk => exact List.mem_singleton.mp ho
  | member hg hm _ =>
    rw [List.mem_singleton.mp hg] at hm
    cases hm

/-! ## What stands behind a direction's tags -/

/-- An outbound of a config: a leg, a group over one direction's legs, a named outbound, the Auto
line, or the way out of the node itself. -/
inductive Drawn (input : ChainRenderInput) : Outbound → Prop
  | leg {leg : ChainLegOut} {tag : String} (h : leg ∈ input.out) (htag : WayTag leg.tag tag) :
      Drawn input (renderLeg input.selfHost tag leg)
  | group {k : Nat} {legs : List ChainLegOut} (h : (k, legs) ∈ input.sortedDirections)
      (hlegs : ∀ l ∈ legs.zipIdx,
        renderLeg input.selfHost (poolLegTag k l.2) l.1 ∈ input.outbounds) :
      Drawn input (urltestOutbound (outTag k) (legs.zipIdx.map fun l => poolLegTag k l.2))
  | foreign {f : ChainForeignOut} (h : f ∈ input.foreign) : Drawn input (foreignOutbound f)
  | auto (ways : List String) : Drawn input (urltestOutbound (outTag AUTO_TAG) ways)
  | direct : Drawn input directOutbound

theorem mem_sortedDirections {k : Nat} {legs : List ChainLegOut} :
    (k, legs) ∈ input.sortedDirections ↔ (∃ l ∈ input.out, l.tag = k)
      ∧ legs = input.out.filter (fun l => decide (l.tag = k)) := by
  rw [sortedDirections, (List.perm_insertionSort _ _).mem_iff]
  exact OrderedMap.mem_entries_groupBy _ _ _ _

theorem directionOutbounds_subset {e : Nat × List ChainLegOut} (he : e ∈ input.sortedDirections)
    (ho : o ∈ input.directionOutbounds e) : o ∈ input.outbounds := by
  unfold outbounds
  simp only [List.mem_append, List.mem_flatMap]
  exact Or.inl (Or.inl (Or.inl ⟨e, he, ho⟩))

theorem directionOutbounds_of_many {k : Nat} {legs : List ChainLegOut}
    (h : ¬ ∃ leg, legs = [leg]) : input.directionOutbounds (k, legs)
      = (legs.zipIdx.map fun l => renderLeg input.selfHost (poolLegTag k l.2) l.1)
        ++ [urltestOutbound (outTag k) (legs.zipIdx.map fun l => poolLegTag k l.2)] := by
  unfold directionOutbounds
  split
  · rename_i leg hone
    exact absurd ⟨leg, hone⟩ h
  · rfl

theorem drawn_of_mem (h : o ∈ input.outbounds) : Drawn input o := by
  unfold outbounds at h
  simp only [List.mem_append, List.mem_flatMap, List.mem_map, List.mem_singleton] at h
  rcases h with ((⟨⟨k, legs⟩, he, ho⟩ | ⟨f, hf, rfl⟩) | ho) | rfl
  · obtain ⟨-, hlegs⟩ := mem_sortedDirections.mp he
    have hleg : ∀ l ∈ legs, l ∈ input.out ∧ l.tag = k := by
      intro l hl
      rw [hlegs] at hl
      exact ⟨(List.mem_filter.mp hl).1, of_decide_eq_true (List.mem_filter.mp hl).2⟩
    by_cases hone : ∃ leg, legs = [leg]
    · obtain ⟨leg, rfl⟩ := hone
      obtain ⟨hmem, htag⟩ := hleg leg (List.mem_singleton_self leg)
      rw [List.mem_singleton.mp ho]
      exact .leg hmem (Or.inl (by rw [htag]))
    · rw [directionOutbounds_of_many hone] at ho
      rcases List.mem_append.mp ho with ho | ho
      · obtain ⟨⟨leg, i⟩, hl, rfl⟩ := List.mem_map.mp ho
        obtain ⟨hmem, htag⟩ := hleg leg
          (List.mem_of_getElem? (List.mk_mem_zipIdx_iff_getElem?.mp hl))
        exact .leg hmem (Or.inr ⟨i, by rw [htag]⟩)
      · rw [List.mem_singleton.mp ho]
        refine .group he fun l hl => directionOutbounds_subset he ?_
        rw [directionOutbounds_of_many hone]
        exact List.mem_append_left _ (List.mem_map_of_mem hl)
  · exact .foreign (mem_drawnForeign hf).1
  · unfold autoOutbounds at ho
    split at ho
    · rw [List.mem_singleton.mp ho]
      exact .auto _
    · cases ho
  · exact .direct

theorem isGroup_renderLeg (self : Option String) (tag : String) (leg : ChainLegOut) :
    (renderLeg self tag leg).isGroup = false := by
  unfold renderLeg renderLegCell Outbound.isGroup
  cases leg.cred <;> rfl

theorem isGroup_foreignOutbound (f : ChainForeignOut) : (foreignOutbound f).isGroup = false := by
  unfold foreignOutbound Outbound.isGroup
  cases f.type <;> rfl

/-- **Behind the tags of a direction stand its legs and its named outbound**, whatever a group
picks. -/
theorem leadsTo_way (ht : t ≠ AUTO_TAG) (hs : WayTag t s)
    (h : LeadsTo (renderChainConfig input) s o) :
    (∃ leg ∈ input.out, leg.tag = t ∧ ∃ tag, WayTag t tag
        ∧ o = renderLeg input.selfHost tag leg)
      ∨ ∃ f ∈ input.foreign, f.tag = t ∧ o = foreignOutbound f := by
  induction h with
  | leaf ho hk =>
    cases drawn_of_mem ho with
    | leg hmem htag =>
      obtain rfl := htag.unique hs
      exact Or.inl ⟨_, hmem, rfl, _, htag, rfl⟩
    | group he hlegs => cases hk
    | foreign hf =>
      rw [foreignOutbound_tag] at hs
      exact Or.inr ⟨_, hf, WayTag.unique (Or.inl rfl) hs, rfl⟩
    | auto ways => cases hk
    | direct => exact absurd rfl hs.ne_direct
  | member hg hm _ ih =>
    cases drawn_of_mem hg with
    | leg hmem htag =>
      rw [renderLeg_members] at hm
      cases hm
    | group he hlegs =>
      obtain ⟨l, -, rfl⟩ := List.mem_map.mp hm
      have hk := WayTag.unique (Or.inl rfl) hs
      exact ih (Or.inr ⟨l.2, by rw [hk]⟩)
    | foreign hf =>
      rw [foreignOutbound_members] at hm
      cases hm
    | auto ways => exact absurd (WayTag.unique hs (Or.inl rfl)) ht
    | direct => cases hm

theorem exists_leadsTo (ht : t ≠ AUTO_TAG) (hs : WayTag t s)
    (h : s ∈ input.outbounds.map (·.tag)) : ∃ o, LeadsTo (renderChainConfig input) s o := by
  obtain ⟨o, ho, rfl⟩ := List.mem_map.mp h
  by_cases hk : o.isGroup = false
  · exact ⟨o, .leaf ho hk⟩
  · cases drawn_of_mem ho with
    | leg hmem htag => exact absurd (isGroup_renderLeg _ _ _) hk
    | foreign hf => exact absurd (isGroup_foreignOutbound _) hk
    | auto ways => exact absurd (WayTag.unique hs (Or.inl rfl)) ht
    | direct => exact absurd rfl hk
    | group he hlegs =>
      rename_i k legs
      obtain ⟨⟨l, hl, htag⟩, hall⟩ := mem_sortedDirections.mp he
      have hmem : l ∈ legs := by
        rw [hall]
        exact List.mem_filter.mpr ⟨hl, decide_eq_true htag⟩
      obtain ⟨i, hi⟩ := List.mem_iff_getElem?.mp hmem
      have hzip : (l, i) ∈ legs.zipIdx := List.mk_mem_zipIdx_iff_getElem?.mpr hi
      exact ⟨_, .member ho (List.mem_map_of_mem hzip)
        (.leaf (hlegs _ hzip) (isGroup_renderLeg _ _ _))⟩

/-- Where all ways out are one direction's, the first outbound is a way of it. -/
theorem default_of_single (hrole : input.role = .transit)
    (hout : ∀ leg ∈ input.out, leg.tag = t) (hforeign : ∀ f ∈ input.foreign, f.tag = t)
    (hway : t ∈ input.out.map (·.tag) ∨ t ∈ input.foreign.map (·.tag)) :
    WayTag t (renderChainConfig input).default
      ∧ (renderChainConfig input).default ∈ input.outbounds.map (·.tag) := by
  have hall : ∀ w ∈ input.ways, w.1 = t := by
    intro w hw
    unfold ways at hw
    simp only [List.mem_append, List.mem_map] at hw
    rcases hw with (⟨⟨k, legs⟩, he, rfl⟩ | ⟨f, hf, rfl⟩) | hw
    · obtain ⟨⟨l, hl, htag⟩, -⟩ := mem_sortedDirections.mp he
      exact htag.symm.trans (hout l hl)
    · exact hforeign f (mem_drawnForeign hf).1
    · simp [wantsAuto, isEntry, hrole] at hw
  obtain ⟨w, hw, -⟩ := exists_way hway
  have hdef : (renderChainConfig input).default
      = (((input.ways.flatMap wayOutTags ++ ["direct"]).head?)).getD "" := by
    rw [← map_tag_outbounds, List.head?_map]
    simp only [ChainConfig.default, renderChainConfig, policyOfExit, hrole]
    rfl
  have hmem : (renderChainConfig input).default ∈ input.ways.flatMap wayOutTags := by
    have hne : input.ways.flatMap wayOutTags ≠ [] :=
      List.ne_nil_of_mem (List.mem_flatMap.mpr ⟨w, hw, outTag_mem_wayOutTags w⟩)
    rw [hdef, List.head?_append_of_ne_nil _ hne, List.head?_eq_some_head hne, Option.getD_some]
    exact List.head_mem hne
  obtain ⟨w', hw', hs⟩ := List.mem_flatMap.mp hmem
  refine ⟨?_, ?_⟩
  · rw [← hall w' hw']
    exact mem_wayOutTags hs
  · rw [map_tag_outbounds]
    exact List.mem_append_left _ hmem

end ChainRenderInput

end Iceslab
