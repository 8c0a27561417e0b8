import Iceslab.Agent.PushFirewall

/-!
# What each writer of the firewall does

* `SourceOf`, `LinkRule`, `ServesAt`, `TunnelRule`, `CarriedRule` — the rules somebody asks for.
* `mem_resolveSources`, `mem_wantOf`, `mem_ensureChainFirewall`, `mem_openInbounds`,
  `mem_openStored`, `mem_closeDroppedPorts` — one rule before and after each writer.
-/

set_option autoImplicit false

namespace Iceslab.Agent

/-! ## Sources -/

/-- What one source stands for: itself, or what its host resolves to. -/
def addressesOf (net : AddressParse) (lookup : Lookup) (n : Nat) (raw : String) : List String :=
  let s := bareSource raw
  if s = "" then [] else if net.isLiteral s then [s] else ((lookup n s).getD []).filter net.isIP

/-- An address some source of the list resolved to. -/
def SourceOf (net : AddressParse) (lookup : Lookup) (sources : List String) (src : String) : Prop :=
  ∃ n raw, sources[n]? = some raw ∧ src ∈ addressesOf net lookup n raw

/-- The elements of a list, numbered from `k`. -/
theorem exists_numbered_cons {α : Type} {P : Nat → α → Prop} {k : Nat} {x : α} {rest : List α} :
    (∃ n y, (x :: rest)[n]? = some y ∧ P (k + n) y) ↔
      P k x ∨ ∃ n y, rest[n]? = some y ∧ P (k + 1 + n) y := by
  constructor
  · rintro ⟨n, y, hy, h⟩
    cases n with
    | zero =>
      cases hy
      exact .inl h
    | succ n => exact .inr ⟨n, y, hy, by rwa [Nat.add_right_comm]⟩
  · rintro (h | ⟨n, y, hy, h⟩)
    · exact ⟨0, x, rfl, h⟩
    · exact ⟨n + 1, y, hy, by rwa [Nat.add_right_comm] at h⟩

section Sources

variable {net : AddressParse} {lookup : Lookup} {sources : List String} {a : String}

theorem mem_addOnce {resolved : List String} {s a : String} :
    a ∈ addOnce resolved s ↔ a ∈ resolved ∨ a = s := by
  unfold addOnce
  split
  · rename_i hs
    constructor
    · exact .inl
    · rintro (h | rfl)
      · exact h
      · exact hs
  · simp

theorem mem_addAllOnce {resolved ips : List String} :
    a ∈ ips.foldl addOnce resolved ↔ a ∈ resolved ∨ a ∈ ips := by
  induction ips generalizing resolved with
  | nil => simp
  | cons ip rest ih => rw [List.foldl_cons, ih, mem_addOnce, List.mem_cons, or_assoc]

theorem resolveFrom_cons (k : Nat) (resolved unresolved : List String) (raw : String)
    (rest : List String) :
    ∃ unresolved', resolveFrom net lookup k resolved unresolved (raw :: rest) =
      resolveFrom net lookup (k + 1) ((addressesOf net lookup k raw).foldl addOnce resolved)
        unresolved' rest := by
  rw [resolveFrom]
  unfold addressesOf
  dsimp only
  by_cases hs : bareSource raw = ""
  · exact ⟨unresolved, by simp [hs]⟩
  · by_cases hl : net.isLiteral (bareSource raw) = true
    · exact ⟨unresolved, by simp [hs, hl]⟩
    · cases hask : lookup k (bareSource raw) with
      | none => exact ⟨unresolved ++ [bareSource raw], by simp [hs, hl]⟩
      | some ips => exact ⟨_, by rw [if_neg hs, if_neg hl, if_neg hs, if_neg hl]; rfl⟩

theorem mem_resolveFrom (k : Nat) (resolved unresolved : List String) :
    a ∈ (resolveFrom net lookup k resolved unresolved sources).1 ↔
      a ∈ resolved ∨ ∃ n raw, sources[n]? = some raw ∧ a ∈ addressesOf net lookup (k + n) raw := by
  induction sources generalizing k resolved unresolved with
  | nil => simp [resolveFrom]
  | cons raw rest ih =>
    obtain ⟨unresolved', h⟩ := @resolveFrom_cons net lookup k resolved unresolved raw rest
    rw [h, ih, mem_addAllOnce, or_assoc]
    exact or_congr Iff.rfl
      (exists_numbered_cons (P := fun n raw => a ∈ addressesOf net lookup n raw)).symm

theorem mem_resolveSources :
    a ∈ (resolveSources net lookup sources).1 ↔ SourceOf net lookup sources a := by
  unfold resolveSources SourceOf
  rw [mem_resolveFrom]
  simp

theorem resolveSources_eq_nil :
    (resolveSources net lookup sources).1 = [] ↔ ∀ src, ¬ SourceOf net lookup sources src := by
  rw [List.eq_nil_iff_forall_not_mem]
  simp only [mem_resolveSources]

/-- What a source resolves to is an address or a block of them. -/
theorem SourceOf.isLiteral {src : String} (h : SourceOf net lookup sources src) :
    net.isLiteral src = true ∧ src ≠ "" := by
  obtain ⟨n, raw, -, hsrc⟩ := h
  have hlit : net.isLiteral src = true := by
    unfold addressesOf at hsrc
    dsimp only at hsrc
    split at hsrc
    · cases hsrc
    · split at hsrc
      · rename_i hl
        rw [List.mem_singleton.mp hsrc]
        exact hl
      · have := (List.mem_filter.mp hsrc).2
        simp [AddressParse.isLiteral, this]
  refine ⟨hlit, ?_⟩
  rintro rfl
  simp [AddressParse.isLiteral, net.isIP_empty, net.isCIDR_empty] at hlit

end Sources

/-! ## Who asks for a rule -/

/-- A transport ufw knows. -/
def IsTransport (proto : String) : Prop := proto = "tcp" ∨ proto = "udp"

def InRange (port : Int) : Prop := 0 < port ∧ port ≤ 65535

instance (proto : String) : Decidable (IsTransport proto) := inferInstanceAs (Decidable (_ ∨ _))

instance (port : Int) : Decidable (InRange port) := inferInstanceAs (Decidable (_ ∧ _))

variable {proto : String} {port : Int}

theorem validSpec_iff : validSpec port proto = true ↔ InRange port ∧ IsTransport proto := by
  simp [validSpec, InRange, IsTransport, and_assoc]

section Asked

variable (env : FwEnv) {f : Firewall} {inbounds : List InboundDto} {ib : InboundDto} {n : Nat}
  {lookup : Lookup} {sources : List String} {r : FwRule}

/-- The sources of a link port resolve to `r`'s, or to none and `r` is open to anyone. -/
def FromSources (lookup : Lookup) (sources : List String) (r : FwRule) : Prop :=
  SourceOf env.net lookup sources r.src ∨
    r.src = "" ∧ ∀ src, ¬ SourceOf env.net lookup sources src

/-- A rule one link-ingress entry asks for. -/
structure EntryRule (lookup : Lookup) (e : ChainLinkIngress) (r : FwRule) : Prop where
  named : e.allowFrom.toList ≠ []
  port : r.port = e.port
  proto : r.proto ∈ e.transports.toList
  known : IsTransport r.proto
  src : FromSources env lookup e.allowFrom.toList r

/-- A rule the chain block asks for, with its names resolved so. -/
def LinkRule (names : Nat → Lookup) (block : Option NodeChain) (r : FwRule) : Prop :=
  ∃ i e, (linkIngressOf block)[i]? = some e ∧ EntryRule env (names i) e r

/-- A rule of a port an inbound serves on. -/
def ServesAt (inbounds : List InboundDto) (r : FwRule) : Prop :=
  ∃ ib ∈ inbounds, ∃ proto ∈ transportsOf env ib, r = ⟨ib.port, proto, ""⟩

/-- The tunnels of a block. -/
def tunnelsOf (block : Option NodeChain) : List ChainTunnel :=
  match block with
  | none => []
  | some c => c.tunnels.toList

def tunnelRule (t : ChainTunnel) : FwRule := ⟨t.listenPort, "udp", ""⟩

/-- A rule of a tunnel of the block. -/
def TunnelRule (block : Option NodeChain) (r : FwRule) : Prop :=
  ∃ t ∈ tunnelsOf block, r = tunnelRule t

/-- A rule of the link port an xray config carries. -/
def CarriedRule (lookups : String → Lookup) (ib : InboundDto) (r : FwRule) : Prop :=
  ∃ link, carriedLink env ib = some link ∧ r.port = link.1 ∧ IsTransport r.proto ∧
    FromSources env (lookups r.proto) link.2 r

theorem transportsOf_known (h : proto ∈ transportsOf env ib) : IsTransport proto := by
  unfold transportsOf protoForInbound at h
  unfold IsTransport
  split at h
  · simp_all
  · split at h
    · simp_all
    · split at h <;> simp_all

theorem ServesAt.mono {inbounds inbounds' : List InboundDto}
    (h : ServesAt env inbounds r) (hsub : ∀ ib ∈ inbounds, ib ∈ inbounds') :
    ServesAt env inbounds' r := by
  obtain ⟨ib, hib, hr⟩ := h
  exact ⟨ib, hsub ib hib, hr⟩

variable {env}

theorem ServesAt.src (h : ServesAt env inbounds r) : r.src = "" := by
  obtain ⟨ib, -, proto, -, rfl⟩ := h
  rfl

theorem ServesAt.validSpec (h : ServesAt env inbounds r) (hp : ∀ ib ∈ inbounds, InRange ib.port) :
    validSpec r.port r.proto = true := by
  obtain ⟨ib, hib, proto, hproto, rfl⟩ := h
  exact validSpec_iff.mpr ⟨hp ib hib, transportsOf_known env hproto⟩

/-! ## One rule, opened or closed -/

/-- The rule is one `ufw` takes. -/
def okRule (net : AddressParse) (r : FwRule) : Bool :=
  validSpec r.port r.proto && (decide (r.src = "") || net.isLiteral r.src)

theorem openRule_eq (f : Firewall) (r : FwRule) :
    openRule env f r = if okRule env.net r then f.add r else f := by
  unfold openRule fwAllow fwAllowSource okRule
  obtain ⟨port, proto, src⟩ := r
  by_cases hs : src = ""
  · subst hs
    simp
  · simp [hs]

theorem closeRule_eq (f : Firewall) (r : FwRule) :
    closeRule env f r = if okRule env.net r then f.remove r else f := by
  unfold closeRule fwClose fwCloseSource okRule
  obtain ⟨port, proto, src⟩ := r
  by_cases hs : src = ""
  · subst hs
    simp
  · simp [hs]

theorem mem_fwAllow :
    r ∈ fwAllow f port proto ↔ r ∈ f ∨ r = ⟨port, proto, ""⟩ ∧ validSpec port proto = true := by
  unfold fwAllow
  split
  · rename_i h
    simp [h]
  · rename_i h
    simp [h]

theorem FromSources.okRule
    (h : FromSources env lookup sources r) (hv : validSpec r.port r.proto = true) :
    okRule env.net r = true := by
  unfold Agent.okRule
  rw [hv, Bool.true_and]
  rcases h with h | ⟨h, -⟩
  · simp [h.isLiteral.1]
  · simp [h]

/-! ## The chain -/

variable {names : Nat → Lookup} {block : Option NodeChain}

theorem mem_entryRules {e : ChainLinkIngress} :
    r ∈ entryRules env lookup e ↔ EntryRule env lookup e r := by
  unfold entryRules
  split
  · rename_i hnone
    constructor
    · intro h
      cases h
    · intro h
      exact absurd hnone h.named
  · rename_i hnamed
    dsimp only
    simp only [List.mem_flatMap, List.mem_filter, Bool.or_eq_true, decide_eq_true_eq]
    constructor
    · rintro ⟨proto, ⟨hproto, hknown⟩, hr⟩
      split at hr
      · rename_i hnil
        rw [List.mem_singleton.mp hr]
        exact ⟨hnamed, rfl, hproto, hknown, .inr ⟨rfl, resolveSources_eq_nil.mp hnil⟩⟩
      · obtain ⟨src, hsrc, rfl⟩ := List.mem_map.mp hr
        exact ⟨hnamed, rfl, hproto, hknown, .inl (mem_resolveSources.mp hsrc)⟩
    · intro h
      obtain ⟨port, proto, src⟩ := r
      refine ⟨proto, ⟨h.proto, h.known⟩, ?_⟩
      have hport : port = e.port := h.port
      rcases h.src with hsrc | ⟨hsrc, hno⟩
      · have hne : (resolveSources env.net lookup e.allowFrom.toList).1 ≠ [] := by
          intro hnil
          exact resolveSources_eq_nil.mp hnil _ hsrc
        rw [if_neg hne]
        exact List.mem_map.mpr ⟨src, mem_resolveSources.mpr hsrc, by rw [hport]⟩
      · have hsrc' : src = "" := hsrc
        rw [if_pos (resolveSources_eq_nil.mpr hno)]
        simp [hport, hsrc']

theorem mem_wantFrom {entries : List ChainLinkIngress} (k : Nat) :
    r ∈ wantFrom env names k entries ↔
      ∃ i e, entries[i]? = some e ∧ EntryRule env (names (k + i)) e r := by
  induction entries generalizing k with
  | nil => simp [wantFrom]
  | cons e rest ih =>
    rw [wantFrom, List.mem_append, mem_entryRules, ih]
    exact (exists_numbered_cons (P := fun n e => EntryRule env (names n) e r)).symm

theorem mem_wantOf : r ∈ wantOf env names block ↔ LinkRule env names block r := by
  unfold wantOf LinkRule
  rw [List.mem_dedup, mem_wantFrom]
  simp

/-- The link ports of a block, and the transports they name, are ones `ufw` takes. -/
def KnownIngress (block : Option NodeChain) : Prop :=
  ∀ e ∈ linkIngressOf block, e.allowFrom.toList ≠ [] →
    InRange e.port ∧ ∀ proto ∈ e.transports.toList, IsTransport proto

theorem LinkRule.okRule (h : LinkRule env names block r) (hk : KnownIngress block) :
    okRule env.net r = true := by
  obtain ⟨i, e, he, hr⟩ := h
  refine hr.src.okRule (validSpec_iff.mpr ⟨?_, hr.known⟩)
  rw [hr.port]
  exact (hk e (List.mem_of_getElem? he) hr.named).1

/-- **The reconcile.**  The block's rules are open; of the others, those of the file are closed. -/
theorem mem_ensureChainFirewall {fa : FwAnswers} (w : FwState) (hk : KnownIngress block)
    (hw : ∀ r ∈ w.chainFw, okRule env.net r = true) :
    r ∈ (ensureChainFirewall env fa w block).fw ↔
      LinkRule env fa.names block r ∨ r ∈ w.fw ∧ r ∉ w.chainFw := by
  unfold ensureChainFirewall
  have hopen : openRule env = fun f r => if okRule env.net r then f.add r else f := by
    funext f r
    exact openRule_eq f r
  have hclose : closeRule env = fun f r => if okRule env.net r then f.remove r else f := by
    funext f r
    exact closeRule_eq f r
  simp only [hopen, hclose]
  rw [CachedSet.mem_removeAll, CachedSet.mem_addAll]
  simp only [List.mem_filter, decide_eq_true_eq, mem_wantOf]
  constructor
  · rintro ⟨h | h, hn⟩
    · by_cases hl : LinkRule env fa.names block r
      · exact .inl hl
      · exact .inr ⟨h, fun hf => hn ⟨⟨hf, hl⟩, hw r hf⟩⟩
    · exact .inl h.1
  · rintro (h | ⟨h, hf⟩)
    · exact ⟨.inr ⟨h, h.okRule hk⟩, fun hn => hn.1.2 h⟩
    · exact ⟨.inl h, fun hn => hf hn.1.1⟩

theorem chainFw_ensureChainFirewall {fa : FwAnswers} {w : FwState} (h : fa.chainFile = none) :
    r ∈ (ensureChainFirewall env fa w block).chainFw ↔ LinkRule env fa.names block r := by
  unfold ensureChainFirewall
  simp only [h, mem_wantOf]

theorem mem_openTunnels {ts : List ChainTunnel} :
    r ∈ ts.foldl openTunnel f → r ∈ f ∨ ∃ t ∈ ts, r = tunnelRule t := by
  induction ts generalizing f with
  | nil => exact .inl
  | cons t rest ih =>
    intro h
    rcases ih h with h | ⟨x, hx, hr⟩
    · unfold openTunnel at h
      split at h
      · rcases mem_fwAllow.mp h with h | ⟨h, -⟩
        · exact .inl h
        · exact .inr ⟨t, List.mem_cons_self, h⟩
      · exact .inl h
    · exact .inr ⟨x, List.mem_cons_of_mem _ hx, hr⟩

theorem mem_openTunnels_of_mem {ts : List ChainTunnel} (h : r ∈ f) : r ∈ ts.foldl openTunnel f := by
  induction ts generalizing f with
  | nil => exact h
  | cons t rest ih =>
    refine ih ?_
    unfold openTunnel
    split
    · exact mem_fwAllow.mpr (.inl h)
    · exact h

/-! ## The inbounds -/

theorem mem_allowAll {protos : List String} :
    r ∈ protos.foldl (fun f proto => fwAllow f port proto) f ↔
      r ∈ f ∨ ∃ proto ∈ protos, r = ⟨port, proto, ""⟩ ∧ validSpec port proto = true := by
  induction protos generalizing f with
  | nil => simp
  | cons proto rest ih =>
    rw [List.foldl_cons, ih, mem_fwAllow]
    simp only [List.exists_mem_cons_iff, or_assoc]

theorem mem_ensureInboundFirewall :
    r ∈ ensureInboundFirewall env f ib ↔
      r ∈ f ∨ ServesAt env [ib] r ∧ validSpec r.port r.proto = true := by
  have hserves : ServesAt env [ib] r ↔ ∃ proto ∈ transportsOf env ib, r = ⟨ib.port, proto, ""⟩ := by
    simp [ServesAt]
  unfold ensureInboundFirewall
  split
  · rename_i hport
    rw [hserves]
    constructor
    · exact .inl
    · rintro (h | ⟨⟨proto, -, rfl⟩, hv⟩)
      · exact h
      · have hpos : 0 < ib.port := (validSpec_iff.mp hv).1.1
        omega
  · rw [mem_allowAll, hserves]
    refine or_congr Iff.rfl ?_
    constructor
    · rintro ⟨proto, hp, rfl, hv⟩
      exact ⟨⟨proto, hp, rfl⟩, hv⟩
    · rintro ⟨⟨proto, hp, rfl⟩, hv⟩
      exact ⟨proto, hp, rfl, hv⟩

theorem mem_allowSources {srcs : List String} :
    r ∈ srcs.foldl (fun f src => fwAllowSource env.net f port proto src) f →
      r ∈ f ∨ ∃ src ∈ srcs, r = ⟨port, proto, src⟩ := by
  induction srcs generalizing f with
  | nil => exact .inl
  | cons src rest ih =>
    intro h
    rcases ih h with h | ⟨x, hx, hr⟩
    · unfold fwAllowSource at h
      dsimp only at h
      split at h
      · rcases (CachedSet.mem_add f).mp h with h | h
        · exact .inl h
        · exact .inr ⟨src, List.mem_cons_self, h⟩
      · exact .inl h
    · exact .inr ⟨x, List.mem_cons_of_mem _ hx, hr⟩

theorem mem_allowSources_of_mem {srcs : List String}
    (h : r ∈ f) : r ∈ srcs.foldl (fun f src => fwAllowSource env.net f port proto src) f := by
  induction srcs generalizing f with
  | nil => exact h
  | cons src rest ih =>
    refine ih ?_
    unfold fwAllowSource
    dsimp only
    split
    · exact (CachedSet.mem_add f).mpr (.inl h)
    · exact h

theorem mem_fwAllowFrom (h : r ∈ fwAllowFrom env.net lookup f port proto sources) :
    r ∈ f ∨ r.port = port ∧ r.proto = proto ∧ IsTransport proto ∧
      FromSources env lookup sources r := by
  unfold fwAllowFrom at h
  split at h
  · rename_i hv
    have hknown := (validSpec_iff.mp hv).2
    dsimp only at h
    split at h
    · rename_i hnil
      rcases mem_fwAllow.mp h with h | ⟨rfl, -⟩
      · exact .inl h
      · exact .inr ⟨rfl, rfl, hknown, .inr ⟨rfl, resolveSources_eq_nil.mp hnil⟩⟩
    · rcases mem_allowSources h with h | ⟨src, hsrc, rfl⟩
      · exact .inl h
      · exact .inr ⟨rfl, rfl, hknown, .inl (mem_resolveSources.mp hsrc)⟩
  · exact .inl h

theorem mem_fwAllowFrom_of_mem (h : r ∈ f) :
    r ∈ fwAllowFrom env.net lookup f port proto sources := by
  unfold fwAllowFrom
  split
  · dsimp only
    split
    · exact mem_fwAllow.mpr (.inl h)
    · exact mem_allowSources_of_mem h
  · exact h

theorem mem_ensureCascadeFirewall {lookups : String → Lookup}
    (h : r ∈ ensureCascadeFirewall env lookups f ib) : r ∈ f ∨ CarriedRule env lookups ib r := by
  unfold ensureCascadeFirewall at h
  split at h
  · exact .inl h
  · rename_i link hlink
    have carried : ∀ proto, r.port = link.1 → r.proto = proto → IsTransport proto →
        FromSources env (lookups proto) link.2 r → CarriedRule env lookups ib r := by
      rintro proto hport rfl hknown hsrc
      exact ⟨link, hlink, hport, hknown, hsrc⟩
    simp only [List.foldl_cons, List.foldl_nil] at h
    rcases mem_fwAllowFrom h with h | ⟨hport, hproto, hknown, hsrc⟩
    · rcases mem_fwAllowFrom h with h | ⟨hport, hproto, hknown, hsrc⟩
      · exact .inl h
      · exact .inr (carried _ hport hproto hknown hsrc)
    · exact .inr (carried _ hport hproto hknown hsrc)

theorem mem_ensureCascadeFirewall_of_mem {lookups : String → Lookup}
    (h : r ∈ f) : r ∈ ensureCascadeFirewall env lookups f ib := by
  unfold ensureCascadeFirewall
  split
  · exact h
  · simp only [List.foldl_cons, List.foldl_nil]
    exact mem_fwAllowFrom_of_mem (mem_fwAllowFrom_of_mem h)

/-- The link ports the inbounds carry, with their lookups numbered from `n`. -/
def CarriedBy (env : FwEnv) (fa : FwAnswers) (n : Nat) (inbounds : List InboundDto) (r : FwRule) :
    Prop :=
  ∃ i ib, inbounds[i]? = some ib ∧ CarriedRule env (fa.linkNames (n + i)) ib r

theorem CarriedBy.tail {fa : FwAnswers} {rest : List InboundDto}
    (h : CarriedBy env fa (n + 1) rest r) : CarriedBy env fa n (ib :: rest) r :=
  (exists_numbered_cons (P := fun n ib => CarriedRule env (fa.linkNames n) ib r)).mpr (.inr h)

/-- The port of an ACME challenge. -/
def acmeRule : FwRule := ⟨80, "tcp", ""⟩

/-- The stored inbounds at a start: what serves is open, and nothing else but the carried links. -/
theorem mem_openStored {fa : FwAnswers} (h : r ∈ openStored env fa n f inbounds) :
    r ∈ f ∨ ServesAt env inbounds r ∨ CarriedBy env fa n inbounds r := by
  induction inbounds generalizing n f with
  | nil => exact .inl h
  | cons ib rest ih =>
    rcases ih h with h | h | h
    · rcases mem_ensureCascadeFirewall h with h | h
      · rcases mem_ensureInboundFirewall.mp h with h | ⟨h, -⟩
        · exact .inl h
        · exact .inr (.inl (h.mono env (by simp)))
      · exact .inr (.inr ⟨0, ib, rfl, h⟩)
    · exact .inr (.inl (h.mono env fun x hx => List.mem_cons_of_mem _ hx))
    · exact .inr (.inr h.tail)

theorem mem_openStored_of_mem {fa : FwAnswers}
    (h : r ∈ f) : r ∈ openStored env fa n f inbounds := by
  induction inbounds generalizing n f with
  | nil => exact h
  | cons ib rest ih =>
    exact ih (mem_ensureCascadeFirewall_of_mem (mem_ensureInboundFirewall.mpr (.inl h)))

theorem mem_openStored_of_serves {fa : FwAnswers} (h : ServesAt env inbounds r)
    (hv : validSpec r.port r.proto = true) : r ∈ openStored env fa n f inbounds := by
  obtain ⟨x, hx, hr⟩ := h
  induction inbounds generalizing n f with
  | nil => cases hx
  | cons ib rest ih =>
    unfold openStored
    rcases List.mem_cons.mp hx with rfl | hx
    · refine mem_openStored_of_mem (mem_ensureCascadeFirewall_of_mem ?_)
      exact mem_ensureInboundFirewall.mpr (.inr ⟨⟨x, List.mem_singleton_self x, hr⟩, hv⟩)
    · exact ih hx

section Push

variable {cfg : AgentConfig} {ans : PushAnswers} {fa : FwAnswers}

theorem mem_ensureACMEFirewall {uses : Bool} (h : r ∈ ensureACMEFirewall f uses) :
    r ∈ f ∨ r = acmeRule := by
  unfold ensureACMEFirewall at h
  split at h
  · rcases mem_fwAllow.mp h with h | ⟨h, -⟩
    · exact .inl h
    · exact .inr h
  · exact .inl h

theorem mem_ensureACMEFirewall_of_mem {uses : Bool} (h : r ∈ f) :
    r ∈ ensureACMEFirewall f uses := by
  unfold ensureACMEFirewall
  split
  · exact mem_fwAllow.mpr (.inl h)
  · exact h

/-- The link ports the accepted inbounds carry, with their lookups numbered from `n`. -/
def CarriedByTaken (env : FwEnv) (cfg : AgentConfig) (ans : PushAnswers) (fa : FwAnswers) (n : Nat)
    (inbounds : List InboundDto) (r : FwRule) : Prop :=
  ∃ i ib, inbounds[i]? = some ib ∧ inboundTaken cfg ans ib = true ∧
    CarriedRule env (fa.linkNames (n + i)) ib r

theorem CarriedByTaken.tail {rest : List InboundDto}
    (h : CarriedByTaken env cfg ans fa (n + 1) rest r) :
    CarriedByTaken env cfg ans fa n (ib :: rest) r := by
  obtain ⟨i, x, hx, ht, hr⟩ := h
  exact ⟨i + 1, x, hx, ht, by rwa [show n + (i + 1) = n + 1 + i by omega]⟩

theorem mem_openInbounds (h : r ∈ openInbounds env cfg ans fa n f inbounds) :
    r ∈ f ∨ ServesAt env (inbounds.filter (inboundTaken cfg ans)) r ∨
      CarriedByTaken env cfg ans fa n inbounds r ∨ r = acmeRule := by
  induction inbounds generalizing n f with
  | nil => exact .inl h
  | cons ib rest ih =>
    unfold openInbounds at h
    split at h
    · rename_i ht
      rw [List.filter_cons_of_pos ht]
      rcases ih h with h | h | h | h
      · rcases mem_ensureACMEFirewall h with h | h
        · rcases mem_ensureCascadeFirewall h with h | h
          · rcases mem_ensureInboundFirewall.mp h with h | ⟨h, -⟩
            · exact .inl h
            · exact .inr (.inl (h.mono env (by simp)))
          · exact .inr (.inr (.inl ⟨0, ib, rfl, ht, h⟩))
        · exact .inr (.inr (.inr h))
      · exact .inr (.inl (h.mono env fun x hx => List.mem_cons_of_mem _ hx))
      · exact .inr (.inr (.inl h.tail))
      · exact .inr (.inr (.inr h))
    · rename_i ht
      rw [List.filter_cons_of_neg ht]
      rcases ih h with h | h | h | h
      · exact .inl h
      · exact .inr (.inl h)
      · exact .inr (.inr (.inl h.tail))
      · exact .inr (.inr (.inr h))

theorem mem_openInbounds_of_mem (h : r ∈ f) : r ∈ openInbounds env cfg ans fa n f inbounds := by
  induction inbounds generalizing n f with
  | nil => exact h
  | cons ib rest ih =>
    unfold openInbounds
    split
    · exact ih (mem_ensureACMEFirewall_of_mem
        (mem_ensureCascadeFirewall_of_mem (mem_ensureInboundFirewall.mpr (.inl h))))
    · exact ih h

theorem mem_openInbounds_of_serves (h : ServesAt env (inbounds.filter (inboundTaken cfg ans)) r)
    (hv : validSpec r.port r.proto = true) : r ∈ openInbounds env cfg ans fa n f inbounds := by
  obtain ⟨x, hx, hr⟩ := h
  rw [List.mem_filter] at hx
  induction inbounds generalizing n f with
  | nil => cases hx.1
  | cons ib rest ih =>
    unfold openInbounds
    rcases List.mem_cons.mp hx.1 with rfl | hmem
    · rw [if_pos hx.2]
      refine mem_openInbounds_of_mem (mem_ensureACMEFirewall_of_mem
        (mem_ensureCascadeFirewall_of_mem ?_))
      exact mem_ensureInboundFirewall.mpr (.inr ⟨⟨x, List.mem_singleton_self x, hr⟩, hv⟩)
    · split
      · exact ih ⟨hmem, hx.2⟩
      · exact ih ⟨hmem, hx.2⟩

end Push

/-! ## The dropped ports -/

theorem mem_openPorts : r ∈ openPorts env inbounds ↔ ServesAt env inbounds r ∧ 0 < r.port := by
  unfold openPorts ServesAt
  rw [List.mem_flatMap]
  constructor
  · rintro ⟨ib, hib, hr⟩
    split at hr
    · cases hr
    · rename_i hport
      obtain ⟨proto, hproto, rfl⟩ := List.mem_map.mp hr
      exact ⟨⟨ib, hib, proto, hproto, rfl⟩, by simpa using hport⟩
  · rintro ⟨⟨ib, hib, proto, hproto, rfl⟩, hport⟩
    have hpos : ¬ ib.port ≤ 0 := by simpa using hport
    exact ⟨ib, hib, by rw [if_neg hpos]; exact List.mem_map.mpr ⟨proto, hproto, rfl⟩⟩

theorem servesAt_filter_keeps :
    ServesAt env (inbounds.filter fun ib => !keepsPort env ib.port) r ↔
      ServesAt env inbounds r ∧ keepsPort env r.port = false := by
  unfold ServesAt
  constructor
  · rintro ⟨ib, hib, proto, hproto, rfl⟩
    rw [List.mem_filter] at hib
    exact ⟨⟨ib, hib.1, proto, hproto, rfl⟩, by simpa using hib.2⟩
  · rintro ⟨⟨ib, hib, proto, hproto, rfl⟩, hkeep⟩
    exact ⟨ib, List.mem_filter.mpr ⟨hib, by simpa using hkeep⟩, proto, hproto, rfl⟩

/-- **The dropped ports.**  A port served before and not after is closed, but for the kept ones. -/
theorem mem_closeDroppedPorts {before after : List InboundDto}
    (hb : ∀ ib ∈ before, InRange ib.port) :
    r ∈ closeDroppedPorts env before after f ↔
      r ∈ f ∧ ¬(ServesAt env before r ∧ keepsPort env r.port = false ∧ ¬ ServesAt env after r) := by
  unfold closeDroppedPorts
  rw [CachedSet.mem_removeOnce, mem_openPorts, mem_openPorts, servesAt_filter_keeps]
  refine and_congr Iff.rfl (not_congr ?_)
  constructor
  · rintro ⟨⟨⟨h, hk⟩, hpos⟩, hno, -⟩
    exact ⟨h, hk, fun ha => hno ⟨ha, hpos⟩⟩
  · rintro ⟨h, hk, hno⟩
    have hv := h.validSpec hb
    exact ⟨⟨⟨h, hk⟩, (validSpec_iff.mp hv).1.1⟩, fun ha => hno ha.1, hv⟩

end Asked

end Iceslab.Agent
