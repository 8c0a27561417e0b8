import Iceslab.Agent.XrayRender
import Iceslab.Lib.Checked
import Iceslab.Lib.Paired

/-!
# What a config of xray says

Of every document `renderMultiConfigInto` answers: the order of its routing rules, what became of
each rule of the node policy, where its rules lead and who stands on its inbounds.

* `LongestNarrow` — the cascade rules above the policy, and below it.
* `Fate` — a policy rule drawn, or reported as not drawn.
* `entries_of_ok`, `warpInv_foldl` — what the loops over the inbounds and over WARP build.
* `rendered` — **all of it, for every document.**
-/

set_option autoImplicit false

namespace Iceslab.Agent.Xray

open Checked (bind_eq_ok pure_eq_ok)

/-! ## Statements -/

/-- A rule that is about some part of the internet. -/
def NamesDestination (r : Fragment) : Prop :=
  ∃ fields, r = .object fields ∧ ∃ f ∈ fields, f.1 ∈ ["domain", "ip", "port", "protocol"]

/-- The longest prefix of the rules in which each names a destination, and the rest. -/
structure LongestNarrow (narrow doors rules : List Fragment) : Prop where
  whole : narrow ++ doors = rules
  narrow : ∀ r ∈ narrow, NamesDestination r
  longest : ∀ r ∈ doors.head?, ¬ NamesDestination r

/-- The two names of one direction's way out. -/
def OneDirection (exit tag : String) : Prop :=
  ∃ digits : String, digits ≠ "" ∧ digits.toList.all Char.isDigit = true ∧
    (exit = "cascade-link-out-d" ++ digits ++ "-0" ∧ tag = "cascade-link-out-chain-d" ++ digits ∨
      exit = "cascade-link-out-chain-d" ++ digits ∧ tag = "cascade-link-out-d" ++ digits ++ "-0")

def SameDirection (exit tag : String) : Prop := tag = exit ∨ OneDirection exit tag

/-- The conditions of a policy rule, on the rule drawn for it. -/
structure SameMatch (r : NodePolicyRule) (rule : FieldRule) : Prop where
  domain : rule.domain = r.cond.domain.map geoEntry
  ip : rule.ip = r.cond.ip.map geoEntry
  port : rule.port = r.cond.port
  protocol : rule.protocol = r.cond.protocol
  network : rule.network = r.cond.network
  inboundTag : rule.inboundTag = []

/-- A rule into a cascade that is drawn: to the direction it named, for its users only. -/
structure DrawnInto (drawn : List String) (r : NodePolicyRule) (rule : FieldRule) : Prop where
  direction : SameDirection r.action.exit rule.outboundTag
  drawn : rule.outboundTag ∈ drawn
  users : ∀ us, r.action.users = some us → rule.user = us ∧ us ≠ []
  everybody : r.action.users = none → rule.user = []

/-- A rule into a cascade that is left out: of nobody, or into a direction that is not drawn. -/
structure LeftOut (drawn : List String) (r : NodePolicyRule) (n : PolicyNotDrawn) : Prop where
  cascade : r.action.kind = "cascade"
  exit : n.exit = r.action.exit
  direction : n.direction = exitDirection r.action.exit
  why : r.action.users = some [] ∨ ∀ tag, SameDirection r.action.exit tag → tag ∉ drawn

/-- What becomes of a rule of the policy. -/
def Fate (drawn : List String) (r : NodePolicyRule) : FieldRule ⊕ PolicyNotDrawn → Prop
  | .inl rule => SameMatch r rule ∧
      (r.action.kind = "cascade" → DrawnInto drawn r rule) ∧
      (r.action.kind ≠ "cascade" → rule.user = [] ∧
        (r.action.kind, rule.outboundTag) ∈
          [("direct", "direct"), ("block", "blocked"), ("warp", "warp")])
  | .inr n => LeftOut drawn r n

/-- The parts of a document's routing rules, and of the report. -/
structure Parts where
  narrow : List Fragment
  doors : List Fragment
  fates : List (FieldRule ⊕ PolicyNotDrawn)
  warp : List FieldRule

def Parts.policy (p : Parts) : List FieldRule := p.fates.filterMap Sum.getLeft?

def Parts.rules (p : Parts) : List Rule :=
  baseRules ++ p.narrow.map .fragment ++ p.policy.map .field ++ p.doors.map .fragment ++
    p.warp.map .field

def Document.tagged (doc : Document) (tag : String) : Nat :=
  doc.outbounds.countP fun o => decide (o.tag = some tag)

def Outbound.ownTag : Outbound → Option String
  | .fragment _ => none
  | o => o.tag

/-- The outbounds the document has beside the fragments. -/
def Document.ownTags (doc : Document) : List String := doc.outbounds.filterMap Outbound.ownTag

def Document.userEntries (doc : Document) : List UserInbound :=
  doc.inbounds.filterMap fun
    | .user entry => some entry
    | _ => none

/-- Who is written on an inbound, and under which secret. -/
def InboundSettings.members : InboundSettings → List (String × String)
  | .socks accounts => accounts.map fun a => (a.user, a.pass)
  | .http accounts => accounts.map fun a => (a.user, a.pass)
  | .trojan clients => clients.map fun c => (c.email, c.id)
  | .vmess clients => clients.map fun c => (c.email, c.id)
  | .vless clients => clients.map fun c => (c.email, c.id)

/-- A user's scope names an inbound, or every one of them. -/
def InScope (u : Client) (ib : InboundConfig) : Prop :=
  u.inbounds = "" ∨ ib.id ∈ GoText.split u.inbounds ","

instance (u : Client) (ib : InboundConfig) : Decidable (InScope u ib) :=
  inferInstanceAs (Decidable (_ ∨ _))

/-- A user of the scope, on socks and http one with a login. -/
def StandsOn (u : Client) (ib : InboundConfig) : Prop :=
  InScope u ib ∧ (ib.isPlain = true → u.login ≠ "")

instance (u : Client) (ib : InboundConfig) : Decidable (StandsOn u ib) :=
  inferInstanceAs (Decidable (_ ∧ _))

def member (ib : InboundConfig) (u : Client) : String × String :=
  (if ib.isPlain then u.login else u.email, u.id)

/-- An inbound that is rendered: on socks and http one with an account. -/
def IsRendered (users : List Client) (ib : InboundConfig) : Prop :=
  ib.isPlain = true → ∃ u ∈ users, StandsOn u ib

instance (users : List Client) (ib : InboundConfig) : Decidable (IsRendered users ib) :=
  inferInstanceAs (Decidable (_ → _))

/-- What an inbound is rendered as. -/
structure EntryOf (users : List Client) (ib : InboundConfig) (entry : UserInbound) : Prop where
  tag : entry.tag = ib.withDefaults.tag
  members : entry.settings.members =
    (users.filter fun u => decide (StandsOn u ib)).map (member ib)

/-- The rule of an inbound with WARP, and the outbound with its own credentials it leads to. -/
structure WarpOf (doc : Document) (ib : InboundConfig) (rule : FieldRule) : Prop where
  inbound : rule.inboundTag = [ib.withDefaults.tag]
  outbound : ∃ w, ib.warp = some w ∧
    Outbound.warp rule.outboundTag (buildWarpOutbound w) ∈ doc.outbounds

structure Rendered (inboundCfgs : List InboundConfig) (users : List Client)
    (cascade : Option CascadeFragments) (policy : List NodePolicyRule) (doc : Document)
    (report : PolicyDrawn) (p : Parts) : Prop where
  rules : doc.routing.rules = p.rules
  cut : LongestNarrow p.narrow p.doors ((cascade.map CascadeFragments.routingRules).getD [])
  policy : List.Forall₂ (Fate (drawnOutboundTags cascade)) policy p.fates
  reported : report.notDrawn = p.fates.filterMap Sum.getRight?
  warp : List.Forall₂ (WarpOf doc) (inboundCfgs.filter fun ib => ib.warp.isSome) p.warp
  outbound : ∀ rule ∈ p.policy ++ p.warp,
    (rule.outboundTag = "warp" →
      (∃ ib ∈ inboundCfgs, ib.warp.isSome) ∨ "warp" ∈ drawnOutboundTags cascade) →
    (drawnOutboundTags cascade).count rule.outboundTag ≤ 1 →
    (rule.outboundTag ∈ drawnOutboundTags cascade → rule.outboundTag ∉ doc.ownTags) →
    doc.tagged rule.outboundTag = 1
  inbounds : List.Forall₂ (EntryOf users) (inboundCfgs.filter fun ib => decide (IsRendered users ib))
    doc.userEntries
  accounts : ∀ entry ∈ doc.userEntries, entry.protocol ∈ ["socks", "http"] →
    entry.settings.members ≠ []

variable {host : Host} {users : List Client} {drawn : List String} {r r' : NodePolicyRule}

/-! ## The cut -/

theorem isDoorRule_eq_false {r : Fragment} : isDoorRule r = false ↔ NamesDestination r := by
  cases r with
  | object fields => simp [isDoorRule, NamesDestination]
  | other text => simp [isDoorRule, NamesDestination]

theorem longestNarrow (rules : List Fragment) :
    LongestNarrow (cutCascadeRulesAtTheFirstDoor rules).1 (cutCascadeRulesAtTheFirstDoor rules).2
      rules := by
  unfold cutCascadeRulesAtTheFirstDoor
  rw [List.span_eq_takeWhile_dropWhile]
  refine ⟨List.takeWhile_append_dropWhile, fun r hr => ?_, fun r hr hnames => ?_⟩
  · exact isDoorRule_eq_false.mp (by simpa using List.mem_takeWhile_imp hr)
  · have hdoor := List.head?_dropWhile_not (fun r => !isDoorRule r) rules
    rw [Option.mem_def.mp hr] at hdoor
    simp only [Bool.not_eq_false'] at hdoor
    rw [isDoorRule_eq_false.mpr hnames] at hdoor
    cases hdoor

/-! ## The names of a way out -/

theorem digitsBetween_iff {pre post s digits : String} : digitsBetween pre post s = some digits ↔
    s = pre ++ digits ++ post ∧ digits ≠ "" ∧ digits.toList.all Char.isDigit = true := by
  unfold digitsBetween
  dsimp only
  constructor
  · intro h
    split at h
    · rename_i hs
      cases h
      exact hs
    · cases h
  · rintro ⟨rfl, hne, hdigits⟩
    have hbetween : GoText.trimSuffix (GoText.trimPrefix (pre ++ digits ++ post) pre) post
        = digits := by
      rw [String.append_assoc, GoText.trimPrefix_append, GoText.trimSuffix_append]
    rw [hbetween]
    exact if_pos ⟨rfl, hne, hdigits⟩

/-- A hand-over is not named as a leg is. -/
theorem legacyExit_handover (digits : String) :
    legacyExit ("cascade-link-out-chain-d" ++ digits) = none := by
  refine Option.eq_none_iff_forall_ne_some.mpr fun d h => ?_
  have hname := congrArg (fun s => s.toList[17]?) (digitsBetween_iff.mp h).1
  simp [String.toList_append] at hname

theorem otherExit_iff {exit tag : String} : otherExit exit = some tag ↔ OneDirection exit tag := by
  unfold otherExit
  constructor
  · intro h
    split at h
    · rename_i digits hlegacy
      obtain ⟨hexit, hne, hdigits⟩ := digitsBetween_iff.mp hlegacy
      exact ⟨digits, hne, hdigits, .inl ⟨hexit, (Option.some.inj h).symm⟩⟩
    · obtain ⟨digits, hhandover, htag⟩ := Option.map_eq_some_iff.mp h
      obtain ⟨hexit, hne, hdigits⟩ := digitsBetween_iff.mp hhandover
      rw [String.append_empty] at hexit
      exact ⟨digits, hne, hdigits, .inr ⟨hexit, htag.symm⟩⟩
  · rintro ⟨digits, hne, hdigits, ⟨rfl, rfl⟩ | ⟨rfl, rfl⟩⟩
    · have hlegacy : legacyExit ("cascade-link-out-d" ++ digits ++ "-0") = some digits :=
        digitsBetween_iff.mpr ⟨rfl, hne, hdigits⟩
      rw [hlegacy]
    · have hhandover : handoverExit ("cascade-link-out-chain-d" ++ digits) = some digits :=
        digitsBetween_iff.mpr ⟨by rw [String.append_empty], hne, hdigits⟩
      rw [legacyExit_handover, hhandover]
      rfl

/-! ## What becomes of a policy rule -/

theorem fate_leftOut {n : PolicyNotDrawn} (h : fitCascadeExit drawn r = .inr n) :
    LeftOut drawn r n := by
  unfold fitCascadeExit at h
  dsimp only at h
  split at h
  · rename_i hnobody
    cases h
    exact ⟨hnobody.1, rfl, rfl, .inl hnobody.2⟩
  · split at h
    · cases h
    · rename_i hfit
      simp only [not_or, not_not] at hfit
      obtain ⟨hkind, -, hundrawn⟩ := hfit
      have hwhy : (∀ tag, otherExit r.action.exit = some tag → tag ∉ drawn) →
          ∀ tag, SameDirection r.action.exit tag → tag ∉ drawn := by
        rintro hother tag (rfl | hone)
        · exact hundrawn
        · exact hother tag (otherExit_iff.mpr hone)
      split at h
      · rename_i hnone
        cases h
        refine ⟨hkind, rfl, rfl, .inr (hwhy fun tag htag => ?_)⟩
        rw [hnone] at htag
        cases htag
      · rename_i other hother
        split at h
        · cases h
        · rename_i hnot
          cases h
          refine ⟨hkind, rfl, rfl, .inr (hwhy fun tag htag => ?_)⟩
          rw [hother] at htag
          cases htag
          exact hnot

/-- A rule that is kept: as it is, or under the other name of its direction. -/
theorem fitCascadeExit_kept (h : fitCascadeExit drawn r = .inl r') :
    r'.cond = r.cond ∧ r'.action.kind = r.action.kind ∧ r'.action.users = r.action.users ∧
      (r.action.kind = "cascade" → r'.action.exit ≠ "" → r.action.users ≠ some [] ∧
        SameDirection r.action.exit r'.action.exit ∧ r'.action.exit ∈ drawn) := by
  unfold fitCascadeExit at h
  dsimp only at h
  split at h
  · cases h
  · rename_i hsome
    split at h
    · rename_i hkept
      cases h
      refine ⟨rfl, rfl, rfl, fun hkind hexit => ⟨fun hnobody => hsome ⟨hkind, hnobody⟩, .inl rfl, ?_⟩⟩
      exact (hkept.resolve_left (not_not.mpr hkind)).resolve_left hexit
    · split at h
      · cases h
      · rename_i other hother
        split at h
        · rename_i hdrawn
          cases h
          exact ⟨rfl, rfl, rfl, fun hkind _ => ⟨fun hnobody => hsome ⟨hkind, hnobody⟩,
            .inr (otherExit_iff.mp hother), hdrawn⟩⟩
        · cases h

theorem fate_kept {place : Nat} {tag : String} (h : fitCascadeExit drawn r = .inl r')
    (htag : policyOutboundTag place r'.action = .ok tag) : Fate drawn r (.inl (policyRule r' tag)) := by
  obtain ⟨hcond, hkind, husers, hcascade⟩ := fitCascadeExit_kept h
  refine ⟨?_, fun hc => ?_, fun hc => ?_⟩
  · unfold policyRule
    rw [hcond]
    exact ⟨rfl, rfl, rfl, rfl, rfl, rfl⟩
  · unfold policyOutboundTag at htag
    rw [hkind, hc] at htag
    simp only [show ("cascade" : String) ≠ "direct" by decide, if_false,
      show ("cascade" : String) ≠ "block" by decide, show ("cascade" : String) ≠ "warp" by decide,
      if_true] at htag
    split at htag
    · cases htag
    · rename_i hexit
      cases htag
      obtain ⟨hsome, hdirection, hdrawn⟩ := hcascade hc hexit
      have huser : (policyRule r' r'.action.exit).user = r.action.users.toList := by
        unfold policyRule
        dsimp only
        rw [hkind, if_pos hc, husers]
      refine ⟨hdirection, hdrawn, fun us hus => ?_, fun hnone => ?_⟩
      · rw [huser, hus]
        exact ⟨rfl, fun hnil => hsome (by rw [hus, hnil])⟩
      · rw [huser, hnone]
        rfl
  · refine ⟨?_, ?_⟩
    · unfold policyRule
      dsimp only
      rw [hkind, if_neg hc]
    · unfold policyOutboundTag at htag
      rw [hkind] at htag
      split at htag
      · rename_i hdirect
        cases htag
        simp [hdirect, policyRule]
      · split at htag
        · rename_i hblock
          cases htag
          simp [hblock, policyRule]
        · split at htag
          · rename_i hwarp
            cases htag
            simp [hwarp, policyRule]
          · split at htag
            · cases htag
            · cases htag

/-- Every rule of the policy meets one fate, and the rules that are built are the drawn ones. -/
theorem exists_fates {policy : List NodePolicyRule} {place : Nat} {rules : List FieldRule}
    (h : buildPolicyRulesFrom place ((policy.map (fitCascadeExit drawn)).filterMap Sum.getLeft?)
      = .ok rules) :
    ∃ fates, List.Forall₂ (Fate drawn) policy fates ∧ fates.filterMap Sum.getLeft? = rules ∧
      fates.filterMap Sum.getRight?
        = (policy.map (fitCascadeExit drawn)).filterMap Sum.getRight? := by
  induction policy generalizing place rules with
  | nil =>
    cases h
    exact ⟨[], .nil, rfl, rfl⟩
  | cons r policy ih =>
    cases hfit : fitCascadeExit drawn r with
    | inr n =>
      rw [List.map_cons, hfit] at h
      obtain ⟨fates, hfates, hrules, hreport⟩ := ih h
      refine ⟨.inr n :: fates, .cons (fate_leftOut hfit) hfates, hrules, ?_⟩
      rw [List.map_cons, hfit]
      exact congrArg (n :: ·) hreport
    | inl r' =>
      rw [List.map_cons, hfit] at h
      obtain ⟨tag, htag, hrest⟩ := bind_eq_ok.mp h
      obtain ⟨rest, hrest, hrules⟩ := bind_eq_ok.mp hrest
      obtain ⟨fates, hfates, hdrawn, hreport⟩ := ih hrest
      refine ⟨.inl (policyRule r' tag) :: fates, .cons (fate_kept hfit htag) hfates, ?_, ?_⟩
      · rw [← pure_eq_ok.mp hrules, ← hdrawn]
        rfl
      · rw [List.map_cons, hfit]
        exact hreport

/-! ## The inbounds -/

section Inbounds

variable {ib : InboundConfig} {u : Client}

@[simp] theorem isPlain_withDefaults : ib.withDefaults.isPlain = ib.isPlain := rfl

@[simp] theorem warp_withDefaults : ib.withDefaults.warp = ib.warp := rfl

theorem serves_withDefaults : ib.withDefaults.serves u = decide (InScope u ib) := rfl

theorem plainAccounts_usersFor (hplain : ib.isPlain = true) :
    plainAccounts (ib.withDefaults.usersFor users) =
      users.filter fun u => decide (StandsOn u ib) := by
  unfold plainAccounts InboundConfig.usersFor
  rw [List.filter_filter]
  refine List.filter_congr fun u _ => ?_
  rw [serves_withDefaults, Bool.eq_iff_iff]
  simp [StandsOn, hplain, and_comm]

theorem usersFor_withDefaults (hplain : ib.isPlain = false) :
    ib.withDefaults.usersFor users = users.filter fun u => decide (StandsOn u ib) := by
  refine List.filter_congr fun u _ => ?_
  rw [serves_withDefaults, Bool.eq_iff_iff]
  simp [StandsOn, hplain]

/-- The code leaves out what is not rendered. -/
theorem left_out_iff : (ib.withDefaults.isPlain = true ∧
    plainAccounts (ib.withDefaults.usersFor users) = []) ↔ ¬ IsRendered users ib := by
  unfold IsRendered
  rw [isPlain_withDefaults]
  by_cases hplain : ib.isPlain = true
  · rw [plainAccounts_usersFor hplain]
    simp [hplain]
  · simp [hplain]

theorem members_userInboundEntry :
    (ib.withDefaults.userInboundEntry (ib.withDefaults.usersFor users)).settings.members =
      (users.filter fun u => decide (StandsOn u ib)).map (member ib) := by
  unfold InboundConfig.userInboundEntry InboundConfig.buildUserInboundSettings
  dsimp only
  cases hplain : ib.isPlain with
  | true =>
    have hmember : member ib = fun u => (u.login, u.id) := by
      funext u
      simp [member, hplain]
    rw [if_pos (by rw [isPlain_withDefaults, hplain])]
    unfold InboundConfig.plainInboundSettings
    rw [plainAccounts_usersFor hplain, hmember]
    dsimp only
    split
    · exact List.map_map
    · exact List.map_map
  | false =>
    have hmember : member ib = fun u => (u.email, u.id) := by
      funext u
      simp [member, hplain]
    rw [if_neg (by simp [hplain]), usersFor_withDefaults hplain, hmember]
    split
    · exact List.map_map
    · split
      · exact List.map_map
      · exact List.map_map

theorem isPlain_of_protocol {us : List Client}
    (h : (ib.withDefaults.userInboundEntry us).protocol ∈ ["socks", "http"]) :
    ib.isPlain = true := by
  have hprotocol : (if ib.subprotocol ∈ ["trojan", "vmess", "socks", "http"] then ib.subprotocol
      else "vless") ∈ ["socks", "http"] := h
  split at hprotocol
  · unfold InboundConfig.isPlain
    simpa using hprotocol
  · exact absurd hprotocol (by decide)

/-- What the loop over the inbounds has built. -/
structure InboundsInv (users : List Client) (done : List InboundConfig) (seen : InboundsSeen) :
    Prop where
  tags : seen.tags = (done.map fun ib => ib.withDefaults.tag).reverse
  nodup : seen.tags.Nodup
  entries : seen.entries = (done.filter fun ib => decide (IsRendered users ib)).map fun ib =>
    ib.withDefaults.userInboundEntry (ib.withDefaults.usersFor users)

theorem inv_renderInbound {done : List InboundConfig} {seen seen' : InboundsSeen}
    (h : InboundsInv users done seen) (hs : renderInbound host users seen ib = .ok seen') :
    InboundsInv users (done ++ [ib]) seen' := by
  unfold renderInbound at hs
  obtain ⟨_, -, hs⟩ := bind_eq_ok.mp hs
  dsimp only at hs
  split at hs
  · cases hs
  rename_i hfresh
  split at hs
  · cases hs
  cases hs
  refine ⟨?_, List.nodup_cons.mpr ⟨hfresh, h.nodup⟩, ?_⟩
  · rw [h.tags, List.map_append, List.reverse_append]
    rfl
  · dsimp only
    rw [h.entries, List.filter_append, List.map_append]
    by_cases hin : IsRendered users ib
    · rw [if_neg (fun hout => left_out_iff.mp hout hin), List.filter_cons_of_pos (by simpa using hin)]
      rfl
    · rw [if_pos (left_out_iff.mpr hin), List.filter_cons_of_neg (by simpa using hin)]
      simp

theorem inv_renderInbounds {done rest : List InboundConfig} {seen seen' : InboundsSeen}
    (h : InboundsInv users done seen) (hs : rest.foldlM (renderInbound host users) seen = .ok seen') :
    InboundsInv users (done ++ rest) seen' := by
  induction rest generalizing done seen with
  | nil =>
    cases hs
    rwa [List.append_nil]
  | cons ib rest ih =>
    rw [List.foldlM_cons] at hs
    obtain ⟨seen₁, hone, hs⟩ := bind_eq_ok.mp hs
    have := ih (inv_renderInbound h hone) hs
    rwa [List.append_assoc] at this

end Inbounds

/-! ## WARP -/

section Warp

variable {ib : InboundConfig} {done rest : List InboundConfig} {seen : WarpSeen}

/-- The rule of an inbound with WARP, and where its credentials stand. -/
def WarpRuleOf (tags : OrderedMap WarpSettings String) (ib : InboundConfig) (rule : FieldRule) :
    Prop :=
  rule.inboundTag = [ib.withDefaults.tag] ∧
    ∃ w, ib.warp = some w ∧ (buildWarpOutbound w, rule.outboundTag) ∈ tags.entries

/-- What the loop over WARP has built: the first credentials are `warp`, and each further ones are
called after the inbound that brought them. -/
structure WarpInv (done : List InboundConfig) (seen : WarpSeen) : Prop where
  rules : List.Forall₂ (WarpRuleOf seen.tags) (done.filter fun ib => ib.warp.isSome) seen.rules
  names : seen.tags.values = [] ∨ ∃ names : List String,
    seen.tags.values = "warp" :: names.map ("warp-" ++ ·) ∧ names.Sublist (done.map fun ib => ib.withDefaults.tag)

theorem inv_renderWarp (h : WarpInv done seen) : WarpInv (done ++ [ib]) (renderWarp seen ib) := by
  have htags : (done.map fun ib => ib.withDefaults.tag).Sublist
      ((done ++ [ib]).map fun ib => ib.withDefaults.tag) :=
    (List.sublist_append_left done [ib]).map _
  have hweaken : ∀ {names : List String}, names.Sublist (done.map fun ib => ib.withDefaults.tag) →
      names.Sublist ((done ++ [ib]).map fun ib => ib.withDefaults.tag) := fun hsub => hsub.trans htags
  unfold renderWarp
  dsimp only
  rw [warp_withDefaults]
  cases hwarp : ib.warp with
  | none =>
    refine ⟨?_, h.names.imp id fun ⟨names, hvalues, hsub⟩ => ⟨names, hvalues, hweaken hsub⟩⟩
    rw [List.filter_append, List.filter_cons_of_neg (by simp [hwarp]), List.filter_nil,
      List.append_nil]
    exact h.rules
  | some w =>
    dsimp only
    have hfilter : (done ++ [ib]).filter (fun ib => ib.warp.isSome)
        = done.filter (fun ib => ib.warp.isSome) ++ [ib] := by
      rw [List.filter_append, List.filter_cons_of_pos (by simp [hwarp]), List.filter_nil]
    cases hheld : seen.tags.get? (buildWarpOutbound w) with
    | some tag =>
      have hhas : seen.tags.has (buildWarpOutbound w) = true := by
        unfold OrderedMap.has
        rw [hheld]
        rfl
      rw [if_pos hhas, Option.getD_some]
      refine ⟨hfilter ▸ List.rel_append h.rules (.cons ⟨rfl, w, hwarp, ?_⟩ .nil),
        h.names.imp id fun ⟨names, hvalues, hsub⟩ => ⟨names, hvalues, hweaken hsub⟩⟩
      exact (OrderedMap.get?_eq_some_iff _ _ _).mp hheld
    | none =>
      have hhas : seen.tags.has (buildWarpOutbound w) = false := by
        unfold OrderedMap.has
        rw [hheld]
        rfl
      rw [if_neg (by rw [hhas]; exact Bool.false_ne_true), Option.getD_none]
      generalize htag : (if seen.tags.entries = [] then "warp"
        else "warp-" ++ ib.withDefaults.tag) = tag
      have hentries := OrderedMap.entries_set_of_none tag hheld
      refine ⟨hfilter ▸ List.rel_append (h.rules.imp ?_) (.cons ⟨rfl, w, hwarp, ?_⟩ .nil), .inr ?_⟩
      · rintro ib' rule ⟨hinbound, w', hw', hmem⟩
        exact ⟨hinbound, w', hw', hentries ▸ List.mem_append_left _ hmem⟩
      · rw [hentries]
        exact List.mem_append_right _ List.mem_cons_self
      · have hvalues : (seen.tags.set (buildWarpOutbound w) tag).values
            = seen.tags.values ++ [tag] := by
          unfold OrderedMap.values
          rw [hentries, List.map_append]
          rfl
        rw [hvalues]
        rcases h.names with hnil | ⟨names, hnames, hsub⟩
        · rw [if_pos (List.map_eq_nil_iff.mp hnil)] at htag
          rw [hnil, ← htag]
          exact ⟨[], rfl, List.nil_sublist _⟩
        · have hne : seen.tags.entries ≠ [] := by
            intro hnil
            unfold OrderedMap.values at hnames
            rw [hnil] at hnames
            cases hnames
          rw [if_neg hne] at htag
          refine ⟨names ++ [ib.withDefaults.tag], ?_, ?_⟩
          · rw [hnames, ← htag, List.map_append]
            rfl
          · rw [List.map_append]
            exact hsub.append (List.Sublist.refl _)

theorem inv_renderWarps (h : WarpInv done seen) :
    WarpInv (done ++ rest) (rest.foldl renderWarp seen) := by
  induction rest generalizing done seen with
  | nil => rwa [List.append_nil, List.foldl_nil]
  | cons ib rest ih =>
    have hstep : WarpInv (done ++ [ib]) (renderWarp seen ib) := inv_renderWarp h
    have := ih hstep
    rwa [List.append_assoc] at this

theorem warp_head (tag : String) : ("warp-" ++ tag).toList.take 5 = "warp-".toList := by
  rw [String.toList_append]
  rfl

/-- The tags of WARP are apart from each other and from those every document has. -/
theorem nodup_ownTags (h : WarpInv done seen)
    (htags : (done.map fun ib => ib.withDefaults.tag).Nodup) :
    (["direct", "dns-out", "blocked"] ++ seen.tags.values).Nodup := by
  have hother : ∀ {t : String}, t.toList.take 5 ≠ "warp-".toList → ∀ names : List String,
      t ∉ names.map ("warp-" ++ ·) := by
    intro t ht names hmem
    obtain ⟨name, -, rfl⟩ := List.mem_map.mp hmem
    exact ht (warp_head name)
  rcases h.names with hnil | ⟨names, hnames, hsub⟩
  · rw [hnil]
    decide
  · rw [hnames]
    have hnodup : (names.map ("warp-" ++ ·)).Nodup :=
      (htags.sublist hsub).map fun _ _ => (String.append_right_inj _).mp
    refine List.nodup_append.mpr ⟨by decide, List.nodup_cons.mpr ⟨hother (by decide) names, hnodup⟩,
      fun a ha b hb hab => ?_⟩
    subst hab
    rcases List.mem_cons.mp hb with rfl | hb
    · exact absurd ha (by decide)
    · refine hother (fun hpre => ?_) names hb
      simp only [List.mem_cons, List.not_mem_nil, or_false] at ha
      rcases ha with rfl | rfl | rfl <;> exact absurd hpre (by decide)

/-- An inbound with WARP brings the outbound `warp`. -/
theorem warp_mem_values (h : WarpInv done seen) (hib : ib ∈ done) (hwarp : ib.warp.isSome = true) :
    "warp" ∈ seen.tags.values := by
  rcases h.names with hnil | ⟨names, hnames, -⟩
  · have hmem : ib ∈ done.filter fun ib => ib.warp.isSome := List.mem_filter.mpr ⟨hib, hwarp⟩
    obtain ⟨rule, -, -, w, -, hentry⟩ := Paired.exists_right_of_forall₂ h.rules hmem
    rw [List.map_eq_nil_iff.mp hnil] at hentry
    cases hentry
  · rw [hnames]
    exact List.mem_cons_self

end Warp

/-! ## The document -/

section Document

variable {inboundCfgs : List InboundConfig} {cascade : Option CascadeFragments} {apiPort : Int}
variable {policy : List NodePolicyRule} {dns : Option DnsCfg} {doc : Document}
variable {report : PolicyDrawn}

/-- The tags a policy rule that is drawn may name. -/
theorem tag_of_fate {fates : List (FieldRule ⊕ PolicyNotDrawn)} {rule : FieldRule}
    (h : List.Forall₂ (Fate drawn) policy fates) (hrule : rule ∈ fates.filterMap Sum.getLeft?) :
    rule.outboundTag ∈ drawn ∨ rule.outboundTag ∈ ["direct", "blocked", "warp"] := by
  obtain ⟨fate, hfate, hleft⟩ := List.mem_filterMap.mp hrule
  obtain ⟨r, -, hr⟩ := Paired.exists_left_of_forall₂ h hfate
  cases fate with
  | inr n => cases hleft
  | inl rule' =>
    cases hleft
    obtain ⟨-, hinto, hown⟩ := hr
    by_cases hkind : r.action.kind = "cascade"
    · exact .inl (hinto hkind).drawn
    · obtain ⟨-, hmem⟩ := hown hkind
      simp only [List.mem_cons, Prod.mk.injEq, List.not_mem_nil, or_false] at hmem
      rcases hmem with ⟨-, htag⟩ | ⟨-, htag⟩ | ⟨-, htag⟩ <;> simp [htag]

theorem tagged_eq_count (doc : Document) (tag : String) :
    doc.tagged tag = (doc.outbounds.filterMap Outbound.tag).count tag := by
  unfold Document.tagged
  rw [List.count_filterMap]
  refine List.countP_congr fun o _ => ?_
  rw [decide_eq_true_iff, beq_iff_eq]

/-- The outbounds of a tag: those of the fragments, and the document's own. -/
theorem tagged_eq {warp : List (WarpSettings × String)} {frags : List Fragment} {s : String}
    (houtbounds : doc.outbounds = [.direct s, .dnsOut, .blocked] ++ frags.map .fragment ++
      warp.map fun e => .warp e.2 e.1) (tag : String) :
    doc.ownTags = ["direct", "dns-out", "blocked"] ++ warp.map Prod.snd ∧
      doc.tagged tag = doc.ownTags.count tag + (frags.filterMap Fragment.tag).count tag := by
  have hwarp : ∀ f : Outbound → Option String, (∀ t settings, f (.warp t settings) = some t) →
      (warp.map fun e => Outbound.warp e.2 e.1).filterMap f = warp.map Prod.snd := by
    intro f hf
    rw [List.filterMap_map, ← List.filterMap_eq_map]
    exact List.filterMap_congr fun e _ => hf e.2 e.1
  have hfrags : (frags.map Outbound.fragment).filterMap Outbound.ownTag = [] := by
    rw [List.filterMap_map]
    exact List.filterMap_eq_nil_iff.mpr fun _ _ => rfl
  have hown : doc.ownTags = ["direct", "dns-out", "blocked"] ++ warp.map Prod.snd := by
    unfold Document.ownTags
    rw [houtbounds, List.filterMap_append, List.filterMap_append, hfrags,
      hwarp Outbound.ownTag fun _ _ => rfl]
    rfl
  have htags : doc.outbounds.filterMap Outbound.tag = ["direct", "dns-out", "blocked"] ++
      frags.filterMap Fragment.tag ++ warp.map Prod.snd := by
    rw [houtbounds, List.filterMap_append, List.filterMap_append,
      hwarp Outbound.tag fun _ _ => rfl, List.filterMap_map]
    rfl
  refine ⟨hown, ?_⟩
  rw [tagged_eq_count, htags, hown, List.count_append, List.count_append, List.count_append]
  omega

/-- **What a config of xray says**: the rules in their order, the cascade's cut in two around the
policy; each policy rule drawn or reported; one outbound at the end of each policy or WARP rule, as
far as the fragments leave the tag alone and a rule to WARP has a WARP to lead to; and on each
inbound exactly the users of the scope, on socks and http those with a login, and never nobody. -/
theorem rendered (h : renderMultiConfigInto host inboundCfgs users cascade apiPort policy dns
    = .ok (doc, report)) : ∃ p, Rendered inboundCfgs users cascade policy doc report p := by
  unfold renderMultiConfigInto at h
  obtain ⟨seen, hseen, h⟩ := bind_eq_ok.mp h
  dsimp only at h
  obtain ⟨policyRules, hpolicy, h⟩ := bind_eq_ok.mp h
  have hdoc := pure_eq_ok.mp h
  obtain ⟨fates, hfates, hdrawn, hreport⟩ := exists_fates hpolicy
  have hin : InboundsInv users ([] ++ inboundCfgs) seen :=
    inv_renderInbounds ⟨rfl, List.nodup_nil, rfl⟩ hseen
  have hwarp : WarpInv ([] ++ inboundCfgs) (inboundCfgs.foldl renderWarp ⟨OrderedMap.empty, []⟩) :=
    inv_renderWarps ⟨.nil, .inl rfl⟩
  rw [List.nil_append] at hin hwarp
  generalize inboundCfgs.foldl renderWarp ⟨OrderedMap.empty, []⟩ = warp at hwarp hdoc
  have hrules := congrArg (fun d => d.1.routing.rules) hdoc
  have hinbounds := congrArg (fun d => d.1.inbounds) hdoc
  have houtbounds := congrArg (fun d => d.1.outbounds) hdoc
  have hnotDrawn := congrArg (fun d => d.2.notDrawn) hdoc
  dsimp only at hrules hinbounds houtbounds hnotDrawn
  have hfrags : ((cascade.map CascadeFragments.outbounds).getD []).filterMap Fragment.tag
      = drawnOutboundTags cascade := by
    cases cascade <;> rfl
  have htagged := tagged_eq houtbounds.symm
  rw [hfrags] at htagged
  have hnodup := nodup_ownTags hwarp (List.nodup_reverse.mp (hin.tags ▸ hin.nodup))
  have hentries : doc.userEntries = seen.entries := by
    unfold Document.userEntries
    rw [← hinbounds]
    simp [List.filterMap_map, List.filterMap_append]
  have hown : doc.ownTags = ["direct", "dns-out", "blocked"] ++ warp.tags.values := (htagged "").1
  have hwarpOf : List.Forall₂ (WarpOf doc) (inboundCfgs.filter fun ib => ib.warp.isSome)
      warp.rules := by
    refine hwarp.rules.imp fun ib rule ⟨hinbound, w, hw, hmem⟩ => ⟨hinbound, w, hw, ?_⟩
    rw [← houtbounds]
    exact List.mem_append_right _ (List.mem_map.mpr ⟨_, hmem, rfl⟩)
  refine ⟨⟨_, _, fates, warp.rules⟩, ?_, longestNarrow _, hfates, hnotDrawn.symm.trans hreport.symm,
    hwarpOf, fun rule hrule hhas hcount hapart => ?_, ?_, fun entry hentry hplain => ?_⟩
  · rw [← hrules, ← hdrawn]
    rfl
  · rw [(htagged _).2]
    by_cases hmem : rule.outboundTag ∈ drawnOutboundTags cascade
    · have hzero := List.count_eq_zero.mpr (hapart hmem)
      have hpos := List.count_pos_iff.mpr hmem
      omega
    · have hzero := List.count_eq_zero.mpr hmem
      suffices hmem' : rule.outboundTag ∈ doc.ownTags by
        have hone := List.count_eq_one_of_mem (hown ▸ hnodup) hmem'
        omega
      rw [hown]
      rcases List.mem_append.mp hrule with hpolicy | hwarpRule
      · rcases tag_of_fate hfates hpolicy with hin | htag
        · exact absurd hin hmem
        · simp only [List.mem_cons, List.not_mem_nil, or_false] at htag
          rcases htag with htag | htag | htag
          · rw [htag]
            exact List.mem_append_left _ (by decide)
          · rw [htag]
            exact List.mem_append_left _ (by decide)
          · rcases hhas htag with ⟨ib, hib, hsome⟩ | hin
            · rw [htag]
              exact List.mem_append_right _ (warp_mem_values hwarp hib hsome)
            · exact absurd (htag ▸ hin) hmem
      · obtain ⟨ib, -, -, w, -, hentry⟩ := Paired.exists_left_of_forall₂ hwarp.rules hwarpRule
        exact List.mem_append_right _ (List.mem_map.mpr ⟨_, hentry, rfl⟩)
  · rw [hentries, hin.entries]
    exact List.forall₂_map_right_iff.mpr (List.forall₂_same.mpr fun ib _ =>
      ⟨rfl, members_userInboundEntry⟩)
  · rw [hentries, hin.entries] at hentry
    obtain ⟨ib, hib, rfl⟩ := List.mem_map.mp hentry
    rw [members_userInboundEntry]
    have hrendered : IsRendered users ib := by simpa using (List.mem_filter.mp hib).2
    obtain ⟨u, hu, hstands⟩ := hrendered (isPlain_of_protocol hplain)
    exact List.ne_nil_of_mem (List.mem_map_of_mem
      (List.mem_filter.mpr ⟨hu, decide_eq_true hstands⟩))

/-! ### Two nodes -/

/-- An inbound without REALITY, TLS or WARP, of the subprotocol given. -/
def plainInbound (id subprotocol : String) (port : Int) : InboundConfig where
  id := id
  tag := "vless-in-" ++ id
  listenHost := ""
  listenPort := port
  realityDest := ""
  realityServerNames := []
  realityPrivateKey := ""
  realityShortIDs := []
  realityXver := 0
  realityMaxTimeDiff := 0
  realityLimitFallbackUploadBytesPerSec := 0
  realityLimitFallbackDownloadBytesPerSec := 0
  realityMode := ""
  realityFallbackUpstream := ""
  flow := ""
  apiPort := 0
  network := ""
  path := ""
  hostHeader := ""
  serviceName := ""
  subprotocol := subprotocol
  security := "none"
  tlsServerName := ""
  tlsCert := ""
  tlsKey := ""
  tlsRejectUnknownSni := false
  xhttpMode := ""
  xhttpPaddingBytes := ""
  grpcMultiMode := false
  warp := none

def exampleHost : Host := ⟨false, fun _ => false⟩

def alice : Client := ⟨"1c8a", "u-alice", "alice", ""⟩

/-- A user without a login. -/
def bob : Client := ⟨"9b7d", "u-bob", "", ""⟩

def exampleWarp : WarpConfig := ⟨"key", some ["172.16.0.2/32"], "", "", [], 0⟩

def ruleTo (kind exit : String) (users : Slice String) : NodePolicyRule :=
  ⟨⟨[], ["198.51.100.0/24"], "", [], ""⟩, ⟨kind, exit, users⟩⟩

/-- An entry in the legacy drawing: one rule for a port, and the way into the link. -/
def legacyEntry : CascadeFragments where
  inbounds := []
  outbounds := [.object [("tag", .string "cascade-link-out-d1-0"), ("protocol", .string "vless")]]
  routingRules := [.object [("port", .string "443"), ("outboundTag", .string "blocked")],
    .object [("network", .string "tcp,udp"), ("outboundTag", .string "cascade-link-out-d1-0")]]
  observatory := none
  balancers := []

def entryInbounds : List InboundConfig :=
  [{ plainInbound "a" "vless" 443 with warp := some exampleWarp }, plainInbound "b" "socks" 1080]

def entryPolicy : List NodePolicyRule :=
  [ruleTo "warp" "" none, ruleTo "cascade" "cascade-link-out-chain-d1" (some ["u-alice"]),
    ruleTo "cascade" "cascade-link-out-d2-0" none]

theorem rendered_legacyEntry : ∃ doc report p,
    renderMultiConfigInto exampleHost entryInbounds [alice, bob] (some legacyEntry) 0 entryPolicy
        none = .ok (doc, report) ∧
      Rendered entryInbounds [alice, bob] (some legacyEntry) entryPolicy doc report p := by
  obtain ⟨⟨doc, report⟩, hok⟩ : ∃ x, renderMultiConfigInto exampleHost entryInbounds [alice, bob]
      (some legacyEntry) 0 entryPolicy none = .ok x :=
    Checked.exists_ok_of_isSome (by decide +kernel)
  obtain ⟨p, hp⟩ := rendered hok
  exact ⟨doc, report, p, hok, hp⟩

/-- An entry whose one way out is drawn twice. -/
def repeatedEntry : CascadeFragments where
  inbounds := []
  outbounds := [.object [("tag", .string "cascade-link-out-d1-0")],
    .object [("tag", .string "cascade-link-out-d1-0")]]
  routingRules := []
  observatory := none
  balancers := []

/-- A rule to WARP where no inbound has one leads to no outbound, a tag the fragments repeat is that
of two, and a user without a login is not on the socks inbound of their scope. -/
theorem dangling_and_repeated : ∃ doc report,
    renderMultiConfigInto exampleHost [plainInbound "b" "socks" 1080] [alice, bob]
        (some repeatedEntry) 8080
        [ruleTo "warp" "" none, ruleTo "cascade" "cascade-link-out-d1-0" none] none
      = .ok (doc, report) ∧
    (.field { ip := ["198.51.100.0/24"], outboundTag := "warp" } ∈ doc.routing.rules ∧
      doc.tagged "warp" = 0) ∧
    (.field { ip := ["198.51.100.0/24"], outboundTag := "cascade-link-out-d1-0" }
        ∈ doc.routing.rules ∧ doc.tagged "cascade-link-out-d1-0" = 2) ∧
    InScope bob (plainInbound "b" "socks" 1080) ∧
    (doc.userEntries.map fun entry => (entry.tag, entry.settings.members))
      = [("vless-in-b", [("alice", "1c8a")])] := by
  exact Checked.exists_ok_of_decide (by decide +kernel)

end Document

end Iceslab.Agent.Xray
