import Iceslab.DeviceMatchers
import Iceslab.Lib.FirstMatch
import Iceslab.Lib.IpText

/-!
# The device rules as the clients read them

A client reads a config into rules of its own: each rule is a list of alternatives of every kind it
names, and the first rule that matches a connection decides it.

* `Atom.holds`, `verdict` — when a rule matches and what a list of rules decides.
* `readXray_rules`, `readSingbox_rules` — what xray and sing-box read, rule by rule.
* `readXray_verdict`, `readSingbox_verdict` — the first rule one of whose matchers holds decides.
-/

set_option autoImplicit false

namespace Iceslab.Subscription

open JsText

/-! ## Connections -/

/-- Where a connection goes: a name nobody resolves, or an address without a name. -/
inductive Destination where
  | name (s : String)
  | address (bytes : List UInt8)
  deriving DecidableEq, Repr

structure Connection where
  dest : Destination
  port : Nat
  deriving DecidableEq, Repr

/-- The lists of one client, each under the name the client knows it by. -/
structure GeoData where
  geosite : String → String → Bool
  geoip : String → List UInt8 → Bool

/-- What the three clients bring along. -/
structure Clients where
  xray : GeoData
  clash : GeoData
  /-- the remote sets of sing-box -/
  ruleSet : String → Destination → Bool
  /-- `ip_is_private` -/
  isPrivate : List UInt8 → Bool
  /-- whether a pattern matches a name -/
  regexp : String → String → Bool
  /-- whether an address is in a network -/
  network : String → List UInt8 → Bool

def Destination.isName (d : Destination) (p : String → Bool) : Bool :=
  match d with
  | .name s => p s
  | .address _ => false

def Destination.isAddress (d : Destination) (p : List UInt8 → Bool) : Bool :=
  match d with
  | .name _ => false
  | .address bytes => p bytes

def Atom.holds (c : Clients) (geo : GeoData) (x : Connection) : Atom → Bool
  | .suffix d => x.dest.isName fun s =>
      decide (s = d) || ("." ++ d).toList.isSuffixOf s.toList
  | .full d => x.dest.isName fun s => decide (s = d)
  | .keyword t => x.dest.isName fun s => decide (t.toList <:+: s.toList)
  | .regexp p => x.dest.isName (c.regexp p)
  | .geosite tag => x.dest.isName (geo.geosite tag)
  | .geoip tag => x.dest.isAddress (geo.geoip tag)
  | .network cidr => x.dest.isAddress (c.network cidr)
  | .port lo hi => decide (lo ≤ x.port ∧ x.port ≤ hi)
  | .ruleSet tag => c.ruleSet tag x.dest
  | .isPrivate => x.dest.isAddress c.isPrivate

/-- A rule: one alternative of each of its groups has to hold. -/
structure Rule where
  groups : List (List Atom)
  action : DeviceRouteAction
  deriving DecidableEq, Repr

def Rule.matches (c : Clients) (geo : GeoData) (x : Connection) (r : Rule) : Bool :=
  r.groups.all fun g => g.any (Atom.holds c geo x)

def verdict (c : Clients) (geo : GeoData) (x : Connection) (program : List Rule) :
    Option DeviceRouteAction :=
  FirstMatch.verdict (Rule.matches c geo x) Rule.action program

/-- The groups a rule has something in. -/
def present (groups : List (List Atom)) : List (List Atom) := groups.filter (· ≠ [])

/-- One rule for each kind that has matchers. -/
def apart (action : DeviceRouteAction) (kinds : List (List Atom)) : List Rule :=
  (present kinds).map fun g => ⟨[g], action⟩

/-- The first rule with a matcher that holds decides. -/
def decided (holds : String → Bool) (carried : DeviceRouteAction → Bool)
    (rules : List DeviceRouteRule) : Option DeviceRouteAction :=
  FirstMatch.verdict (fun r => carried r.action && r.matchers.any holds)
    DeviceRouteRule.action rules

variable {action : DeviceRouteAction}

section Apart

variable {c : Clients} {geo : GeoData} {x : Connection}

theorem Rule.matches_one (g : List Atom) (action : DeviceRouteAction) :
    Rule.matches c geo x ⟨[g], action⟩ = g.any (Atom.holds c geo x) := by
  simp [Rule.matches]

theorem present_nil : present [] = [] := rfl

theorem present_cons (g : List Atom) (groups : List (List Atom)) :
    present (g :: groups) = if g = [] then present groups else g :: present groups := by
  by_cases hg : g = []
  · rw [if_pos hg, present, List.filter_cons_of_neg (by simpa using hg), present]
  · rw [if_neg hg, present, List.filter_cons_of_pos (by simpa using hg), present]

theorem mem_present {groups : List (List Atom)} {g : List Atom} :
    g ∈ present groups ↔ g ∈ groups ∧ g ≠ [] := by
  simp [present]

/-- Rules of their own decide like one list of alternatives. -/
theorem verdict_apart (action : DeviceRouteAction) (kinds : List (List Atom)) :
    verdict c geo x (apart action kinds) =
      if kinds.flatten.any (Atom.holds c geo x) then some action else none := by
  have hconst : ∀ r ∈ apart action kinds, r.action = action := by
    intro r hr
    obtain ⟨g, -, rfl⟩ := List.mem_map.mp hr
    rfl
  have hany : (apart action kinds).any (Rule.matches c geo x) =
      kinds.flatten.any (Atom.holds c geo x) := by
    rw [Bool.eq_iff_iff, List.any_eq_true, List.any_eq_true]
    constructor
    · rintro ⟨r, hr, hmatch⟩
      obtain ⟨g, hg, rfl⟩ := List.mem_map.mp hr
      rw [Rule.matches_one, List.any_eq_true] at hmatch
      obtain ⟨a, ha, hholds⟩ := hmatch
      exact ⟨a, List.mem_flatten.mpr ⟨g, (mem_present.mp hg).1, ha⟩, hholds⟩
    · rintro ⟨a, ha, hholds⟩
      obtain ⟨g, hg, hag⟩ := List.mem_flatten.mp ha
      refine ⟨⟨[g], action⟩, List.mem_map_of_mem (mem_present.mpr ⟨hg, List.ne_nil_of_mem hag⟩), ?_⟩
      rw [Rule.matches_one, List.any_eq_true]
      exact ⟨a, hag, hholds⟩
  rw [verdict, FirstMatch.verdict_const hconst, hany]

/-- Rules that hold an atom of every matcher, and nothing else, decide by the matchers. -/
theorem verdict_apart_of {α : Type} (action : DeviceRouteAction) {kinds : List (List Atom)}
    {ms : List α} {atom : α → Atom} (h : ∀ a, a ∈ kinds.flatten ↔ ∃ m ∈ ms, atom m = a) :
    verdict c geo x (apart action kinds) =
      if ms.any (fun m => (atom m).holds c geo x) then some action else none := by
  have hany : kinds.flatten.any (Atom.holds c geo x) =
      ms.any fun m => (atom m).holds c geo x := by
    rw [Bool.eq_iff_iff, List.any_eq_true, List.any_eq_true]
    constructor
    · rintro ⟨a, ha, hholds⟩
      obtain ⟨m, hm, rfl⟩ := (h a).mp ha
      exact ⟨m, hm, hholds⟩
    · rintro ⟨m, hm, hholds⟩
      exact ⟨atom m, (h (atom m)).mpr ⟨m, hm, rfl⟩, hholds⟩
  rw [verdict_apart, hany]

/-- An alternative of one of the rules. -/
def Offers (program : List Rule) (a : Atom) (action : DeviceRouteAction) : Prop :=
  ∃ g, a ∈ g ∧ Rule.mk [g] action ∈ program

theorem offers_apart {kinds : List (List Atom)} {a : Atom}
    (h : a ∈ kinds.flatten) : Offers (apart action kinds) a action := by
  obtain ⟨g, hg, hag⟩ := List.mem_flatten.mp h
  exact ⟨g, hag, List.mem_map_of_mem (mem_present.mpr ⟨hg, List.ne_nil_of_mem hag⟩)⟩

end Apart

section Reading

variable {α β γ : Type} {f : α → Option β}

theorem mapM_append_eq_some {l l' : List α} {r r' : List β}
    (h : l.mapM f = some r) (h' : l'.mapM f = some r') : (l ++ l').mapM f = some (r ++ r') := by
  rw [List.mapM_append, h, h']
  rfl

theorem mapM_flatMap_eq_some {pieces : γ → List α} {read : γ → List β}
    {l : List γ} (h : ∀ x ∈ l, (pieces x).mapM f = some (read x)) :
    (l.flatMap pieces).mapM f = some (l.flatMap read) := by
  induction l with
  | nil => rfl
  | cons x l ih =>
    rw [List.flatMap_cons, List.flatMap_cons]
    exact mapM_append_eq_some (h x List.mem_cons_self)
      (ih fun y hy => h y (List.mem_cons_of_mem x hy))

/-- A list read whole is read in every place. -/
theorem exists_of_mapM {l : List α} {r : List β} (h : l.mapM f = some r) :
    (∀ a ∈ l, ∃ b ∈ r, f a = some b) ∧ ∀ b ∈ r, ∃ a ∈ l, f a = some b := by
  have hall := IpText.mapM_eq_some_iff.mp h
  clear h
  induction hall with
  | nil => exact ⟨nofun, nofun⟩
  | cons hab _ ih =>
    rw [List.forall_mem_cons, List.forall_mem_cons]
    simp only [List.exists_mem_cons_iff, hab, true_or, true_and]
    exact ⟨fun a ha => .inr (ih.1 a ha), fun b hb => .inr (ih.2 b hb)⟩

end Reading

/-! ## xray -/

def xrayAction (target : XrayTarget) : DeviceRouteAction :=
  if target = .outboundTag "direct" then .direct
  else if target = .outboundTag "block" then .block
  else .proxy

/-- The fields of a rule all have to match; a port it cannot read refuses the config. -/
def XrayFieldRule.read (r : XrayFieldRule) : Option Rule :=
  (((r.port.map (split ',')).getD []).mapM (readPort '-')).map fun ports =>
    ⟨present [r.domain.map xrayDomainAtom, r.ip.map xrayIpAtom, ports], xrayAction r.target⟩

def readXray (rules : List XrayFieldRule) : Option (List Rule) := rules.mapM XrayFieldRule.read

/-- A proxy of the config is neither of its built-in outbounds. -/
def IsXrayProxy (target : XrayTarget) : Prop :=
  target ≠ .outboundTag "direct" ∧ target ≠ .outboundTag "block"

instance (target : XrayTarget) : Decidable (IsXrayProxy target) :=
  inferInstanceAs (Decidable (_ ∧ _))

section Xray

variable {proxy : Option XrayTarget} {rules : List DeviceRouteRule} {matchers : List String}

def xrayCarried (proxy : Option XrayTarget) (action : DeviceRouteAction) : Bool :=
  (xrayTarget proxy action).isSome

/-- The rules xray reads for one device rule. -/
def xrayKinds (matchers : List String) : List (List Atom) :=
  [.domain, .ip, .port].map fun kind => (byKind kind matchers).map atomOf

theorem mem_byKind {kind : MatcherKind} {m : String} :
    m ∈ byKind kind matchers ↔ m ∈ matchers ∧ kindOf m = kind := by
  simp [byKind]

theorem mem_xrayKinds (a : Atom) :
    a ∈ (xrayKinds matchers).flatten ↔ ∃ m ∈ matchers, atomOf m = a := by
  constructor
  · intro h
    obtain ⟨g, hg, ha⟩ := List.mem_flatten.mp h
    obtain ⟨kind, -, rfl⟩ := List.mem_map.mp hg
    obtain ⟨m, hm, rfl⟩ := List.mem_map.mp ha
    exact ⟨m, (mem_byKind.mp hm).1, rfl⟩
  · rintro ⟨m, hm, rfl⟩
    refine List.mem_flatten.mpr ⟨(byKind (kindOf m) matchers).map atomOf, ?_,
      List.mem_map_of_mem (mem_byKind.mpr ⟨hm, rfl⟩)⟩
    refine List.mem_map_of_mem (a := kindOf m) ?_
    cases kindOf m <;> decide

theorem readPort_chars {sep : Char} {s : String} {a : Atom} (h : readPort sep s = some a) :
    ∀ c ∈ s.toList, c = sep ∨ c.isDigit = true := by
  intro c hc
  rcases mem_splitOn_of_mem hc (c := sep) with rfl | ⟨w, hw, hcw⟩
  · exact .inl rfl
  · have hword : String.ofList w ∈ split sep s := List.mem_map_of_mem hw
    have hdigits : isDigits (String.ofList w) = true := by
      unfold readPort at h
      split at h
      · rename_i lo hsplit
        split at h
        · rename_i hlo
          rw [hsplit, List.mem_singleton] at hword
          rwa [hword]
        · cases h
      · rename_i lo hi hsplit
        split at h
        · rename_i hdigits
          rw [hsplit, List.mem_cons, List.mem_singleton] at hword
          rcases hword with hword | hword <;> rw [hword]
          · exact hdigits.1
          · exact hdigits.2
        · cases h
      · cases h
    exact .inr ((isDigits_iff.mp hdigits).2 c (by rwa [String.toList_ofList]))

theorem notMem_comma_portText {m : String} (h : Shape m) (hkind : kindOf m = .port) :
    ',' ∉ (portText m).toList := by
  intro hc
  rcases readPort_chars (readPort_portText h hkind) ',' hc with h | h
  · exact absurd h (by decide)
  · exact absurd h (by decide)

theorem mapM_piece {α : Type} {read : α → Option Rule}
    {g : List Atom} {r : α} {P : Prop} [Decidable P] (hg : g ≠ [] ↔ P)
    (h : P → read r = some ⟨[g], action⟩) :
    (if P then [r] else []).mapM read = some (apart action [g]) := by
  by_cases hP : P
  · rw [if_pos hP, apart, present_cons, if_neg (hg.mpr hP), List.mapM_cons, h hP]
    rfl
  · rw [if_neg hP, apart, present_cons, if_pos (not_not.mp (mt hg.mp hP))]
    rfl

theorem apart_cons (action : DeviceRouteAction) (g : List Atom) (kinds : List (List Atom)) :
    apart action (g :: kinds) = apart action [g] ++ apart action kinds := by
  simp only [apart, present, ← List.map_append, ← List.filter_append]
  rfl

theorem mapM_rulesOf {target : XrayTarget} (h : ∀ m ∈ matchers, Shape m) :
    (xrayRulesOf matchers target).mapM XrayFieldRule.read =
      some (apart (xrayAction target) (xrayKinds matchers)) := by
  have hof {kind : MatcherKind} (read : String → Atom) (hkind : ∀ m, Shape m → kindOf m = kind →
      read m = atomOf m) : (byKind kind matchers).map read = (byKind kind matchers).map atomOf :=
    List.map_congr_left fun m hm =>
      hkind m (h m (mem_byKind.mp hm).1) (mem_byKind.mp hm).2
  have hnil {kind : MatcherKind} :
      (byKind kind matchers).map atomOf = [] ↔ byKind kind matchers = [] := List.map_eq_nil_iff
  have hdomain := hof (xrayDomainAtom ∘ xrayDomain) fun m hm hk =>
    xrayDomainAtom_atomOf hm hk
  have hip := hof xrayIpAtom fun m hm hk => xrayIpAtom_atomOf hm hk
  have hport : (byKind .port matchers).mapM (readPort '-' ∘ portText) =
      some ((byKind .port matchers).map atomOf) :=
    IpText.mapM_eq_some fun m hm =>
      readPort_portText (h m (mem_byKind.mp hm).1) (mem_byKind.mp hm).2
  have hsplit (hne : byKind .port matchers ≠ []) :
      split ',' (",".intercalate ((byKind .port matchers).map portText)) =
        (byKind .port matchers).map portText := by
    refine split_intercalate ?_ (by simpa using hne)
    intro w hw
    obtain ⟨m, hm, rfl⟩ := List.mem_map.mp hw
    exact notMem_comma_portText (h m (mem_byKind.mp hm).1) (mem_byKind.mp hm).2
  have hthree (d i p : List Atom) : apart (xrayAction target) [d, i, p] =
      apart (xrayAction target) [d] ++ apart (xrayAction target) [i]
        ++ apart (xrayAction target) [p] := by
    rw [apart_cons, apart_cons _ i, List.append_assoc]
  unfold xrayRulesOf xrayKinds
  dsimp only
  rw [List.map_cons, List.map_cons, List.map_cons, List.map_nil, hthree]
  refine mapM_append_eq_some (mapM_append_eq_some ?_ ?_) ?_
  · refine mapM_piece (not_congr hnil) fun hne => ?_
    simp only [XrayFieldRule.read, List.map_map, hdomain, List.map_nil, Option.map_none,
      Option.getD_none, List.mapM_nil, Option.pure_def, Option.map_some, present_cons,
      if_neg (mt hnil.mp hne), if_true, present_nil]
  · refine mapM_piece (not_congr hnil) fun hne => ?_
    simp only [XrayFieldRule.read, hip, List.map_nil, Option.map_none,
      Option.getD_none, List.mapM_nil, Option.pure_def, Option.map_some, present_cons,
      if_neg (mt hnil.mp hne), if_true, present_nil]
  · refine mapM_piece (not_congr hnil) fun hne => ?_
    simp only [XrayFieldRule.read, hsplit hne, List.map_nil, Option.map_some, Option.getD_some,
      List.mapM_map, hport, present_cons, if_neg (mt hnil.mp hne), if_true, present_nil]

/-- What xray reads: for each rule it carries, one rule of each kind. -/
theorem readXray_rules (h : ∀ r ∈ rules, ∀ m ∈ r.matchers, Shape m) :
    readXray (xrayDeviceRules rules proxy) = some (rules.flatMap fun r =>
      match xrayTarget proxy r.action with
      | none => []
      | some target => apart (xrayAction target) (xrayKinds r.matchers)) := by
  refine mapM_flatMap_eq_some fun r hr => ?_
  cases xrayTarget proxy r.action with
  | none => rfl
  | some target => exact mapM_rulesOf (h r hr)

theorem xrayAction_of_target (hproxy : ∀ t ∈ proxy, IsXrayProxy t)
    {target : XrayTarget} (h : xrayTarget proxy action = some target) :
    xrayAction target = action := by
  cases action with
  | direct =>
    cases h
    rfl
  | block =>
    cases h
    rfl
  | proxy =>
    obtain ⟨hdirect, hblock⟩ := hproxy target h
    rw [xrayAction, if_neg hdirect, if_neg hblock]

/-- **The first rule one of whose matchers holds decides in xray.** -/
theorem readXray_verdict (h : ∀ r ∈ rules, ∀ m ∈ r.matchers, Shape m)
    (hproxy : ∀ t ∈ proxy, IsXrayProxy t) (c : Clients) (geo : GeoData) (x : Connection) :
    (readXray (xrayDeviceRules rules proxy)).map (verdict c geo x) =
      some (decided (fun m => (atomOf m).holds c geo x) (xrayCarried proxy) rules) := by
  rw [readXray_rules h, Option.map_some, verdict, decided]
  refine congrArg some (FirstMatch.verdict_flatMap fun r hr => ?_)
  rw [xrayCarried]
  cases htarget : xrayTarget proxy r.action with
  | none => rfl
  | some target =>
    rw [Option.isSome_some, Bool.true_and, ← verdict_apart_of r.action mem_xrayKinds]
    dsimp only
    rw [xrayAction_of_target hproxy htarget, verdict]

end Xray

end Iceslab.Subscription
