import Iceslab.DeviceClash
import Iceslab.DeviceSingbox

/-!
# A device routing preset in three formats

One list of rules, three clients.  The Clash file is the one that can go wrong: its lines have no
quotes, so a payload or a group name with a comma, or with something YAML takes for its own, is not
what mihomo reads.

* `Agree` — the three clients decide every connection alike, and each matcher is in each format.
* `Writable` — the payload and the target of a matcher go through a Clash line.
* `device_rules_agree_iff` — the formats agree exactly when every matcher is writable.
* `regexp_with_comma` — a pattern with a repetition count is not.
-/

set_option autoImplicit false

namespace Iceslab.Subscription

open JsText

/-! ## The three configs -/

/-- Where the `proxy` rules of the three configs go: a proxy of each of them. -/
structure ProxyTargets where
  xray : XrayTarget
  clash : String
  singbox : String
  xray_proxy : IsXrayProxy xray
  clash_proxy : clash ≠ "" ∧ clash ≠ "DIRECT" ∧ clash ≠ "REJECT"
  singbox_proxy : singbox ≠ "" ∧ singbox ≠ "direct"

section Configs

variable (lib : CaseLib) (rules : List DeviceRouteRule) (targets : Option ProxyTargets)

/-- What xray reads. -/
def xrayProgram : Option (List Rule) :=
  readXray (xrayDeviceRules rules (targets.map ProxyTargets.xray))

/-- What mihomo reads. -/
def clashProgram : Option (List Rule) :=
  readClash (targets.map ProxyTargets.clash)
    (clashDeviceRuleLines lib rules (targets.map ProxyTargets.clash))

/-- What sing-box reads. -/
def singboxProgram : Option (List Rule) :=
  readSingbox (singboxDeviceRoute lib rules (targets.map ProxyTargets.singbox))

/-- The lists have the same contents under the names each client knows them by. -/
structure SameLists (c : Clients) : Prop where
  geosite : ∀ tag, c.clash.geosite tag = c.xray.geosite tag
  geoip : ∀ tag, c.clash.geoip (lib.toUpperCase tag) = c.xray.geoip tag
  geosite_set : ∀ tag d,
    c.ruleSet ("geosite-" ++ lib.toLowerCase tag) d = d.isName (c.xray.geosite tag)
  geoip_set : ∀ tag d,
    c.ruleSet ("geoip-" ++ lib.toLowerCase tag) d = d.isAddress (c.xray.geoip tag)
  /-- the private ranges are written out for mihomo, and built into sing-box -/
  ranges : ∀ ip, c.xray.geoip "private" ip = privateNetworks.any fun cidr => c.network cidr ip
  isPrivate : ∀ ip, c.isPrivate ip = c.xray.geoip "private" ip

/-- A `proxy` rule is left out where there is no proxy. -/
def carried (action : DeviceRouteAction) : Bool := decide (action ≠ .proxy) || targets.isSome

/-- A matcher of a rule is an alternative of its own in each of the programs, under the action. -/
structure Appears (m : String) (action : DeviceRouteAction) : Prop where
  xray : ∃ p, xrayProgram rules targets = some p ∧ Offers p (atomOf m) action
  clash : ∃ p, clashProgram lib rules targets = some p ∧
    ∀ a ∈ clashAtoms lib (atomOf m), Offers p a action
  singbox : ∃ p, singboxProgram lib rules targets = some p ∧
    Offers p (singboxAtom lib (atomOf m)) action

/-- The formats say the same. -/
structure Agree : Prop where
  verdicts : ∀ c, SameLists lib c → ∀ x, ∃ v,
    (xrayProgram rules targets).map (verdict c c.xray x) = some v ∧
    (clashProgram lib rules targets).map (verdict c c.clash x) = some v ∧
    (singboxProgram lib rules targets).map (verdict c c.xray x) = some v
  appears : ∀ r ∈ rules, carried targets r.action = true → ∀ m ∈ r.matchers,
    Appears lib rules targets m r.action

/-- The payload of a matcher goes through a line, and so does the group of a `proxy` rule, at the
end of the line where no option follows it. -/
def Writable (action : DeviceRouteAction) (m : String) : Prop :=
  (m = "geoip:private" ∨ PlainField (clashPayload lib m)) ∧
    (action = .proxy → ∀ t ∈ targets,
      PlainField t.clash ∧ (takesNoResolve m = true ∨ endsPlain t.clash.toList = true))

end Configs

/-! ## Lists under other names -/

section Names

variable {lib : CaseLib} {c : Clients}

theorem clashAtoms_any (h : SameLists lib c) (x : Connection) (a : Atom) :
    (clashAtoms lib a).any (Atom.holds c c.clash x) = a.holds c c.xray x := by
  cases a with
  | geoip tag =>
    by_cases hprivate : tag = "private"
    · subst hprivate
      rw [clashAtoms, if_pos rfl, List.any_map]
      cases hd : x.dest with
      | name s => simp [Atom.holds, Destination.isAddress, Function.comp_def, hd]
      | address ip =>
        simp only [Atom.holds, Destination.isAddress, Function.comp_def, hd]
        exact (h.ranges ip).symm
    · rw [clashAtoms, if_neg hprivate]
      simp [Atom.holds, h.geoip]
  | geosite tag => simp [clashAtoms, Atom.holds, h.geosite]
  | _ => simp [clashAtoms, Atom.holds]

theorem singboxAtom_holds (h : SameLists lib c) (x : Connection) (a : Atom) :
    (singboxAtom lib a).holds c c.xray x = a.holds c c.xray x := by
  cases a with
  | geoip tag =>
    rw [singboxAtom]
    split
    · rename_i hprivate
      subst hprivate
      simp only [Atom.holds, funext h.isPrivate]
    · simp only [Atom.holds, h.geoip_set]
  | geosite tag => simp only [singboxAtom, Atom.holds, h.geosite_set]
  | _ => rfl

end Names

/-! ## Clash lines -/

variable {m : String} {a : Atom}

section Lines

variable {lib : CaseLib} {group : Option String} {target : String} {action : DeviceRouteAction}

theorem readClashLine_entry {e : ClashEntry} (hkind : e.kind ∈ clashKinds)
    (hread : clashAtom e.kind e.payload = some a) (hpayload : PlainField e.payload)
    (htarget : PlainField target) (hend : e.noResolve = true ∨ endsPlain target.toList = true)
    (haction : clashAction group target = some action) :
    readClashLine group (clashLine target e.body) = some ⟨[[a]], action⟩ := by
  have hplain : (fieldPlain e.payload && fieldPlain target
      && (e.noResolve || endsPlain target.toList)) = true := by
    rw [hpayload.1, htarget.1, Bool.true_and, Bool.true_and, Bool.or_eq_true]
    exact hend
  rw [readClashLine, readItem_clashLine hkind, if_pos hplain, Option.bind_some,
    split_item hkind hpayload.2 htarget.2]
  dsimp only
  rw [hread, Option.bind_some, haction]
  rfl

theorem mapM_matcher (h : Shape m)
    (hpayload : m = "geoip:private" ∨ PlainField (clashPayload lib m)) (htarget : PlainField target)
    (hend : takesNoResolve m = true ∨ endsPlain target.toList = true)
    (haction : clashAction group target = some action) :
    ((clashMatcher lib m).map (clashLine target)).mapM (readClashLine group) =
      some ((clashAtoms lib (atomOf m)).map fun a => ⟨[[a]], action⟩) := by
  by_cases hprivate : m = "geoip:private"
  · subst hprivate
    have hentries : ∀ e ∈ privateEntries, e.kind ∈ clashKinds ∧ PlainField e.payload ∧
        e.noResolve = true ∧ clashAtom e.kind e.payload = some (.network e.payload) := by decide
    have hatoms : clashAtoms lib (atomOf "geoip:private") =
        privateEntries.map fun e => .network e.payload := by
      rw [show "geoip:private" = "geoip:" ++ "private" from rfl, atomOf_geoip, clashAtoms,
        if_pos rfl]
      rfl
    rw [clashMatcher_private, hatoms, List.map_map, List.map_map, List.mapM_map]
    refine IpText.mapM_eq_some fun e he => ?_
    obtain ⟨hkind, hplain, hno, hread⟩ := hentries e he
    exact readClashLine_entry hkind hread hplain htarget (.inl hno) haction
  · obtain ⟨e, a, he⟩ : ∃ e a, EntryOf lib m e a := exists_entryOf h hprivate
    have hplain := he.plain.mpr (hpayload.resolve_left hprivate)
    rw [he.written, he.atoms, List.map_singleton, List.mapM_cons,
      readClashLine_entry he.kind he.read hplain htarget (by rwa [he.option]) haction]
    rfl

/-- The rules mihomo reads for one device rule. -/
def clashRules (lib : CaseLib) (r : DeviceRouteRule) : List Rule :=
  r.matchers.flatMap fun m => (clashAtoms lib (atomOf m)).map fun a => ⟨[[a]], r.action⟩

theorem verdict_clashRules {c : Clients} (hlists : SameLists lib c) (x : Connection)
    (r : DeviceRouteRule) : verdict c c.clash x (clashRules lib r) =
      if r.matchers.any fun m => (atomOf m).holds c c.xray x then some r.action else none := by
  have hconst : ∀ rule ∈ clashRules lib r, rule.action = r.action := by
    intro rule hrule
    obtain ⟨m, -, hm⟩ := List.mem_flatMap.mp hrule
    obtain ⟨a, -, rfl⟩ := List.mem_map.mp hm
    rfl
  have hany (m : String) : ((clashAtoms lib (atomOf m)).map fun a => Rule.mk [[a]] r.action).any
      (Rule.matches c c.clash x) = (atomOf m).holds c c.xray x := by
    rw [← clashAtoms_any hlists, List.any_map]
    congr 1
    funext a
    rw [Function.comp_apply, Rule.matches_one, List.any_cons, List.any_nil, Bool.or_false]
  rw [verdict, FirstMatch.verdict_const hconst, clashRules, List.any_flatMap]
  simp only [hany]

end Lines

/-! ## Agreement -/

section Agreement

variable {lib : CaseLib} {rules : List DeviceRouteRule} {targets : Option ProxyTargets}
  {r : DeviceRouteRule} {action : DeviceRouteAction}

theorem xrayCarried_eq (targets : Option ProxyTargets) (action : DeviceRouteAction) :
    xrayCarried (targets.map ProxyTargets.xray) action = carried targets action := by
  cases action <;> cases targets <;> rfl

theorem singboxCarried_eq (targets : Option ProxyTargets) (action : DeviceRouteAction) :
    singboxCarried (targets.map ProxyTargets.singbox) action = carried targets action := by
  cases action with
  | direct => rfl
  | block => rfl
  | proxy =>
    cases targets with
    | none => rfl
    | some t =>
      simp [singboxCarried, singboxAction, carried, Option.filter_some, t.singbox_proxy.1]

theorem clashTarget_of_carried (h : carried targets action = true) :
    ∃ target, clashTarget (targets.map ProxyTargets.clash) action = some target ∧
      clashAction (targets.map ProxyTargets.clash) target = some action ∧
      (action = .proxy → ∃ t ∈ targets, target = t.clash) ∧
      (action ≠ .proxy → PlainField target ∧ endsPlain target.toList = true) := by
  cases action with
  | direct => exact ⟨"DIRECT", rfl, rfl, nofun, fun _ => by decide⟩
  | block => exact ⟨"REJECT", rfl, rfl, nofun, fun _ => by decide⟩
  | proxy =>
    cases targets with
    | none => cases h
    | some t =>
      obtain ⟨hne, hdirect, hreject⟩ := t.clash_proxy
      refine ⟨t.clash, ?_, ?_, fun _ => ⟨t, rfl, rfl⟩, fun hne => absurd rfl hne⟩
      · simp [clashTarget, Option.filter_some, hne]
      · simp [clashAction, hdirect, hreject]

theorem clashTarget_of_not_carried (h : carried targets action = false) :
    clashTarget (targets.map ProxyTargets.clash) action = none := by
  cases action with
  | direct => cases h
  | block => cases h
  | proxy =>
    cases targets with
    | none => rfl
    | some t => cases h

/-- **A Clash file of writable matchers is read as it is meant.** -/
theorem clashProgram_of_writable (hshape : ∀ r ∈ rules, ∀ m ∈ r.matchers, Shape m)
    (h : ∀ r ∈ rules, carried targets r.action = true → ∀ m ∈ r.matchers,
      Writable lib targets r.action m) :
    clashProgram lib rules targets =
      some (rules.flatMap fun r => if carried targets r.action then clashRules lib r else []) := by
  refine mapM_flatMap_eq_some fun r hr => ?_
  cases hcarried : carried targets r.action with
  | false =>
    rw [clashTarget_of_not_carried hcarried]
    rfl
  | true =>
    obtain ⟨target, htarget, haction, hproxy, hbuiltin⟩ := clashTarget_of_carried hcarried
    rw [htarget, if_pos rfl]
    refine mapM_flatMap_eq_some fun m hm => ?_
    obtain ⟨hpayload, hgroup⟩ := h r hr hcarried m hm
    by_cases hp : r.action = .proxy
    · obtain ⟨t, ht, rfl⟩ := hproxy hp
      obtain ⟨hplain, hend⟩ := hgroup hp t ht
      exact mapM_matcher (hshape r hr m hm) hpayload hplain hend haction
    · obtain ⟨hplain, hend⟩ := hbuiltin hp
      exact mapM_matcher (hshape r hr m hm) hpayload hplain (.inr hend) haction

/-! ### What a file that is read says of its fields -/

/-- The text of an atom, where it has one. -/
def Atom.text : Atom → Option String
  | .suffix s => some s
  | .full s => some s
  | .keyword s => some s
  | .regexp s => some s
  | .geosite s => some s
  | .geoip s => some s
  | .network s => some s
  | .ruleSet s => some s
  | .port _ _ => none
  | .isPrivate => none

theorem clashAtom_text {kind payload : String} (h : clashAtom kind payload = some a) :
    a.text = some payload ∨ (a.text = none ∧ ',' ∉ payload.toList) := by
  have hname {b : String → Atom} (hb : (b payload).text = some payload)
      (heq : some (b payload) = some a) : a.text = some payload := Option.some.inj heq ▸ hb
  unfold clashAtom at h
  iterate 7
    split at h
    · exact .inl (hname rfl h)
  split at h
  · refine .inr ⟨?_, fun hmem => ?_⟩
    · unfold readPort at h
      split at h
      · split at h <;> cases h
        rfl
      · split at h <;> cases h
        rfl
      · cases h
    · rcases readPort_chars h ',' hmem with h | h
      · exact absurd h (by decide)
      · exact absurd h (by decide)
  · cases h

/-- Whatever is read from a line has no comma in it. -/
theorem fields_of_readClashLine {group : Option String} {line : String}
    (h : readClashLine group line = some ⟨[[a]], action⟩) :
    ∃ kind payload target, ',' ∉ payload.toList ∧ ',' ∉ target.toList ∧
      clashAtom kind payload = some a ∧ clashAction group target = some action := by
  unfold readClashLine at h
  obtain ⟨item, -, h⟩ := Option.bind_eq_some_iff.mp h
  split at h
  · rename_i kind payload target options hsplit
    obtain ⟨a', ha, h⟩ := Option.bind_eq_some_iff.mp h
    obtain ⟨action', haction, h⟩ := Option.map_eq_some_iff.mp h
    have hwords (w : String) (hw : w ∈ [kind, payload, target]) : ',' ∉ w.toList := by
      refine notMem_of_mem_split (s := item) ?_
      rw [hsplit]
      simp only [List.mem_cons, List.not_mem_nil, or_false] at hw ⊢
      tauto
    cases h
    exact ⟨kind, payload, target, hwords payload (by simp), hwords target (by simp), ha, haction⟩
  · cases h

/-- The text of an atom that was read has no comma. -/
theorem notMem_comma_of_read {kind payload kind' payload' : String}
    (h : clashAtom kind payload = some a) (h' : clashAtom kind' payload' = some a)
    (hcomma : ',' ∉ payload'.toList) : ',' ∉ payload.toList := by
  rcases clashAtom_text h with htext | ⟨-, hnone⟩
  · rcases clashAtom_text h' with htext' | ⟨hnone', -⟩
    · rw [htext] at htext'
      rwa [Option.some.inj htext']
    · rw [htext] at hnone'
      cases hnone'
  · exact hnone

theorem line_mem (hr : r ∈ rules) (hm : m ∈ r.matchers)
    {group : Option String} {target : String} (htarget : clashTarget group r.action = some target)
    {b : ClashBody} (hb : b ∈ clashMatcher lib m) :
    clashLine target b ∈ clashDeviceRuleLines lib rules group := by
  refine List.mem_flatMap.mpr ⟨r, hr, ?_⟩
  rw [htarget]
  exact List.mem_flatMap.mpr ⟨m, hm, List.mem_map_of_mem hb⟩

/-- The fields of a line that was read, and was read for what it says, are plain. -/
theorem plain_of_offers {prog : List Rule} (hprog : clashProgram lib rules targets = some prog)
    (hr : r ∈ rules) (hcarried : carried targets r.action = true)
    (hm : m ∈ r.matchers) {e : ClashEntry} (he : e.body ∈ clashMatcher lib m)
    (hkind : e.kind ∈ clashKinds) (hread : clashAtom e.kind e.payload = some a)
    (hoffers : Offers prog a r.action) :
    PlainField e.payload ∧ (r.action = .proxy → ∀ t ∈ targets,
      PlainField t.clash ∧ (e.noResolve = true ∨ endsPlain t.clash.toList = true)) := by
  obtain ⟨hlines, hrules⟩ := exists_of_mapM hprog
  obtain ⟨target, htarget, -, hproxy, -⟩ := clashTarget_of_carried hcarried
  -- the line of this entry is its own item
  obtain ⟨rule, -, hline⟩ := hlines _ (line_mem hr hm htarget he)
  have hplain : fieldPlain e.payload = true ∧ fieldPlain target = true ∧
      (e.noResolve = true ∨ endsPlain target.toList = true) := by
    rw [readClashLine, readItem_clashLine hkind] at hline
    split at hline
    · rename_i hparts
      simpa only [Bool.and_eq_true, Bool.or_eq_true, and_assoc] using hparts
    · cases hline
  -- the line the atom was read from has no commas in its fields
  obtain ⟨g, hag, hg⟩ := hoffers
  obtain ⟨line', -, hline'⟩ := hrules _ hg
  have hsingle : g = [a] := by
    unfold readClashLine at hline'
    obtain ⟨item, -, hline'⟩ := Option.bind_eq_some_iff.mp hline'
    split at hline'
    · obtain ⟨a', -, hline'⟩ := Option.bind_eq_some_iff.mp hline'
      obtain ⟨action', -, hline'⟩ := Option.map_eq_some_iff.mp hline'
      cases hline'
      rw [List.mem_singleton.mp hag]
    · cases hline'
  rw [hsingle] at hline'
  obtain ⟨kind', payload', target', hpayload', htarget', hread', haction'⟩ :=
    fields_of_readClashLine hline'
  refine ⟨⟨hplain.1, notMem_comma_of_read hread hread' hpayload'⟩, fun haction t ht => ?_⟩
  obtain ⟨t', ht', htarget⟩ := hproxy haction
  obtain rfl : t' = t := Option.some.inj (ht'.symm.trans ht)
  rw [htarget] at hplain
  refine ⟨⟨hplain.2.1, ?_⟩, hplain.2.2⟩
  rw [haction, clashAction] at haction'
  split at haction'
  · cases haction'
  · split at haction'
    · cases haction'
    · split at haction'
      · rename_i hgroup
        rw [Option.mem_def.mp ht, Option.map_some] at hgroup
        rwa [Option.some.inj hgroup]
      · cases haction'

/-- **A matcher that appears is writable.** -/
theorem writable_of_appears (hshape : ∀ r ∈ rules, ∀ m ∈ r.matchers, Shape m)
    (hr : r ∈ rules) (hcarried : carried targets r.action = true)
    (hm : m ∈ r.matchers) (h : Appears lib rules targets m r.action) :
    Writable lib targets r.action m := by
  obtain ⟨prog, hprog, hoffers⟩ := h.clash
  by_cases hprivate : m = "geoip:private"
  · subst hprivate
    have hentry : (⟨"IP-CIDR", "10.0.0.0/8", true⟩ : ClashEntry).body ∈
        clashMatcher lib "geoip:private" := by
      rw [clashMatcher_private]
      exact List.mem_cons_self
    have hatom : Atom.network "10.0.0.0/8" ∈ clashAtoms lib (atomOf "geoip:private") := by
      rw [show "geoip:private" = "geoip:" ++ "private" from rfl, atomOf_geoip, clashAtoms,
        if_pos rfl]
      exact List.mem_cons_self
    obtain ⟨-, hgroup⟩ := plain_of_offers hprog hr hcarried hm hentry (by decide) rfl
      (hoffers _ hatom)
    refine ⟨.inl rfl, fun haction t ht => ⟨(hgroup haction t ht).1, .inl ?_⟩⟩
    rw [takesNoResolve, decide_eq_true rfl, Bool.true_or]
  · obtain ⟨e, a, he⟩ : ∃ e a, EntryOf lib m e a := exists_entryOf (hshape r hr m hm) hprivate
    have hbody : e.body ∈ clashMatcher lib m := by
      rw [he.written]
      exact List.mem_cons_self
    have hatom : a ∈ clashAtoms lib (atomOf m) := by
      rw [he.atoms]
      exact List.mem_cons_self
    obtain ⟨hpayload, hgroup⟩ := plain_of_offers hprog hr hcarried hm hbody he.kind he.read
      (hoffers a hatom)
    refine ⟨.inr (he.plain.mp hpayload), fun haction t ht => ?_⟩
    rw [← he.option]
    exact hgroup haction t ht

/-! ### The formats together -/

theorem offers_flatMap {α : Type} {l : List α} {f : α → List Rule} {x : α} (hx : x ∈ l)
    (h : Offers (f x) a action) : Offers (l.flatMap f) a action := by
  obtain ⟨g, hag, hg⟩ := h
  exact ⟨g, hag, List.mem_flatMap.mpr ⟨x, hx, hg⟩⟩

theorem appears_xray (hshape : ∀ r ∈ rules, ∀ m ∈ r.matchers, Shape m)
    (hr : r ∈ rules) (hcarried : carried targets r.action = true) (hm : m ∈ r.matchers) :
    ∃ p, xrayProgram rules targets = some p ∧ Offers p (atomOf m) r.action := by
  refine ⟨_, readXray_rules hshape, offers_flatMap hr ?_⟩
  rw [← xrayCarried_eq, xrayCarried, Option.isSome_iff_exists] at hcarried
  obtain ⟨target, htarget⟩ := hcarried
  have hproxy : ∀ t ∈ targets.map ProxyTargets.xray, IsXrayProxy t := by
    intro t ht
    obtain ⟨t', -, rfl⟩ := Option.map_eq_some_iff.mp ht
    exact t'.xray_proxy
  rw [htarget]
  dsimp only
  rw [xrayAction_of_target hproxy htarget]
  exact offers_apart ((mem_xrayKinds _).mpr ⟨m, hm, rfl⟩)

theorem singbox_ne_direct (targets : Option ProxyTargets) :
    targets.map ProxyTargets.singbox ≠ some "direct" := by
  intro h
  obtain ⟨t, -, ht⟩ := Option.map_eq_some_iff.mp h
  exact t.singbox_proxy.2 ht

theorem appears_singbox (hshape : ∀ r ∈ rules, ∀ m ∈ r.matchers, Shape m)
    (hr : r ∈ rules) (hcarried : carried targets r.action = true) (hm : m ∈ r.matchers) :
    ∃ p, singboxProgram lib rules targets = some p ∧
      Offers p (singboxAtom lib (atomOf m)) r.action := by
  obtain ⟨g, hg, haction, hmg⟩ := (mem_groups rules m r.action).mpr ⟨r, hr, rfl, hm⟩
  refine ⟨_, readSingbox_rules hshape, offers_flatMap hg ?_⟩
  rw [← singboxCarried_eq, singboxCarried, ← haction, Option.isSome_iff_exists] at hcarried
  obtain ⟨action, hsome⟩ := hcarried
  rw [groupProgram, hsome]
  dsimp only
  rw [read_of_singboxAction (singbox_ne_direct targets) hsome, haction]
  exact offers_apart
    (((holds_inlineOf (shape_of_groups hshape g hg)).mem_kinds _).mpr ⟨m, hmg, rfl⟩)

/-- **The formats agree exactly when every matcher is writable.** -/
theorem device_rules_agree_iff
    (hadmitted : ∀ r ∈ rules, ∀ m ∈ r.matchers, Admitted lib.toTextLib m) :
    Agree lib rules targets ↔ ∀ r ∈ rules, carried targets r.action = true →
      ∀ m ∈ r.matchers, Writable lib targets r.action m := by
  have hshape : ∀ r ∈ rules, ∀ m ∈ r.matchers, Shape m :=
    fun r hr m hm => (hadmitted r hr m hm).shape
  refine ⟨fun h r hr hcarried m hm =>
    writable_of_appears hshape hr hcarried hm (h.appears r hr hcarried m hm), fun h => ?_⟩
  have hclash := clashProgram_of_writable hshape h
  refine ⟨fun c hlists x => ?_, fun r hr hcarried m hm =>
    ⟨appears_xray hshape hr hcarried hm, ?_, appears_singbox hshape hr hcarried hm⟩⟩
  · refine ⟨decided (fun m => (atomOf m).holds c c.xray x) (carried targets) rules, ?_, ?_, ?_⟩
    · have hproxy : ∀ t ∈ targets.map ProxyTargets.xray, IsXrayProxy t := by
        intro t ht
        obtain ⟨t', -, rfl⟩ := Option.map_eq_some_iff.mp ht
        exact t'.xray_proxy
      rw [xrayProgram, readXray_verdict hshape hproxy, funext (xrayCarried_eq targets)]
    · rw [hclash, Option.map_some, verdict, decided]
      refine congrArg some (FirstMatch.verdict_flatMap fun r hr => ?_)
      cases carried targets r.action with
      | false => rfl
      | true =>
        rw [if_pos rfl, Bool.true_and]
        exact verdict_clashRules hlists x r
    · rw [singboxProgram, readSingbox_verdict hshape (singbox_ne_direct targets),
        funext (singboxCarried_eq targets)]
      simp only [singboxAtom_holds hlists]
  · refine ⟨_, hclash, fun a ha => offers_flatMap hr ?_⟩
    rw [if_pos hcarried]
    exact ⟨[a], List.mem_singleton.mpr rfl,
      List.mem_flatMap.mpr ⟨m, hm, List.mem_map_of_mem ha⟩⟩

end Agreement

/-! ## Two presets -/

/-- The case mappings over ASCII. -/
def asciiCase : CaseLib where
  toTextLib := asciiText
  toUpperCase s := String.ofList (s.toList.map Char.toUpper)

/-- A rule of every kind of matcher. -/
def everyKind : List DeviceRouteRule :=
  [⟨["geosite:category-ads-all", "keyword:tracker"], .block⟩,
    ⟨["domain:example.com", "regexp:^.+\\.example\\.net$", "example.io"], .direct⟩,
    ⟨["geoip:private", "10.1.0.0/16", "2001:db8::1"], .direct⟩,
    ⟨["port:25", "port:6881-6889"], .block⟩, ⟨["geosite:google", "geoip:us"], .proxy⟩]

def autoTargets : ProxyTargets where
  xray := .outboundTag "n1"
  clash := "Auto"
  singbox := "Auto"
  xray_proxy := by decide
  clash_proxy := by decide
  singbox_proxy := by decide

theorem device_rules_agree_iff_everyKind : Agree asciiCase everyKind (some autoTargets) := by
  refine (device_rules_agree_iff (by decide)).mpr ?_
  have hplain : ∀ r ∈ everyKind, ∀ m ∈ r.matchers,
      m = "geoip:private" ∨ PlainField (clashPayload asciiCase m) := by decide
  have hgroup : PlainField "Auto" ∧ endsPlain "Auto".toList = true := by decide
  intro r hr _ m hm
  refine ⟨hplain r hr m hm, fun _ t ht => ?_⟩
  cases ht
  exact ⟨hgroup.1, .inr hgroup.2⟩

/-- A repetition count has a comma: mihomo takes what stands after it for the target. -/
def countedPattern : List DeviceRouteRule := [⟨["regexp:^ads\x7b1,3\x7d$"], .block⟩]

theorem regexp_with_comma :
    (∀ r ∈ countedPattern, ∀ m ∈ r.matchers, Admitted asciiText m) ∧
      clashDeviceRuleLines asciiCase countedPattern none
        = ["  - DOMAIN-REGEX,^ads\x7b1,3\x7d$,REJECT"] ∧
      clashProgram asciiCase countedPattern none = none ∧
      ¬ Agree asciiCase countedPattern none := by
  have hrefused : clashProgram asciiCase countedPattern none = none := by decide
  refine ⟨by decide, by decide, hrefused, fun h => ?_⟩
  obtain ⟨p, hp, -⟩ := (h.appears _ List.mem_cons_self rfl _ List.mem_cons_self).clash
  rw [hrefused] at hp
  cases hp

end Iceslab.Subscription
