import Iceslab.GeoEncode
import Iceslab.Lib.JsPrefix
import Iceslab.MmdbCountries

/-!
# The rule-sets of a geo file

`geo-dat.ts` reads a file twice: `walk` checks it whole, and `geositeRuleSet` and `geoipRuleSet` read
a tag again from the bytes the walk has found for it, with a loop of their own that looks at less.

* `domainsIn`, `cidrsIn` — the messages inside an entry.
* `siteRules` — what a list of domains means to a rule-set, type by type.
* `each_items` — the second loop does not fail on what the walk has accepted.
* `findTag_own` — a tag whose name is no other's is found under it.
* `rule_sets_of_accepted` — **every such tag of every accepted file has its rule-set, and it says
  what exactly the messages of its entry say.**
-/

set_option autoImplicit false

namespace Iceslab

open Checked JsBytes JsText

/-! ## The messages inside an entry -/

variable {f : Wire.Field} {a name : String}

section Items

variable {α : Type} {read : List UInt8 → Option α}

/-- A field 2 that holds a message. -/
def itemOf (read : List UInt8 → Option α) (f : Wire.Field) : Option α :=
  if f.num = 2 then (bytesOf f.value).bind read else none

def itemsIn (read : List UInt8 → Option α) (fs : List Wire.Field) : List α :=
  fs.filterMap (itemOf read)

def domainsIn (fs : List Wire.Field) : List GeoDomain := itemsIn domainOf fs

def cidrsIn (fs : List Wire.Field) : List GeoCidr := itemsIn geoCidrOf fs

/-- A field 2 holds a message, as the walk has checked. -/
def HoldsItem (read : List UInt8 → Option α) (f : Wire.Field) : Prop :=
  f.num = 2 → ∃ a, (bytesOf f.value).bind read = some a

theorem bytesOf_eq_some {v : Wire.Value} {payload : List UInt8} :
    bytesOf v = some payload ↔ v = .bytes payload := by
  cases v <;> simp [bytesOf]

theorem itemsIn_cons_of_eq (fs : List Wire.Field) {a : α} (hnum : f.num = 2)
    (h : (bytesOf f.value).bind read = some a) : itemsIn read (f :: fs) = a :: itemsIn read fs := by
  have hitem : itemOf read f = some a := by rw [itemOf, if_pos hnum, h]
  rw [itemsIn, List.filterMap_cons_some hitem]
  rfl

theorem itemsIn_cons_of_ne {fs : List Wire.Field} (hnum : f.num ≠ 2) :
    itemsIn read (f :: fs) = itemsIn read fs := by
  have hitem : itemOf read f = none := by rw [itemOf, if_neg hnum]
  rw [itemsIn, List.filterMap_cons_none hitem]
  rfl

/-- The loop over the fields of an entry that takes field 2 and passes over the rest. -/
theorem each_items {σ : Type} {turn : σ → Reader → GeoRead (σ × Reader)}
    {readItem : Reader → GeoRead α} {put : σ → α → σ}
    (hread : ∀ r a, readItem r = .ok a ↔ read r.rest = some a) (hturn : ∀ s r, turn s r = (do
      let (k, r) ← r.key
      if k.field ≠ 2 then do
        let r ← r.pass k.wire k.pos
        .ok (s, r)
      else do
        let (v, r) ← r.bytes
        let a ← readItem v
        .ok (put s a, r)))
    {r : Reader} {fs : List Wire.Field} (hfs : Wire.fields arith r.rest = some fs)
    (hall : ∀ f ∈ fs, HoldsItem read f) (s : σ) :
    r.each turn s = .ok ((itemsIn read fs).foldl put s) := by
  have hstep : ∀ t r₀ f left rest, ((∀ g ∈ f :: left, HoldsItem read g) ∧
        (itemsIn read (f :: left)).foldl put t = (itemsIn read fs).foldl put s) →
      Wire.nextField arith r₀.rest = some (f, rest) →
      ∃ t' r', turn t r₀ = .ok (t', r') ∧ r'.rest = rest ∧ (∀ g ∈ left, HoldsItem read g) ∧
        (itemsIn read left).foldl put t' = (itemsIn read fs).foldl put s := by
    rintro t r₀ f left rest ⟨hgood, hsame⟩ hnext
    obtain ⟨k, r₁, hk, hstop, hnum, hv⟩ := Reader.exists_key hnext
    have hleft := fun g hg => hgood g (List.mem_cons_of_mem f hg)
    have hend : (⟨r₁.stop - rest.length, rest⟩ : Reader).stop = r₁.stop := by
      have hle := Wire.value_le hv
      simp only [Reader.stop]
      omega
    by_cases h2 : f.num = 2
    · obtain ⟨a, ha⟩ := hgood f List.mem_cons_self h2
      obtain ⟨payload, hp, ha'⟩ := Option.bind_eq_some_iff.mp ha
      have hbytes : f.value = .bytes payload := bytesOf_eq_some.mp hp
      rw [hbytes] at hv
      obtain ⟨v, rfl, hpos⟩ := exists_span hv hend
      refine ⟨put t a, ⟨r₁.stop - rest.length, rest⟩, ?_, rfl, hleft, ?_⟩
      · rw [hturn]
        refine bind_eq_ok.mpr ⟨(k, r₁), hk, ?_⟩
        dsimp only
        rw [if_neg (not_not.mpr (hnum.trans h2))]
        rw [wire_of_bytes hv] at hv
        refine bind_eq_ok.mpr ⟨(v, _), Reader.bytes_ok.mpr ⟨hv, hend, hpos⟩, ?_⟩
        exact bind_eq_ok.mpr ⟨a, (hread v a).mpr ha', rfl⟩
      · rw [← hsame, itemsIn_cons_of_eq _ h2 ha, List.foldl_cons]
    · refine ⟨t, ⟨r₁.stop - rest.length, rest⟩, ?_, rfl, hleft, ?_⟩
      · rw [hturn]
        refine bind_eq_ok.mpr ⟨(k, r₁), hk, ?_⟩
        dsimp only
        rw [if_pos (by rw [hnum]; exact h2)]
        exact bind_eq_ok.mpr ⟨_, Reader.pass_ok.mpr ⟨⟨f.value, hv⟩, hend⟩, rfl⟩
      · rw [← hsame, itemsIn_cons_of_ne h2]
  have hend : ∃ s', Reader.eachFrom turn r.rest.length s r = .ok s' ∧
      (∀ g ∈ [], HoldsItem read g) ∧
        (itemsIn read []).foldl put s' = (itemsIn read fs).foldl put s :=
    eachFrom_of_invariant (fun t left => (∀ g ∈ left, HoldsItem read g) ∧
      (itemsIn read left).foldl put t = (itemsIn read fs).foldl put s) hstep ⟨hall, rfl⟩ hfs
  obtain ⟨s', hs', -, hsame⟩ := hend
  rw [Reader.each, hs', ← hsame]
  rfl

end Items

/-! ## What the walk has found of an entry -/

section Facts

variable {lib : CaseLib} {s s' : EntryRead} {fs : List Wire.Field}

theorem mem_noteAttrs {seen keys : List String} :
    a ∈ noteAttrs lib seen keys ↔ a ∈ seen ∨ a ∈ keys ∧ a = lib.toLowerCase a := by
  unfold noteAttrs
  induction keys generalizing seen with
  | nil => simp
  | cons key keys ih =>
    rw [List.foldl_cons, ih]
    split
    · rename_i hkey
      rw [mem_setAdd, List.mem_cons]
      constructor
      · rintro ((h | rfl) | h)
        · exact .inl h
        · exact .inr ⟨.inl rfl, hkey⟩
        · exact .inr ⟨.inr h.1, h.2⟩
      · rintro (h | ⟨rfl | h, ha⟩)
        · exact .inl (.inl h)
        · exact .inl (.inr rfl)
        · exact .inr ⟨h, ha⟩
    · rename_i hkey
      rw [List.mem_cons]
      constructor
      · rintro (h | h)
        · exact .inl h
        · exact .inr ⟨.inr h.1, h.2⟩
      · rintro (h | ⟨rfl | h, ha⟩)
        · exact .inl h
        · exact absurd ha hkey
        · exact .inr ⟨h, ha⟩

/-- The attributes a rule can name of some domains. -/
def attrsOf (lib : CaseLib) (seen : List String) (ds : List GeoDomain) : List String :=
  ds.foldl (fun seen d => noteAttrs lib seen d.attrs) seen

theorem mem_attrsOf {seen : List String} {ds : List GeoDomain} :
    a ∈ attrsOf lib seen ds ↔ a ∈ seen ∨ (∃ d ∈ ds, a ∈ d.attrs) ∧ a = lib.toLowerCase a := by
  unfold attrsOf
  induction ds generalizing seen with
  | nil => simp
  | cons d ds ih =>
    rw [List.foldl_cons, ih, mem_noteAttrs, or_assoc, ← or_and_right]
    simp

/-- Every field 2 of an entry holds an item; the items are counted, and `note` takes their
attributes. -/
structure ItemFacts {α : Type} (read : List UInt8 → Option α) (note : List String → α → List String)
    (fs : List Wire.Field) (s s' : EntryRead) : Prop where
  items : ∀ f ∈ fs, HoldsItem read f
  entries : s'.entry.entries = s.entry.entries + (itemsIn read fs).length
  attrs : s'.entry.attrs = (itemsIn read fs).foldl note s.entry.attrs

theorem itemFacts {α : Type} {read : List UInt8 → Option α} {note : List String → α → List String}
    {field : EntryRead → Wire.Field → Option EntryRead}
    (hitem : ∀ f s s', f.num = 2 → field s f = some s' →
      ∃ a, (bytesOf f.value).bind read = some a ∧ s'.entry.entries = s.entry.entries + 1 ∧
        s'.entry.attrs = note s.entry.attrs a)
    (hother : ∀ f s s', f.num ≠ 2 → field s f = some s' →
      s'.entry.entries = s.entry.entries ∧ s'.entry.attrs = s.entry.attrs)
    (h : fs.foldlM field s = some s') : ItemFacts read note fs s s' := by
  induction fs generalizing s with
  | nil =>
    cases h
    exact ⟨by simp, rfl, rfl⟩
  | cons f fs ih =>
    rw [List.foldlM_cons] at h
    obtain ⟨s₁, hf, h⟩ := Option.bind_eq_some_iff.mp h
    obtain ⟨hitems, hentries, hattrs⟩ := ih h
    by_cases h2 : f.num = 2
    · obtain ⟨a, ha, hentry, hattr⟩ := hitem f s s₁ h2 hf
      refine ⟨List.forall_mem_cons.mpr ⟨fun _ => ⟨a, ha⟩, hitems⟩, ?_, ?_⟩
      · rw [itemsIn_cons_of_eq fs h2 ha, List.length_cons, hentries, hentry]
        omega
      · rw [itemsIn_cons_of_eq fs h2 ha, List.foldl_cons, hattrs, hattr]
    · obtain ⟨hentry, hattr⟩ := hother f s s₁ h2 hf
      rw [hentry, ← itemsIn_cons_of_ne h2] at hentries
      rw [hattr, ← itemsIn_cons_of_ne h2] at hattrs
      exact ⟨List.forall_mem_cons.mpr ⟨fun h => absurd h h2, hitems⟩, hentries, hattrs⟩

theorem siteFacts (h : fs.foldlM (siteField lib) s = some s') :
    ItemFacts domainOf (fun seen d => noteAttrs lib seen d.attrs) fs s s' := by
  refine itemFacts (fun f s s' h2 hf => ?_) (fun f s s' h2 hf => ?_) h
  · rw [siteField, if_neg (by omega), if_pos h2] at hf
    obtain ⟨d, hd, rfl⟩ := Option.map_eq_some_iff.mp hf
    exact ⟨d, hd, rfl, rfl⟩
  · rw [siteField, if_neg h2] at hf
    split at hf
    · obtain ⟨code, -, rfl⟩ := Option.map_eq_some_iff.mp hf
      exact ⟨rfl, rfl⟩
    · cases hf
      exact ⟨rfl, rfl⟩

theorem ipFacts (h : fs.foldlM ipField s = some s') :
    ItemFacts geoCidrOf (fun seen _ => seen) fs s s' := by
  refine itemFacts (fun f s s' h2 hf => ?_) (fun f s s' h2 hf => ?_) h
  · rw [ipField, if_neg (by omega), if_pos h2] at hf
    obtain ⟨c, hc, rfl⟩ := Option.map_eq_some_iff.mp hf
    exact ⟨c, hc, rfl, rfl⟩
  · rw [ipField, if_neg h2] at hf
    split at hf
    · obtain ⟨code, -, rfl⟩ := Option.map_eq_some_iff.mp hf
      exact ⟨rfl, rfl⟩
    · split at hf
      · obtain ⟨n, -, rfl⟩ := Option.map_eq_some_iff.mp hf
        exact ⟨rfl, rfl⟩
      · cases hf
        exact ⟨rfl, rfl⟩

end Facts

/-! ## What a list of messages means -/

/-- A set in the order its elements came in. -/
def toSet (l : List String) : List String := l.foldl setAdd []

/-- `full`, and a `domain` with a dot. -/
def exactNames (ds : List GeoDomain) : List String :=
  ds.filterMap fun d =>
    if d.type = 3 ∨ d.type = 2 ∧ '.' ∈ d.value.toList then some d.value else none

def suffixes (ds : List GeoDomain) : List String :=
  ds.filterMap fun d => if d.type = 2 then some ("." ++ d.value) else none

def keywords (ds : List GeoDomain) : List String :=
  ds.filterMap fun d => if d.type = 0 then some d.value else none

def regexes (ds : List GeoDomain) : List String :=
  ds.filterMap fun d => if d.type = 1 then some d.value else none

/-- The domains that carry every attribute wanted. -/
def carrying (want : List String) (ds : List GeoDomain) : List GeoDomain :=
  ds.filter fun d => want.all fun a => decide (a ∈ d.attrs)

/-- The rule-set of some domains, each type under its own condition, sorted and without repeats. -/
def siteRules (ds : List GeoDomain) : RuleSetJson :=
  ruleSet
    { HeadlessRule.blank with
      domain := sortedSet (toSet (exactNames ds))
      domainSuffix := sortedSet (toSet (suffixes ds))
      domainKeyword := sortedSet (toSet (keywords ds))
      domainRegex := sortedSet (toSet (regexes ds)) }

/-- The rule-set of some networks, in their order, or of their complement. -/
def ipRules (cs : List GeoCidr) (negated : Bool) : RuleSetJson :=
  cidrRuleSet (toSet (cs.map cidrText)) negated

theorem foldl_put (want : List String) (ds : List GeoDomain) (s : SiteSets) :
    ds.foldl (fun s d => s.put want d) s =
      ⟨(exactNames (carrying want ds)).foldl setAdd s.domain,
        (suffixes (carrying want ds)).foldl setAdd s.suffix,
        (keywords (carrying want ds)).foldl setAdd s.keyword,
        (regexes (carrying want ds)).foldl setAdd s.regex⟩ := by
  induction ds generalizing s with
  | nil => rfl
  | cons d ds ih =>
    rw [List.foldl_cons, ih]
    by_cases hw : (want.all fun a => decide (a ∈ d.attrs)) = true
    · have hc : carrying want (d :: ds) = d :: carrying want ds := by
        simp only [carrying, List.filter_cons, hw, if_true]
      rw [hc]
      unfold SiteSets.put
      rw [if_neg (by simp [hw])]
      obtain ⟨type, value, attrs⟩ := d
      match type with
      | 0 => simp [exactNames, suffixes, keywords, regexes]
      | 1 => simp [exactNames, suffixes, keywords, regexes]
      | 2 =>
        by_cases hdot : '.' ∈ value.toList <;>
          simp [exactNames, suffixes, keywords, regexes, hdot]
      | 3 => simp [exactNames, suffixes, keywords, regexes]
      | n + 4 => simp [exactNames, suffixes, keywords, regexes]
    · have hc : carrying want (d :: ds) = carrying want ds := by
        simp only [carrying, List.filter_cons, hw, Bool.false_eq_true, if_false]
      rw [hc]
      unfold SiteSets.put
      rw [if_pos (by simpa using hw)]

theorem foldl_cidrs (cs : List GeoCidr) (set : List String) :
    cs.foldl (fun set c => setAdd set (cidrText c)) set = (cs.map cidrText).foldl setAdd set := by
  rw [List.foldl_map]

/-! ## The rule-sets -/

section RuleSets

variable {lib : CaseLib} {buf : List UInt8} {index : GeoDatIndex} {kind : GeoSetKind}
  {t : GeoDatEntry}

theorem indexFrom_tags {seen : List String} {raw : List RawEntry} :
    ∀ t ∈ (indexFrom lib seen raw).1, ∃ e ∈ raw, t = tagOf lib e := by
  induction raw generalizing seen with
  | nil =>
    intro t ht
    cases ht
  | cons e raw ih =>
    intro t ht
    unfold indexFrom at ht
    dsimp only at ht
    split at ht
    · obtain ⟨e', he', rfl⟩ := ih t ht
      exact ⟨e', List.mem_cons_of_mem e he', rfl⟩
    · rcases List.mem_cons.mp ht with rfl | ht
      · exact ⟨e, List.mem_cons_self, rfl⟩
      · obtain ⟨e', he', rfl⟩ := ih t ht
        exact ⟨e', List.mem_cons_of_mem e he', rfl⟩

theorem exists_of_forall₂ {α β : Type} {R : α → β → Prop} {as : List α} {bs : List β} {b : β}
    (h : List.Forall₂ R as bs) (hb : b ∈ bs) : ∃ a ∈ as, R a b := by
  induction h with
  | nil => cases hb
  | cons hab _ ih =>
    rcases List.mem_cons.mp hb with rfl | hb
    · exact ⟨_, List.mem_cons_self, hab⟩
    · obtain ⟨a, ha, hR⟩ := ih hb
      exact ⟨a, List.mem_cons_of_mem _ ha, hR⟩

/-- A tag of an accepted file is that of an entry the walk has read. -/
theorem entry_of_tag (h : parseGeoDat lib buf kind = .ok index) :
    index.kind = kind ∧ ∀ t ∈ index.tags, ∃ f e, EntryAt lib kind buf f e ∧ t = tagOf lib e := by
  unfold parseGeoDat at h
  split at h
  · split at h <;> cases h
  · rename_i raw hwalk
    cases h
    refine ⟨rfl, fun t ht => ?_⟩
    obtain ⟨e, he, rfl⟩ := indexFrom_tags t ht
    obtain ⟨fs, -, hes⟩ := walk_entries hwalk
    obtain ⟨f, -, hat⟩ := exists_of_forall₂ hes he
    exact ⟨f, e, hat, rfl⟩

/-- What a tag of a geosite file stands for. -/
structure SiteTag (lib : CaseLib) (buf : List UInt8) (index : GeoDatIndex) (t : GeoDatEntry)
    (ds : List GeoDomain) : Prop where
  entries : t.entries = ds.length
  attrs : ∀ a, a ∈ t.attrs ↔ (∃ d ∈ ds, a ∈ d.attrs) ∧ a = lib.toLowerCase a
  rules : ∀ tag want, siteTarget lib index tag = .ok (t, want) →
    geositeRuleSet lib buf index tag = .ok (siteRules (carrying want ds))

/-- What a tag of a geoip file stands for. -/
structure IpTag (lib : CaseLib) (buf : List UInt8) (index : GeoDatIndex) (t : GeoDatEntry)
    (cs : List GeoCidr) : Prop where
  entries : t.entries = cs.length
  rules : ∀ tag negated, ipTarget lib index tag = .ok (t, negated) →
    geoipRuleSet lib buf index tag = .ok (ipRules cs negated)

theorem siteTag_of_entry (hkind : index.kind = .geosite) {e : RawEntry}
    (h : EntryAt lib .geosite buf f e) :
    ∃ fs, Wire.fields arith (slice buf e.start e.stop) = some fs ∧
      SiteTag lib buf index (tagOf lib e) (domainsIn fs) := by
  obtain ⟨s, hs, hse⟩ := Option.map_eq_some_iff.mp h.message
  obtain ⟨fs, hfs, hs⟩ := Option.bind_eq_some_iff.mp hs
  obtain ⟨hitems, hentries, hattrs⟩ := siteFacts hs
  rw [hse] at hentries hattrs
  refine ⟨fs, hfs, ?_, ?_, ?_⟩
  · show e.entries = _
    rw [hentries]
    exact Nat.zero_add _
  · intro a
    show a ∈ sortTexts e.attrs ↔ _
    rw [mem_sortTexts, hattrs]
    exact mem_attrsOf.trans (by simp [blankEntry, domainsIn])
  · intro tag want htarget
    unfold geositeRuleSet
    rw [if_neg (by simp [hkind]), htarget]
    have hloop : (Reader.create buf e.start e.stop).each (siteSetsTurn want) ⟨[], [], [], []⟩ =
        .ok ((domainsIn fs).foldl (fun s d => s.put want d) ⟨[], [], [], []⟩) :=
      each_items (fun _ _ => readDomain_iff) (fun _ _ => rfl) hfs hitems _
    simp only [bind, Except.bind, tagOf, hloop, foldl_put]
    rfl

theorem ipTag_of_entry (hkind : index.kind = .geoip) {e : RawEntry}
    (h : EntryAt lib .geoip buf f e) :
    ∃ fs, Wire.fields arith (slice buf e.start e.stop) = some fs ∧
      IpTag lib buf index (tagOf lib e) (cidrsIn fs) := by
  obtain ⟨s, hs, hse⟩ := Option.map_eq_some_iff.mp h.message
  obtain ⟨fs, hfs, hs⟩ := Option.bind_eq_some_iff.mp hs
  obtain ⟨hitems, hentries, -⟩ := ipFacts hs
  rw [hse] at hentries
  refine ⟨fs, hfs, ?_, ?_⟩
  · show e.entries = _
    rw [hentries]
    exact Nat.zero_add _
  · intro tag negated htarget
    unfold geoipRuleSet
    rw [if_neg (by simp [hkind]), htarget]
    have hloop : (Reader.create buf e.start e.stop).each cidrSetTurn [] =
        .ok ((cidrsIn fs).foldl (fun set c => setAdd set (cidrText c)) []) :=
      each_items (fun _ _ => readCidr_iff) (fun _ _ => rfl) hfs hitems _
    simp only [bind, Except.bind, tagOf, hloop, foldl_cidrs]
    rfl

/-! ### Under a name -/

/-- A tag whose name is no other's is found under every spelling of it. -/
theorem findTag_own (ht : t ∈ index.tags)
    (hown : ∀ t' ∈ index.tags, t'.name = t.name → t' = t) (hname : lib.toLowerCase name = t.name) :
    findTag lib index name = .ok t := by
  unfold findTag
  rw [hname]
  cases hfind : index.tags.find? fun t' => decide (t'.name = t.name) with
  | some t' =>
    have hsame : t'.name = t.name := by simpa using List.find?_some hfind
    rw [hown t' (List.mem_of_find?_eq_some hfind) hsame]
  | none =>
    have hne := List.find?_eq_none.mp hfind t ht
    simp at hne

theorem siteTarget_named {want : List String}
    (hat : ∀ part ∈ name :: want, '@' ∉ part.toList) (h : findTag lib index name = .ok t) :
    siteTarget lib index (String.intercalate "@" (name :: want)) =
      .ok (t, want.map lib.toLowerCase) := by
  have hsplit : split '@' (String.intercalate "@" (name :: want)) = name :: want :=
    split_intercalate hat (List.cons_ne_nil name want)
  unfold siteTarget
  rw [hsplit]
  simp only [List.headD_cons, List.tail_cons, h]
  rfl

theorem ipTarget_named (hplain : afterPrefix "!" name = none)
    (h : findTag lib index name = .ok t) (negated : Bool) :
    ipTarget lib index ((if negated then "!" else "") ++ name) = .ok (t, negated) := by
  unfold ipTarget
  cases negated with
  | true =>
    simp only [if_true, afterPrefix_append, Option.getD_some, h]
    rfl
  | false =>
    simp only [Bool.false_eq_true, if_false, String.empty_append, hplain, Option.getD_none, h]
    rfl

/-- What a rule that names a tag gets, in any letter case: the domains that carry its attributes, or
the networks or their complement. -/
def NamedRules (lib : CaseLib) (buf : List UInt8) (index : GeoDatIndex) (t : GeoDatEntry)
    (fs : List Wire.Field) : GeoSetKind → Prop
  | .geosite => ∀ name want, lib.toLowerCase name = t.name →
      (∀ part ∈ name :: want, '@' ∉ part.toList) →
        geositeRuleSet lib buf index (String.intercalate "@" (name :: want)) =
          .ok (siteRules (carrying (want.map lib.toLowerCase) (domainsIn fs)))
  | .geoip => ∀ name, lib.toLowerCase name = t.name → ¬ ['!'] <+: name.toList → ∀ negated : Bool,
      geoipRuleSet lib buf index ((if negated then "!" else "") ++ name) =
        .ok (ipRules (cidrsIn fs) negated)

/-- The rule-set of a tag against the messages of its entry, whatever the kind. -/
def TagRules (lib : CaseLib) (buf : List UInt8) (index : GeoDatIndex) (t : GeoDatEntry)
    (fs : List Wire.Field) : GeoSetKind → Prop
  | .geosite => SiteTag lib buf index t (domainsIn fs)
  | .geoip => IpTag lib buf index t (cidrsIn fs)

theorem tagRules_of_parse (h : parseGeoDat lib buf kind = .ok index) :
    ∀ t ∈ index.tags, ∃ fs, Wire.fields arith (slice buf t.start t.stop) = some fs ∧
      TagRules lib buf index t fs kind := by
  obtain ⟨hkind, htags⟩ := entry_of_tag h
  intro t ht
  obtain ⟨f, e, hat, rfl⟩ := htags t ht
  cases kind with
  | geosite => exact siteTag_of_entry hkind hat
  | geoip => exact ipTag_of_entry hkind hat

theorem TagRules.named {fs : List Wire.Field}
    (h : TagRules lib buf index t fs kind) (ht : t ∈ index.tags)
    (hown : ∀ t' ∈ index.tags, t'.name = t.name → t' = t) : NamedRules lib buf index t fs kind := by
  cases kind with
  | geosite =>
    intro name want hname hat
    have hsite : SiteTag lib buf index t (domainsIn fs) := h
    exact hsite.rules _ _ (siteTarget_named hat (findTag_own ht hown hname))
  | geoip =>
    intro name hname hplain negated
    have hip : IpTag lib buf index t (cidrsIn fs) := h
    have hnone : afterPrefix "!" name = none := by
      refine afterPrefix_eq_none.mpr fun rest hrest => hplain ?_
      rw [hrest, String.toList_append]
      exact List.prefix_append _ _
    exact hip.rules _ _ (ipTarget_named hnone (findTag_own ht hown hname) negated)

/-- **Every tag of every file that is accepted has its rule-set**, if its name is no other tag's: a
rule that names it, in any letter case, with any attributes or negated, gets what exactly the
messages of its entry say; and the count and the attributes offered are theirs. -/
theorem rule_sets_of_accepted (lib : CaseLib) (buf : List UInt8) (kind : GeoSetKind)
    (index : GeoDatIndex) (h : parseGeoDat lib buf kind = .ok index) :
    ∀ t ∈ index.tags, lib.toLowerCase t.name = t.name ∧
      ∃ fs, Wire.fields arith (slice buf t.start t.stop) = some fs ∧
        TagRules lib buf index t fs kind ∧
        ((∀ t' ∈ index.tags, t'.name = t.name → t' = t) → NamedRules lib buf index t fs kind) := by
  intro t ht
  obtain ⟨fs, hfs, hrules⟩ := tagRules_of_parse h t ht
  refine ⟨?_, fs, hfs, hrules, hrules.named ht⟩
  obtain ⟨f, e, -, rfl⟩ := (entry_of_tag h).2 t ht
  exact lib.lower_lower e.code

theorem parseGeoDat_of_walk {raw : List RawEntry} (h : walk lib buf kind = .ok raw) :
    parseGeoDat lib buf kind =
      .ok ⟨kind, (indexFrom lib [] raw).1, (indexFrom lib [] raw).2⟩ := by
  unfold parseGeoDat
  rw [h]

/-- A file of one entry with one network. -/
def oneEntry : List (String × List (List UInt8)) := [("DE", [cidrBytes ⟨[10, 0, 0, 0], 8⟩])]

theorem walk_oneEntry : ∃ raw, walk asciiCases (encodeEntries oneEntry) .geoip = .ok raw ∧
    List.Forall₂ (FoundAt (encodeEntries oneEntry)) oneEntry raw := by
  refine walk_encoded (by decide) (by decide) fun e he => ?_
  rw [List.mem_singleton.mp he]
  refine ⟨by decide, by decide, fun i hi => ?_⟩
  rw [List.mem_singleton.mp hi]
  exact ⟨_, geoCidrOf_cidrBytes (.inl rfl) (by decide)⟩

theorem rule_sets_of_accepted_one : ∃ index,
    parseGeoDat asciiCases (encodeEntries oneEntry) .geoip = .ok index ∧
      geoipRuleSet asciiCases (encodeEntries oneEntry) index "de" =
        .ok (ipRules [⟨[10, 0, 0, 0], 8⟩] false) ∧
      geoipRuleSet asciiCases (encodeEntries oneEntry) index "!DE" =
        .ok (ipRules [⟨[10, 0, 0, 0], 8⟩] true) := by
  obtain ⟨raw, hwalk, hfound⟩ := walk_oneEntry
  have hparse := parseGeoDat_of_walk hwalk
  cases hfound with
  | @cons _ r _ _ hr hnil =>
    cases hnil
    obtain ⟨hr, hslice⟩ := hr
    have hindex : (indexFrom asciiCases [] [r]).1 = [tagOf asciiCases r] := by
      have hupper : asciiCases.toUpperCase "DE" = "DE" := by decide
      rw [hr]
      simp [indexFrom, hupper]
    have hmem : tagOf asciiCases r ∈ (indexFrom asciiCases [] [r]).1 := by
      rw [hindex]
      exact List.mem_cons_self
    have hname : (tagOf asciiCases r).name = asciiCases.toLowerCase "DE" := by rw [tagOf, hr]
    obtain ⟨-, fs, hfs, -, hrules⟩ := rule_sets_of_accepted asciiCases _ .geoip _ hparse _ hmem
    have hbytes : slice (encodeEntries oneEntry) (tagOf asciiCases r).start
        (tagOf asciiCases r).stop = entryBytes "DE" [cidrBytes ⟨[10, 0, 0, 0], 8⟩] := hslice
    rw [hbytes, fields_entryBytes (by decide)] at hfs
    have hcidrs : cidrsIn fs = [⟨[10, 0, 0, 0], 8⟩] := by
      have hread : geoCidrOf (cidrBytes ⟨[10, 0, 0, 0], 8⟩) = some ⟨[10, 0, 0, 0], 8⟩ :=
        geoCidrOf_cidrBytes (.inl rfl) (by decide)
      have hitem : (bytesOf (.bytes (cidrBytes ⟨[10, 0, 0, 0], 8⟩))).bind geoCidrOf = _ := hread
      rw [← Option.some.inj hfs, cidrsIn, itemsIn_cons_of_ne (by decide), List.map_singleton]
      exact itemsIn_cons_of_eq [] rfl hitem
    have hown : ∀ t' ∈ (indexFrom asciiCases [] [r]).1,
        t'.name = (tagOf asciiCases r).name → t' = tagOf asciiCases r := by
      rw [hindex]
      exact fun t' ht' _ => List.mem_singleton.mp ht'
    have hnamed := hrules hown
    rw [← hcidrs]
    refine ⟨_, hparse, hnamed "de" ?_ (by decide) false, hnamed "DE" hname.symm (by decide) true⟩
    rw [hname]
    decide

end RuleSets

end Iceslab
