import Iceslab.GeoAddress
import Iceslab.GeoRuleSets

/-!
# A list that is written is the list that is read

`geo-formats.ts` writes what other formats become, `geo-dat.ts` reads it: the tags of a written list
are its codes, the first of each, and the rule-set of a tag is what its own values mean.

* `firstOfEach`, `repeats` — the entries that are tags, and those a code comes again on.
* `tag_of_entry` — the tag of an entry is found by its name, at the entry's bytes.
* `geosite_round_trip`, `geoip_round_trip` — **nothing is lost and nothing added.**
-/

set_option autoImplicit false

namespace Iceslab

open Checked JsBytes JsText

/-! ## Codes -/

/-- A code of ASCII without small letters. -/
structure UpperCode (code : String) : Prop where
  nonempty : code ≠ ""
  ascii : ∀ c ∈ code.toList, c.toNat < 128
  upper : ∀ c ∈ code.toList, c.toUpper = c

theorem upper_of_lower : ∀ n < 128, (Char.ofNat n).toUpper = Char.ofNat n →
    (Char.ofNat n).toLower.toUpper = Char.ofNat n := by decide

theorem toUpper_toLower {c : Char} (hc : c.toNat < 128) (h : c.toUpper = c) :
    c.toLower.toUpper = c := by
  have := upper_of_lower c.toNat hc
  rw [Char.ofNat_toNat] at this
  exact this h

theorem map_toUpper_eq {cs : List Char} (h : ∀ c ∈ cs, c.toUpper = c) : cs.map Char.toUpper = cs := by
  conv_rhs => rw [← List.map_id cs]
  exact List.map_congr_left fun c hc => h c hc

section Codes

variable {lib : CaseLib} {code code' : String}

theorem UpperCode.toUpperCase (h : UpperCode code) : lib.toUpperCase code = code := by
  rw [lib.upper_ascii code h.ascii, map_toUpper_eq h.upper, String.ofList_toList]

theorem UpperCode.noBOM (h : UpperCode code) : ¬BeginsWithBOM code := by
  intro hbom
  unfold BeginsWithBOM at hbom
  have := h.ascii bom (List.mem_of_head? hbom)
  exact absurd this (by decide)

/-- Codes of one name are one code. -/
theorem UpperCode.eq_of_lower (h : UpperCode code) (h' : UpperCode code')
    (hlow : lib.toLowerCase code = lib.toLowerCase code') : code = code' := by
  have hback : ∀ {code}, UpperCode code →
      (lib.toLowerCase code).toList.map Char.toUpper = code.toList := by
    intro code h
    rw [lib.lower_ascii code h.ascii, String.toList_ofList, List.map_map]
    conv_rhs => rw [← List.map_id code.toList]
    exact List.map_congr_left fun c hc => toUpper_toLower (h.ascii c hc) (h.upper c hc)
  have hlists := hback h
  rw [hlow, hback h'] at hlists
  exact String.toList_inj.mp hlists.symm

theorem notMem_toLowerCase (h : UpperCode code) {c : Char} (hc : c ∉ code.toList)
    (hsign : ∀ n < 128, (Char.ofNat n).toLower = c → Char.ofNat n = c) :
    c ∉ (lib.toLowerCase code).toList := by
  rw [lib.lower_ascii code h.ascii, String.toList_ofList, List.mem_map]
  rintro ⟨d, hd, hdc⟩
  have hsame := hsign d.toNat (h.ascii d hd)
  rw [Char.ofNat_toNat] at hsame
  exact hc (hsame hdc ▸ hd)

end Codes

/-! ## The tags of a written list -/

section Tags

variable {α : Type} (code : α → String)

/-- The first entry of each code, `seen` being the codes before. -/
def firstOfEach : List String → List α → List α
  | _, [] => []
  | seen, e :: rest =>
    if code e ∈ seen then firstOfEach seen rest else e :: firstOfEach (seen ++ [code e]) rest

/-- The entries of a code that came before. -/
def repeats : List String → List α → List α
  | _, [] => []
  | seen, e :: rest =>
    if code e ∈ seen then e :: repeats seen rest else repeats (seen ++ [code e]) rest

theorem mem_firstOfEach {seen : List String} {l : List α} {e : α}
    (h : e ∈ firstOfEach code seen l) : e ∈ l ∧ code e ∉ seen := by
  induction l generalizing seen with
  | nil => cases h
  | cons a l ih =>
    unfold firstOfEach at h
    split at h
    · exact ⟨List.mem_cons_of_mem a (ih h).1, (ih h).2⟩
    · rename_i hseen
      rcases List.mem_cons.mp h with rfl | h
      · exact ⟨List.mem_cons_self, hseen⟩
      · obtain ⟨hmem, hnot⟩ := ih h
        exact ⟨List.mem_cons_of_mem a hmem, fun hs => hnot (List.mem_append_left _ hs)⟩

theorem nodup_firstOfEach (seen : List String) (l : List α) :
    ((firstOfEach code seen l).map code).Nodup := by
  induction l generalizing seen with
  | nil => exact .nil
  | cons a l ih =>
    unfold firstOfEach
    split
    · exact ih seen
    · rw [List.map_cons, List.nodup_cons]
      refine ⟨fun hmem => ?_, ih _⟩
      obtain ⟨b, hb, heq⟩ := List.mem_map.mp hmem
      exact (mem_firstOfEach code hb).2 (by simp [heq])

theorem firstOfEach_map {β : Type} (f : β → α) (seen : List String) (l : List β) :
    firstOfEach code seen (l.map f) = (firstOfEach (code ∘ f) seen l).map f := by
  induction l generalizing seen with
  | nil => rfl
  | cons b l ih =>
    unfold firstOfEach
    simp only [List.map_cons, Function.comp_apply]
    split
    · exact ih seen
    · rw [List.map_cons, ih]

theorem repeats_map {β : Type} (f : β → α) (seen : List String) (l : List β) :
    repeats code seen (l.map f) = (repeats (code ∘ f) seen l).map f := by
  induction l generalizing seen with
  | nil => rfl
  | cons b l ih =>
    unfold repeats
    simp only [List.map_cons, Function.comp_apply]
    split
    · rw [List.map_cons, ih]
    · exact ih _

end Tags

variable {index : GeoDatIndex} {kind : GeoSetKind} {t : GeoDatEntry}

section Index

variable {lib : CaseLib} {buf : List UInt8} {entries : List (String × List (List UInt8))}
  {raw : List RawEntry}

/-- The tag the index holds of a written entry. -/
def TagAt (lib : CaseLib) (buf : List UInt8) (e : String × List (List UInt8)) (t : GeoDatEntry) :
    Prop :=
  ∃ r, FoundAt buf e r ∧ t = tagOf lib r

theorem TagAt.facts {e : String × List (List UInt8)} (h : TagAt lib buf e t) :
    t.name = lib.toLowerCase e.1 ∧ t.entries = e.2.length ∧ t.attrs = [] ∧
      slice buf t.start t.stop = entryBytes e.1 e.2 := by
  obtain ⟨r, ⟨hr, hslice⟩, rfl⟩ := h
  refine ⟨?_, ?_, ?_, hslice⟩
  · show lib.toLowerCase r.code = _
    rw [hr]
  · show r.entries = _
    rw [hr]
  · show sortTexts r.attrs = _
    rw [hr]
    rfl

theorem indexFrom_found (hupper : ∀ e ∈ entries, lib.toUpperCase e.1 = e.1)
    (h : List.Forall₂ (FoundAt buf) entries raw) (seen : List String) :
    List.Forall₂ (TagAt lib buf) (firstOfEach Prod.fst seen entries) (indexFrom lib seen raw).1 ∧
      (indexFrom lib seen raw).2 = (repeats Prod.fst seen entries).map Prod.fst := by
  induction h generalizing seen with
  | nil => exact ⟨.nil, rfl⟩
  | @cons e r entries raw hr _ ih =>
    have hrest := fun seen => ih (fun e he => hupper e (List.mem_cons_of_mem _ he)) seen
    have hcode : r.code = e.1 := by rw [hr.1]
    have hfirst : r.codeFirst = true := by rw [hr.1]
    have hup : lib.toUpperCase e.1 = e.1 := hupper e List.mem_cons_self
    unfold firstOfEach repeats indexFrom
    simp only [hcode, hup, hfirst, ne_eq, not_true_eq_false, Bool.true_eq_false, false_or]
    by_cases hseen : e.1 ∈ seen
    · simp only [hseen, if_true]
      obtain ⟨htags, hun⟩ := hrest seen
      exact ⟨htags, by rw [hun]; rfl⟩
    · simp only [hseen, if_false]
      obtain ⟨htags, hun⟩ := hrest (seen ++ [e.1])
      exact ⟨.cons ⟨r, hr, rfl⟩ htags, hun⟩

theorem exists_of_forall₂_left {α β : Type} {R : α → β → Prop} {as : List α} {bs : List β} {a : α}
    (h : List.Forall₂ R as bs) (ha : a ∈ as) : ∃ b ∈ bs, R a b :=
  exists_of_forall₂ h.flip ha

/-- What parsing a written list gives. -/
structure ListWritten (lib : CaseLib) (kind : GeoSetKind) (entries : List (String × List (List UInt8)))
    (index : GeoDatIndex) : Prop where
  parsed : parseGeoDat lib (encodeEntries entries) kind = .ok index
  tags : List.Forall₂ (TagAt lib (encodeEntries entries)) (firstOfEach Prod.fst [] entries)
    index.tags
  unreachable : index.unreachable = (repeats Prod.fst [] entries).map Prod.fst

theorem exists_listWritten (hne : entries ≠ []) (hfits : Fits (encodeEntries entries))
    (hcode : ∀ e ∈ entries, UpperCode e.1) (hitems : ∀ e ∈ entries, ∀ i ∈ e.2, ItemReads kind i) :
    ∃ index, ListWritten lib kind entries index := by
  have hwalk : ∃ raw, walk lib (encodeEntries entries) kind = .ok raw ∧
      List.Forall₂ (FoundAt (encodeEntries entries)) entries raw :=
    walk_encoded hne hfits fun e he => ⟨(hcode e he).nonempty, (hcode e he).noBOM, hitems e he⟩
  obtain ⟨raw, hraw, hfound⟩ := hwalk
  obtain ⟨htags, hun⟩ := indexFrom_found (fun e he => (hcode e he).toUpperCase) hfound []
  exact ⟨_, parseGeoDat_of_walk hraw, htags, hun⟩

/-- **The name of an entry's code finds the entry.** -/
theorem ListWritten.found (h : ListWritten lib kind entries index)
    (hcode : ∀ e ∈ entries, UpperCode e.1) {e : String × List (List UInt8)}
    (he : e ∈ firstOfEach Prod.fst [] entries) :
    ∃ t ∈ index.tags, findTag lib index (lib.toLowerCase e.1) = .ok t ∧
      TagAt lib (encodeEntries entries) e t := by
  obtain ⟨t₀, ht₀, hat₀⟩ := exists_of_forall₂_left h.tags he
  unfold Iceslab.findTag
  rw [lib.lower_lower]
  cases hfind : index.tags.find? fun t => decide (t.name = lib.toLowerCase e.1) with
  | none =>
    have hne := List.find?_eq_none.mp hfind t₀ ht₀
    simp [hat₀.facts.1] at hne
  | some t =>
    have ht := List.mem_of_find?_eq_some hfind
    have hname : t.name = lib.toLowerCase e.1 := by simpa using List.find?_some hfind
    obtain ⟨e', he', hat⟩ := exists_of_forall₂ h.tags ht
    have hin := (mem_firstOfEach Prod.fst he).1
    have hin' := (mem_firstOfEach Prod.fst he').1
    have hsame : e'.1 = e.1 := (hcode e' hin').eq_of_lower (hcode e hin)
      (hat.facts.1.symm.trans hname)
    have heq : e' = e :=
      List.inj_on_of_nodup_map (nodup_firstOfEach Prod.fst [] entries) he' he hsame
    exact ⟨t, ht, rfl, heq ▸ hat⟩

end Index

/-! ## Both kinds -/

section RoundTrip

variable {lib : CaseLib}

theorem itemsIn_entryBytes {α : Type} (read : List UInt8 → Option α) (code : List UInt8)
    (items : List (List UInt8)) :
    itemsIn read (⟨1, .bytes code⟩ :: items.map fun i => ⟨2, .bytes i⟩) = items.filterMap read := by
  have hone : (⟨1, .bytes code⟩ : Wire.Field).num ≠ 2 := by simp
  rw [itemsIn_cons_of_ne hone, itemsIn, List.filterMap_map]
  rfl

theorem filterMap_map_some {α β γ : Type} {f : β → Option γ} {g : α → β} {h : α → γ} {l : List α}
    (hfg : ∀ a ∈ l, f (g a) = some (h a)) : (l.map g).filterMap f = l.map h := by
  induction l with
  | nil => rfl
  | cons a l ih =>
    rw [List.map_cons, List.filterMap_cons_some (hfg a List.mem_cons_self), List.map_cons,
      ih fun b hb => hfg b (List.mem_cons_of_mem a hb)]

/-- A domain as it is read: without a byte order mark in front of its value. -/
def GeoSiteDomain.read (d : GeoSiteDomain) : GeoDomain := ⟨d.type.number, dropBOM d.value, []⟩

/-- A list `encodeGeoSiteList` is for. -/
structure WritableSites (entries : List GeoSiteEntry) : Prop where
  nonempty : entries ≠ []
  fits : Fits (encodeGeoSiteList entries)
  codes : ∀ e ∈ entries, UpperCode e.code ∧ '@' ∉ e.code.toList
  values : ∀ e ∈ entries, ∀ d ∈ e.domains, dropBOM d.value ≠ ""

/-- A list `encodeGeoIPList` is for. -/
structure WritableNetworks (entries : List GeoIPEntry) : Prop where
  nonempty : entries ≠ []
  fits : Fits (encodeGeoIPList entries)
  codes : ∀ e ∈ entries, UpperCode e.code ∧ '!' ∉ e.code.toList
  networks : ∀ e ∈ entries, ∀ c ∈ e.cidrs, c.Valid

theorem tags_map {α : Type} {buf : List UInt8} {code : α → String} {items : α → List (List UInt8)}
    {l : List α} {tags : List GeoDatEntry}
    (h : List.Forall₂ (TagAt lib buf) (l.map fun a => (code a, items a)) tags) :
    tags.map (fun t => (t.name, t.entries)) =
      l.map fun a => (lib.toLowerCase (code a), (items a).length) := by
  induction l generalizing tags with
  | nil =>
    cases h
    rfl
  | cons a l ih =>
    cases h with
    | cons hat hrest =>
      rw [List.map_cons, List.map_cons, ih hrest, hat.facts.1, hat.facts.2.1]

theorem siteTarget_lower {code : String} (hcode : UpperCode code) (hat : '@' ∉ code.toList)
    (h : findTag lib index (lib.toLowerCase code) = .ok t) :
    siteTarget lib index (lib.toLowerCase code) = .ok (t, []) := by
  have hnot : '@' ∉ (lib.toLowerCase code).toList := notMem_toLowerCase hcode hat (by decide)
  have htarget := @siteTarget_named _ lib index t [] (by simpa using hnot) h
  simpa using htarget

theorem ipTarget_lower {code : String} (hcode : UpperCode code) (hat : '!' ∉ code.toList)
    (h : findTag lib index (lib.toLowerCase code) = .ok t) (negated : Bool) :
    ipTarget lib index ((if negated then "!" else "") ++ lib.toLowerCase code) =
      .ok (t, negated) := by
  have hnot : '!' ∉ (lib.toLowerCase code).toList := notMem_toLowerCase hcode hat (by decide)
  exact ipTarget_named (afterPrefix_of_notMem (c := '!') (by decide) hnot) h negated

/-- What is known of a written list of either kind: its index, and the tag of an entry, whose rules
are those of the messages written under the code. -/
structure ReadBack {α : Type} (lib : CaseLib) (kind : GeoSetKind) (code : α → String)
    (items : α → List (List UInt8)) (entries : List α) (index : GeoDatIndex) : Prop where
  parsed : parseGeoDat lib (encodeEntries (entries.map fun e => (code e, items e))) kind = .ok index
  tags : index.tags.map (fun t => (t.name, t.entries)) =
    (firstOfEach code [] entries).map fun e => (lib.toLowerCase (code e), (items e).length)
  unreachable : index.unreachable = (repeats code [] entries).map code
  rules : ∀ e ∈ firstOfEach code [] entries, ∃ t,
    findTag lib index (lib.toLowerCase (code e)) = .ok t ∧
      TagRules lib (encodeEntries (entries.map fun e => (code e, items e))) index t
        (⟨1, .bytes (utf8Encode (code e))⟩ :: (items e).map fun i => ⟨2, .bytes i⟩) kind

theorem exists_readBack {α : Type} {code : α → String}
    {items : α → List (List UInt8)} {entries : List α} (hne : entries ≠ [])
    (hfits : Fits (encodeEntries (entries.map fun e => (code e, items e))))
    (hcode : ∀ e ∈ entries, UpperCode (code e))
    (hitems : ∀ e ∈ entries, ∀ i ∈ items e, ItemReads kind i) :
    ∃ index, ReadBack lib kind code items entries index := by
  let pair : α → String × List (List UInt8) := fun e => (code e, items e)
  have hpairs : ∀ e ∈ entries.map pair, UpperCode e.1 := by
    intro e he
    obtain ⟨e', he', rfl⟩ := List.mem_map.mp he
    exact hcode e' he'
  have hwritten : ∃ index, ListWritten lib kind (entries.map pair) index := by
    refine exists_listWritten (by simpa using hne) hfits hpairs fun e he i hi => ?_
    obtain ⟨e', he', rfl⟩ := List.mem_map.mp he
    exact hitems e' he' i hi
  obtain ⟨index, hw⟩ := hwritten
  have hfirst : firstOfEach Prod.fst [] (entries.map pair) =
      (firstOfEach code [] entries).map pair := firstOfEach_map Prod.fst pair [] entries
  have htags := hw.tags
  rw [hfirst] at htags
  refine ⟨index, hw.parsed, tags_map htags, ?_, fun e he => ?_⟩
  · rw [hw.unreachable, repeats_map, List.map_map]
    rfl
  · have hpair : pair e ∈ firstOfEach Prod.fst [] (entries.map pair) := by
      rw [hfirst]
      exact List.mem_map_of_mem he
    obtain ⟨t, ht, hfind, hat⟩ := hw.found hpairs hpair
    obtain ⟨fs, hfs, hrules⟩ := tagRules_of_parse hw.parsed t ht
    rw [hat.facts.2.2.2, fields_entryBytes (fits_entry hfits (mem_firstOfEach _ hpair).1)] at hfs
    exact ⟨t, hfind, Option.some.inj hfs ▸ hrules⟩

/-- **A geosite list reads back as written.**  Its tags are the codes, the first of each, with the
count of its domains; and the rule-set of a tag is what exactly its domains mean. -/
theorem geosite_round_trip (lib : CaseLib) {entries : List GeoSiteEntry}
    (h : WritableSites entries) :
    ∃ index, parseGeoDat lib (encodeGeoSiteList entries) .geosite = .ok index ∧
      index.tags.map (fun t => (t.name, t.entries)) = (firstOfEach (·.code) [] entries).map
        (fun e => (lib.toLowerCase e.code, e.domains.length)) ∧
      index.unreachable = (repeats (·.code) [] entries).map (·.code) ∧
      ∀ e ∈ firstOfEach (·.code) [] entries,
        geositeRuleSet lib (encodeGeoSiteList entries) index (lib.toLowerCase e.code) =
          .ok (siteRules (e.domains.map GeoSiteDomain.read)) := by
  have hread : ∀ e ∈ entries, ∀ d ∈ e.domains, domainOf (domainBytes d) = some d.read := by
    intro e he d hd
    have hentry : Fits (entryBytes e.code (e.domains.map domainBytes)) :=
      fits_entry h.fits (List.mem_map_of_mem he)
    exact domainOf_domainBytes (fits_item hentry (List.mem_map_of_mem hd)) (h.values e he d hd)
  have hback : ∃ index, ReadBack lib .geosite GeoSiteEntry.code
      (fun e => e.domains.map domainBytes) entries index := by
    refine exists_readBack h.nonempty h.fits (fun e he => (h.codes e he).1) fun e he i hi => ?_
    obtain ⟨d, hd, rfl⟩ := List.mem_map.mp hi
    exact ⟨d.read, hread e he d hd, rfl⟩
  obtain ⟨index, hb⟩ := hback
  refine ⟨index, hb.parsed, by simpa only [List.length_map] using hb.tags, hb.unreachable, ?_⟩
  intro e he
  have hin := (mem_firstOfEach _ he).1
  obtain ⟨t, hfind, hrules⟩ := hb.rules e he
  have hsite : SiteTag lib (encodeGeoSiteList entries) index t
      (domainsIn (⟨1, .bytes (utf8Encode e.code)⟩ ::
        (e.domains.map domainBytes).map fun i => ⟨2, .bytes i⟩)) := hrules
  rw [domainsIn, itemsIn_entryBytes, filterMap_map_some (hread e hin)] at hsite
  have hrule := hsite.rules _ _ (siteTarget_lower (h.codes e hin).1 (h.codes e hin).2 hfind)
  simpa [carrying] using hrule

/-- Two entries of one code, of which the second is no tag. -/
theorem geosite_round_trip_two : ∃ index,
    parseGeoDat asciiCases (encodeGeoSiteList [⟨"ADS", [⟨.domain, "ads.test"⟩, ⟨.plain, "track"⟩]⟩,
      ⟨"ADS", [⟨.full, "a.test"⟩]⟩]) .geosite = .ok index ∧
    index.tags.map (fun t => (t.name, t.entries)) = [("ads", 2)] ∧ index.unreachable = ["ADS"] := by
  have h : WritableSites [⟨"ADS", [⟨.domain, "ads.test"⟩, ⟨.plain, "track"⟩]⟩,
      ⟨"ADS", [⟨.full, "a.test"⟩]⟩] := by
    have hcode : UpperCode "ADS" := ⟨by decide, by decide, by decide⟩
    refine ⟨by simp, by decide, ?_, by decide⟩
    simp [hcode]
  obtain ⟨index, hparse, htags, hun, -⟩ := geosite_round_trip asciiCases h
  exact ⟨index, hparse, htags.trans (by decide), hun.trans (by decide)⟩

/-- **A geoip list reads back as written**, and so does the complement of a tag. -/
theorem geoip_round_trip (lib : CaseLib) {entries : List GeoIPEntry} (h : WritableNetworks entries) :
    ∃ index, parseGeoDat lib (encodeGeoIPList entries) .geoip = .ok index ∧
      index.tags.map (fun t => (t.name, t.entries)) = (firstOfEach (·.code) [] entries).map
        (fun e => (lib.toLowerCase e.code, e.cidrs.length)) ∧
      index.unreachable = (repeats (·.code) [] entries).map (·.code) ∧
      ∀ e ∈ firstOfEach (·.code) [] entries, ∀ negated : Bool,
        geoipRuleSet lib (encodeGeoIPList entries) index
          ((if negated then "!" else "") ++ lib.toLowerCase e.code) =
          .ok (ipRules e.cidrs negated) := by
  have hread : ∀ e ∈ entries, ∀ c ∈ e.cidrs, geoCidrOf (cidrBytes c) = some c := fun e he c hc =>
    geoCidrOf_cidrBytes (h.networks e he c hc).1 (h.networks e he c hc).2
  have hback : ∃ index, ReadBack lib .geoip GeoIPEntry.code (fun e => e.cidrs.map cidrBytes)
      entries index := by
    refine exists_readBack h.nonempty h.fits (fun e he => (h.codes e he).1) fun e he i hi => ?_
    obtain ⟨c, hc, rfl⟩ := List.mem_map.mp hi
    exact ⟨c, hread e he c hc⟩
  obtain ⟨index, hb⟩ := hback
  refine ⟨index, hb.parsed, by simpa only [List.length_map] using hb.tags, hb.unreachable, ?_⟩
  intro e he negated
  have hin := (mem_firstOfEach _ he).1
  obtain ⟨t, hfind, hrules⟩ := hb.rules e he
  have hip : IpTag lib (encodeGeoIPList entries) index t
      (cidrsIn (⟨1, .bytes (utf8Encode e.code)⟩ ::
        (e.cidrs.map cidrBytes).map fun i => ⟨2, .bytes i⟩)) := hrules
  rw [cidrsIn, itemsIn_entryBytes, filterMap_map_some (h := id) (hread e hin), List.map_id] at hip
  exact hip.rules _ _ (ipTarget_lower (h.codes e hin).1 (h.codes e hin).2 hfind negated)

theorem geoip_round_trip_one : ∃ index,
    parseGeoDat asciiCases (encodeGeoIPList [⟨"LAN", [⟨[10, 0, 0, 0], 8⟩]⟩]) .geoip = .ok index ∧
    geoipRuleSet asciiCases (encodeGeoIPList [⟨"LAN", [⟨[10, 0, 0, 0], 8⟩]⟩]) index "!lan" =
      .ok (ipRules [⟨[10, 0, 0, 0], 8⟩] true) := by
  have h : WritableNetworks [⟨"LAN", [⟨[10, 0, 0, 0], 8⟩]⟩] := by
    have hcode : UpperCode "LAN" := ⟨by decide, by decide, by decide⟩
    refine ⟨by simp, by decide, by simp [hcode], ?_⟩
    simp [GeoCidr.Valid]
  obtain ⟨index, hparse, -, -, hrules⟩ := geoip_round_trip asciiCases h
  have hrule := hrules ⟨"LAN", [⟨[10, 0, 0, 0], 8⟩]⟩ (by simp [firstOfEach]) true
  have hname : (if true then "!" else "") ++ asciiCases.toLowerCase "LAN" = "!lan" := by decide
  rw [hname] at hrule
  exact ⟨index, hparse, hrule⟩

end RoundTrip

end Iceslab
