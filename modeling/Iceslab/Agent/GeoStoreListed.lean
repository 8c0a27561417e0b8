import Iceslab.Agent.GeoStore

/-!
# What the geo directory lists

A hash is kept for a size and a modification time, and goes with the file it was of.

* `plain_of_valid`, `not_valid_of_tmp`, `not_valid_prev` — what a valid name is not.
* `CacheRight` — a hash that would be taken from the cache is that of the file.
* `Listed`, `list_ends`, `missing_ends` — a list is what the directory holds.
-/

set_option autoImplicit false

namespace Iceslab.Agent.GeoStore

open Fallible

/-! ## Names -/

section Names

variable {name : String}

theorem ownRest_cases {rest : List Char} (h : ownRest rest = true) :
    (∃ slug : List Char, slug.all slugChar = true ∧ rest = slug ++ ".dat".toList) ∨
      ∃ slug tag : List Char, slug.all slugChar = true ∧ tag.all tagChar = true ∧
        rest = slug ++ '.' :: (tag ++ ".json".toList) := by
  have hjoin : ['.'].intercalate (rest.splitOn '.') = rest := List.intercalate_splitOn '.'
  unfold ownRest at h
  split at h
  · rename_i slug ext hparts
    obtain ⟨-, -, hslug, rfl⟩ := of_decide_eq_true h
    rw [hparts] at hjoin
    refine .inl ⟨slug, hslug, ?_⟩
    rw [← hjoin]
    simp
  · rename_i slug tag ext hparts
    obtain ⟨-, -, hslug, -, -, htag, rfl⟩ := of_decide_eq_true h
    rw [hparts] at hjoin
    refine .inr ⟨slug, tag, hslug, htag, ?_⟩
    rw [← hjoin]
    simp
  · cases h

/-- A name as it is written. -/
theorem valid_cases (h : validName name = true) :
    name = "geosite.dat" ∨ name = "geoip.dat" ∨
      (∃ slug : List Char, slug.all slugChar = true ∧
        name.toList = "iceslab-".toList ++ (slug ++ ".dat".toList)) ∨
      ∃ slug tag : List Char, slug.all slugChar = true ∧ tag.all tagChar = true ∧
        name.toList = "iceslab-".toList ++ (slug ++ '.' :: (tag ++ ".json".toList)) := by
  rcases of_decide_eq_true h with hname | hname | ⟨hpre, hrest⟩
  · exact .inl hname
  · exact .inr (.inl hname)
  · obtain ⟨rest, hname⟩ := List.isPrefixOf_iff_prefix.mp hpre
    have hdrop : name.toList.drop 8 = rest := by
      rw [← hname]
      rfl
    rw [hdrop] at hrest
    rcases ownRest_cases hrest with ⟨slug, hslug, rfl⟩ | ⟨slug, tag, hslug, htag, rfl⟩
    · exact .inr (.inr (.inl ⟨slug, hslug, hname.symm⟩))
    · exact .inr (.inr (.inr ⟨slug, tag, hslug, htag, hname.symm⟩))

theorem slugChar_ne_slash {c : Char} (h : slugChar c = true) : c ≠ '/' := by
  rintro rfl
  exact absurd h (by decide)

theorem tagChar_ne_slash {c : Char} (h : tagChar c = true) : c ≠ '/' := by
  rintro rfl
  exact absurd h (by decide)

theorem noSlash_of_valid (h : validName name = true) : '/' ∉ name.toList := by
  rcases valid_cases h with rfl | rfl | ⟨slug, hslug, hname⟩ | ⟨slug, tag, hslug, htag, hname⟩
  · decide
  · decide
  · have hclass : '/' ∉ slug := fun hc => slugChar_ne_slash (List.all_eq_true.mp hslug _ hc) rfl
    rw [hname]
    simp [hclass]
  · have hclass : '/' ∉ slug := fun hc => slugChar_ne_slash (List.all_eq_true.mp hslug _ hc) rfl
    have htags : '/' ∉ tag := fun hc => tagChar_ne_slash (List.all_eq_true.mp htag _ hc) rfl
    rw [hname]
    simp [hclass, htags]

theorem head_of_valid (h : validName name = true) :
    name.toList.head? = some 'g' ∨ name.toList.head? = some 'i' := by
  rcases valid_cases h with rfl | rfl | ⟨slug, -, hname⟩ | ⟨slug, tag, -, -, hname⟩
  · exact .inl rfl
  · exact .inl rfl
  · right
    rw [hname]
    rfl
  · right
    rw [hname]
    rfl

theorem last_of_valid (h : validName name = true) :
    name.toList.getLast? = some 't' ∨ name.toList.getLast? = some 'n' := by
  rcases valid_cases h with rfl | rfl | ⟨slug, -, hname⟩ | ⟨slug, tag, -, -, hname⟩
  · exact .inl rfl
  · exact .inl rfl
  · left
    rw [hname]
    simp [List.getLast?_cons]
  · right
    rw [hname]
    simp [List.getLast?_cons]

/-- A geo name or the name of a copy is one element of a path. -/
theorem plain_of_valid (h : validName name = true) :
    GoPath.Plain name ∧ GoPath.Plain (name ++ prevSuffix) := by
  have hslash := noSlash_of_valid h
  have hhead := head_of_valid h
  have hprev : (name ++ prevSuffix).toList.head? = name.toList.head? := by
    rw [String.toList_append]
    cases hname : name.toList with
    | nil => simp [hname] at hhead
    | cons c cs => rfl
  refine ⟨⟨hslash, ?_, ?_, ?_⟩, ⟨?_, ?_, ?_, ?_⟩⟩
  · rintro rfl
    simp at hhead
  · rintro rfl
    exact absurd hhead (by decide)
  · rintro rfl
    exact absurd hhead (by decide)
  · have hsuffix : '/' ∉ prevSuffix.toList := by decide
    rw [String.toList_append, List.mem_append]
    exact not_or.mpr ⟨hslash, hsuffix⟩
  · intro he
    rw [← hprev, he] at hhead
    simp at hhead
  · intro he
    rw [← hprev, he] at hhead
    exact absurd hhead (by decide)
  · intro he
    rw [← hprev, he] at hhead
    exact absurd hhead (by decide)

theorem not_valid_of_tmp (h : GoText.hasPrefix name ".put-" = true) : validName name = false := by
  obtain ⟨rest, hname⟩ := List.isPrefixOf_iff_prefix.mp h
  refine Bool.eq_false_iff.mpr fun hvalid => ?_
  have hhead := head_of_valid hvalid
  rw [← hname] at hhead
  simp at hhead

theorem not_valid_prev (name : String) : validName (name ++ prevSuffix) = false := by
  refine Bool.eq_false_iff.mpr fun hvalid => ?_
  have hlast := last_of_valid hvalid
  rw [String.toList_append] at hlast
  simp [prevSuffix, List.getLast?_append] at hlast

end Names

/-! ## The directory and the cache -/

section Worlds

variable {w w' : World} {name n : String} {file : File}

@[simp] theorem World.get?_write : (w.write name file).files.get? n =
    if n = name then some file else w.files.get? n := OrderedMap.get?_set _ _ _ _

@[simp] theorem World.get?_remove : (w.remove name).files.get? n =
    if n = name then none else w.files.get? n := by
  unfold World.remove
  rw [OrderedMap.get?_filter]
  by_cases hn : n = name <;> simp [hn]

@[simp] theorem World.files_forget : (w.forget name).files = w.files := rfl

@[simp] theorem World.get?_forget : (w.forget name).cache.get? n =
    if n = name then none else w.cache.get? n := by
  unfold World.forget
  rw [OrderedMap.get?_filter]
  by_cases hn : n = name <;> simp [hn]

theorem World.rename_eq {old : String} (h : w.files.get? old = some file) :
    w.rename old name = (w.remove old).write name file := by
  unfold World.rename
  rw [h]

theorem World.mem_entries : (name, file) ∈ w.entries ↔ w.files.get? name = some file := by
  unfold World.entries
  rw [(List.mergeSort_perm _ _).mem_iff, OrderedMap.get?_eq_some_iff]

theorem World.nodup_entries : (w.entries.map Prod.fst).Nodup := by
  unfold World.entries
  exact ((List.mergeSort_perm _ _).map _).nodup_iff.mpr w.files.nodup

end Worlds

section Cache

variable (sha256 : List UInt8 → String)

/-- What would be taken from the cache is the hash of the file. -/
def CacheRight (w : World) : Prop :=
  ∀ name, validName name = true → ∀ h, w.cache.get? name = some h → ∀ file,
    w.files.get? name = some file → h.size = file.bytes.length → h.mod = file.modTime →
      h.sha = sha256 file.bytes

variable {sha256} {w w' : World}

theorem CacheRight.of_le (h : CacheRight sha256 w)
    (hfiles : ∀ n, validName n = true → ∀ file, w'.files.get? n = some file →
      ∀ c, w'.cache.get? n = some c → w.files.get? n = some file)
    (hcache : ∀ n c, w'.cache.get? n = some c → w.cache.get? n = some c) : CacheRight sha256 w' :=
  fun name hname c hc file hfile =>
    h name hname c (hcache name c hc) file (hfiles name hname file hfile c hc)

theorem cacheRight_restarted : CacheRight sha256 w.restarted := by
  intro name _ c hc
  cases hc

theorem CacheRight.remember (h : CacheRight sha256 w) {name : String} {file : File}
    (hfile : w.files.get? name = some file) :
    CacheRight sha256 (w.remember name ⟨file.bytes.length, file.modTime, sha256 file.bytes⟩) := by
  intro n hn c hc f hf hsize hmod
  unfold World.remember at hc
  rw [OrderedMap.get?_set] at hc
  by_cases hname : n = name
  · subst hname
    rw [if_pos rfl] at hc
    obtain rfl := Option.some.inj hc
    obtain rfl : file = f := Option.some.inj (hfile.symm.trans hf)
    rfl
  · rw [if_neg hname] at hc
    exact h n hn c hc f hf hsize hmod

end Cache

/-! ## What is there -/

section Listing

variable {sha256 : List UInt8 → String} {fates : ListFates} {w w₀ : World}

/-- A call that reads: the files are as they were, and the cache is right. -/
structure Read (sha256 : List UInt8 → String) (w₀ w : World) : Prop where
  files : w.files = w₀.files
  cache : CacheRight sha256 w

theorem hashFile_ends (h : Read sha256 w₀ w) {name : String} {file : File}
    (hfile : w₀.files.get? name = some file) :
    Ends (hashFile sha256 fates name file) w
      (Then (fun sha w' => Read sha256 w₀ w' ∧ sha = sha256 file.bytes)
        fun _ w' => Read sha256 w₀ w') := by
  refine ends_op_bind (fun _ => ?_) (fun _ => h) h
  refine ends_update_bind (ends_pure ⟨⟨h.files, h.cache.remember ?_⟩, rfl⟩)
  show w.files.get? name = some file
  rw [h.files]
  exact hfile

theorem shaOf_ends (h : Read sha256 w₀ w) {name : String} {file : File}
    (hname : validName name = true) (hfile : w₀.files.get? name = some file) :
    Ends (shaOf sha256 fates name file) w
      (Then (fun sha w' => Read sha256 w₀ w' ∧ sha = sha256 file.bytes)
        fun _ w' => Read sha256 w₀ w') := by
  refine ends_state_bind ?_
  split
  · rename_i c hc
    split
    · rename_i hhit
      refine ends_pure ⟨h, h.cache name hname c hc file ?_ hhit.1 hhit.2⟩
      rw [h.files]
      exact hfile
    · exact hashFile_ends h hfile
  · exact hashFile_ends h hfile

/-- Every entry has its information. -/
def ListFates.Known (fates : ListFates) : Prop := ∀ name, fates.info name ≠ .failed

/-- What the entries come to. -/
def described (sha256 : List UInt8 → String) (entries : List (String × File)) : List GeoFileDto :=
  (entries.filter fun e => validName e.1).map fun e => describe sha256 e.1 e.2

theorem listEntries_ends (h : Read sha256 w₀ w) {entries : List (String × File)}
    (hentries : ∀ e ∈ entries, w₀.files.get? e.1 = some e.2) :
    Ends (listEntries sha256 fates entries) w
      (Then (fun out w' => Read sha256 w₀ w' ∧ (fates.Known → out = described sha256 entries))
        fun _ w' => Read sha256 w₀ w') := by
  induction entries generalizing w with
  | nil => exact ends_pure ⟨h, fun _ => rfl⟩
  | cons e entries ih =>
    obtain ⟨name, file⟩ := e
    have hrest := fun e he => hentries e (List.mem_cons_of_mem _ he)
    unfold listEntries
    split
    · rename_i hname
      have hhead : described sha256 ((name, file) :: entries) =
          describe sha256 name file :: described sha256 entries := by
        simp [described, hname]
      refine ends_attempt_bind (fun _ => ?_) (fun hfailed => ?_) h
      · refine (shaOf_ends h hname (hentries _ List.mem_cons_self)).bind ?_ fun _ _ hread => hread
        rintro sha w₁ ⟨hread, rfl⟩
        refine (ih hread hrest).bind ?_ fun _ _ hread => hread
        rintro out w₂ ⟨hread, hout⟩
        refine ends_pure ⟨hread, fun hknown => ?_⟩
        rw [hhead, hout hknown]
        rfl
      · refine Ends.mono (ih h hrest) ?_
        rintro (stop | out) w₁ hout
        · exact hout
        · exact ⟨hout.1, fun hknown => absurd hfailed (hknown name)⟩
    · rename_i hname
      have htail : described sha256 ((name, file) :: entries) = described sha256 entries := by
        simp [described, hname]
      rw [htail]
      exact ih h hrest

/-- A list that is what the directory holds. -/
structure Listed (sha256 : List UInt8 → String) (w : World) (files : List GeoFileDto) : Prop where
  names : (files.map (·.name)).Nodup
  sorted : files.Pairwise fun a b => a.name ≤ b.name
  mem : ∀ dto, dto ∈ files ↔ validName dto.name = true ∧
    ∃ file, w.files.get? dto.name = some file ∧ dto = describe sha256 dto.name file

theorem mem_described {dto : GeoFileDto} : dto ∈ described sha256 w.entries ↔
    validName dto.name = true ∧
      ∃ file, w.files.get? dto.name = some file ∧ dto = describe sha256 dto.name file := by
  unfold described
  rw [List.mem_map]
  constructor
  · rintro ⟨⟨name, file⟩, he, rfl⟩
    obtain ⟨he, hname⟩ := List.mem_filter.mp he
    exact ⟨hname, file, World.mem_entries.mp he, rfl⟩
  · rintro ⟨hname, file, hfile, hdto⟩
    exact ⟨(dto.name, file), List.mem_filter.mpr ⟨World.mem_entries.mpr hfile, hname⟩, hdto.symm⟩

theorem listed_described : Listed sha256 w
    ((described sha256 w.entries).mergeSort fun a b => decide (a.name ≤ b.name)) := by
  have hperm := List.mergeSort_perm (described sha256 w.entries) fun a b => decide (a.name ≤ b.name)
  refine ⟨(hperm.map _).nodup_iff.mpr ?_, ?_, fun dto => hperm.mem_iff.trans mem_described⟩
  · have hnames : (described sha256 w.entries).map (·.name) =
        (w.entries.filter fun e => validName e.1).map Prod.fst := by
      unfold described
      rw [List.map_map]
      rfl
    rw [hnames]
    exact World.nodup_entries.sublist (List.filter_sublist.map _)
  · refine (List.pairwise_mergeSort (fun a b c hab hbc => ?_) (fun a b => ?_) _).imp fun h =>
      of_decide_eq_true h
    · exact decide_eq_true (le_trans (of_decide_eq_true hab) (of_decide_eq_true hbc))
    · rw [Bool.or_eq_true, decide_eq_true_iff, decide_eq_true_iff]
      exact le_total a.name b.name

variable (fates) in
theorem list_ends (h : CacheRight sha256 w) :
    Ends (list sha256 fates) w
      (Then (fun files w' => Read sha256 w w' ∧ (fates.Known → Listed sha256 w files))
        fun _ w' => Read sha256 w w') := by
  have hread : Read sha256 w w := ⟨rfl, h⟩
  refine ends_op_bind (fun _ => ?_) (fun _ => hread) hread
  refine ends_state_bind ?_
  refine (listEntries_ends hread fun e he => World.mem_entries.mp he).bind ?_ fun _ _ h => h
  rintro out w' ⟨hread, hout⟩
  refine ends_pure ⟨hread, fun hknown => ?_⟩
  rw [hout hknown]
  exact listed_described

/-- A wanted file is there, with the wanted hash. -/
def holds (sha256 : List UInt8 → String) (w : World) (f : NodeGeoFile) : Bool :=
  match w.files.get? f.name with
  | some file => validName f.name && decide (sha256 file.bytes = toLower f.sha256)
  | none => false

theorem toLower_ne_empty {s : String} (h : s ≠ "") : toLower s ≠ "" := by
  intro hempty
  have hlist := congrArg String.toList hempty
  simp only [toLower, String.toList_map, String.toList_empty, List.map_eq_nil_iff] at hlist
  exact h (String.toList_eq_nil_iff.mp hlist)

/-- The hash that a right list gives a wanted name is the one of its file, or none. -/
theorem wanted_iff {files : List GeoFileDto} (h : Listed sha256 w files) {f : NodeGeoFile}
    (hwant : f.sha256 ≠ "") :
    decide ((((OrderedMap.collect (·.name) (fun _ g => g.sha256) files).get? f.name).getD "") ≠
      toLower f.sha256) = !holds sha256 w f := by
  unfold holds
  by_cases hthere : ∃ dto ∈ files, dto.name = f.name
  · obtain ⟨dto, hdto, hname⟩ := hthere
    obtain ⟨hvalid, file, hfile, heq⟩ := (h.mem dto).mp hdto
    rw [← hname, OrderedMap.get?_collect_of_nodup _ _ h.names hdto, hfile, hvalid, heq]
    by_cases hsha : sha256 file.bytes = toLower f.sha256 <;> simp [describe, hsha]
  · have hnone : (OrderedMap.collect (·.name) (fun _ g => g.sha256) files).get? f.name = none := by
      rw [OrderedMap.get?_eq_none_iff, OrderedMap.mem_keys_collect]
      exact hthere
    rw [hnone, Option.getD_none]
    have hne : "" ≠ toLower f.sha256 := Ne.symm (toLower_ne_empty hwant)
    rw [decide_eq_true hne]
    cases hfile : w.files.get? f.name with
    | none => rfl
    | some file =>
      have hinvalid : validName f.name = false := Bool.eq_false_iff.mpr fun hvalid =>
        hthere ⟨describe sha256 f.name file, (h.mem _).mpr ⟨hvalid, file, hfile, rfl⟩, rfl⟩
      simp [hinvalid]

variable (fates) in
theorem missing_ends (h : CacheRight sha256 w) (want : List NodeGeoFile) :
    Ends (missing sha256 fates want) w
      (Then (fun names w' => Read sha256 w w' ∧ (fates.Known → (∀ f ∈ want, f.sha256 ≠ "") →
          names = (want.filter fun f => !holds sha256 w f).map (·.name)))
        fun _ w' => Read sha256 w w') := by
  refine (list_ends fates h).bind ?_ fun _ _ h => h
  rintro files w' ⟨hread, hfiles⟩
  refine ends_pure ⟨hread, fun hknown hwant => ?_⟩
  exact congrArg _ (List.filter_congr fun f hf => wanted_iff (hfiles hknown) (hwant f hf))

end Listing

end Iceslab.Agent.GeoStore
