import Iceslab.Agent.GeoStoreLaid

/-!
# The geo directory holds what it lists

* `retain_ends` — of the geo files and their copies, exactly what is named stays.
* `Event.Sound`, `Event.Right` — what a call needs of its operations, and what it promises.
* `geo_store_kept` — in every run of sound calls every call keeps its promise.
* `old_file_gone` — a rename into place that fails after the old file was moved away.
-/

set_option autoImplicit false

namespace Iceslab.Agent.GeoStore

open Fallible

/-! ## What stays -/

section Retaining

variable {sha256 : List UInt8 → String} {fates : RetainFates} {named : List String} {now : Int}
variable {w w' w'' : World} {name : String} {file : File}

/-- A geo file, or the copy of one. -/
def IsGeo (name : String) : Prop :=
  validName name = true ∨ ∃ base, validName base = true ∧ name = base ++ prevSuffix

/-- Named, or the copy of what is named. -/
def Named (named : List String) (name : String) : Prop :=
  name ∈ named ∨ ∃ base ∈ named, name = base ++ prevSuffix

theorem trimPrev_iff {P : String → Prop} :
    (GoText.trimSuffix name prevSuffix ≠ name ∧ P (GoText.trimSuffix name prevSuffix)) ↔
      ∃ base, P base ∧ name = base ++ prevSuffix := by
  constructor
  · rintro ⟨hne, hp⟩
    exact ⟨_, hp, (GoText.append_of_trimSuffix_ne hne).symm⟩
  · rintro ⟨base, hp, rfl⟩
    rw [GoText.trimSuffix_append]
    refine ⟨fun he => ?_, hp⟩
    have hlen := congrArg (fun s => s.toList.length) he
    simp [prevSuffix] at hlen

theorem ours_iff : ours name = true ↔ IsGeo name := by
  unfold ours IsGeo
  rw [decide_eq_true_iff, trimPrev_iff (P := fun base => validName base = true)]

theorem keeps_iff : keeps named name = true ↔ Named named name := by
  unfold keeps Named
  rw [decide_eq_true_iff, trimPrev_iff (P := fun base => base ∈ named)]

theorem not_tmp_of_ours (h : IsGeo name) : GoText.hasPrefix name ".put-" = false := by
  refine Bool.eq_false_iff.mpr fun hpre => ?_
  rcases h with hvalid | ⟨base, hbase, rfl⟩
  · rw [not_valid_of_tmp hpre] at hvalid
    cases hvalid
  · obtain ⟨rest, hrest⟩ := List.isPrefixOf_iff_prefix.mp hpre
    have hhead := head_of_valid hbase
    rw [String.toList_append] at hrest
    cases hchars : base.toList with
    | nil => simp [hchars] at hhead
    | cons c cs =>
      rw [hchars] at hrest hhead
      have hc : '.' = c := (List.cons.inj hrest).1
      rw [← hc] at hhead
      simp at hhead

/-- Files are gone that may go, and the hashes left were there. -/
structure Swept (named : List String) (w w' : World) : Prop where
  files : ∀ n, w'.files.get? n = w.files.get? n ∨ w'.files.get? n = none ∧
    (GoText.hasPrefix n ".put-" = true ∨ IsGeo n ∧ ¬ Named named n)
  cache : ∀ n c, w'.cache.get? n = some c → w.cache.get? n = some c

theorem Swept.refl (named : List String) (w : World) : Swept named w w :=
  ⟨fun _ => .inl rfl, fun _ _ hc => hc⟩

theorem Swept.trans (h : Swept named w w') (h' : Swept named w' w'') : Swept named w w'' where
  files n := by
    rcases h'.files n with hsame | hgone
    · rw [hsame]
      exact h.files n
    · exact .inr hgone
  cache n c hc := h.cache n c (h'.cache n c hc)

theorem Swept.none (h : Swept named w w') (hnone : w.files.get? name = none) :
    w'.files.get? name = none := by
  rcases h.files name with hsame | hgone
  · rw [hsame, hnone]
  · exact hgone.1

theorem Swept.cacheRight (h : Swept named w w') (hc : CacheRight sha256 w) :
    CacheRight sha256 w' := by
  refine hc.of_le (fun n hn file hfile c hcached => ?_) h.cache
  rcases h.files n with hsame | hgone
  · rw [← hsame]
    exact hfile
  · rw [hgone.1] at hfile
    cases hfile

theorem swept_removed
    (h : GoText.hasPrefix name ".put-" = true ∨ IsGeo name ∧ ¬ Named named name) :
    Swept named w ((w.remove name).forget name) where
  files n := by
    rw [World.files_forget, World.get?_remove]
    split
    · rename_i hn
      subst hn
      exact .inr ⟨rfl, h⟩
    · exact .inl rfl
  cache n c hc := by
    rw [World.get?_forget] at hc
    split at hc
    · cases hc
    · exact hc

theorem swept_forget : Swept named w (w.forget name) where
  files _ := .inl rfl
  cache n c hc := by
    rw [World.get?_forget] at hc
    split at hc
    · cases hc
    · exact hc

theorem goes_ends : Ends (goes fates named now name file) w
    (Then (fun out w' => w' = w ∧
        (out = true → GoText.hasPrefix name ".put-" = true ∨ IsGeo name ∧ ¬ Named named name) ∧
        (IsGeo name → ¬ Named named name → out = true))
      fun _ w' => w' = w) := by
  unfold goes
  split
  · rename_i htmp
    have hno : IsGeo name → ¬ Named named name → ∀ out : Bool, out = true := fun hgeo => by
      rw [not_tmp_of_ours hgeo] at htmp
      cases htmp
    refine ends_attempt_bind (fun _ => ?_) (fun _ => ?_) rfl
    · exact ends_pure ⟨rfl, fun _ => .inl htmp, fun hgeo hnot => hno hgeo hnot _⟩
    · exact ends_pure ⟨rfl, fun _ => .inl htmp, fun hgeo hnot => hno hgeo hnot _⟩
  · refine ends_pure ⟨rfl, fun hout => ?_, fun hgeo hnot => ?_⟩
    · obtain ⟨hours, hkeeps⟩ := Bool.and_eq_true_iff.mp hout
      refine .inr ⟨ours_iff.mp hours, fun hnamed => ?_⟩
      rw [keeps_iff.mpr hnamed] at hkeeps
      cases hkeeps
    · rw [ours_iff.mpr hgeo, Bool.eq_false_iff.mpr (mt keeps_iff.mp hnot)]
      rfl

theorem retainEntries_ends {entries : List (String × File)} :
    Ends (retainEntries fates named now entries) w
      (Then (fun failed w' => Swept named w w' ∧ (failed = [] → ∀ e ∈ entries, IsGeo e.1 →
          ¬ Named named e.1 → w'.files.get? e.1 = none))
        fun _ w' => Swept named w w') := by
  induction entries generalizing w with
  | nil => exact ends_pure ⟨Swept.refl named w, fun _ e he => absurd he List.not_mem_nil⟩
  | cons e entries ih =>
    obtain ⟨name, file⟩ := e
    refine goes_ends.bind ?_ fun _ w' hw' => hw' ▸ Swept.refl named w
    rintro out w' ⟨rfl, hmay, hmust⟩
    split
    · rename_i hout
      refine ends_attempt_bind (fun _ => ?_) (fun _ => ?_) (Swept.refl named _)
      · have hswept := swept_removed (w := w') (hmay hout)
        refine ends_update_bind (ih.bind ?_ fun _ _ hrest => hswept.trans hrest)
        rintro rest w₂ ⟨hrest, hgone⟩
        refine ends_pure ⟨hswept.trans hrest, fun hnil e he hgeo hnot => ?_⟩
        rcases List.mem_cons.mp he with rfl | he
        · refine hrest.none ?_
          rw [World.files_forget, World.get?_remove, if_pos rfl]
        · exact hgone hnil e he hgeo hnot
      · refine ends_update_bind (ih.bind ?_ fun _ _ hrest => swept_forget.trans hrest)
        rintro rest w₂ ⟨hrest, -⟩
        exact ends_pure ⟨swept_forget.trans hrest, fun hnil => absurd hnil (List.cons_ne_nil _ _)⟩
    · rename_i hout
      refine Ends.mono ih ?_
      rintro (stop | failed) w₂ hrest
      · exact hrest
      · refine ⟨hrest.1, fun hnil e he hgeo hnot => ?_⟩
        rcases List.mem_cons.mp he with rfl | he
        · exact absurd (hmust hgeo hnot) hout
        · exact hrest.2 hnil e he hgeo hnot

/-- Of the geo files and their copies, exactly what is named. -/
structure Retained (named : List String) (w w' : World) : Prop where
  kept : ∀ n, IsGeo n → Named named n → w'.files.get? n = w.files.get? n
  gone : ∀ n, IsGeo n → ¬ Named named n → w'.files.get? n = none
  others : ∀ n, ¬ IsGeo n → GoText.hasPrefix n ".put-" = false →
    w'.files.get? n = w.files.get? n

theorem Swept.same (h : Swept named w w') (htmp : GoText.hasPrefix name ".put-" = false)
    (hstay : ¬ (IsGeo name ∧ ¬ Named named name)) : w'.files.get? name = w.files.get? name := by
  rcases h.files name with hsame | ⟨-, hmay⟩
  · exact hsame
  · rcases hmay with hyes | hgoes
    · rw [htmp] at hyes
      cases hyes
    · exact absurd hgoes hstay

variable (fates named now w) in
theorem retain_ends : Ends (retain fates named now) w
    (Then (fun _ w' => Swept named w w' ∧ Retained named w w') fun _ w' => Swept named w w') := by
  have hstart := Swept.refl named w
  refine ends_op_bind (fun _ => ?_) (fun _ => hstart) hstart
  refine ends_state_bind (retainEntries_ends.bind ?_ fun _ _ h => h)
  rintro failed w' ⟨hswept, hgone⟩
  refine ends_require (fun hnil => ⟨hswept, ?_, fun n hgeo hnot => ?_, ?_⟩) hswept
  · exact fun n hgeo hnamed => hswept.same (not_tmp_of_ours hgeo) fun h => h.2 hnamed
  · cases hfile : w.files.get? n with
    | none => exact hswept.none hfile
    | some file =>
      exact hgone (List.isEmpty_iff.mp hnil) (n, file) (World.mem_entries.mpr hfile) hgeo hnot
  · exact fun n hgeo htmp => hswept.same htmp fun h => hgeo h.1

end Retaining

/-! ## Any sequence of sound calls -/

section Runs

variable (sha256 : List UInt8 → String)

/-- What a call needs of its operations: every entry has its information, a wanted file has a hash,
and a put comes through from where it takes something away. -/
def Event.Sound (w : World) : Event → Prop
  | .list fates => fates.Known
  | .missing fates want => fates.Known ∧ ∀ f ∈ want, f.sha256 ≠ ""
  | .put fates a => a.Sound sha256 fates w
  | .retain _ _ _ => True

/-- What a call promises of what it returns. -/
def Event.Right (w : World) : Event → Prop
  | .list fates => ∀ files, (GeoStore.list sha256 fates w).1 = .ok files → Listed sha256 w files
  | .missing fates want => ∀ names, (GeoStore.missing sha256 fates want w).1 = .ok names →
      names = (want.filter fun f => !holds sha256 w f).map (·.name)
  | .put fates a =>
      (∀ e, (GeoStore.put sha256 fates a w).1 = .error (.error e) →
        Untouched w (GeoStore.put sha256 fates a w).2) ∧
      ∀ dto, (GeoStore.put sha256 fates a w).1 = .ok dto →
        Laid sha256 a w (GeoStore.put sha256 fates a w).2 dto
  | .retain fates named now => (GeoStore.retain fates named now w).1 = .ok () →
      Retained named w (GeoStore.retain fates named now w).2

/-- Runs whose calls are all sound. -/
def soundStore : Machine World Event where
  start := (geoStore sha256).start
  step w e w' := (geoStore sha256).step w e w' ∧ e.Sound sha256 w

/-- The name of a file straight in the directory. -/
def InDir (dir name : String) : Prop :=
  GoPath.join dir name =
    GoPath.root dir ++ String.intercalate "/" (GoPath.elements dir ++ [name]) ∧
  '/' ∉ name.toList ∧ name ≠ ".."

variable {sha256} {w : World}

theorem cacheRight_afterCall {α : Type} {call : Call α} {next : α → World → Prop}
    {stopped : Stop StoreError → World → Prop} (h : Ends call w (Then next stopped))
    (hok : ∀ a w', next a w' → CacheRight sha256 w')
    (herror : ∀ e w', stopped (.error e) w' → CacheRight sha256 w') :
    CacheRight sha256 (afterCall call w) := by
  unfold Ends at h
  unfold afterCall
  rcases hcall : call w with ⟨r, w'⟩
  rw [hcall] at h
  cases r with
  | ok a => exact hok a w' h
  | error stop =>
    cases stop with
    | crashed => exact cacheRight_restarted
    | error e => exact herror e w' h

theorem cacheRight_after (h : CacheRight sha256 w) {e : Event} (hp : e.Possible w)
    (hs : e.Sound sha256 w) : CacheRight sha256 (e.after sha256 w) := by
  cases e with
  | list fates =>
    exact cacheRight_afterCall (list_ends fates h) (fun _ _ h => h.1.cache) fun _ _ h => h.cache
  | missing fates want =>
    exact cacheRight_afterCall (missing_ends fates h want) (fun _ _ h => h.1.cache)
      fun _ _ h => h.cache
  | put fates a =>
    exact cacheRight_afterCall (put_ends h hp.1 hs) (fun _ _ h => h.1) fun e _ h => (h e rfl).1
  | retain fates named now =>
    exact cacheRight_afterCall (retain_ends fates named now w) (fun _ _ h' => h'.1.cacheRight h)
      fun _ _ h' => h'.cacheRight h

theorem cacheRight_reachable (h : (soundStore sha256).Reachable w) : CacheRight sha256 w := by
  refine h.invariant (fun w hstart => ?_) fun w e w' _ hinv hstep => ?_
  · intro name _ c hc
    rw [show w.cache = OrderedMap.empty from hstart] at hc
    cases hc
  · obtain ⟨⟨hp, rfl⟩, hs⟩ := hstep
    exact cacheRight_after hinv hp hs

theorem inDir_of_plain {dir name : String} (h : GoPath.Plain name) : InDir dir name :=
  ⟨GoPath.join_plain h, h.noSlash, h.notUp⟩

theorem right_of_cacheRight (h : CacheRight sha256 w) {e : Event} (hp : e.Possible w)
    (hs : e.Sound sha256 w) : e.Right sha256 w := by
  cases e with
  | list fates =>
    have hends := list_ends fates h
    unfold Ends at hends
    intro files hfiles
    rw [hfiles] at hends
    exact hends.2 hs
  | missing fates want =>
    have hends := missing_ends fates h want
    unfold Ends at hends
    intro names hnames
    rw [hnames] at hends
    exact hends.2 hs.1 hs.2
  | put fates a =>
    have hends := put_ends h hp.1 hs
    unfold Ends at hends
    refine ⟨fun e he => ?_, fun dto hdto => ?_⟩
    · rw [he] at hends
      exact (hends e rfl).2
    · rw [hdto] at hends
      exact hends.2
  | retain fates named now =>
    have hends := retain_ends fates named now w
    unfold Ends at hends
    intro hok
    rw [hok] at hends
    exact hends.2

/-- In every run of sound calls, crashes between their operations among them, every call keeps its
promise, and no valid name leads out of the directory. -/
theorem geo_store_kept (h : (soundStore sha256).Reachable w) {e : Event} (hp : e.Possible w)
    (hs : e.Sound sha256 w) : e.Right sha256 w ∧
    ∀ dir name, validName name = true → InDir dir name ∧ InDir dir (name ++ prevSuffix) := by
  refine ⟨right_of_cacheRight (cacheRight_reachable h) hp hs, fun dir name hname => ?_⟩
  obtain ⟨hplain, hprev⟩ := plain_of_valid hname
  exact ⟨inDir_of_plain hplain, inDir_of_plain hprev⟩

end Runs

/-! ## An old file moved away for nothing -/

/-- SHA-256 of two bodies of one byte. -/
def sha256OfOne (bytes : List UInt8) : String :=
  if bytes = [1] then "4bf5122f344554c53bde2ebb8cd2b7e3d1600ad631c385a5d7cce23c7785459a"
  else if bytes = [2] then "dbc1b4c900ffe48d575b5da5c638040125f65db0fe3e24494b76ea986457d986"
  else ""

/-- The directory holds one built-in list. -/
def oneList : World := ⟨OrderedMap.empty.set "geosite.dat" ⟨[1], 0⟩, OrderedMap.empty⟩

/-- A put that replaces the list. -/
def replacement : PutArgs where
  tmp := ".put-1234567890"
  name := "geosite.dat"
  body := [2]
  wantSha := "dbc1b4c900ffe48d575b5da5c638040125f65db0fe3e24494b76ea986457d986"
  now := 1

/-- Every operation is done, but for the rename into place. -/
def renameFates (rename : Fate) : PutFates :=
  ⟨.done, .done, .done, 0, .done, .done, .done, .done, .done, rename, .done, .done⟩

theorem possible_replacement (rename : Fate) :
    (Event.put (renameFates rename) replacement).Possible oneList := by
  unfold Event.Possible
  exact ⟨by decide, by decide⟩

/-- A run with a put whose every operation is done. -/
theorem kept_replacement :
    (∃ dto, (put sha256OfOne (renameFates .done) replacement oneList).1 = .ok dto ∧
      Laid sha256OfOne replacement oneList
        (put sha256OfOne (renameFates .done) replacement oneList).2 dto) ∧
    InDir "/etc/iceslab-node/geo" "geosite.dat" := by
  have hsound : (Event.put (renameFates .done) replacement).Sound sha256OfOne oneList :=
    fun _ => ⟨fun _ _ => by decide, fun _ _ => by decide⟩
  have hstart : (soundStore sha256OfOne).Reachable oneList :=
    .start (show oneList.cache = OrderedMap.empty from rfl)
  obtain ⟨hright, hin⟩ := geo_store_kept hstart (possible_replacement .done) hsound
  have hdone : (put sha256OfOne (renameFates .done) replacement oneList).1.toOption.isSome := by
    decide +kernel
  refine ⟨?_, (hin _ _ (by decide)).1⟩
  cases hput : (put sha256OfOne (renameFates .done) replacement oneList).1 with
  | error e =>
    rw [hput] at hdone
    cases hdone
  | ok dto => exact ⟨dto, rfl, hright.2 dto hput⟩

/-- The rename into place fails after the old list was moved away: the put is refused, and there is
no list any more. -/
theorem old_file_gone : ∃ w, (geoStore sha256OfOne).Reachable w ∧
    (Event.put (renameFates .failed) replacement).Possible w ∧
    ¬ (Event.put (renameFates .failed) replacement).Right sha256OfOne w := by
  have hstart : (geoStore sha256OfOne).Reachable oneList :=
    .start (show oneList.cache = OrderedMap.empty from rfl)
  refine ⟨oneList, hstart, possible_replacement .failed, fun hright => ?_⟩
  have hsame := hright.1 .rename (by decide +kernel) "geosite.dat" (by decide +kernel)
  exact absurd hsame (by decide +kernel)

end Iceslab.Agent.GeoStore
