import Iceslab.CoreVersions
import Iceslab.Lib.JsPrefix
import Mathlib.Data.List.TakeWhile

/-!
# Versions judged where the order is certain

The order of `compareCoreVersions` is the order of the numbers as doubles, and the release of the
bootstrap payload is the manifest's record without its repository.

* `ordered_iff` — it is the order of the numbers where the doubles tell the two versions apart.
* `judged` — a version is called bad, or too new, by the manifest's ranges alone.
* `carried_iff` — the payload carries the record where the record names no repository.
* `versions_held_iff` — the three together.
-/

set_option autoImplicit false

namespace Iceslab.CoreVersions

open JsText
open PaddedOrder (place cmp Told cmp_eq_iff cmp_lt_iff cmp_gt_iff cmp_congr_left cmp_map_iff)

/-! ## A version read back -/

section Text

variable {v : CoreVersion} {s : String}

/-- What the shape of a version says. -/
structure CoreVersion.Shaped (v : CoreVersion) : Prop where
  segments : v.segments.all isDigits = true
  ne_nil : v.segments ≠ []
  suffix : ∀ t ∈ v.suffix, t ≠ "" ∧ t.toList.all isSuffixChar = true

theorem shaped_of_versionShape (h : versionShape s = some v) : v.Shaped := by
  unfold versionShape at h
  dsimp only at h
  generalize hcs : ((afterPrefix "v" s).getD s).toList = cs at h
  have hne : split '.' (String.ofList (cs.takeWhile (· ≠ '-'))) ≠ [] := by
    rw [split, ne_eq, List.map_eq_nil_iff]
    exact List.splitOn_ne_nil _ _
  generalize split '.' (String.ofList (cs.takeWhile (· ≠ '-'))) = segments at h hne
  generalize cs.dropWhile (· ≠ '-') = rest at h
  split at h
  · rename_i hdigits
    cases rest with
    | nil =>
      cases h
      exact ⟨hdigits, hne, fun t ht => by cases ht⟩
    | cons dash suffix =>
      dsimp only at h
      split at h
      · rename_i hsuffix
        cases h
        refine ⟨hdigits, hne, fun t ht => ?_⟩
        cases ht
        rw [String.toList_ofList]
        exact ⟨fun hempty => hsuffix.1 (by simpa using congrArg String.toList hempty), hsuffix.2⟩
      · cases h
  · cases h

theorem isDigit_of_mem (h : v.Shaped) {w : String} (hw : w ∈ v.segments) :
    w ≠ "" ∧ ∀ c ∈ w.toList, c.isDigit = true := by
  have := List.all_eq_true.mp h.segments w hw
  simpa [isDigits] using this

theorem chars_numbers (h : v.Shaped) :
    ∀ c ∈ (String.intercalate "." v.segments).toList, c.isDigit = true ∨ c = '.' := by
  intro c hc
  rw [String.toList_intercalate] at hc
  rcases List.mem_intercalate hc with hc | ⟨w, hw, hc⟩
  · exact .inr (by simpa using hc)
  · obtain ⟨t, ht, rfl⟩ := List.mem_map.mp hw
    exact .inl ((isDigit_of_mem h ht).2 c hc)

theorem notSpace_of_isSuffixChar {c : Char} (h : isSuffixChar c = true) : isSpace c = false := by
  rcases Bool.or_eq_true .. |>.mp h with h | h
  · exact isSpace_of_isAlphanum h
  · rw [of_decide_eq_true h]
    decide

/-- The characters of a version are letters, digits, points and the dash. -/
theorem notSpace_text (h : v.Shaped) : ∀ c ∈ v.text.toList, isSpace c = false := by
  intro c hc
  have hsuffix {c : Char} (hc : isSuffixChar c = true) : isSpace c = false :=
    notSpace_of_isSuffixChar hc
  have hnumbers {c : Char} (hc : c ∈ (String.intercalate "." v.segments).toList) :
      isSpace c = false := by
    rcases chars_numbers h c hc with hd | rfl
    · exact hsuffix (by simp [isSuffixChar, Char.isAlphanum, hd])
    · decide
  unfold CoreVersion.text at hc
  rw [String.toList_append, List.mem_append] at hc
  rcases hc with hc | hc
  · exact hnumbers hc
  · cases hv : v.suffix with
    | none => simp [hv] at hc
    | some t =>
      simp only [hv, Option.map_some, Option.getD_some, String.toList_append, List.mem_append] at hc
      rcases hc with hc | hc
      · have : c = '-' := by simpa using hc
        subst this
        decide
      · exact hsuffix (List.all_eq_true.mp (h.suffix t hv).2 c hc)

theorem split_numbers (h : v.Shaped) :
    split '.' (String.intercalate "." v.segments) = v.segments := by
  refine split_intercalate (fun w hw hc => ?_) h.ne_nil
  exact absurd ((isDigit_of_mem h hw).2 _ hc) (by decide)

/-- No `v` stands before the digits. -/
theorem afterPrefix_text (h : v.Shaped) : afterPrefix "v" v.text = none := by
  rw [afterPrefix_eq_none]
  intro t ht
  cases hcs : (String.intercalate "." v.segments).toList with
  | nil =>
    have hsplit := split_numbers h
    rw [split, hcs, List.splitOn_nil, List.map_singleton] at hsplit
    refine (isDigit_of_mem h (w := "") ?_).1 rfl
    rw [← hsplit]
    exact List.mem_singleton.mpr rfl
  | cons c cs =>
    have hlist := congrArg String.toList ht
    rw [CoreVersion.text, String.toList_append, hcs, String.toList_append, List.cons_append] at hlist
    have hc : c = 'v' := (List.cons.inj hlist).1
    rcases chars_numbers h c (hcs ▸ List.mem_cons_self) with hd | hd
    · exact absurd (hc ▸ hd) (by decide)
    · exact absurd (hc.symm.trans hd) (by decide)

/-- A version is read back from its text. -/
theorem versionShape_text (h : v.Shaped) : versionShape (trim v.text) = some v := by
  have hdash : '-' ∉ (String.intercalate "." v.segments).toList := fun hc => by
    rcases chars_numbers h _ hc with hd | hd <;> exact absurd hd (by decide)
  rw [trim_of_noSpace (notSpace_text h), versionShape, afterPrefix_text h, Option.getD_none]
  cases hv : v.suffix with
  | none =>
    have htext : v.text = String.intercalate "." v.segments := by
      rw [CoreVersion.text, hv, Option.map_none, Option.getD_none, String.append_empty]
    have hall : ∀ c ∈ v.text.toList, decide (c ≠ '-') = true := fun c hc => by
      rw [decide_eq_true_eq]
      rintro rfl
      exact hdash (htext ▸ hc)
    rw [List.takeWhile_eq_self_iff.mpr hall, List.dropWhile_eq_nil_iff.mpr hall,
      String.ofList_toList, htext, split_numbers h]
    dsimp only
    rw [if_pos h.segments, ← hv]
  | some t =>
    have htext : v.text.toList =
        (String.intercalate "." v.segments).toList ++ '-' :: t.toList := by
      rw [CoreVersion.text, hv, Option.map_some, Option.getD_some, String.toList_append,
        String.toList_append]
      rfl
    rw [htext, takeWhile_ne hdash, dropWhile_ne hdash, String.ofList_toList, split_numbers h]
    dsimp only
    have ht := h.suffix t hv
    rw [if_pos h.segments, if_pos ⟨fun hnil => ht.1 (String.toList_eq_nil_iff.mp hnil), ht.2⟩,
      String.ofList_toList, ← hv]

end Text

/-! ## The order of the numbers -/

section Order

/-- The numbers of the segments, whatever their length. -/
def CoreVersion.numbers (v : CoreVersion) : List Nat := v.segments.map numberOf

/-- What both versions are, once they are read. -/
def Read (a b : String) (ma mb : CoreVersion) : Prop :=
  versionShape (trim a) = some ma ∧ versionShape (trim b) = some mb

/-- The order of the first segment that differs, missing ones zero. -/
structure Ordered (a b c : String) : Prop where
  equal : compareCoreVersions a b = some .eq ↔ ∃ ma mb, Read a b ma mb ∧
    (∀ i, place 0 ma.numbers i = place 0 mb.numbers i) ∧ ma.suffix.getD "" = mb.suffix.getD ""
  below : compareCoreVersions a b = some .lt ↔ ∃ ma mb, Read a b ma mb ∧
    ∃ i, (∀ j < i, place 0 ma.numbers j = place 0 mb.numbers j) ∧
      place 0 ma.numbers i < place 0 mb.numbers i
  above : compareCoreVersions a b = some .gt ↔ ∃ ma mb, Read a b ma mb ∧
    ∃ i, (∀ j < i, place 0 ma.numbers j = place 0 mb.numbers j) ∧
      place 0 mb.numbers i < place 0 ma.numbers i
  antisymmetric : compareCoreVersions b a = (compareCoreVersions a b).map Ordering.swap
  transitive : ∀ o, compareCoreVersions a b = some o → compareCoreVersions b c = some o →
    compareCoreVersions a c = some o
  /-- equal versions stand in the same order to a third -/
  congruent : compareCoreVersions a b = some .eq →
    ∀ o, compareCoreVersions b c = some o → compareCoreVersions a c = some o

/-- In the first segment that differs the numbers differ as doubles too, or what follows it, in
doubles, is in the order of that segment. -/
def ToldApart (a b : String) : Prop :=
  ∀ ma mb, Read a b ma mb → Told 0 JsNumber.roundNat ma.numbers mb.numbers

variable {a b c : String} {ma mb mc : CoreVersion} {o : Ordering}

theorem compare_eq_some : compareCoreVersions a b = some o ↔ ∃ ma mb,
    Read a b ma mb ∧ cmp 0 ma.doubles mb.doubles = o ∧
      (o = .eq → ma.suffix.getD "" = mb.suffix.getD "") := by
  have horder (ma mb : CoreVersion) : orderOf ma mb = some o ↔
      cmp 0 ma.doubles mb.doubles = o ∧ (o = .eq → ma.suffix.getD "" = mb.suffix.getD "") := by
    unfold orderOf
    dsimp only
    split
    · rename_i hne
      rw [Option.some.injEq]
      exact ⟨fun h => ⟨h, fun ho => absurd (h.trans ho) hne⟩, And.left⟩
    · rename_i heq
      rw [not_not] at heq
      split
      · rename_i hsuffix
        rw [Option.some.injEq, heq]
        exact ⟨fun h => ⟨h, fun _ => hsuffix⟩, And.left⟩
      · rename_i hsuffix
        exact ⟨nofun, fun h => absurd (h.2 (h.1.symm.trans heq)) hsuffix⟩
  simp only [compareCoreVersions, Option.bind_eq_some_iff, horder, Read]
  constructor
  · rintro ⟨ma, hma, mb, hmb, h⟩
    exact ⟨ma, mb, ⟨hma, hmb⟩, h⟩
  · rintro ⟨ma, mb, ⟨hma, hmb⟩, h⟩
    exact ⟨ma, hma, mb, hmb, h⟩

theorem Read.unique {ma' mb' : CoreVersion} (h : Read a b ma mb) (h' : Read a b ma' mb') :
    ma' = ma ∧ mb' = mb :=
  ⟨Option.some.inj (h'.1.symm.trans h.1), Option.some.inj (h'.2.symm.trans h.2)⟩

theorem compare_swap (a b : String) :
    compareCoreVersions b a = (compareCoreVersions a b).map Ordering.swap := by
  ext o
  rw [compare_eq_some, Option.map_eq_some_iff]
  constructor
  · rintro ⟨mb, ma, hread, hcmp, hsuffix⟩
    refine ⟨o.swap, compare_eq_some.mpr ⟨ma, mb, ⟨hread.2, hread.1⟩, ?_, fun ho => ?_⟩,
      Ordering.swap_swap⟩
    · rw [PaddedOrder.cmp_swap, hcmp]
    · exact (hsuffix (by simpa using congrArg Ordering.swap ho)).symm
  · rintro ⟨o', h, rfl⟩
    obtain ⟨ma, mb, hread, hcmp, hsuffix⟩ := compare_eq_some.mp h
    refine ⟨mb, ma, ⟨hread.2, hread.1⟩, ?_, fun ho => ?_⟩
    · rw [PaddedOrder.cmp_swap, hcmp]
    · exact (hsuffix (by simpa using congrArg Ordering.swap ho)).symm

theorem compare_trans (h : compareCoreVersions a b = some o)
    (h' : compareCoreVersions b c = some o) : compareCoreVersions a c = some o := by
  obtain ⟨ma, mb, hread, hcmp, hsuffix⟩ := compare_eq_some.mp h
  obtain ⟨mb', mc, hread', hcmp', hsuffix'⟩ := compare_eq_some.mp h'
  have hmb : mb' = mb := Option.some.inj (hread'.1.symm.trans hread.2)
  subst hmb
  exact compare_eq_some.mpr ⟨ma, mc, ⟨hread.1, hread'.2⟩, PaddedOrder.cmp_trans hcmp hcmp',
    fun ho => (hsuffix ho).trans (hsuffix' ho)⟩

theorem compare_congr (h : compareCoreVersions a b = some .eq)
    (h' : compareCoreVersions b c = some o) : compareCoreVersions a c = some o := by
  obtain ⟨ma, mb, hread, hcmp, hsuffix⟩ := compare_eq_some.mp h
  obtain ⟨mb', mc, hread', hcmp', hsuffix'⟩ := compare_eq_some.mp h'
  have hmb : mb' = mb := Option.some.inj (hread'.1.symm.trans hread.2)
  subst hmb
  refine compare_eq_some.mpr ⟨ma, mc, ⟨hread.1, hread'.2⟩, ?_, fun ho => ?_⟩
  · rw [cmp_congr_left (cmp_eq_iff.mp hcmp), hcmp']
  · exact (hsuffix rfl).trans (hsuffix' ho)

theorem doubles_eq (v : CoreVersion) : v.doubles = v.numbers.map JsNumber.roundNat := by
  rw [CoreVersion.doubles, CoreVersion.numbers, List.map_map]
  rfl

/-- The doubles are in the order of the numbers where they tell the two apart. -/
theorem told_iff : Told 0 JsNumber.roundNat ma.numbers mb.numbers ↔
    cmp 0 ma.doubles mb.doubles = cmp 0 ma.numbers mb.numbers := by
  have hzero : JsNumber.roundNat 0 = 0 := JsNumber.roundNat_of_safe (by decide)
  rw [doubles_eq, doubles_eq, ← cmp_map_iff fun _ _ h => JsNumber.roundNat_mono h, hzero]

/-- Where the doubles tell them apart the answer rests on the numbers. -/
theorem compare_of_told (h : ToldApart a b) : compareCoreVersions a b = some o ↔
    ∃ ma mb, Read a b ma mb ∧ cmp 0 ma.numbers mb.numbers = o ∧
      (o = .eq → ma.suffix.getD "" = mb.suffix.getD "") := by
  rw [compare_eq_some]
  constructor
  · rintro ⟨ma, mb, hread, hcmp, hsuffix⟩
    exact ⟨ma, mb, hread, (told_iff.mp (h ma mb hread)).symm.trans hcmp, hsuffix⟩
  · rintro ⟨ma, mb, hread, hcmp, hsuffix⟩
    exact ⟨ma, mb, hread, (told_iff.mp (h ma mb hread)).trans hcmp, hsuffix⟩

/-- **Two versions are in the order of their numbers where the doubles tell them apart.** -/
theorem ordered_iff : Ordered a b c ↔ ToldApart a b := by
  constructor
  · intro h ma mb hread
    have hdoubles {o : Ordering} (ho : compareCoreVersions a b = some o) :
        cmp 0 ma.doubles mb.doubles = o := by
      obtain ⟨ma', mb', hread', hcmp, -⟩ := compare_eq_some.mp ho
      obtain ⟨rfl, rfl⟩ := hread.unique hread'
      exact hcmp
    cases hexact : cmp 0 ma.numbers mb.numbers with
    | eq => exact fun i hi => absurd (cmp_eq_iff.mp hexact i) hi.2
    | lt =>
      rw [told_iff, hexact]
      exact hdoubles (h.below.mpr ⟨ma, mb, hread, cmp_lt_iff.mp hexact⟩)
    | gt =>
      rw [told_iff, hexact]
      exact hdoubles (h.above.mpr ⟨ma, mb, hread, cmp_gt_iff.mp hexact⟩)
  · intro h
    refine ⟨?_, ?_, ?_, compare_swap a b, fun o => compare_trans, fun ho o => compare_congr ho⟩
    · simp only [compare_of_told h, cmp_eq_iff, forall_const]
    · simp only [compare_of_told h, cmp_lt_iff, reduceCtorEq, false_implies, and_true]
    · simp only [compare_of_told h, cmp_gt_iff, reduceCtorEq, false_implies, and_true]

end Order

/-! ## What a version is judged by -/

section Judge

/-- Both have the same numbers; the suffixes may be any. -/
def SameNumbers (v w : CoreVersion) : Prop := ∀ i, place 0 v.numbers i = place 0 w.numbers i

/-- The numbers lie in the range. -/
def CoreKnownBad.Holds (bad : CoreKnownBad) (w : CoreVersion) : Prop :=
  (∀ since ∈ bad.since, ∃ m, versionShape (trim since) = some m ∧
    cmp 0 w.numbers m.numbers ≠ .lt) ∧
  ∀ before ∈ bad.before, ∃ m, versionShape (trim before) = some m ∧
    cmp 0 w.numbers m.numbers = .lt

/-- The numbers lie above the ceiling. -/
def CoreCeiling.Below (ceiling : CoreCeiling) (w : CoreVersion) : Prop :=
  ∃ m, versionShape (trim ceiling.max) = some m ∧ cmp 0 w.numbers m.numbers = .gt

/-- Bad, or too new, is only a version all of whose likes are. -/
structure Judged (component : CoreComponent) (reported : Option String)
    (intent : NodeCoreVersions) : Prop where
  knownBad : ∀ reason, judgeCoreVersion CORE_VERSIONS component reported intent = .knownBad reason →
    ∃ v, (reported.map trim).bind versionShape = some v ∧
      ∃ bad ∈ (CORE_VERSIONS component).knownBad, bad.reason = reason ∧
        ∀ w, SameNumbers w v → bad.Holds w
  aboveCeiling : ∀ max reason,
    judgeCoreVersion CORE_VERSIONS component reported intent = .aboveCeiling max reason →
    ∃ v, (reported.map trim).bind versionShape = some v ∧
      (CORE_VERSIONS component).ceiling = some ⟨max, reason⟩ ∧
        ∀ w, SameNumbers w v → CoreCeiling.Below ⟨max, reason⟩ w

/-- A bound of the manifest: a version whose segments are doubles. -/
def Bound (s : String) : Prop :=
  ∃ m, versionShape (trim s) = some m ∧ ∀ n ∈ m.numbers, n < 2 ^ 53

instance (s : String) : Decidable (Bound s) :=
  match h : versionShape (trim s) with
  | none => isFalse fun ⟨m, hm, _⟩ => by rw [h] at hm; cases hm
  | some m => decidable_of_iff (∀ n ∈ m.numbers, n < 2 ^ 53)
      ⟨fun hn => ⟨m, h, hn⟩, fun ⟨m', hm, hn⟩ => by rw [h] at hm; cases hm; exact hn⟩

variable {v : CoreVersion} {reported : Option String} {bound : String}

/-- A double is told from every number. -/
theorem told_of_safe {xs ys : List Nat} (h : ∀ n ∈ ys, n < 2 ^ 53) :
    Told 0 JsNumber.roundNat xs ys := by
  intro i hi
  refine .inl fun heq => hi.2 ?_
  have hy : place 0 ys i < 2 ^ 53 := by
    rcases Nat.lt_or_ge i ys.length with hlt | hge
    · rw [place, List.getD_eq_getElem _ _ hlt]
      exact h _ (List.getElem_mem hlt)
    · rw [PaddedOrder.place_of_le hge]
      decide
  rw [JsNumber.roundNat_of_safe hy.le] at heq
  by_cases hx : place 0 xs i ≤ 2 ^ 53
  · rwa [JsNumber.roundNat_of_safe hx] at heq
  · have := JsNumber.roundNat_mono (m := 2 ^ 53) (n := place 0 xs i) (by omega)
    rw [JsNumber.roundNat_of_safe (Nat.le_refl _)] at this
    omega

theorem compare_bound (hv : v.Shaped) (hb : Bound bound) :
    ∃ m, versionShape (trim bound) = some m ∧ ∀ o, compareCoreVersions v.text bound = some o →
      cmp 0 v.numbers m.numbers = o := by
  obtain ⟨m, hm, hsafe⟩ := hb
  refine ⟨m, hm, fun o ho => ?_⟩
  have htold : ToldApart v.text bound := fun ma mb hread => by
    cases hm.symm.trans hread.2
    exact told_of_safe hsafe
  obtain ⟨ma, mb, hread, hcmp, -⟩ := (compare_of_told htold).mp ho
  cases hread.1.symm.trans (versionShape_text hv)
  cases hread.2.symm.trans hm
  exact hcmp

theorem takes_holds {bad : CoreKnownBad} (hv : v.Shaped)
    (hb : ∀ s, s ∈ bad.since ∨ s ∈ bad.before → Bound s) (h : bad.takes v.text = true) :
    ∀ w, SameNumbers w v → bad.Holds w := by
  rw [CoreKnownBad.takes, Bool.and_eq_true, Option.all_eq_true, Option.all_eq_true] at h
  refine fun w hw => ⟨fun since hsince => ?_, fun before hbefore => ?_⟩
  · obtain ⟨m, hm, hcmp⟩ := compare_bound hv (hb since (.inl hsince))
    refine ⟨m, hm, ?_⟩
    rw [cmp_congr_left hw]
    rcases of_decide_eq_true (h.1 since hsince) with ho | ho <;> rw [hcmp _ ho] <;> decide
  · obtain ⟨m, hm, hcmp⟩ := compare_bound hv (hb before (.inr hbefore))
    exact ⟨m, hm, by rw [cmp_congr_left hw, hcmp _ (of_decide_eq_true (h.2 before hbefore))]⟩

theorem normalize_eq_some {t : String} (h : normalizeCoreVersion reported = some t) :
    ∃ v, (reported.map trim).bind versionShape = some v ∧ v.Shaped ∧ t = v.text := by
  unfold normalizeCoreVersion at h
  split at h
  · cases h
  · rename_i s hs
    split at h
    · cases h
    · obtain ⟨v, hv, rfl⟩ := Option.map_eq_some_iff.mp h
      exact ⟨v, by rw [hs, Option.bind_some, hv], shaped_of_versionShape hv, rfl⟩

theorem bound_knownBad (component : CoreComponent) :
    ∀ bad ∈ (CORE_VERSIONS component).knownBad, ∀ s,
      s ∈ bad.since ∨ s ∈ bad.before → Bound s := by
  have hbounds : ∀ bad ∈ (CORE_VERSIONS component).knownBad,
      (∀ s ∈ bad.since, Bound s) ∧ ∀ s ∈ bad.before, Bound s := by
    cases component <;> decide
  exact fun bad hbad s hs => hs.elim ((hbounds bad hbad).1 s) ((hbounds bad hbad).2 s)

theorem bound_ceiling (component : CoreComponent) :
    ∀ c ∈ (CORE_VERSIONS component).ceiling, Bound c.max := by
  cases component <;> decide

theorem judge_cases (M : CoreManifest) (component : CoreComponent) (reported : Option String)
    (intent : NodeCoreVersions) :
    (∃ t, normalizeCoreVersion reported = some t ∧
      ((∃ bad ∈ (M component).knownBad, bad.takes t = true ∧
          judgeCoreVersion M component reported intent = .knownBad bad.reason) ∨
        ∃ c, (M component).ceiling = some c ∧ compareCoreVersions t c.max = some .gt ∧
          judgeCoreVersion M component reported intent = .aboveCeiling c.max c.reason)) ∨
    ((∀ reason, judgeCoreVersion M component reported intent ≠ .knownBad reason) ∧
      ∀ max reason, judgeCoreVersion M component reported intent ≠ .aboveCeiling max reason) := by
  unfold judgeCoreVersion
  split
  · exact .inr ⟨nofun, nofun⟩
  · rename_i t ht
    dsimp only
    split
    · rename_i bad hfind
      refine .inl ⟨t, ht, .inl ⟨bad, List.mem_of_find?_eq_some hfind, ?_, rfl⟩⟩
      exact List.find?_some (p := fun bad : CoreKnownBad => bad.takes t) hfind
    · split
      · rename_i c hfilter
        obtain ⟨hc, hgt⟩ := Option.filter_eq_some_iff.mp hfilter
        exact .inl ⟨t, ht, .inr ⟨c, hc, of_decide_eq_true hgt, rfl⟩⟩
      · split
        · exact .inr ⟨nofun, nofun⟩
        · split
          · exact .inr ⟨nofun, nofun⟩
          · exact .inr ⟨nofun, nofun⟩

/-- **A version is called bad, or too new, only where every version of its numbers is.** -/
theorem judged (component : CoreComponent) (reported : Option String) (intent : NodeCoreVersions) :
    Judged component reported intent := by
  rcases judge_cases CORE_VERSIONS component reported intent with
    ⟨t, ht, ⟨bad, hbad, htakes, h⟩ | ⟨c, hc, hgt, h⟩⟩ | ⟨hbad, hceiling⟩
  · obtain ⟨v, hv, hshaped, rfl⟩ := normalize_eq_some ht
    refine ⟨fun reason hr => ?_, fun max reason hr => ?_⟩
    · rw [h] at hr
      cases hr
      exact ⟨v, hv, bad, hbad, rfl, takes_holds hshaped (bound_knownBad component bad hbad) htakes⟩
    · rw [h] at hr
      cases hr
  · obtain ⟨v, hv, hshaped, rfl⟩ := normalize_eq_some ht
    refine ⟨fun reason hr => ?_, fun max reason hr => ?_⟩
    · rw [h] at hr
      cases hr
    · rw [h] at hr
      cases hr
      obtain ⟨m, hm, hcmp⟩ := compare_bound hshaped (bound_ceiling component c hc)
      exact ⟨v, hv, hc, fun w hw => ⟨m, hm, by rw [cmp_congr_left hw, hcmp _ hgt]⟩⟩
  · exact ⟨fun reason hr => absurd hr (hbad reason),
      fun max reason hr => absurd hr (hceiling max reason)⟩

end Judge

/-! ## What is installed -/

section Installed

variable (M : CoreManifest) (intent : NodeCoreVersions)

/-- The manifest's record of the component's choice. -/
def Chosen (component : CoreComponent) (r : CoreRelease) : Prop :=
  ∃ version, intendedVersion M intent component = some version ∧
    coreReleaseOf M component version = some r

/-- Nothing is wrong with the choices, and every choice and pin is listed. -/
def Accepted : Prop :=
  checkCoreVersionIntent M intent = [] ∧
    ∀ component version, intendedVersion M intent component = some version →
      ∃ r, coreReleaseOf M component version = some r

/-- A release of the payload is the manifest's record, and the one the command pins. -/
def Carried : Prop :=
  ∀ out, resolveCoreVersions M intent = .ok out → ∀ component r, (component, r) ∈ out →
    Chosen M intent component r ∧
      ∃ pair, coreEnvPair M component = some pair ∧
        ∀ arch, installVars M intent arch component = pinVars pair r arch

variable {M intent} {component : CoreComponent} {r : CoreRelease}

theorem mem_components (component : CoreComponent) : component ∈ CORE_COMPONENTS := by
  cases component <;> decide

theorem resolveOne_eq_ok : (∃ bs, resolveOne M intent component = .ok bs) ↔
    ∀ version, intendedVersion M intent component = some version →
      ∃ r, coreReleaseOf M component version = some r := by
  unfold resolveOne
  cases hversion : intendedVersion M intent component with
  | none => simp
  | some version => cases hr : coreReleaseOf M component version <;> simp [hr]

theorem accepted_iff : (∃ out, resolveCoreVersions M intent = .ok out) ↔ Accepted M intent := by
  unfold resolveCoreVersions Accepted
  dsimp only
  split
  · rename_i hne
    constructor
    · rintro ⟨out, h⟩
      cases h
    · exact fun h => absurd h.1 hne
  · rename_i hnil
    rw [Checked.gather_isOk]
    simp only [resolveOne_eq_ok]
    exact ⟨fun h => ⟨not_not.mp hnil, fun c => h c (mem_components c)⟩, fun h c _ => h.2 c⟩

theorem mem_resolve {out : List (CoreComponent × CoreRelease)}
    (h : resolveCoreVersions M intent = .ok out) :
    (component, r) ∈ out ↔ ∃ r₀, Chosen M intent component r₀ ∧ r = payloadRelease r₀ := by
  let copied (c : CoreComponent) : List (CoreComponent × CoreRelease) :=
    (((intendedVersion M intent c).bind (coreReleaseOf M c)).toList).map fun r₀ =>
      (c, payloadRelease r₀)
  have hone (c : CoreComponent) (bs : List (CoreComponent × CoreRelease))
      (hbs : resolveOne M intent c = .ok bs) : bs = copied c := by
    unfold resolveOne at hbs
    cases hversion : intendedVersion M intent c with
    | none =>
      simp only [hversion] at hbs
      cases hbs
      simp [copied, hversion]
    | some version =>
      simp only [hversion] at hbs
      cases hr : coreReleaseOf M c version with
      | none =>
        simp only [hr] at hbs
        cases hbs
      | some r₀ =>
        simp only [hr] at hbs
        cases hbs
        simp [copied, hversion, hr]
  have hout : out = CORE_COMPONENTS.flatMap copied := by
    unfold resolveCoreVersions at h
    dsimp only at h
    split at h
    · cases h
    · exact Checked.gather_eq_flatMap h fun c _ bs hbs => hone c bs hbs
  rw [hout, List.mem_flatMap]
  constructor
  · rintro ⟨c, -, hc⟩
    obtain ⟨r₀, hr₀, heq⟩ := List.mem_map.mp hc
    obtain ⟨rfl, rfl⟩ := Prod.mk.inj heq
    exact ⟨r₀, Option.bind_eq_some_iff.mp (Option.mem_toList.mp hr₀), rfl⟩
  · rintro ⟨r₀, hr₀, rfl⟩
    exact ⟨component, mem_components component,
      List.mem_map.mpr ⟨r₀, Option.mem_toList.mpr (Option.bind_eq_some_iff.mpr hr₀), rfl⟩⟩

theorem Chosen.unique {r' : CoreRelease} (h : Chosen M intent component r)
    (h' : Chosen M intent component r') : r = r' := by
  obtain ⟨version, hversion, hr⟩ := h
  obtain ⟨version', hversion', hr'⟩ := h'
  cases hversion.symm.trans hversion'
  exact Option.some.inj (hr.symm.trans hr')

/-- The command pins the same record: its variables are the release's, for every architecture. -/
theorem installVars_of_chosen (h : Chosen M intent component r) :
    ∃ pair, coreEnvPair M component = some pair ∧
      ∀ arch, installVars M intent arch component = pinVars pair r arch := by
  have hbind : (intendedVersion M intent component).bind (coreReleaseOf M component) = some r :=
    Option.bind_eq_some_iff.mpr h
  have hmem : r ∈ (M component).releases := by
    obtain ⟨version, -, hr⟩ := h
    unfold coreReleaseOf at hr
    split at hr
    · cases hr
    · exact List.mem_of_find?_eq_some hr
  obtain ⟨pair, hpair⟩ : ∃ pair, coreEnvPair M component = some pair := by
    unfold coreEnvPair
    split
    · rename_i hnil
      rw [hnil] at hmem
      cases hmem
    · dsimp only
      split <;> exact ⟨_, rfl⟩
  exact ⟨pair, hpair, fun arch => by simp only [installVars, hbind, hpair]⟩

/-- **The payload carries the chosen records where none of them names a repository.** -/
theorem carried_iff : Carried M intent ↔
    (Accepted M intent → ∀ component r, Chosen M intent component r → r.repo = none) := by
  constructor
  · intro h haccepted component r hr
    obtain ⟨out, hout⟩ := accepted_iff.mpr haccepted
    obtain ⟨hchosen, -⟩ := h out hout component (payloadRelease r)
      ((mem_resolve hout).mpr ⟨r, hr, rfl⟩)
    rw [hr.unique hchosen]
    rfl
  · intro h out hout component r hr
    obtain ⟨r₀, hr₀, rfl⟩ := (mem_resolve hout).mp hr
    have hrepo : payloadRelease r₀ = r₀ := by
      have := h (accepted_iff.mp ⟨out, hout⟩) component r₀ hr₀
      cases r₀
      cases this
      rfl
    rw [hrepo]
    exact ⟨hr₀, installVars_of_chosen hr₀⟩

/-- **The versions are judged and installed as they should be where the doubles tell the two apart
and no chosen record names a repository.** -/
theorem versions_held_iff (a b c : String) (judgedOf : CoreComponent) (reported : Option String)
    (chosen : NodeCoreVersions) (M : CoreManifest) (intent : NodeCoreVersions) :
    (Ordered a b c ∧ Judged judgedOf reported chosen ∧ Carried M intent) ↔
      ToldApart a b ∧
        (Accepted M intent → ∀ component r, Chosen M intent component r → r.repo = none) := by
  rw [ordered_iff, carried_iff]
  exact ⟨fun h => ⟨h.1, h.2.2⟩, fun h => ⟨h.1, judged judgedOf reported chosen, h.2⟩⟩

/-- The pinned sing-box is fetched from a repository of its own, which the payload does not name;
and two versions past `2 ^ 53` are taken for one. -/
theorem singbox_repository_lost :
    ¬ Carried CORE_VERSIONS OrderedMap.empty ∧
      ¬ Ordered "9007199254740993" "9007199254740992" "0" := by
  constructor
  · intro h
    have haccepted : Accepted CORE_VERSIONS OrderedMap.empty := by
      refine ⟨rfl, fun component version h => ?_⟩
      rw [intendedVersion, OrderedMap.get?_empty, Option.none_or] at h
      have hpins : ∀ version ∈ (CORE_VERSIONS component).pinned,
          (coreReleaseOf CORE_VERSIONS component version).isSome = true := by
        cases component <;> decide
      exact Option.isSome_iff_exists.mp (hpins version h)
    obtain ⟨r, hr⟩ := haccepted.2 .singbox "1.13.14" rfl
    have hrepo : (coreReleaseOf CORE_VERSIONS .singbox "1.13.14").bind (·.repo) =
        some "icecompany-tech/core-builds" := by decide
    have hnone := carried_iff.mp h haccepted .singbox r ⟨"1.13.14", rfl, hr⟩
    rw [hr, Option.bind_some, hnone] at hrepo
    cases hrepo
  · intro h
    have hgt := h.above.mpr ⟨⟨["9007199254740993"], none⟩, ⟨["9007199254740992"], none⟩,
      ⟨by decide, by decide⟩, 0, fun j hj => absurd hj (Nat.not_lt_zero j),
      by decide⟩
    have heq : compareCoreVersions "9007199254740993" "9007199254740992" = some .eq := by
      decide
    cases heq.symm.trans hgt

end Installed

end Iceslab.CoreVersions
