import Iceslab.CascadeLines

/-!
# Every cascade profile on one entry

What becomes of the profiles of cascades in a subscription: each is dealt to one entry that had it,
and goes out there with its tag in the UUID, where that entry is a VLESS one.

* `Dealt` — what is promised of a list of endpoints.
* `cascade_exits_dealt` — it holds of every list whose entries have keys of their own.
-/

set_option autoImplicit false

namespace Iceslab.Subscription

variable {α : Type}

/-- The profile is for this way out. -/
def isFor (c : String) (tag : Nat) (x : Route) : Bool := decide (x.cascade = some c ∧ x.tag = tag)

/-- The lines a way out goes out on. -/
def linesFor (userId : String) (es : List (Endpoint α)) (c : String) (tag : Nat) :
    List (Option Route × Endpoint α) :=
  (lines userId es).filter fun l => l.1.any (isFor c tag)

structure Dealt (userId : String) (es : List (Endpoint α)) : Prop where
  all : (lines userId es).map Prod.snd = subscribed userId es
  /-- one entry that had the profile holds it -/
  held : ∀ c tag, (∃ e ∈ es, offers e c tag = true) →
    ∃ e ∈ es, offers e c tag = true ∧ holder userId es c tag = some (keyOf e)
  /-- a VLESS holder hands it out, one line for each time it has it, with the tag in the UUID -/
  handed : ∀ c tag, ∀ e ∈ es, offers e c tag = true → holder userId es c tag = some (keyOf e) →
    isVless e = true →
    (linesFor userId es c tag).length = (exits e).countP (isFor c tag) ∧
      ∀ l ∈ linesFor userId es c tag, l.2.host = e.host ∧ l.2.port = e.port ∧
        l.2.uuid = withVlessRouteTag e.uuid tag ∧
        (CarriesTag e.uuid → vlessRouteOf l.2.uuid = some (tag % 65536))
  /-- every line of a VLESS entry has the tag of a profile dealt to it -/
  tagged : ∀ l ∈ lines userId es, ∀ r, l.1 = some r → ∃ e ∈ es, isVless e = true ∧
    (∀ c, r.cascade = some c → offers e c r.tag = true ∧
      holder userId es c r.tag = some (keyOf e)) ∧
    l.2.uuid = withVlessRouteTag e.uuid r.tag
  /-- what goes out without a tag is no entry, or an entry that is not VLESS, as it was -/
  untagged : ∀ l ∈ lines userId es, l.1 = none → (l.2 ∈ es ∧ l.2.cascadeExits = none) ∨
    (isVless l.2 = false ∧ ∃ e ∈ es, exits e ≠ [] ∧ { l.2 with cascadeExits := e.cascadeExits } = e)
  plain : ((lines userId es).filter fun l => l.1.isNone && l.2.cascadeExits.isNone).map Prod.snd
    = es.filter fun e => e.cascadeExits.isNone
  /-- the holder follows from the entries of the cascade and those of them that have the profile -/
  stable : ∀ es' : List (Endpoint α), EntriesDistinct es' → ∀ c tag,
    (∀ k, k ∈ carriers es c ↔ k ∈ carriers es' c) →
    (∀ k, k ∈ offering es c tag ↔ k ∈ offering es' c tag) →
    holder userId es c tag = holder userId es' c tag

variable {userId : String} {es : List (Endpoint α)} {e : Endpoint α} {c : String} {tag : Nat}
  {seen : List String} {l : Option Route × Endpoint α}

/-! ## What the list is made of -/

/-- The names counted to tell lines apart. -/
def seenLabels (userId : String) (es : List (Endpoint α)) : List String :=
  (collapse userId es).flatMap fun e => (exits e).map Route.label

/-- An endpoint after both passes. -/
def passed (userId : String) (es : List (Endpoint α)) (e : Endpoint α) : Endpoint α :=
  relabel (seenLabels userId es) (dealtTo userId es e)

theorem flatMap_filter {β γ : Type} (p : β → Bool) (f : β → List γ) (l : List β) :
    (l.filter p).flatMap f = l.flatMap fun b => if p b then f b else [] := by
  induction l with
  | nil => rfl
  | cons b l ih =>
    by_cases hb : p b = true
    · rw [List.filter_cons_of_pos hb, List.flatMap_cons, List.flatMap_cons, ih, if_pos hb]
    · rw [List.filter_cons_of_neg hb, List.flatMap_cons, ih, if_neg hb, List.nil_append]

/-- The lines of one endpoint. -/
def linesOf (userId : String) (es : List (Endpoint α)) (e : Endpoint α) :
    List (Option Route × Endpoint α) :=
  if emptied (dealtTo userId es e) then [] else handedOut (passed userId es e)

theorem lines_eq (h : EntriesDistinct es) : lines userId es = es.flatMap (linesOf userId es) := by
  have hlines : lines userId es
      = ((collapse userId es).map (relabel (seenLabels userId es))).flatMap handedOut := rfl
  rw [hlines, List.flatMap_map, collapse_eq h, flatMap_filter, List.flatMap_map]
  refine List.flatMap_congr fun e _ => ?_
  unfold linesOf passed
  cases emptied (dealtTo userId es e) <;> rfl

@[simp] theorem isVless_passed : isVless (passed userId es e) = isVless e := rfl

theorem exits_relabel : exits (relabel seen e) = (exits e).map (disambiguateLabel seen e) := by
  unfold exits relabel
  cases e.cascadeExits <;> rfl

@[simp] theorem cascade_disambiguateLabel (x : Route) :
    (disambiguateLabel seen e x).cascade = x.cascade := by
  unfold disambiguateLabel
  split <;> rfl

@[simp] theorem tag_disambiguateLabel (x : Route) : (disambiguateLabel seen e x).tag = x.tag := by
  unfold disambiguateLabel
  split <;> rfl

/-- What an endpoint keeps is what it holds, and what is of no cascade. -/
theorem mem_exits_dealtTo (hmem : e ∈ es) {x : Route} : x ∈ exits (dealtTo userId es e) ↔
    x ∈ exits e ∧ ∀ c, x.cascade = some c → holder userId es c x.tag = some (keyOf e) := by
  unfold dealtTo
  rw [exits_dealtWith, List.mem_filter]
  refine and_congr_right fun hx => ?_
  unfold keeps
  cases hc : x.cascade with
  | none => simp
  | some c =>
    have hid : c ∈ cascadeIds es := mem_cascadeIds hmem (carries_iff.mpr ⟨x, hx, hc⟩)
    simp [hid]

theorem cascadeExits_of_exits {l : List Route} (h : exits e = l) (hne : l ≠ []) :
    e.cascadeExits = some l := by
  unfold exits at h
  cases hl : e.cascadeExits with
  | none =>
    rw [hl] at h
    exact absurd h.symm hne
  | some l' =>
    rw [hl] at h
    exact congrArg some h

/-- A VLESS endpoint with profiles goes out once for each of them. -/
theorem linesOf_of_vless (hv : isVless e = true) (hne : exits (dealtTo userId es e) ≠ []) :
    linesOf userId es e = (exits (passed userId es e)).map fun r =>
      (some r, routeEndpoint (passed userId es e) r) := by
  have hsome := cascadeExits_of_exits rfl hne
  have hne' : exits (passed userId es e) ≠ [] := by
    unfold passed
    rw [exits_relabel]
    simpa using hne
  have hsome' := cascadeExits_of_exits rfl hne'
  have hemptied : emptied (dealtTo userId es e) = false := by
    unfold emptied
    rw [hsome]
    split
    · rename_i hnil
      exact absurd (Option.some.inj hnil) hne
    · rfl
  unfold linesOf handedOut
  rw [hemptied, isVless_passed, hv, hsome']
  simp only [Bool.false_eq_true, if_false, reduceCtorEq]

/-- Any other endpoint goes out as it is, unless it was emptied. -/
theorem linesOf_of_plain (h : isVless e = false ∨ exits (dealtTo userId es e) = []) :
    linesOf userId es e =
      if emptied (dealtTo userId es e) then [] else [(none, passed userId es e)] := by
  unfold linesOf handedOut
  split
  · rfl
  · rename_i hemptied
    rw [isVless_passed]
    split
    · rfl
    · rename_i hv
      have hnil : exits (passed userId es e) = [] := by
        unfold passed
        rw [exits_relabel]
        rcases h with h | h
        · exact absurd h hv
        · rw [h, List.map_nil]
      split
      · rfl
      · rfl
      · rename_i routes hroutes hsome
        unfold exits at hnil
        rw [hsome] at hnil
        exact absurd hnil (by simpa using hroutes)

/-! ## The promises -/

theorem mem_lines (h : EntriesDistinct es) :
    l ∈ lines userId es ↔ ∃ e ∈ es, l ∈ linesOf userId es e := by
  rw [lines_eq h, List.mem_flatMap]

/-- A line with a profile is of a VLESS endpoint that holds it. -/
theorem mem_linesOf_some {r : Route} {out : Endpoint α} (h : (some r, out) ∈ linesOf userId es e) :
    isVless e = true ∧ (∃ x ∈ exits (dealtTo userId es e),
      r = disambiguateLabel (seenLabels userId es) (dealtTo userId es e) x) ∧
      out = routeEndpoint (passed userId es e) r := by
  by_cases hv : isVless e = true
  · by_cases hne : exits (dealtTo userId es e) = []
    · rw [linesOf_of_plain (.inr hne)] at h
      split at h <;> simp at h
    · rw [linesOf_of_vless hv hne] at h
      obtain ⟨r', hr', heq⟩ := List.mem_map.mp h
      simp only [Prod.mk.injEq, Option.some.injEq] at heq
      obtain ⟨rfl, rfl⟩ := heq
      unfold passed at hr'
      rw [exits_relabel] at hr'
      obtain ⟨x, hx, rfl⟩ := List.mem_map.mp hr'
      exact ⟨hv, ⟨x, hx, rfl⟩, rfl⟩
  · rw [linesOf_of_plain (.inl (by simpa using hv))] at h
    split at h <;> simp at h

theorem held (hmem : e ∈ es) (ho : offers e c tag = true) :
    ∃ e ∈ es, offers e c tag = true ∧ holder userId es c tag = some (keyOf e) := by
  obtain ⟨k, hk⟩ := holder_isSome hmem ho
  obtain ⟨e', hmem', ho', rfl⟩ := mem_offering.mp (mem_offering_of_holder hk)
  exact ⟨e', hmem', ho', hk⟩

/-- The lines of an endpoint that are for a way out. -/
theorem filter_linesOf_of_ne (hmem : e ∈ es)
    (hne : (linesOf userId es e).filter (fun l => l.1.any (isFor c tag)) ≠ []) :
    isVless e = true ∧ offers e c tag = true ∧ holder userId es c tag = some (keyOf e) := by
  obtain ⟨⟨o, out⟩, hl⟩ := List.exists_mem_of_ne_nil _ hne
  obtain ⟨hl, hfor⟩ := List.mem_filter.mp hl
  cases o with
  | none => simp at hfor
  | some r =>
    obtain ⟨hv, ⟨x, hx, rfl⟩, -⟩ := mem_linesOf_some hl
    obtain ⟨hx, hheld⟩ := (mem_exits_dealtTo hmem).mp hx
    have hfor : x.cascade = some c ∧ x.tag = tag := by simpa [isFor] using hfor
    refine ⟨hv, offers_iff.mpr ⟨x, hx, hfor⟩, ?_⟩
    rw [← hfor.2]
    exact hheld c hfor.1

theorem filter_linesOf_of_holder (hmem : e ∈ es) (hv : isVless e = true)
    (ho : offers e c tag = true) (hholder : holder userId es c tag = some (keyOf e)) :
    (linesOf userId es e).filter (fun l => l.1.any (isFor c tag)) =
      ((exits e).filter (isFor c tag)).map fun x =>
        let r := disambiguateLabel (seenLabels userId es) (dealtTo userId es e) x
        (some r, routeEndpoint (passed userId es e) r) := by
  obtain ⟨x, hx, hcx, htx⟩ := offers_iff.mp ho
  have hkept : ∀ x ∈ exits e, isFor c tag x = true → x ∈ exits (dealtTo userId es e) := by
    intro x hx hfor
    have hfor : x.cascade = some c ∧ x.tag = tag := by simpa [isFor] using hfor
    refine (mem_exits_dealtTo hmem).mpr ⟨hx, fun d hd => ?_⟩
    rw [hfor.1] at hd
    rw [← Option.some.inj hd, hfor.2]
    exact hholder
  have hne : exits (dealtTo userId es e) ≠ [] :=
    List.ne_nil_of_mem (hkept x hx (decide_eq_true ⟨hcx, htx⟩))
  have hfilter : (exits (dealtTo userId es e)).filter (isFor c tag)
      = (exits e).filter (isFor c tag) := by
    unfold dealtTo at hkept ⊢
    rw [exits_dealtWith] at hkept ⊢
    rw [List.filter_filter]
    refine List.filter_congr fun x hx => ?_
    cases hfor : isFor c tag x with
    | false => rfl
    | true => rw [Bool.true_and]; exact (List.mem_filter.mp (hkept x hx hfor)).2
  rw [linesOf_of_vless hv hne, List.filter_map, ← hfilter]
  unfold passed
  rw [exits_relabel, List.filter_map, List.map_map]
  have hsame : ((fun l : Option Route × Endpoint α => l.1.any (isFor c tag)) ∘ fun r =>
      (some r, routeEndpoint (relabel (seenLabels userId es) (dealtTo userId es e)) r)) ∘
        disambiguateLabel (seenLabels userId es) (dealtTo userId es e) = isFor c tag := by
    funext x
    simp [isFor]
  rw [hsame]
  rfl

theorem flatMap_of_single {β γ : Type} {f : β → List γ} {l : List β} {i : Nat} {b : β}
    (hi : l[i]? = some b) (h : ∀ j b', l[j]? = some b' → f b' ≠ [] → j = i) :
    l.flatMap f = f b := by
  induction l generalizing i with
  | nil => cases hi
  | cons a l ih =>
    rw [List.flatMap_cons]
    cases i with
    | zero =>
      obtain rfl := Option.some.inj hi
      have hrest : l.flatMap f = [] := by
        refine List.flatMap_eq_nil_iff.mpr fun b' hb' => ?_
        obtain ⟨j, hj⟩ := List.mem_iff_getElem?.mp hb'
        by_contra hne
        exact absurd (h (j + 1) b' hj hne) (Nat.succ_ne_zero j)
      rw [hrest, List.append_nil]
    | succ i =>
      have ha : f a = [] := by
        by_contra hne
        exact absurd (h 0 a rfl hne) (Nat.succ_ne_zero i).symm
      rw [ha, List.nil_append]
      exact ih hi fun j b' hj hne => Nat.succ.inj (h (j + 1) b' hj hne)

/-- **The lines of a way out** are those of the entry that holds it. -/
theorem linesFor_eq (h : EntriesDistinct es) (hmem : e ∈ es) (ho : offers e c tag = true)
    (hholder : holder userId es c tag = some (keyOf e)) : linesFor userId es c tag =
      (linesOf userId es e).filter fun l => l.1.any (isFor c tag) := by
  obtain ⟨i, hi⟩ := List.mem_iff_getElem?.mp hmem
  unfold linesFor
  rw [lines_eq h, List.filter_flatMap]
  refine flatMap_of_single hi fun j e' hj hne => ?_
  obtain ⟨-, ho', hholder'⟩ := filter_linesOf_of_ne (List.mem_of_getElem? hj) hne
  rw [hholder] at hholder'
  exact place_unique h hj hi (exits_ne_nil_of_carries (carries_of_offers ho'))
    (exits_ne_nil_of_carries (carries_of_offers ho)) (Option.some.inj hholder').symm

theorem handed (h : EntriesDistinct es) (hmem : e ∈ es) (ho : offers e c tag = true)
    (hholder : holder userId es c tag = some (keyOf e)) (hv : isVless e = true) :
    (linesFor userId es c tag).length = (exits e).countP (isFor c tag) ∧
      ∀ l ∈ linesFor userId es c tag, l.2.host = e.host ∧ l.2.port = e.port ∧
        l.2.uuid = withVlessRouteTag e.uuid tag ∧
        (CarriesTag e.uuid → vlessRouteOf l.2.uuid = some (tag % 65536)) := by
  rw [linesFor_eq h hmem ho hholder, filter_linesOf_of_holder hmem hv ho hholder]
  constructor
  · rw [List.length_map, List.countP_eq_length_filter]
  · intro l hl
    obtain ⟨x, hx, rfl⟩ := List.mem_map.mp hl
    have hfor : x.cascade = some c ∧ x.tag = tag := by simpa [isFor] using (List.mem_filter.mp hx).2
    have huuid : (routeEndpoint (passed userId es e) (disambiguateLabel (seenLabels userId es)
        (dealtTo userId es e) x)).uuid = withVlessRouteTag e.uuid tag := by
      show withVlessRouteTag e.uuid _ = _
      rw [tag_disambiguateLabel, hfor.2]
    refine ⟨rfl, rfl, huuid, fun hc => ?_⟩
    rw [huuid]
    exact vlessRouteOf_withVlessRouteTag hc tag

theorem tagged (h : EntriesDistinct es)
    (hl : l ∈ lines userId es) {r : Route} (hr : l.1 = some r) : ∃ e ∈ es, isVless e = true ∧
      (∀ c, r.cascade = some c → offers e c r.tag = true ∧
        holder userId es c r.tag = some (keyOf e)) ∧
      l.2.uuid = withVlessRouteTag e.uuid r.tag := by
  obtain ⟨o, out⟩ := l
  cases hr
  obtain ⟨e, hmem, hl⟩ := (mem_lines h).mp hl
  obtain ⟨hv, ⟨x, hx, rfl⟩, rfl⟩ := mem_linesOf_some hl
  obtain ⟨hx, hheld⟩ := (mem_exits_dealtTo hmem).mp hx
  refine ⟨e, hmem, hv, fun c hc => ?_, rfl⟩
  rw [cascade_disambiguateLabel] at hc
  rw [tag_disambiguateLabel]
  exact ⟨offers_iff.mpr ⟨x, hx, hc, rfl⟩, hheld c hc⟩

theorem passed_of_none (hnone : e.cascadeExits = none) : passed userId es e = e := by
  obtain ⟨_, _, _, _, _, _, _, _, _, _, _, ex, _, _⟩ := e
  cases hnone
  rfl

theorem untagged (h : EntriesDistinct es) (hl : l ∈ lines userId es) (hnone : l.1 = none) :
    (l.2 ∈ es ∧ l.2.cascadeExits = none) ∨ (isVless l.2 = false ∧ ∃ e ∈ es, exits e ≠ [] ∧
      { l.2 with cascadeExits := e.cascadeExits } = e) := by
  obtain ⟨o, out⟩ := l
  cases hnone
  obtain ⟨e, hmem, hl⟩ := (mem_lines h).mp hl
  by_cases hplain : isVless e = false ∨ exits (dealtTo userId es e) = []
  · rw [linesOf_of_plain hplain] at hl
    split at hl
    · cases hl
    · rename_i hemptied
      obtain ⟨-, rfl⟩ := Prod.mk.inj (List.mem_singleton.mp hl)
      cases hexits : e.cascadeExits with
      | none =>
        rw [passed_of_none hexits]
        exact .inl ⟨hmem, hexits⟩
      | some l =>
        have hkept : exits (dealtTo userId es e) ≠ [] := by
          intro hnil
          refine hemptied ?_
          unfold emptied
          have hsome : (dealtTo userId es e).cascadeExits = some [] := by
            unfold exits at hnil
            cases hd : (dealtTo userId es e).cascadeExits with
            | none =>
              unfold dealtTo dealtWith at hd
              rw [hexits] at hd
              cases hd
            | some l' =>
              rw [hd] at hnil
              exact congrArg some hnil
          rw [hsome]
        have hv : isVless e = false := hplain.resolve_right hkept
        refine .inr ⟨hv, e, hmem, ?_, ?_⟩
        · obtain ⟨x, hx⟩ := List.exists_mem_of_ne_nil _ hkept
          exact List.ne_nil_of_mem ((mem_exits_dealtTo hmem).mp hx).1
        · rfl
  · rw [not_or] at hplain
    rw [linesOf_of_vless (by simpa using hplain.1) hplain.2] at hl
    obtain ⟨_, _, heq⟩ := List.mem_map.mp hl
    cases heq

theorem plain_linesOf : ((linesOf userId es e).filter fun l =>
    l.1.isNone && l.2.cascadeExits.isNone).map Prod.snd
      = if e.cascadeExits.isNone then [e] else [] := by
  cases hexits : e.cascadeExits with
  | none =>
    have hdealt : (dealtTo userId es e).cascadeExits = none := by
      unfold dealtTo dealtWith
      rw [hexits]
      rfl
    have hnil : exits (dealtTo userId es e) = [] := by
      unfold exits
      rw [hdealt]
      rfl
    have hemptied : emptied (dealtTo userId es e) = false := by
      unfold emptied
      rw [hdealt]
    rw [linesOf_of_plain (.inr hnil), hemptied, passed_of_none hexits]
    simp [hexits]
  | some l =>
    have hpassed : (passed userId es e).cascadeExits.isNone = false := by
      unfold passed relabel dealtTo dealtWith
      rw [hexits]
      rfl
    have hall : ∀ l ∈ linesOf userId es e, (l.1.isNone && l.2.cascadeExits.isNone) = false := by
      intro l hl
      by_cases hplain : isVless e = false ∨ exits (dealtTo userId es e) = []
      · rw [linesOf_of_plain hplain] at hl
        split at hl
        · cases hl
        · rw [List.mem_singleton.mp hl, hpassed]
          rfl
      · rw [not_or] at hplain
        rw [linesOf_of_vless (by simpa using hplain.1) hplain.2] at hl
        obtain ⟨_, _, rfl⟩ := List.mem_map.mp hl
        rfl
    have hnil : (linesOf userId es e).filter (fun l => l.1.isNone && l.2.cascadeExits.isNone)
        = [] := List.filter_eq_nil_iff.mpr fun l hl => by simp [hall l hl]
    rw [hnil]
    rfl

theorem plain (h : EntriesDistinct es) :
    ((lines userId es).filter fun l => l.1.isNone && l.2.cascadeExits.isNone).map Prod.snd
      = es.filter fun e => e.cascadeExits.isNone := by
  rw [lines_eq h, List.filter_flatMap, List.map_flatMap,
    List.flatMap_congr fun e _ => plain_linesOf, ← flatMap_filter, List.flatMap_singleton']

theorem stable (h : EntriesDistinct es) {es' : List (Endpoint α)} (h' : EntriesDistinct es')
    (hcarriers : ∀ k, k ∈ carriers es c ↔ k ∈ carriers es' c)
    (hoffering : ∀ k, k ∈ offering es c tag ↔ k ∈ offering es' c tag) :
    holder userId es c tag = holder userId es' c tag := by
  unfold holder
  rw [rendezvousOrder_congr (nodup_carriers h c) (nodup_carriers h' c) hcarriers]
  exact Rendezvous.dealt_congr fun k => decide_eq_decide.mpr (hoffering k)

/-- **Every profile is held by one entry that had it**, goes out there with its tag where that entry
is a VLESS one, and stays there whatever becomes of other profiles. -/
theorem cascade_exits_dealt (h : EntriesDistinct es) (userId : String) : Dealt userId es where
  all := map_snd_lines userId es
  held := fun _ _ ⟨_, hmem, ho⟩ => held hmem ho
  handed := fun _ _ _ hmem ho hholder hv => handed h hmem ho hholder hv
  tagged := fun _ hl _ hr => tagged h hl hr
  untagged := fun _ hl hnone => untagged h hl hnone
  plain := plain h
  stable := fun _ h' _ _ hcarriers hoffering => stable h h' hcarriers hoffering

/-- An xray entry with one way out. -/
def entryOf (subprotocol : XraySubprotocol) (name : String) : Endpoint Unit :=
  { protocol := .xray, subprotocol := some subprotocol, network := some .ws, nodeName := name,
    nodeId := name, key := none, host := name ++ ".example", port := 443,
    uuid := "3f0cb1d6-7f1a-4c8e-9d52-0a1b2c3d4e5f", uri := "", hostRemark := none,
    cascadeExits := some [⟨"ru → NL", 1, some "c-1"⟩], routeLabel := none, rest := () }

theorem cascade_exits_dealt_pool :
    Dealt "user-1" [entryOf .vless "ru-01", entryOf .vless "ru-02", entryOf .trojan "ru-03"] :=
  cascade_exits_dealt (by decide) "user-1"

/-- A trojan password cannot carry a tag: the entry goes out without one. -/
theorem trojan_entry_untagged : ¬ ∀ (userId : String) (es : List (Endpoint Unit)),
    EntriesDistinct es → ∀ l ∈ lines userId es, l.1 = none → l.2.cascadeExits = none := by
  intro h
  have hline : (none, entryOf .trojan "ru-01") ∈ lines "user-1" [entryOf .trojan "ru-01"] := by
    decide
  exact absurd (h _ _ (by decide) _ hline rfl) (by decide)

end Iceslab.Subscription
