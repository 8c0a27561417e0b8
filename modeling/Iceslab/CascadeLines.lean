import Iceslab.CascadeEntries
import Iceslab.Lib.Names
import Iceslab.Lib.OrderedMap
import Iceslab.Lib.Rendezvous

/-!
# The lines of a cascade in a subscription

`collapseCascadeLines` and `disambiguateCascadeLabels` of `subscription.service.ts`, with
`rendezvousOrder` of `node-selection.ts`.  Every entry of a pool offers the profiles of its cascade;
each profile is dealt to one of them.

* `collapse`, `disambiguate`, `subscribed` — what the code does with a list of endpoints.
* `holder`, `dealtTo` — who holds a profile, off the list alone.
* `collapse_eq` — the code's loops compute that, where no two entries share a key.
-/

set_option autoImplicit false

namespace Iceslab.Subscription

/-! ## Rendezvous order -/

/-- `unitHash`, before it is scaled into the unit interval. -/
def unitHash (s : String) : Nat :=
  (JsText.codeUnits s).foldl (fun h c => (h ^^^ c) * 0x01000193 % 2 ^ 32) 0x811c9dc5

/-- `rendezvousOrder` of candidates of one weight: `-weight / Math.log(h)` grows with the hash. -/
def rendezvousOrder (ids : List String) (userId : String) : List String :=
  Rendezvous.order (fun id => unitHash (userId ++ ":" ++ id)) JsText.codeUnits ids

variable {α : Type}

/-! ## `collapseCascadeLines` -/

/-- `keyOf` -/
def keyOf (e : Endpoint α) : String :=
  String.intercalate "|" [e.nodeName, e.host, toString e.port, transportText e]

/-- The cascade of a profile that names one. -/
def Route.cascade (x : Route) : Option String := x.cascadeId.filter (· ≠ "")

def exits (e : Endpoint α) : List Route := e.cascadeExits.getD []

def carries (e : Endpoint α) (cascadeId : String) : Bool :=
  (exits e).any fun x => decide (x.cascade = some cascadeId)

def offers (e : Endpoint α) (cascadeId : String) (tag : Nat) : Bool :=
  (exits e).any fun x => decide (x.cascade = some cascadeId ∧ x.tag = tag)

/-- The cascades of the list, in the order they come. -/
def cascadeIds (es : List (Endpoint α)) : List String :=
  (es.flatMap fun e => (exits e).filterMap Route.cascade).foldl JsText.setAdd []

/-- `entriesByCascade.get(cascadeId)`: the endpoint last seen under each key, by its place. -/
def perCascade (es : List (Endpoint α)) (cascadeId : String) : OrderedMap String Nat :=
  OrderedMap.collect (fun p : Endpoint α × Nat => keyOf p.1) (fun _ p => p.2)
    (es.zipIdx.filter fun p => carries p.1 cascadeId)

/-- `offeredBy.get(tag)` -/
def offeredBy (es : List (Endpoint α)) (perCascade : OrderedMap String Nat) (cascadeId : String)
    (tag : Nat) : List String :=
  (perCascade.entries.filter fun p => es[p.2]?.any fun e => offers e cascadeId tag).map Prod.fst

/-- The lines of one cascade dealt over its entries. -/
def dealCascade (userId : String) (all : List (Endpoint α)) (es : List (Endpoint α))
    (cascadeId : String) : List (Endpoint α) :=
  let entries := perCascade all cascadeId
  if entries.size < 2 then es
  else
    let order := rendezvousOrder entries.keys userId
    let holderOf := fun tag =>
      let offering := offeredBy es entries cascadeId tag
      Rendezvous.dealt order tag fun key => decide (key ∈ offering)
    es.zipIdx.map fun p =>
      if entries.get? (keyOf p.1) = some p.2 then
        { p.1 with cascadeExits := some ((exits p.1).filter fun x =>
            decide (x.cascade ≠ some cascadeId ∨ holderOf x.tag = some (keyOf p.1))) }
      else p.1

/-- An endpoint left with an empty list of exits. -/
def emptied (e : Endpoint α) : Bool :=
  match e.cascadeExits with
  | some [] => true
  | _ => false

/-- `collapseCascadeLines` -/
def collapse (userId : String) (es : List (Endpoint α)) : List (Endpoint α) :=
  ((cascadeIds es).foldl (dealCascade userId es) es).filter fun e => !emptied e

/-! ## `disambiguateCascadeLabels` -/

def transportLabel : XrayNetwork → String
  | .raw => "TCP"
  | .xhttp => "XHTTP"
  | .ws => "WS"
  | .grpc => "gRPC"
  | .httpupgrade => "HTTPUpgrade"
  | .kcp => "KCP"

/-- What tells the lines of this endpoint from others of their name. -/
def lineSuffix (e : Endpoint α) : String :=
  let network := if e.protocol = .xray ∧ isPlainXray e = false then e.network else none
  match network with
  | some network => transportLabel network
  | none =>
    match e.hostRemark with
    | some remark => if remark ≠ "" ∧ remark ≠ "Default" then remark else e.nodeName
    | none => e.nodeName

def disambiguateLabel (seen : List String) (e : Endpoint α) (x : Route) : Route :=
  if seen.count x.label < 2 then x else { x with label := x.label ++ " · " ++ lineSuffix e }

def relabel (seen : List String) (e : Endpoint α) : Endpoint α :=
  { e with cascadeExits := e.cascadeExits.map fun l => l.map (disambiguateLabel seen e) }

/-- `disambiguateCascadeLabels`; each profile is on one endpoint by now. -/
def disambiguate (es : List (Endpoint α)) : List (Endpoint α) :=
  es.map (relabel (es.flatMap fun e => (exits e).map Route.label))

/-- The endpoints every format is built from. -/
def subscribed (userId : String) (es : List (Endpoint α)) : List (Endpoint α) :=
  (disambiguate (collapse userId es)).flatMap expandCascadeEntry

/-- The same, each with the profile it is for. -/
def lines (userId : String) (es : List (Endpoint α)) : List (Option Route × Endpoint α) :=
  (disambiguate (collapse userId es)).flatMap handedOut

theorem map_snd_lines (userId : String) (es : List (Endpoint α)) :
    (lines userId es).map Prod.snd = subscribed userId es := by
  unfold lines subscribed
  rw [List.map_flatMap]
  exact List.flatMap_congr fun e _ => map_snd_handedOut e

/-! ## Who holds a profile -/

def carriers (es : List (Endpoint α)) (cascadeId : String) : List String :=
  (es.filter fun e => carries e cascadeId).map keyOf

def offering (es : List (Endpoint α)) (cascadeId : String) (tag : Nat) : List String :=
  (es.filter fun e => offers e cascadeId tag).map keyOf

/-- The entry a profile is dealt to. -/
def holder (userId : String) (es : List (Endpoint α)) (cascadeId : String) (tag : Nat) :
    Option String :=
  Rendezvous.dealt (rendezvousOrder (carriers es cascadeId) userId) tag fun key =>
    decide (key ∈ offering es cascadeId tag)

/-- What an endpoint keeps, once the cascades of `done` are dealt. -/
def keeps (userId : String) (es : List (Endpoint α)) (done : List String) (e : Endpoint α)
    (x : Route) : Bool :=
  match x.cascade with
  | none => true
  | some c => decide (c ∈ done → holder userId es c x.tag = some (keyOf e))

def dealtWith (userId : String) (es : List (Endpoint α)) (done : List String) (e : Endpoint α) :
    Endpoint α :=
  { e with cascadeExits := e.cascadeExits.map fun l => l.filter (keeps userId es done e) }

/-- The entries of a list, each by its own key: what `disambiguateEndpointLabels` is run for. -/
def EntriesDistinct (es : List (Endpoint α)) : Prop :=
  ((es.filter fun e => !(exits e).isEmpty).map keyOf).Nodup

instance (es : List (Endpoint α)) : Decidable (EntriesDistinct es) :=
  inferInstanceAs (Decidable (List.Nodup _))

variable {userId : String} {es : List (Endpoint α)} {done : List String} {e : Endpoint α}
  {c : String} {tag : Nat} {k : String}

/-! ### Keys -/

theorem carries_iff : carries e c = true ↔ ∃ x ∈ exits e, x.cascade = some c := by
  simp [carries]

theorem offers_iff : offers e c tag = true ↔ ∃ x ∈ exits e, x.cascade = some c ∧ x.tag = tag := by
  simp [offers]

theorem carries_of_offers (h : offers e c tag = true) : carries e c = true := by
  obtain ⟨x, hx, hc, -⟩ := offers_iff.mp h
  exact carries_iff.mpr ⟨x, hx, hc⟩

theorem exits_ne_nil_of_carries (h : carries e c = true) : exits e ≠ [] := by
  obtain ⟨x, hx, -⟩ := carries_iff.mp h
  exact List.ne_nil_of_mem hx

theorem mem_carriers : k ∈ carriers es c ↔ ∃ e ∈ es, carries e c = true ∧ keyOf e = k := by
  simp [carriers, and_assoc]

theorem mem_offering : k ∈ offering es c tag ↔ ∃ e ∈ es, offers e c tag = true ∧ keyOf e = k := by
  simp [offering, and_assoc]

theorem place_unique (h : EntriesDistinct es) {i j : Nat} {e e' : Endpoint α}
    (hi : es[i]? = some e) (hj : es[j]? = some e') (he : exits e ≠ []) (he' : exits e' ≠ [])
    (hkey : keyOf e = keyOf e') : i = j := by
  unfold EntriesDistinct at h
  induction es generalizing i j with
  | nil => cases hi
  | cons a es ih =>
    have hfresh : ∀ {k : Nat} {b : Endpoint α}, exits a ≠ [] → es[k]? = some b → exits b ≠ [] →
        keyOf a ≠ keyOf b := by
      intro k b ha hb hbne heq
      rw [List.filter_cons_of_pos (by simpa using ha), List.map_cons, List.nodup_cons] at h
      exact h.1 (List.mem_map.mpr ⟨b, by simpa [List.mem_of_getElem? hb] using hbne, heq.symm⟩)
    have htail : ((es.filter fun e => !(exits e).isEmpty).map keyOf).Nodup := by
      by_cases ha : exits a = []
      · rwa [List.filter_cons_of_neg (by simpa using ha)] at h
      · rw [List.filter_cons_of_pos (by simpa using ha), List.map_cons, List.nodup_cons] at h
        exact h.2
    cases i with
    | zero =>
      cases j with
      | zero => rfl
      | succ j =>
        obtain rfl := Option.some.inj hi
        exact absurd hkey (hfresh he hj he')
    | succ i =>
      cases j with
      | zero =>
        obtain rfl := Option.some.inj hj
        exact absurd hkey.symm (hfresh he' hi he)
      | succ j => exact congrArg Nat.succ (ih htail hi hj)

/-! ### The map of the entries -/

theorem nodup_keys_carriers (h : EntriesDistinct es) (c : String) :
    ((es.zipIdx.filter fun p => carries p.1 c).map fun p : Endpoint α × Nat => keyOf p.1).Nodup := by
  have hsub : List.Sublist (es.filter fun e => carries e c)
      (es.filter fun e => !(exits e).isEmpty) := by
    refine List.monotone_filter_right es fun e he => ?_
    simpa using exits_ne_nil_of_carries he
  have hfst : (es.zipIdx.filter fun p => carries p.1 c).map Prod.fst
      = es.filter fun e => carries e c := by
    have hfilter := List.filter_map (p := fun e => carries e c) (f := Prod.fst) (l := es.zipIdx)
    rw [List.zipIdx_map_fst] at hfilter
    exact hfilter.symm
  have hmap : (es.zipIdx.filter fun p => carries p.1 c).map (fun p : Endpoint α × Nat => keyOf p.1)
      = (es.filter fun e => carries e c).map keyOf := by
    rw [← hfst, List.map_map]
    rfl
  rw [hmap]
  exact h.sublist (hsub.map keyOf)

theorem get?_perCascade (h : EntriesDistinct es) {i : Nat} :
    (perCascade es c).get? k = some i ↔ ∃ e, es[i]? = some e ∧ carries e c = true ∧ keyOf e = k := by
  have hget : ∀ {e : Endpoint α} {j : Nat}, es[j]? = some e → carries e c = true →
      (perCascade es c).get? (keyOf e) = some j := fun {e j} hj hc =>
    OrderedMap.get?_collect_of_nodup _ _ (nodup_keys_carriers h c) (a := (e, j))
      (List.mem_filter.mpr ⟨List.mk_mem_zipIdx_iff_getElem?.mpr hj, hc⟩)
  constructor
  · intro hk
    obtain ⟨⟨e, j⟩, hmem, hkey⟩ := (OrderedMap.mem_keys_collect _ _ _ _).mp
      (OrderedMap.mem_keys_of_get? hk)
    obtain ⟨hmem, hc⟩ := List.mem_filter.mp hmem
    have hj := List.mk_mem_zipIdx_iff_getElem?.mp hmem
    have hkey : keyOf e = k := hkey
    have hsame := hget hj hc
    rw [hkey, hk] at hsame
    exact ⟨e, (Option.some.inj hsame) ▸ hj, hc, hkey⟩
  · rintro ⟨e, hi, hc, rfl⟩
    exact hget hi hc

theorem mem_keys_perCascade : k ∈ (perCascade es c).keys ↔ k ∈ carriers es c := by
  unfold perCascade
  rw [OrderedMap.mem_keys_collect, mem_carriers]
  constructor
  · rintro ⟨⟨e, i⟩, hmem, hkey⟩
    obtain ⟨hmem, hc⟩ := List.mem_filter.mp hmem
    exact ⟨e, List.fst_mem_of_mem_zipIdx hmem, hc, hkey⟩
  · rintro ⟨e, hmem, hc, hkey⟩
    obtain ⟨i, hi⟩ := List.mem_iff_getElem?.mp hmem
    exact ⟨(e, i), List.mem_filter.mpr ⟨List.mk_mem_zipIdx_iff_getElem?.mpr hi, hc⟩, hkey⟩

theorem nodup_carriers (h : EntriesDistinct es) (c : String) : (carriers es c).Nodup := by
  refine h.sublist (List.Sublist.map keyOf (List.monotone_filter_right es fun e he => ?_))
  simpa using exits_ne_nil_of_carries he

theorem rendezvousOrder_congr {ids ids' : List String} (h : ids.Nodup) (h' : ids'.Nodup)
    (hmem : ∀ k, k ∈ ids ↔ k ∈ ids') (userId : String) :
    rendezvousOrder ids userId = rendezvousOrder ids' userId :=
  Rendezvous.order_congr _ _ JsText.codeUnits_injective h h' hmem

/-! ### Somebody holds -/

theorem mem_carriers_of_holder (h : holder userId es c tag = some k) : k ∈ carriers es c :=
  (Rendezvous.mem_order _ _).mp (Rendezvous.mem_of_dealt h)

theorem mem_offering_of_holder (h : holder userId es c tag = some k) : k ∈ offering es c tag := by
  simpa using Rendezvous.may_of_dealt h

theorem holder_isSome (hmem : e ∈ es) (ho : offers e c tag = true) :
    ∃ k, holder userId es c tag = some k := by
  refine Rendezvous.dealt_isSome (k := keyOf e) ?_ ?_
  · exact (Rendezvous.mem_order _ _).mpr (mem_carriers.mpr ⟨e, hmem, carries_of_offers ho, rfl⟩)
  · exact decide_eq_true (mem_offering.mpr ⟨e, hmem, ho, rfl⟩)

/-- One entry of a cascade holds every profile it has. -/
theorem holder_of_single (hsize : (perCascade es c).size < 2) (hmem : e ∈ es)
    (ho : offers e c tag = true) : holder userId es c tag = some (keyOf e) := by
  obtain ⟨k, hk⟩ := holder_isSome hmem ho
  have hcarrier := mem_keys_perCascade.mpr (mem_carriers_of_holder hk)
  have hown : keyOf e ∈ (perCascade es c).keys :=
    mem_keys_perCascade.mpr (mem_carriers.mpr ⟨e, hmem, carries_of_offers ho, rfl⟩)
  have hlen : (perCascade es c).keys.length < 2 := by
    simpa [OrderedMap.keys, OrderedMap.size] using hsize
  have hsame : k = keyOf e := by
    generalize (perCascade es c).keys = ks at hcarrier hown hlen
    obtain ⟨a, rfl⟩ : ∃ a, ks = [a] := by
      apply List.length_eq_one_iff.mp
      have := List.length_pos_of_mem hown
      omega
    rw [List.mem_singleton.mp hcarrier, List.mem_singleton.mp hown]
  rw [hk, hsame]

/-! ### The loops compute it -/

@[simp] theorem keyOf_dealtWith : keyOf (dealtWith userId es done e) = keyOf e := rfl

theorem exits_dealtWith :
    exits (dealtWith userId es done e) = (exits e).filter (keeps userId es done e) := by
  unfold exits dealtWith
  cases e.cascadeExits <;> rfl

theorem keeps_of_other {x : Route} (hx : x.cascade = some c) (hc : c ∉ done) :
    keeps userId es done e x = true := by
  unfold keeps
  rw [hx]
  exact decide_eq_true fun h => absurd h hc

theorem offers_dealtWith (hc : c ∉ done) :
    offers (dealtWith userId es done e) c tag = offers e c tag := by
  rw [Bool.eq_iff_iff, offers_iff, offers_iff, exits_dealtWith]
  constructor
  · rintro ⟨x, hx, h⟩
    exact ⟨x, (List.mem_filter.mp hx).1, h⟩
  · rintro ⟨x, hx, h⟩
    exact ⟨x, List.mem_filter.mpr ⟨hx, keeps_of_other h.1 hc⟩, h⟩

/-- One more cascade dealt: what it asks of a profile, and what the earlier ones do. -/
theorem keeps_snoc (x : Route) : keeps userId es (done ++ [c]) e x = (keeps userId es done e x &&
    decide (x.cascade ≠ some c ∨ holder userId es c x.tag = some (keyOf e))) := by
  unfold keeps
  cases hx : x.cascade with
  | none => simp
  | some d =>
    by_cases hd : d = c
    · subst hd
      by_cases hmem : d ∈ done <;> simp [hmem]
    · by_cases hmem : d ∈ done <;> simp [hmem, hd]

theorem dealtWith_snoc_of_carries (h : carries e c = true) :
    dealtWith userId es (done ++ [c]) e = { dealtWith userId es done e with
      cascadeExits := some ((exits (dealtWith userId es done e)).filter fun x =>
        decide (x.cascade ≠ some c ∨ holder userId es c x.tag = some (keyOf e))) } := by
  rw [exits_dealtWith, List.filter_filter]
  obtain ⟨l, hl⟩ : ∃ l, e.cascadeExits = some l := by
    have hne := exits_ne_nil_of_carries h
    unfold exits at hne
    cases hl : e.cascadeExits with
    | none => exact absurd (by rw [hl]; rfl) hne
    | some l => exact ⟨l, rfl⟩
  have hexits : exits e = l := by
    unfold exits
    rw [hl]
    rfl
  unfold dealtWith
  rw [hexits, hl]
  simp only [Option.map_some]
  congr 2
  refine List.filter_congr fun x _ => ?_
  rw [keeps_snoc, Bool.and_comm]

theorem dealtWith_snoc_of_keeps
    (h : ∀ x ∈ exits e, x.cascade = some c → holder userId es c x.tag = some (keyOf e)) :
    dealtWith userId es (done ++ [c]) e = dealtWith userId es done e := by
  unfold dealtWith
  cases hl : e.cascadeExits with
  | none => rfl
  | some l =>
    simp only [Option.map_some]
    congr 2
    refine List.filter_congr fun x hx => ?_
    rw [keeps_snoc]
    have hexits : x ∈ exits e := by
      unfold exits
      rw [hl]
      exact hx
    by_cases hc : x.cascade = some c
    · simp [h x hexits hc]
    · simp [hc]

theorem offeredBy_dealtWith (h : EntriesDistinct es) (hc : c ∉ done) :
    k ∈ offeredBy (es.map (dealtWith userId es done)) (perCascade es c) c tag
      ↔ k ∈ offering es c tag := by
  unfold offeredBy
  rw [mem_offering]
  constructor
  · intro hk
    obtain ⟨⟨k, i⟩, hmem, rfl⟩ := List.mem_map.mp hk
    obtain ⟨hentry, hoffer⟩ := List.mem_filter.mp hmem
    obtain ⟨e, hi, -, hkey⟩ := (get?_perCascade h).mp
      ((OrderedMap.get?_eq_some_iff _ _ _).mpr hentry)
    rw [List.getElem?_map, hi] at hoffer
    simp only [Option.map_some, Option.any_some, offers_dealtWith hc] at hoffer
    exact ⟨e, List.mem_of_getElem? hi, hoffer, hkey⟩
  · rintro ⟨e, hmem, ho, rfl⟩
    obtain ⟨i, hi⟩ := List.mem_iff_getElem?.mp hmem
    have hentry := (OrderedMap.get?_eq_some_iff _ _ _).mp
      ((get?_perCascade h).mpr ⟨e, hi, carries_of_offers ho, rfl⟩)
    refine List.mem_map.mpr ⟨(keyOf e, i), List.mem_filter.mpr ⟨hentry, ?_⟩, rfl⟩
    rw [List.getElem?_map, hi]
    simpa [offers_dealtWith hc] using ho

/-- **One turn of the loop.** -/
theorem dealCascade_dealtWith (h : EntriesDistinct es) (hc : c ∉ done) :
    dealCascade userId es (es.map (dealtWith userId es done)) c
      = es.map (dealtWith userId es (done ++ [c])) := by
  unfold dealCascade
  dsimp only
  split
  · rename_i hsize
    refine List.map_congr_left fun e he => (dealtWith_snoc_of_keeps fun x hx hcx => ?_).symm
    exact holder_of_single hsize he (offers_iff.mpr ⟨x, hx, hcx, rfl⟩)
  · have hholder : ∀ tag, Rendezvous.dealt (rendezvousOrder (perCascade es c).keys userId) tag
        (fun key => decide (key ∈ offeredBy (es.map (dealtWith userId es done)) (perCascade es c)
          c tag)) = holder userId es c tag := by
      intro tag
      have horder : rendezvousOrder (perCascade es c).keys userId
          = rendezvousOrder (carriers es c) userId :=
        rendezvousOrder_congr (OrderedMap.nodup_keys _) (nodup_carriers h c)
          (fun k => mem_keys_perCascade) userId
      unfold holder
      rw [horder]
      exact Rendezvous.dealt_congr fun k => decide_eq_decide.mpr (offeredBy_dealtWith h hc)
    simp only [hholder]
    refine List.ext_getElem? fun i => ?_
    rw [List.getElem?_map, List.getElem?_zipIdx, List.getElem?_map, List.getElem?_map]
    cases hi : es[i]? with
    | none => rfl
    | some e =>
      simp only [Option.map_some, Nat.zero_add, keyOf_dealtWith, Option.some.injEq]
      by_cases hget : (perCascade es c).get? (keyOf e) = some i
      · obtain ⟨e', hi', hcarries, -⟩ := (get?_perCascade h).mp hget
        rw [hi] at hi'
        cases hi'
        exact (if_pos hget).trans (dealtWith_snoc_of_carries hcarries).symm
      · refine (if_neg hget).trans (dealtWith_snoc_of_keeps fun x hx hcx => ?_).symm
        exact absurd ((get?_perCascade h).mpr ⟨e, hi, carries_iff.mpr ⟨x, hx, hcx⟩, rfl⟩) hget

theorem foldl_dealCascade (h : EntriesDistinct es) (cs : List String) (hnd : (done ++ cs).Nodup) :
    cs.foldl (dealCascade userId es) (es.map (dealtWith userId es done))
      = es.map (dealtWith userId es (done ++ cs)) := by
  induction cs generalizing done with
  | nil => rw [List.append_nil, List.foldl_nil]
  | cons c cs ih =>
    have hc : c ∉ done := fun hmem =>
      (List.nodup_append.mp hnd).2.2 c hmem c List.mem_cons_self rfl
    rw [List.foldl_cons, dealCascade_dealtWith h hc]
    have hsplit : done ++ c :: cs = done ++ [c] ++ cs := by simp
    rw [hsplit] at hnd ⊢
    exact ih hnd

theorem dealtWith_nil : dealtWith userId es [] e = e := by
  have hkeeps : keeps userId es [] e = fun _ => true := by
    funext x
    unfold keeps
    split <;> simp
  have hexits : (e.cascadeExits.map fun l => l.filter (keeps userId es [] e)) = e.cascadeExits := by
    rw [hkeeps]
    cases e.cascadeExits with
    | none => rfl
    | some l => simp
  unfold dealtWith
  rw [hexits]

/-- What an endpoint is left with: the profiles dealt to it, and those of no cascade. -/
def dealtTo (userId : String) (es : List (Endpoint α)) (e : Endpoint α) : Endpoint α :=
  dealtWith userId es (cascadeIds es) e

theorem mem_cascadeIds (hmem : e ∈ es) (hc : carries e c = true) : c ∈ cascadeIds es := by
  obtain ⟨x, hx, hcx⟩ := carries_iff.mp hc
  refine JsText.mem_foldl_setAdd.mpr (.inr (List.mem_flatMap.mpr ⟨e, hmem, ?_⟩))
  exact List.mem_filterMap.mpr ⟨x, hx, hcx⟩

/-- **The loops deal every profile to its holder.** -/
theorem collapse_eq (h : EntriesDistinct es) :
    collapse userId es = (es.map (dealtTo userId es)).filter fun e => !emptied e := by
  have hnd : ([] ++ cascadeIds es).Nodup := JsText.nodup_foldl_setAdd List.nodup_nil
  have hfold : (cascadeIds es).foldl (dealCascade userId es) (es.map (dealtWith userId es [])) =
      es.map (dealtWith userId es ([] ++ cascadeIds es)) := foldl_dealCascade h (cascadeIds es) hnd
  have hstart : es.map (dealtWith userId es []) = es := by
    conv_rhs => rw [← List.map_id es]
    exact List.map_congr_left fun e _ => dealtWith_nil
  rw [hstart, List.nil_append] at hfold
  unfold collapse
  rw [hfold]
  rfl

end Iceslab.Subscription
