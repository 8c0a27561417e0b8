import Iceslab.Lib.OrderedMap
import Iceslab.LinkCred

/-!
# REALITY for the stored legs that have none

`giveRealityToPlainVless` of `cascade.config.ts`, the repair a push runs over the stored legs: one
key pair for each receiving node, each leg its own short id.

* `giveRealityToPlainVless` — the repair: the stored pairs by node first, then one walk in which a
  node without a pair draws one.
* `repairFrom_spec` — the walk over any pairs: it only adds pairs, and every plain leg wears its
  node's.
* `reality_repaired` — the repair answers null where no leg is plain; otherwise every leg stands in
  its place, the plain ones wrapped, the others as they were, and nothing is left to repair.
-/

set_option autoImplicit false

namespace Iceslab

/-- A stored leg by what the repair reads: the node it lands on and its credential. -/
structure LandedLeg where
  toNodeId : String
  cred : LinkCred
  deriving DecidableEq

/-- A vless leg without a block. -/
def LinkCred.plain : LinkCred → Bool
  | .vless c => c.reality.isNone
  | _ => false

/-- What the repair draws for the leg at an index. -/
structure RepairDraws where
  pair : Nat → RealityDraw
  shortId : Nat → String

/-- The blocks already stored, each with the node it serves. -/
def blocksByNode (legs : List LandedLeg) : List (String × LinkReality) :=
  legs.filterMap fun l => l.cred.reality.map fun r => (l.toNodeId, r)

/-- `keyByNode` before the walk: the first block of every node that has one. -/
def storedKeyByNode (legs : List LandedLeg) : OrderedMap String LinkReality :=
  OrderedMap.collect Prod.fst (fun o e => o.getD e.2) (blocksByNode legs)

/-- The walk: a plain leg takes its node's pair, drawn where the node has none, and a short id. -/
def repairFrom (draws : RepairDraws) (keyByNode : OrderedMap String LinkReality) (i : Nat) :
    List LandedLeg → List LinkCred
  | [] => []
  | l :: rest =>
    match l.cred with
    | .vless c =>
      match c.reality with
      | some _ => l.cred :: repairFrom draws keyByNode (i + 1) rest
      | none =>
        match keyByNode.get? l.toNodeId with
        | some key =>
          .vless { c with reality := some { key with shortId := draws.shortId i } }
            :: repairFrom draws keyByNode (i + 1) rest
        | none =>
          let key := newLinkReality (draws.pair i)
          .vless { c with reality := some { key with shortId := draws.shortId i } }
            :: repairFrom draws (keyByNode.set l.toNodeId key) (i + 1) rest
    | cred => cred :: repairFrom draws keyByNode (i + 1) rest

def giveRealityToPlainVless (draws : RepairDraws) (legs : List LandedLeg) :
    Option (List LinkCred) :=
  if legs.any fun l => l.cred.plain then some (repairFrom draws (storedKeyByNode legs) 0 legs)
  else none

/-! ## The walk -/

/-- What the walk makes of a leg, given the pairs the nodes end with. -/
def Wrapped (keyByNode : OrderedMap String LinkReality) (l : LandedLeg) (cred : LinkCred) : Prop :=
  (l.cred.plain = false → cred = l.cred)
    ∧ ∀ c, l.cred = .vless c → c.reality = none → ∃ key shortId,
      keyByNode.get? l.toNodeId = some key
        ∧ cred = .vless { c with reality := some { key with shortId } }

variable {legs : List LandedLeg} {l : LandedLeg}

theorem wrapped_of_not_plain (keyByNode : OrderedMap String LinkReality)
    (h : l.cred.plain = false) : Wrapped keyByNode l l.cred := by
  refine ⟨fun _ => rfl, fun c hc hnone => ?_⟩
  simp [LinkCred.plain, hc, hnone] at h

theorem wrapped_of_plain {keyByNode : OrderedMap String LinkReality}
    {c : VlessLinkCred} {key : LinkReality} (hc : l.cred = .vless c) (hnone : c.reality = none)
    (hkey : keyByNode.get? l.toNodeId = some key) (shortId : String) :
    Wrapped keyByNode l (.vless { c with reality := some { key with shortId } }) := by
  refine ⟨fun h => ?_, fun c' hc' _ => ?_⟩
  · simp [LinkCred.plain, hc, hnone] at h
  · obtain rfl := LinkCred.vless.inj (hc.symm.trans hc')
    exact ⟨key, shortId, hkey, rfl⟩

/-- **The walk adds pairs and takes none**: every plain leg wears the pair its node ends with. -/
theorem repairFrom_spec (draws : RepairDraws) (keyByNode : OrderedMap String LinkReality) (i : Nat)
    (legs : List LandedLeg) : ∃ ended : OrderedMap String LinkReality,
      (∀ n key, keyByNode.get? n = some key → ended.get? n = some key)
        ∧ List.Forall₂ (Wrapped ended) legs (repairFrom draws keyByNode i legs) := by
  induction legs generalizing keyByNode i with
  | nil => exact ⟨keyByNode, fun _ _ h => h, .nil⟩
  | cons l rest ih =>
    have hskip (h : l.cred.plain = false)
        (hrun : repairFrom draws keyByNode i (l :: rest)
          = l.cred :: repairFrom draws keyByNode (i + 1) rest) :
        ∃ ended : OrderedMap String LinkReality,
          (∀ n key, keyByNode.get? n = some key → ended.get? n = some key)
            ∧ List.Forall₂ (Wrapped ended) (l :: rest)
              (repairFrom draws keyByNode i (l :: rest)) := by
      obtain ⟨ended, hgrown, hrest⟩ := ih keyByNode (i + 1)
      rw [hrun]
      exact ⟨ended, hgrown, .cons (wrapped_of_not_plain ended h) hrest⟩
    cases hc : l.cred with
    | vless c =>
      cases hblock : c.reality with
      | some r =>
        exact hskip (by simp [LinkCred.plain, hc, hblock]) (by simp [repairFrom, hc, hblock])
      | none =>
        cases hkey : keyByNode.get? l.toNodeId with
        | some key =>
          obtain ⟨ended, hgrown, hrest⟩ := ih keyByNode (i + 1)
          simp only [repairFrom, hc, hblock, hkey]
          exact ⟨ended, hgrown, .cons (wrapped_of_plain hc hblock (hgrown _ _ hkey) _) hrest⟩
        | none =>
          obtain ⟨ended, hgrown, hrest⟩ :=
            ih (keyByNode.set l.toNodeId (newLinkReality (draws.pair i))) (i + 1)
          simp only [repairFrom, hc, hblock, hkey]
          refine ⟨ended, fun n key hn => hgrown n key ?_,
            .cons (wrapped_of_plain hc hblock (hgrown _ _ ?_) _) hrest⟩
          · rw [OrderedMap.get?_set, if_neg, hn]
            rintro rfl
            rw [hkey] at hn
            cases hn
          · rw [OrderedMap.get?_set, if_pos rfl]
    | _ c => exact hskip (by simp [LinkCred.plain, hc]) (by simp [repairFrom, hc])

/-! ## The repair -/

/-- The two halves a dialler and its listener have to agree on. -/
def LinkReality.pair (r : LinkReality) : String × String := (r.privateKey, r.publicKey)

/-- The first block stored for a node. -/
def firstBlock (legs : List LandedLeg) (nodeId : String) : Option LinkReality :=
  (legs.filter fun l => decide (l.toNodeId = nodeId)).findSome? fun l => l.cred.reality

/-- All blocks stored for a node hold one pair; a node without a block is one of these. -/
def OnePair (legs : List LandedLeg) (nodeId : String) : Prop :=
  ∀ l ∈ legs, ∀ l' ∈ legs, l.toNodeId = nodeId → l'.toNodeId = nodeId → ∀ r r',
    l.cred.reality = some r → l'.cred.reality = some r' → r.pair = r'.pair

/-- What the repair answers for the legs it was given. -/
structure Repaired (legs : List LandedLeg) (creds : List LinkCred) : Prop where
  length : creds.length = legs.length
  kept : ∀ e ∈ legs.zip creds, e.1.cred.plain = false → e.2 = e.1.cred
  wrapped : ∀ e ∈ legs.zip creds, ∀ c, e.1.cred = .vless c → c.reality = none →
    ∃ r, e.2 = .vless { c with reality := some r }
  adopts : ∀ e ∈ legs.zip creds, e.1.cred.plain = true → ∀ r₀,
    firstBlock legs e.1.toNodeId = some r₀ → ∃ r, e.2.reality = some r ∧ r.pair = r₀.pair
  onePair : ∀ n, OnePair legs n → ∀ e ∈ legs.zip creds, ∀ e' ∈ legs.zip creds,
    e.1.toNodeId = n → e'.1.toNodeId = n → ∀ r r', e.2.reality = some r →
      e'.2.reality = some r' → r.pair = r'.pair

theorem get?_storedKeyByNode (legs : List LandedLeg) (n : String) :
    (storedKeyByNode legs).get? n = firstBlock legs n := by
  rw [storedKeyByNode, OrderedMap.get?_collect_keep, blocksByNode, firstBlock]
  induction legs with
  | nil => rfl
  | cons l rest ih =>
    rw [List.filter_cons]
    cases hr : l.cred.reality with
    | none =>
      rw [List.filterMap_cons_none (by simp [hr]), ih]
      split
      · rw [List.findSome?_cons, hr]
      · rfl
    | some r =>
      rw [List.filterMap_cons_some (by rw [hr]; rfl), List.find?_cons]
      by_cases hn : l.toNodeId = n
      · simp [hr, hn]
      · simp only [hn, decide_false, Bool.false_eq_true, if_false]
        exact ih

theorem firstBlock_eq_some {n : String} {r : LinkReality}
    (h : firstBlock legs n = some r) : ∃ l ∈ legs, l.toNodeId = n ∧ l.cred.reality = some r := by
  obtain ⟨l, hl, hr⟩ := List.exists_of_findSome?_eq_some h
  obtain ⟨hl, hn⟩ := List.mem_filter.mp hl
  exact ⟨l, hl, of_decide_eq_true hn, hr⟩

theorem firstBlock_isSome (hl : l ∈ legs) {r : LinkReality}
    (hr : l.cred.reality = some r) : ∃ r₀, firstBlock legs l.toNodeId = some r₀ := by
  refine Option.isSome_iff_exists.mp (List.findSome?_isSome_iff.mpr ⟨l, ?_, by simp [hr]⟩)
  exact List.mem_filter.mpr ⟨hl, by simp⟩

theorem plain_eq_true {cred : LinkCred} :
    cred.plain = true ↔ ∃ c, cred = .vless c ∧ c.reality = none := by
  cases cred with
  | vless c => simp [LinkCred.plain]
  | _ c => simp [LinkCred.plain]

/-- The pairs the nodes end with, seen from every leg. -/
theorem repaired_of_wrapped {creds : List LinkCred} {ended : OrderedMap String LinkReality}
    (hstored : ∀ n r, firstBlock legs n = some r → ended.get? n = some r)
    (h : List.Forall₂ (Wrapped ended) legs creds) : Repaired legs creds := by
  have hat : ∀ e ∈ legs.zip creds, Wrapped ended e.1 e.2 := fun e he =>
    List.forall₂_zip h he
  have hpair : ∀ e ∈ legs.zip creds, e.1.cred.plain = true → ∃ key r,
      ended.get? e.1.toNodeId = some key ∧ e.2.reality = some r ∧ r.pair = key.pair := by
    intro e he hplain
    obtain ⟨c, hc, hnone⟩ := plain_eq_true.mp hplain
    obtain ⟨key, shortId, hkey, hcred⟩ := (hat e he).2 c hc hnone
    exact ⟨key, { key with shortId }, hkey, by rw [hcred]; rfl, rfl⟩
  -- a block of the answer is a stored one, or it wears the pair its node ends with
  have hblock : ∀ e ∈ legs.zip creds, ∀ r, e.2.reality = some r →
      e.1.cred.reality = some r
        ∨ ∃ key, ended.get? e.1.toNodeId = some key ∧ r.pair = key.pair := by
    intro e he r hr
    cases hplain : e.1.cred.plain with
    | false =>
      rw [(hat e he).1 hplain] at hr
      exact .inl hr
    | true =>
      obtain ⟨key, r', hkey, hr', hsame⟩ := hpair e he hplain
      obtain rfl := Option.some.inj (hr'.symm.trans hr)
      exact .inr ⟨key, hkey, hsame⟩
  -- with one pair stored for a node, what it ends with is that pair
  have hended : ∀ n, OnePair legs n → ∀ l ∈ legs, l.toNodeId = n → ∀ r, l.cred.reality = some r →
      ∀ key, ended.get? n = some key → r.pair = key.pair := by
    intro n hone l hl hn r hr key hkey
    obtain ⟨r₀, hfirst⟩ := firstBlock_isSome hl hr
    rw [hn] at hfirst
    obtain ⟨l₀, hl₀, hn₀, hr₀⟩ := firstBlock_eq_some hfirst
    obtain rfl := Option.some.inj ((hstored n r₀ hfirst).symm.trans hkey)
    exact hone l hl l₀ hl₀ hn hn₀ r r₀ hr hr₀
  refine ⟨h.length_eq.symm, fun e he => (hat e he).1, fun e he c hc hnone => ?_,
    fun e he hplain r₀ hfirst => ?_, fun n hone e he e' he' hn hn' r r' hr hr' => ?_⟩
  · obtain ⟨key, shortId, -, hcred⟩ := (hat e he).2 c hc hnone
    exact ⟨_, hcred⟩
  · obtain ⟨key, r, hkey, hr, hsame⟩ := hpair e he hplain
    obtain rfl := Option.some.inj ((hstored _ r₀ hfirst).symm.trans hkey)
    exact ⟨r, hr, hsame⟩
  · have hl := (List.of_mem_zip (a := e.1) (b := e.2) he).1
    have hl' := (List.of_mem_zip (a := e'.1) (b := e'.2) he').1
    rcases hblock e he r hr with hr | ⟨key, hkey, hsame⟩
    · rcases hblock e' he' r' hr' with hr' | ⟨key', hkey', hsame'⟩
      · exact hone _ hl _ hl' hn hn' r r' hr hr'
      · rw [hsame']
        exact hended n hone _ hl hn r hr key' (by rwa [hn'] at hkey')
    · rw [hn] at hkey
      rcases hblock e' he' r' hr' with hr' | ⟨key', hkey', hsame'⟩
      · rw [hsame]
        exact (hended n hone _ hl' hn' r' hr' key hkey).symm
      · rw [hn', hkey] at hkey'
        obtain rfl := Option.some.inj hkey'
        exact hsame.trans hsame'.symm

/-- **A complete repair, done once.**  Null where no vless leg is plain; otherwise the legs in their
places, and a second repair, whatever it would draw, has nothing to do. -/
theorem reality_repaired (draws : RepairDraws) (legs : List LandedLeg) :
    (giveRealityToPlainVless draws legs = none ↔ ∀ l ∈ legs, l.cred.plain = false)
      ∧ ∀ creds, giveRealityToPlainVless draws legs = some creds → Repaired legs creds
        ∧ ∀ draws', giveRealityToPlainVless draws'
            (List.zipWith (fun l cred => ⟨l.toNodeId, cred⟩) legs creds) = none := by
  have hnone : ∀ (draws : RepairDraws) (legs : List LandedLeg),
      giveRealityToPlainVless draws legs = none ↔ ∀ l ∈ legs, l.cred.plain = false := by
    intro draws legs
    simp [giveRealityToPlainVless]
  refine ⟨hnone draws legs, fun creds h => ?_⟩
  have hcreds : repairFrom draws (storedKeyByNode legs) 0 legs = creds := by
    unfold giveRealityToPlainVless at h
    split at h
    · exact Option.some.inj h
    · cases h
  obtain ⟨ended, hgrown, hwrapped⟩ := repairFrom_spec draws (storedKeyByNode legs) 0 legs
  rw [hcreds] at hwrapped
  have hrepaired : Repaired legs creds := by
    refine repaired_of_wrapped (fun n r hr => hgrown n r ?_) hwrapped
    rw [get?_storedKeyByNode, hr]
  refine ⟨hrepaired, fun draws' => (hnone draws' _).mpr fun l hl => ?_⟩
  rw [← List.map_uncurry_zip_eq_zipWith] at hl
  obtain ⟨e, he, rfl⟩ := List.mem_map.mp hl
  show e.2.plain = false
  cases hplain : e.1.cred.plain with
  | false =>
    rw [hrepaired.kept e he hplain]
    exact hplain
  | true =>
    obtain ⟨c, hc, hblank⟩ := plain_eq_true.mp hplain
    obtain ⟨r, hr⟩ := hrepaired.wrapped e he c hc hblank
    rw [hr]
    rfl

/-! ## A node whose pair stands later in the list -/

def sampleDraws : RepairDraws where
  pair i := ⟨"priv-" ++ toString i, "pub-" ++ toString i, ""⟩
  shortId i := "short-" ++ toString i

/-- A plain leg before the one that holds its node's pair, and two plain legs into a node that has
none. -/
def storedLegs : List LandedLeg :=
  [⟨"exit-a", .vless { port := 24000, uuid := "uuid-0", reality := none }⟩,
   ⟨"exit-b", .vless { port := 24000, uuid := "uuid-1", reality := none }⟩,
   ⟨"exit-a", .vless { port := 24000, uuid := "uuid-2",
                       reality := some (withCamouflage "priv" "pub" "short") }⟩,
   ⟨"exit-b", .vless { port := 24000, uuid := "uuid-3", reality := none }⟩]

theorem reality_repaired_storedLegs :
    ∃ creds, giveRealityToPlainVless sampleDraws storedLegs = some creds ∧ Repaired storedLegs creds
      ∧ creds.map (fun cred => cred.reality.map (·.privateKey))
        = [some "priv", some "priv-1", some "priv", some "priv-1"] :=
  ⟨_, rfl, ((reality_repaired sampleDraws storedLegs).2 _ rfl).1, by decide⟩

end Iceslab
