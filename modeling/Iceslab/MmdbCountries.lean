import Iceslab.MmdbTree
import Mathlib

/-!
# A MaxMind tree becomes the same map of countries

`mmdbCountries` against the walk of every address.

* `MmdbFile` — a database: its node table, packed, and what stands behind it.
* `walkTree_lockstep` — the walk over addresses goes as the traversal of `BitTrie` over paths.
* `mmdb_countries` — **on a tree it ends, and what it lists is where the walks lead; a walk that
  does not end is refused.**
* `loop_not_refused` — a tree with a cycle that closes in an alias is read.
-/

set_option autoImplicit false

namespace Iceslab

open BitTrie ByteBits Checked

/-- A database: the packed node table, sixteen zeros, and the data with all behind it. -/
structure MmdbFile where
  nodes : List (Nat × Nat)
  recordSize : Nat
  ipVersion : Nat
  data : List UInt8
  size : RecordSize recordSize
  fits : ∀ r ∈ nodes, r.1 < 2 ^ recordSize ∧ r.2 < 2 ^ recordSize

namespace MmdbFile

variable (f : MmdbFile)

def bytes : List UInt8 := packTree f.recordSize f.nodes ++ (List.replicate 16 0 ++ f.data)

def info : MmdbMetadata :=
  ⟨f.nodes.length, f.recordSize, f.ipVersion, f.nodes.length * (f.recordSize / 4)⟩

/-- The bits of an address. -/
def bits : Nat := if f.ipVersion = 6 then 128 else 32

/-- The two aliases of the IPv4 space. -/
def aliases : List (List Bool) :=
  if f.bits = 128 then
    [bitsOf [0x20, 0x02], bitsOf (List.replicate 10 0 ++ [0xff, 0xff])]
  else []

def Outside (a : List Bool) : Prop := ∀ p ∈ f.aliases, ¬ p <+: a

instance (a : List Bool) : Decidable (f.Outside a) :=
  inferInstanceAs (Decidable (∀ p ∈ f.aliases, ¬ p <+: a))

/-- The record the walk of some bits ends at, or has come to. -/
def walk (a : List Bool) : Nat := BitTrie.walk f.nodes.length (childOf f.nodes) 0 a

/-- The walk of every address outside the aliases ends. -/
def Ends : Prop := ∀ a, a.length = f.bits → f.Outside a → f.nodes.length ≤ f.walk a

/-- Outside the aliases, no node is come to by two ways. -/
def IsTree : Prop :=
  ∀ p q, f.Outside p → f.Outside q → p.length < f.bits → q.length < f.bits →
    f.walk p = f.walk q → f.walk p < f.nodes.length → p = q

/-- What a data record names, in upper case. -/
def countryOf (lib : MmdbLib) (cases : CaseLib) (record : Nat) : Except MmdbError (Option String) :=
  (MmdbTree.isoNamed lib f.bytes f.info record).bind (MmdbTree.countryName cases)

/-- Every data record a walk outside the aliases comes to can be read. -/
def Readable (lib : MmdbLib) (cases : CaseLib) : Prop :=
  ∀ p, f.Outside p → p.length ≤ f.bits → f.nodes.length < f.walk p →
    ∃ name, f.countryOf lib cases (f.walk p) = .ok name

/-- The bits of a network, one of IPv4 in its place under ::/96. -/
def networkBits (c : GeoCidr) : List Bool :=
  if f.bits = 128 ∧ c.ip.length = 4 then
    List.replicate 96 false ++ (bitsOf c.ip).take c.prefixLen
  else (bitsOf c.ip).take c.prefixLen

/-- A network of the country covers the address. -/
def Covered (out : OrderedMap String (List GeoCidr)) (country : String) (a : List Bool) : Prop :=
  ∃ l, out.get? country = some l ∧ ∃ c ∈ l, f.networkBits c <+: a

/-- The path is skipped: it is one of the aliases. -/
def skips (path : List Bool) : Bool := decide (path ∈ f.aliases)

end MmdbFile

namespace MmdbTree

variable (lib : MmdbLib) (cases : CaseLib) (f : MmdbFile)

/-! ## Addresses -/

/-- An address whose bits are a path, and zeros behind it. -/
structure AddressOf (addr : List UInt8) (path : List Bool) : Prop where
  length : 8 * addr.length = f.bits
  bits : bitsOf addr = path ++ List.replicate (f.bits - path.length) false

variable {lib cases f} {addr : List UInt8} {path : List Bool} {found : List (List Bool × Nat)}
  {l q : List UInt8} {k record : Nat} {w : MmdbWalk} {t : Frontier}

theorem AddressOf.take (h : AddressOf f addr path) : (bitsOf addr).take path.length = path := by
  rw [h.bits, List.take_left]

theorem AddressOf.next (h : AddressOf f addr path) (hlen : path.length < f.bits) (b : Bool) :
    AddressOf f (if b then setBit addr path.length else addr) (path ++ [b]) := by
  obtain ⟨k, hk⟩ : ∃ k, f.bits - path.length = k + 1 := ⟨f.bits - path.length - 1, by omega⟩
  have hrest : f.bits - (path ++ [b]).length = k := by
    rw [List.length_append, List.length_singleton]
    omega
  have hbits := h.bits
  rw [hk, List.replicate_succ] at hbits
  cases b with
  | false => exact ⟨h.length, by rw [hrest]; simpa using hbits⟩
  | true =>
    refine ⟨by simpa using h.length, ?_⟩
    rw [hrest, if_pos rfl, bitsOf_setBit (by rw [h.length]; exact hlen), hbits,
      List.set_append_right _ _ le_rfl]
    simp

theorem AddressOf.take_iff (h : AddressOf f addr path) :
    (path.length = 8 * q.length ∧ addr.take q.length = q) ↔ path = bitsOf q := by
  constructor
  · rintro ⟨hlen, hq⟩
    rw [← h.take, hlen, bitsOf_take, hq]
  · intro hpath
    have hlen : path.length = 8 * q.length := by rw [hpath, length_bitsOf]
    refine ⟨hlen, bitsOf_injective ?_⟩
    rw [← bitsOf_take, ← hlen, h.take, hpath]

theorem bits_eq (f : MmdbFile) : addressBits f.info = f.bits := rfl

theorem nodeCount_eq (f : MmdbFile) : f.info.nodeCount = f.nodes.length := rfl

theorem bits_cases (f : MmdbFile) : f.bits = 128 ∨ f.bits = 32 := by
  unfold MmdbFile.bits
  split
  · exact .inl rfl
  · exact .inr rfl

/-- Bytes read one after another are the bytes together. -/
theorem take_succ_iff {b : UInt8} (hq : q.length = k) :
    (l.take k = q ∧ l[k]? = some b) ↔ l.take (k + 1) = q ++ [b] := by
  rw [List.take_add_one]
  constructor
  · rintro ⟨rfl, hb⟩
    rw [hb]
    rfl
  · intro h
    cases hk : l[k]? with
    | none =>
      have hlen := congrArg List.length h
      have hle := List.length_take_le k l
      rw [hk] at hlen
      simp [hq] at hlen
      omega
    | some c =>
      rw [hk] at h
      obtain ⟨h1, h2⟩ := List.append_inj' h rfl
      exact ⟨h1, by simpa using h2⟩

theorem all_zero_iff (h : k ≤ l.length) :
    (l.take k).all (fun b => decide (b = 0)) = true ↔ l.take k = List.replicate k 0 := by
  rw [List.eq_replicate_iff, List.length_take, min_eq_left h]
  simp

theorem isAlias_eq (h : AddressOf f addr path) :
    isAlias f.info addr path.length = f.skips path := by
  rw [isAlias, bits_eq, MmdbFile.skips, MmdbFile.aliases]
  rcases bits_cases f with hbits | hbits
  · have hlen := h.length
    have hfour : (path.length = 16 ∧ addr[0]? = some 0x20 ∧ addr[1]? = some 0x02) ↔
        path = bitsOf [0x20, 0x02] := by
      rw [← h.take_iff]
      refine and_congr (by simp) ?_
      have hfirst := take_succ_iff (l := addr) (q := []) (k := 0) (b := 0x20) rfl
      have hsecond := take_succ_iff (l := addr) (q := [0x20]) (k := 1) (b := 0x02) rfl
      simp only [List.take_zero, true_and, List.nil_append, Nat.zero_add] at hfirst
      rw [hfirst]
      exact hsecond
    have hmapped : (path.length = 96 ∧ (addr.take 10).all (fun b => decide (b = 0)) = true ∧
        addr[10]? = some 0xff ∧ addr[11]? = some 0xff) ↔
          path = bitsOf (List.replicate 10 0 ++ [0xff, 0xff]) := by
      rw [← h.take_iff]
      refine and_congr (by simp) ?_
      rw [all_zero_iff (by omega), ← and_assoc, take_succ_iff (by simp), take_succ_iff (by simp),
        List.append_assoc]
      rfl
    simp only [hbits, decide_true, Bool.true_and, if_true, List.mem_cons, List.not_mem_nil,
      or_false]
    rw [Bool.eq_iff_iff]
    simp only [Bool.or_eq_true, Bool.and_eq_true, decide_eq_true_eq, and_assoc]
    exact or_congr hfour hmapped
  · simp [hbits]

/-- A network is listed as it is come to. -/
theorem networkBits_cidrAt (h : AddressOf f addr path) :
    f.networkBits (cidrAt f.info addr path.length) = path := by
  have hlen := h.length
  by_cases hv4 : f.bits = 128 ∧ 96 ≤ path.length ∧
      (addr.take 12).all (fun b => decide (b = 0)) = true
  · have hcidr : cidrAt f.info addr path.length = ⟨addr.drop 12, path.length - 96⟩ := by
      rw [cidrAt, bits_eq, if_pos hv4, List.take_of_length_le (by simp; omega)]
    obtain ⟨hbits, hdeep, hzero⟩ := hv4
    have hsplit : bitsOf addr = List.replicate 96 false ++ bitsOf (addr.drop 12) := by
      conv_lhs => rw [← List.take_append_drop 12 addr]
      rw [bitsOf_append, (all_zero_iff (by omega)).mp hzero, bitsOf_replicate_zero]
    rw [hcidr, MmdbFile.networkBits, if_pos ⟨hbits, by simp; omega⟩]
    calc List.replicate 96 false ++ (bitsOf (addr.drop 12)).take (path.length - 96)
        = (bitsOf addr).take path.length := by
          have hzeros : (List.replicate 96 false).length ≤ path.length := by simpa using hdeep
          rw [hsplit, List.take_append, List.take_of_length_le hzeros, List.length_replicate]
      _ = path := h.take
  · have hcidr : cidrAt f.info addr path.length = ⟨addr, path.length⟩ := by
      rw [cidrAt, bits_eq, if_neg hv4]
    have hsix : ¬ (f.bits = 128 ∧ addr.length = 4) := by omega
    rw [hcidr, MmdbFile.networkBits, if_neg hsix]
    exact h.take

/-! ## What is listed -/

/-- What is listed is what is found and names a country. -/
structure Holds (lib : MmdbLib) (cases : CaseLib) (f : MmdbFile)
    (out : OrderedMap String (List GeoCidr)) (found : List (List Bool × Nat)) : Prop where
  networks : ((out.entries.flatMap Prod.snd).map f.networkBits).Subperm (found.map Prod.fst)
  countries : ∀ country path,
    (∃ l, out.get? country = some l ∧ ∃ c ∈ l, f.networkBits c = path) ↔
      ∃ record, (path, record) ∈ found ∧ f.countryOf lib cases record = .ok (some country)

theorem holds_start : Holds lib cases f .empty [] where
  networks := List.Subperm.refl _
  countries := fun country path => by simp

theorem exists_mem_snoc {P : Nat → Prop} {p : List Bool} :
    (∃ r, (p, r) ∈ found ++ [(path, record)] ∧ P r) ↔
      (∃ r, (p, r) ∈ found ∧ P r) ∨ p = path ∧ P record := by
  constructor
  · rintro ⟨r, hmem, hr⟩
    rcases List.mem_append.mp hmem with hmem | hmem
    · exact .inl ⟨r, hmem, hr⟩
    · obtain ⟨rfl, rfl⟩ := Prod.mk.inj (List.mem_singleton.mp hmem)
      exact .inr ⟨rfl, hr⟩
  · rintro (⟨r, hmem, hr⟩ | ⟨rfl, hr⟩)
    · exact ⟨r, List.mem_append_left _ hmem, hr⟩
    · exact ⟨record, List.mem_append_right _ List.mem_cons_self, hr⟩

theorem Holds.skip {out : OrderedMap String (List GeoCidr)} (h : Holds lib cases f out found)
    (hname : f.countryOf lib cases record = .ok none) (path : List Bool) :
    Holds lib cases f out (found ++ [(path, record)]) where
  networks := by
    rw [List.map_append]
    exact h.networks.trans (List.sublist_append_left _ _).subperm
  countries := by
    intro country p
    rw [exists_mem_snoc, h.countries, hname]
    simp

theorem Holds.add {out : OrderedMap String (List GeoCidr)}
    {country : String} {c : GeoCidr} (h : Holds lib cases f out found)
    (hname : f.countryOf lib cases record = .ok (some country)) (hc : f.networkBits c = path) :
    Holds lib cases f (out.alter country fun l => l.getD [] ++ [c])
      (found ++ [(path, record)]) where
  networks := by
    have hperm := (out.flatten_alter_perm country c).map f.networkBits
    rw [List.map_cons, hc] at hperm
    refine hperm.subperm.trans (((List.subperm_cons path).mpr h.networks).trans ?_)
    rw [List.map_append]
    exact (List.perm_append_singleton _ _).symm.subperm
  countries := by
    intro country' p
    rw [exists_mem_snoc, ← h.countries, out.get?_alter, hname]
    by_cases hsame : country' = country
    · subst hsame
      rw [if_pos rfl]
      constructor
      · rintro ⟨l, hl, c', hmem, hp⟩
        cases hl
        rcases List.mem_append.mp hmem with hmem | hmem
        · cases hget : out.get? country' with
          | none => simp [hget] at hmem
          | some l =>
            rw [hget] at hmem
            exact .inl ⟨l, rfl, c', hmem, hp⟩
        · rw [List.mem_singleton.mp hmem, hc] at hp
          exact .inr ⟨hp.symm, rfl⟩
      · rintro (⟨l, hl, c', hc', hp⟩ | ⟨rfl, -⟩)
        · exact ⟨_, rfl, c', by simp [hl, hc'], hp⟩
        · exact ⟨_, rfl, c, by simp, hc⟩
    · rw [if_neg hsame]
      simp [Ne.symm hsame]

/-! ## In step with the paths -/

/-- What is kept of the decoded records is what they decode to. -/
def Memo (lib : MmdbLib) (f : MmdbFile) (isoAt : List (Nat × Option MmdbValue)) : Prop :=
  ∀ e ∈ isoAt, isoNamed lib f.bytes f.info e.1 = .ok e.2

theorem isoOf_eq {isoAt : List (Nat × Option MmdbValue)} (h : Memo lib f isoAt) (record : Nat) :
    (∃ err, isoNamed lib f.bytes f.info record = .error err ∧
        isoOf lib f.bytes f.info isoAt record = .error err) ∨
      ∃ iso isoAt', isoNamed lib f.bytes f.info record = .ok iso ∧
        isoOf lib f.bytes f.info isoAt record = .ok (iso, isoAt') ∧ Memo lib f isoAt' := by
  unfold isoOf
  cases hfind : isoAt.find? fun e => decide (e.1 = record) with
  | some e =>
    have hmem := h e (List.mem_of_find?_eq_some hfind)
    have hrecord : e.1 = record := by simpa using List.find?_some hfind
    rw [hrecord] at hmem
    exact .inr ⟨e.2, isoAt, hmem, rfl, h⟩
  | none =>
    cases hiso : isoNamed lib f.bytes f.info record with
    | error err => exact .inl ⟨err, rfl, rfl⟩
    | ok iso =>
      refine .inr ⟨iso, isoAt ++ [(record, iso)], rfl, rfl, fun e he => ?_⟩
      rcases List.mem_append.mp he with he | he
      · exact h e he
      · rw [List.mem_singleton.mp he]
        exact hiso

/-- A node on the stack, and the path to it. -/
structure VisitAt (f : MmdbFile) (v : TreeVisit) (w : List Bool × Nat) : Prop where
  node : v.node = w.2
  depth : v.depth = w.1.length
  addr : AddressOf f v.addr w.1

/-- The walk over addresses beside the traversal over paths. -/
structure InStep (lib : MmdbLib) (cases : CaseLib) (f : MmdbFile) (w : MmdbWalk) (t : Frontier) :
    Prop where
  stack : List.Forall₂ (VisitAt f) w.stack t.stack
  memo : Memo lib f w.isoAt
  out : Holds lib cases f w.out t.found

/-- A record was found that names what has no upper case, or cannot be decoded. -/
def Unreadable (lib : MmdbLib) (cases : CaseLib) (f : MmdbFile)
    (found : List (List Bool × Nat)) : Prop :=
  ∃ v ∈ found, ∃ err, f.countryOf lib cases v.2 = .error err

theorem Unreadable.mono {found found' : List (List Bool × Nat)}
    (h : Unreadable lib cases f found) (hsub : found ⊆ found') : Unreadable lib cases f found' := by
  obtain ⟨v, hv, hun⟩ := h
  exact ⟨v, hsub hv, hun⟩

theorem emit_lockstep (h : InStep lib cases f w t) (haddr : AddressOf f addr path) (record : Nat) :
    Lockstep (InStep lib cases f) (fun t => Unreadable lib cases f t.found)
      (emit lib cases f.bytes f.info w addr path.length record)
      (.ok ⟨t.stack, t.found ++ [(path, record)]⟩ : Except Refusal Frontier) := by
  have hlast : (path, record) ∈ t.found ++ [(path, record)] := by simp
  unfold emit
  rcases isoOf_eq h.memo record with ⟨err, hiso, hof⟩ | ⟨iso, isoAt', hiso, hof, hmemo⟩
  · rw [hof]
    exact ⟨_, hlast, err, by rw [MmdbFile.countryOf, hiso]; rfl⟩
  · rw [hof]
    cases hname : countryName cases iso with
    | error err =>
      simp only [Except.bind, hname, Except.map]
      exact ⟨_, hlast, err, by rw [MmdbFile.countryOf, hiso]; exact hname⟩
    | ok country =>
      have hcountry : f.countryOf lib cases record = .ok country := by
        rw [MmdbFile.countryOf, hiso]
        exact hname
      simp only [Except.bind, hname, Except.map]
      cases country with
      | none => exact ⟨h.stack, hmemo, h.out.skip hcountry path⟩
      | some c => exact ⟨h.stack, hmemo, h.out.add hcountry (networkBits_cidrAt haddr)⟩

theorem childOf_empty (f : MmdbFile) (h : f.nodes.length = 0) (right : Bool) :
    childOf f.nodes 0 right = 0 := by
  rw [List.length_eq_zero_iff.mp h]
  cases right <;> rfl

section Walk

variable {read : Nat → Bool → Except MmdbError Nat}
  (hread : ∀ n right, n < f.nodes.length ∨ f.nodes = [] ∧ n = 0 →
    read n right = .ok (childOf f.nodes n right))

include hread

theorem visitRecord_lockstep {v : TreeVisit} {u : List Bool × Nat}
    (hv : VisitAt f v u) (hnode : u.2 < f.nodes.length ∨ f.nodes = [] ∧ u.2 = 0)
    (hlen : u.1.length < f.bits) (h : InStep lib cases f w t) (right : Bool) :
    Lockstep (InStep lib cases f) (fun t => Unreadable lib cases f t.found)
      (visitRecord lib cases f.bytes f.info read v w right)
      (turn f.nodes.length (childOf f.nodes) f.skips f.bits u t right) := by
  have hnext := hv.addr.next hlen right
  have hdepth : u.1.length + 1 = (u.1 ++ [right]).length := by simp
  unfold visitRecord turn
  simp only [hv.node, hv.depth, hread _ right hnode, Except.bind, hdepth, isAlias_eq hnext, bits_eq,
    nodeCount_eq]
  cases hskip : f.skips (u.1 ++ [right]) with
  | true => exact h
  | false =>
    simp only [Bool.false_eq_true, if_false]
    by_cases hrec : childOf f.nodes u.2 right < f.nodes.length
    · rw [if_pos hrec, if_pos hrec]
      by_cases hdeep : f.bits ≤ (u.1 ++ [right]).length
      · rw [if_pos hdeep, if_pos hdeep]
        trivial
      · rw [if_neg hdeep, if_neg hdeep]
        exact ⟨.cons ⟨rfl, rfl, hnext⟩ h.stack, h.memo, h.out⟩
    · rw [if_neg hrec, if_neg hrec]
      by_cases hval : f.nodes.length < childOf f.nodes u.2 right
      · rw [if_pos hval, if_pos hval]
        exact emit_lockstep h hnext _
      · rw [if_neg hval, if_neg hval]
        exact h

theorem walkTree_lockstep {left : Nat} (h : InStep lib cases f w t)
    (hreached : Reached f.nodes.length (childOf f.nodes) f.skips f.bits [] t) :
    Lockstep (Holds lib cases f) (Unreadable lib cases f)
      (walkTree lib cases f.bytes f.info read left w)
      (traverse f.nodes.length (childOf f.nodes) f.skips f.bits left t) := by
  induction left generalizing w t with
  | zero =>
    obtain ⟨stack, isoAt, out⟩ := w
    obtain ⟨stack', found⟩ := t
    obtain ⟨hstack, hmemo, hout⟩ := h
    cases hstack with
    | nil => exact hout
    | cons hv hstack => trivial
  | succ left ih =>
    obtain ⟨stack, isoAt, out⟩ := w
    obtain ⟨stack', found⟩ := t
    obtain ⟨hstack, hmemo, hout⟩ := h
    cases hstack with
    | nil => exact hout
    | @cons v u stack stack' hv hstack =>
      have hrest : InStep lib cases f ⟨stack, isoAt, out⟩ ⟨stack', found⟩ := ⟨hstack, hmemo, hout⟩
      obtain ⟨hat, hlen, -⟩ := hreached.node _ List.mem_cons_self
      have hnode := hat.2.imp_right fun hroot => (⟨List.length_eq_zero_iff.mp hroot.1, by
        have hwalk := hat.1
        rw [hroot.2] at hwalk
        exact hwalk.symm⟩ : f.nodes = [] ∧ _)
      rw [walkTree, BitTrie.traverse]
      refine @Lockstep.bind _ _ _ _ (InStep lib cases f) (fun t => Unreadable lib cases f t.found) _
        _ _ _ _ _ _ _ ?_ ?_ ?_
      · refine Lockstep.bind (visitRecord_lockstep hread hv hnode hlen hrest false) ?_ ?_
        · intro w t _ hstep
          exact visitRecord_lockstep hread hv hnode hlen hstep true
        · intro t t' hun hturn
          exact hun.mono (turn_found hturn)
      · intro w t hvisit hstep
        exact ih hstep (reached_visit (childOf_empty f) hreached hvisit)
      · intro t found hun htraverse
        exact hun.mono (traverse_found htraverse)

end Walk

theorem kept_iff_outside (f : MmdbFile) (a : List Bool) : Kept f.skips a ↔ f.Outside a := by
  constructor
  · intro h p hp hpa
    have hne : p ≠ [] := by
      rintro rfl
      unfold MmdbFile.aliases at hp
      split at hp
      · revert hp
        decide
      · cases hp
    exact absurd (h p hpa hne) (by simp [MmdbFile.skips, hp])
  · intro h p hpa _
    exact decide_eq_false fun hp => h p hp hpa

theorem bits_pos (f : MmdbFile) : 0 < f.bits := by
  rcases bits_cases f with h | h <;> rw [h] <;> decide

theorem addressOf_start (f : MmdbFile) :
    AddressOf f (List.replicate (addressBits f.info / 8) 0) [] := by
  rw [bits_eq]
  rcases bits_cases f with h | h
  · exact ⟨by simp [h], by rw [h, bitsOf_replicate_zero]; rfl⟩
  · exact ⟨by simp [h], by rw [h, bitsOf_replicate_zero]; rfl⟩

theorem mmdbCountries_lockstep (hmeta : lib.metadata f.bytes = .ok f.info) :
    Lockstep (Holds lib cases f) (Unreadable lib cases f) (mmdbCountries lib cases f.bytes)
      (traverse f.nodes.length (childOf f.nodes) f.skips f.bits (f.nodes.length * 2 + 1)
        .start) := by
  obtain ⟨read, hreader, hread⟩ := read_packTree f.size f.fits f.data
  have hreader' : recordReader f.bytes f.info.recordSize = .ok read := hreader
  unfold mmdbCountries
  simp only [hmeta, hreader', Except.bind, nodeCount_eq]
  refine walkTree_lockstep hread ⟨?_, ?_, holds_start⟩ (reached_start (bits_pos f))
  · exact .cons ⟨rfl, rfl, addressOf_start f⟩ .nil
  · intro e he
    cases he

theorem traversed
    (h : traverse f.nodes.length (childOf f.nodes) f.skips f.bits (f.nodes.length * 2 + 1) .start
      = .ok found) : Found f.nodes.length (childOf f.nodes) f.skips f.bits found :=
  traverse_ok (childOf_empty f) (bits_pos f) h

theorem listed_of_tree (hmeta : lib.metadata f.bytes = .ok f.info) (hends : f.Ends)
    (htree : f.IsTree) (hread : f.Readable lib cases) :
    ∃ out, mmdbCountries lib cases f.bytes = .ok out := by
  have hends' : ∀ a, a.length = f.bits → Kept f.skips a → f.nodes.length ≤ f.walk a :=
    fun a ha hka => hends a ha ((kept_iff_outside f a).mp hka)
  have htree' : BitTrie.IsTree f.nodes.length (childOf f.nodes) f.skips f.bits :=
    fun p q hp hq => htree p q ((kept_iff_outside f p).mp hp) ((kept_iff_outside f q).mp hq)
  have hturns : max f.nodes.length 1 ≤ f.nodes.length * 2 + 1 := by omega
  obtain ⟨found, hfound⟩ := traverse_isOk (childOf_empty f) hends' htree' (bits_pos f) hturns
  have hgood : ¬ Unreadable lib cases f found := by
    rintro ⟨v, hv, err, herr⟩
    obtain ⟨hwalk, hlt, hlen, hkept⟩ := (traversed hfound).value v hv
    have hwalk' : f.walk v.1 = v.2 := hwalk
    obtain ⟨name, hname⟩ := hread v.1 ((kept_iff_outside f v.1).mp hkept) hlen (hwalk' ▸ hlt)
    rw [hwalk', herr] at hname
    cases hname
  obtain ⟨out, hout, -⟩ := (mmdbCountries_lockstep hmeta).ok_of hfound hgood
  exact ⟨out, hout⟩

section Listed

variable {out : OrderedMap String (List GeoCidr)} (hmeta : lib.metadata f.bytes = .ok f.info)
  (hout : mmdbCountries lib cases f.bytes = .ok out)

include hmeta hout

theorem listed_found : ∃ found, Holds lib cases f out found ∧
    Found f.nodes.length (childOf f.nodes) f.skips f.bits found := by
  obtain ⟨found, hfound, hholds⟩ := (mmdbCountries_lockstep hmeta).of_ok hout
  exact ⟨found, hholds, traversed hfound⟩

theorem listed_apart : (out.entries.flatMap Prod.snd).Pairwise
    fun c c' => ∀ a, f.networkBits c <+: a → ¬ f.networkBits c' <+: a := by
  obtain ⟨found, hholds, hfound⟩ := listed_found hmeta hout
  obtain ⟨paths, hperm, hsub⟩ := hholds.networks
  have hapart := (pairwise_apart_perm hperm).mp (hfound.apart.sublist hsub)
  exact (List.pairwise_map.mp hapart).imp fun h a => h.not_both

theorem listed_covered {a : List Bool} (ha : a.length = f.bits) (houtside : f.Outside a)
    (country : String) : f.Covered out country a ↔
      f.nodes.length < f.walk a ∧ f.countryOf lib cases (f.walk a) = .ok (some country) := by
  obtain ⟨found, hholds, hfound⟩ := listed_found hmeta hout
  constructor
  · rintro ⟨l, hl, c, hc, hpa⟩
    obtain ⟨record, hmem, hcountry⟩ := (hholds.countries country _).mp ⟨l, hl, c, hc, rfl⟩
    obtain ⟨hwalk, hlt, -, -⟩ := hfound.value _ hmem
    have hend : f.walk a = record :=
      (walk_of_leading _ _ hpa (hwalk ▸ hlt.le)).trans hwalk
    rw [hend]
    exact ⟨hlt, hcountry⟩
  · rintro ⟨hlt, hcountry⟩
    obtain ⟨p, hpa, hmem⟩ := (hfound.settled a ha ((kept_iff_outside f a).mpr houtside)).2 hlt
    obtain ⟨l, hl, c, hc, rfl⟩ := (hholds.countries country p).mpr ⟨_, hmem, hcountry⟩
    exact ⟨l, hl, c, hc, hpa⟩

theorem listed_ends : f.Ends := by
  intro a ha houtside
  obtain ⟨found, -, hfound⟩ := listed_found hmeta hout
  exact (hfound.settled a ha ((kept_iff_outside f a).mpr houtside)).1

end Listed

end MmdbTree

open MmdbTree in
/-- A MaxMind tree and the map of countries it becomes: a tree whose records can be read is listed;
what is listed stands apart, and covers an address outside the aliases by a country exactly when
the walk of its bits ends in a record that names it; a walk outside the aliases that does not end
is refused. -/
theorem mmdb_countries (lib : MmdbLib) (cases : CaseLib) (f : MmdbFile)
    (hmeta : lib.metadata f.bytes = .ok f.info) :
    (f.Ends → f.IsTree → f.Readable lib cases → ∃ out, mmdbCountries lib cases f.bytes = .ok out) ∧
      (∀ out, mmdbCountries lib cases f.bytes = .ok out →
        (out.entries.flatMap Prod.snd).Pairwise
            (fun c c' => ∀ a, f.networkBits c <+: a → ¬ f.networkBits c' <+: a) ∧
          ∀ a, a.length = f.bits → f.Outside a → ∀ country, f.Covered out country a ↔
            f.nodes.length < f.walk a ∧ f.countryOf lib cases (f.walk a) = .ok (some country)) ∧
      (¬ f.Ends → ∃ err, mmdbCountries lib cases f.bytes = .error err) := by
  refine ⟨listed_of_tree hmeta, fun out hout => ⟨listed_apart hmeta hout, fun a ha houtside =>
    listed_covered hmeta hout ha houtside⟩, fun hendless => ?_⟩
  cases hout : mmdbCountries lib cases f.bytes with
  | ok out => exact absurd (listed_ends hmeta hout) hendless
  | error err => exact ⟨err, rfl⟩

/-! ## A file with an alias -/

/-- The cases of ASCII letters. -/
def asciiCases : CaseLib where
  toUpperCase s := String.ofList (s.toList.map Char.toUpper)
  toLowerCase s := String.ofList (s.toList.map Char.toLower)
  upper_ascii := fun _ _ => rfl
  lower_ascii := fun _ _ => rfl
  lower_lower := fun s => by simp [Function.comp_def, Char.toLower_toLower_eq_toLower]

/-- Sixteen nodes that spell 2002::/16, which leads to the record of the IPv4 space. -/
def aliasFile : MmdbFile where
  nodes := [(1, 16), (2, 16), (32, 3), (4, 16), (5, 16), (6, 16), (7, 16), (8, 16), (9, 16),
    (10, 16), (11, 16), (12, 16), (13, 16), (14, 16), (16, 15), (32, 16)]
  recordSize := 24
  ipVersion := 6
  data := []
  size := .inl rfl
  fits := by decide

/-- Every record names Germany. -/
def germanLib (f : MmdbFile) : MmdbLib where
  metadata _ := .ok f.info
  decodeFast _ _ _ := .ok (.map [("country", .map [("iso_code", .text "de")])])

/-- A walk that stands at a node has gone the way of the alias. -/
theorem aliasFile_walk (p : List Bool) (h : aliasFile.walk p < 16) :
    aliasFile.walk p = p.length ∧ p = (bitsOf [0x20, 0x02]).take p.length := by
  induction p using List.reverseRecOn with
  | nil => exact ⟨rfl, rfl⟩
  | append_singleton p b ih =>
    have hlast : aliasFile.walk (p ++ [b]) =
        BitTrie.walk 16 (childOf aliasFile.nodes) (aliasFile.walk p) [b] :=
      BitTrie.walk_append _ _ _ _ _
    have hnode : ∀ r < 16, ∀ b, childOf aliasFile.nodes r b < 16 →
        childOf aliasFile.nodes r b = r + 1 ∧ (bitsOf [0x20, 0x02])[r]? = some b := by
      decide
    by_cases hp : aliasFile.walk p < 16
    · obtain ⟨hlen, htake⟩ := ih hp
      rw [BitTrie.walk, if_pos hp, BitTrie.walk] at hlast
      obtain ⟨hnext, hb⟩ := hnode _ hp b (hlast ▸ h)
      rw [hlen] at hnext hb
      refine ⟨by rw [hlast, hlen, hnext, List.length_append, List.length_singleton], ?_⟩
      rw [List.length_append, List.length_singleton, List.take_add_one, hb, ← htake]
      rfl
    · rw [BitTrie.walk_of_le _ _ (Nat.le_of_not_lt hp)] at hlast
      exact absurd (hlast ▸ h) hp

theorem germanLib_country (f : MmdbFile) (record : Nat) :
    f.countryOf (germanLib f) asciiCases record = .ok (some "DE") := by
  change Except.ok (some (String.ofList _)) = _
  decide

theorem mmdb_countries_alias : ∃ out,
    mmdbCountries (germanLib aliasFile) asciiCases aliasFile.bytes = .ok out ∧
      aliasFile.Covered out "DE" (List.replicate 128 false) ∧
      ¬ aliasFile.Covered out "DE" (List.replicate 128 true) := by
  have hends : aliasFile.Ends := by
    intro a ha _
    have hbits : aliasFile.bits = 128 := rfl
    refine Nat.le_of_not_lt fun hlt => ?_
    have hlt : aliasFile.walk a < 16 := hlt
    have hlen := (aliasFile_walk a hlt).1
    omega
  have htree : aliasFile.IsTree := by
    intro p q _ _ _ _ heq hlt
    obtain ⟨hp, hptake⟩ := aliasFile_walk p hlt
    obtain ⟨hq, hqtake⟩ := aliasFile_walk q (heq ▸ hlt)
    rw [hptake, hqtake, ← hp, ← hq, heq]
  have hread : aliasFile.Readable (germanLib aliasFile) asciiCases :=
    fun p _ _ _ => ⟨_, germanLib_country aliasFile _⟩
  obtain ⟨hlisted, hright, -⟩ := mmdb_countries (germanLib aliasFile) asciiCases aliasFile rfl
  obtain ⟨out, hout⟩ := hlisted hends htree hread
  have hcovered := (hright out hout).2
  refine ⟨out, hout, ?_, ?_⟩
  · refine (hcovered _ List.length_replicate (by decide +kernel) "DE").mpr ⟨?_, ?_⟩
    · decide
    · exact germanLib_country _ _
  · intro hlast
    have hwalk := (hcovered _ List.length_replicate (by decide +kernel) "DE").mp hlast
    exact absurd hwalk.1 (by decide)

/-! ## A cycle that closes in an alias -/

/-- A walk outside the aliases comes back to a node it has passed. -/
def MmdbFile.Cyclic (f : MmdbFile) : Prop :=
  ∃ p c, c ≠ [] ∧ (p ++ c).length ≤ f.bits ∧ f.Outside (p ++ c) ∧
    f.walk (p ++ c) = f.walk p ∧ f.walk p < f.nodes.length

/-- Twelve nodes, each with one way on, that lead 2002:.. from the root to the root. -/
def loopFile : MmdbFile where
  nodes := [(1, 12), (2, 12), (12, 3), (4, 12), (5, 12), (6, 12), (7, 12), (8, 12), (9, 12),
    (10, 12), (11, 12), (0, 12)]
  recordSize := 24
  ipVersion := 6
  data := []
  size := .inl rfl
  fits := by decide

/-- The way round is walked once and goes on to 2002::/16, where the walk stops. -/
theorem loop_not_refused : loopFile.Cyclic ∧
    ∃ out, mmdbCountries (germanLib loopFile) asciiCases loopFile.bytes = .ok out := by
  refine ⟨⟨[], [false, false, true, false, false, false, false, false, false, false, false, false],
    by decide, by decide, by decide, by decide, by decide⟩, ?_⟩
  exact exists_ok_of_isSome (by decide)

end Iceslab
