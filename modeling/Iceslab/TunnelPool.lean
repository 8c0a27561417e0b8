import Iceslab.ChainInput
import Iceslab.Lib.Machine

/-!
# The leg tunnels and the pool their indexes come from

`cascade-tunnel.ts` and `writeTunnels` of `cascade.service.ts`: which pairs of nodes ride a
tunnel, and how a save gives each new pair an index, from which the interface, the inner /30 and
the UDP port follow.

* `parseTunnelCred_json` — a credential is read back as it was written.
* `writeTunnels_spec` — what one save does to the stored tunnels.
* `Pool` — what holds of the stored tunnels after any sequence of saves.
-/

set_option autoImplicit false

namespace Iceslab

open Checked

/-! ## The credential of a tunnel -/

structure TunnelEnd where
  privateKey : String
  publicKey : String
  deriving DecidableEq, Repr

structure TunnelObfuscation where
  jc : Nat
  jmin : Nat
  jmax : Nat
  s1 : Nat
  s2 : Nat
  s3 : Nat
  s4 : Nat
  h1 : Nat
  h2 : Nat
  h3 : Nat
  h4 : Nat
  deriving DecidableEq, Repr

/-- What the `config` column of a tunnel holds: both ends and the obfuscation. -/
structure TunnelCred where
  dialling : TunnelEnd
  receiving : TunnelEnd
  obfuscation : TunnelObfuscation
  deriving DecidableEq, Repr

def TunnelEnd.json (e : TunnelEnd) : Json :=
  .obj [("privateKey", .str e.privateKey), ("publicKey", .str e.publicKey)]

def TunnelCred.json (c : TunnelCred) : Json :=
  let o := c.obfuscation
  .obj [("from", c.dialling.json), ("to", c.receiving.json),
    ("obfuscation", .obj [("jc", .num o.jc), ("jmin", .num o.jmin), ("jmax", .num o.jmax),
      ("s1", .num o.s1), ("s2", .num o.s2), ("s3", .num o.s3), ("s4", .num o.s4),
      ("h1", .num o.h1), ("h2", .num o.h2), ("h3", .num o.h3), ("h4", .num o.h4)])]

def parseTunnelEnd (e : Json) : Option TunnelEnd :=
  match e.str? "privateKey", e.str? "publicKey" with
  | some privateKey, some publicKey => some { privateKey, publicKey }
  | _, _ => none

def parseTunnelObfuscation (ob : Json) : Option TunnelObfuscation := do
  pure { jc := ← ob.num? "jc", jmin := ← ob.num? "jmin", jmax := ← ob.num? "jmax",
         s1 := ← ob.num? "s1", s2 := ← ob.num? "s2", s3 := ← ob.num? "s3", s4 := ← ob.num? "s4",
         h1 := ← ob.num? "h1", h2 := ← ob.num? "h2", h3 := ← ob.num? "h3", h4 := ← ob.num? "h4" }

/-- The stored credential, none when it is not whole. -/
def parseTunnelCred (raw : Json) : Option TunnelCred := do
  pure { dialling := ← (raw.field "from").bind parseTunnelEnd
         receiving := ← (raw.field "to").bind parseTunnelEnd
         obfuscation := ← (raw.field "obfuscation").bind parseTunnelObfuscation }

theorem parseTunnelCred_json (c : TunnelCred) : parseTunnelCred c.json = some c := by
  obtain ⟨⟨_, _⟩, ⟨_, _⟩, ⟨_, _, _, _, _, _, _, _, _, _, _⟩⟩ := c
  rfl

/-! ## What follows from an index -/

def LINK_TUNNEL_PORT_BASE : Nat := 27000

def tunnelPort (index : Nat) : Nat := LINK_TUNNEL_PORT_BASE + index

/-- An IPv4 network, by its octets and its prefix length. -/
structure Ipv4Net where
  a : Nat
  b : Nat
  c : Nat
  d : Nat
  bits : Nat
  deriving DecidableEq, Repr

namespace Ipv4Net

def text (n : Ipv4Net) : String :=
  toString n.a ++ "." ++ toString n.b ++ "." ++ toString n.c ++ "." ++ toString n.d ++ "/"
    ++ toString n.bits

/-- The first address of the network, as a number. -/
def first (n : Ipv4Net) : Nat := ((n.a * 256 + n.b) * 256 + n.c) * 256 + n.d

/-- The address is one of the network's. -/
def Contains (n : Ipv4Net) (addr : Nat) : Prop :=
  n.first ≤ addr ∧ addr < n.first + 2 ^ (32 - n.bits)

end Ipv4Net

/-- The block of every leg tunnel. -/
def tunnelBlock : Ipv4Net := ⟨10, 67, 0, 0, 16⟩

/-- The /30 of an index: 64 of them in each third octet. -/
def tunnelNet (index : Nat) : Ipv4Net := ⟨10, 67, index / 64, index % 64 * 4, 30⟩

structure TunnelAddresses where
  network : String
  dialling : String
  receiving : String
  deriving DecidableEq, Repr

/-- The two inner addresses of a tunnel's /30. -/
def tunnelAddresses (index : Nat) : Except String TunnelAddresses :=
  if index ≥ MAX_LINK_TUNNELS then
    .error ("leg tunnel index " ++ toString index ++ " is out of range")
  else
    let base := index % 64 * 4
    let net := LINK_TUNNEL_NET_PREFIX ++ "." ++ toString (index / 64)
    .ok { network := net ++ "." ++ toString base ++ "/30"
          dialling := net ++ "." ++ toString (base + 1)
          receiving := net ++ "." ++ toString (base + 2) }

theorem tunnelAddresses_eq_ok {index : Nat} {a : TunnelAddresses}
    (h : tunnelAddresses index = .ok a) : index < MAX_LINK_TUNNELS
      ∧ a.network = (tunnelNet index).text ∧ a.receiving = tunnelTo index := by
  unfold tunnelAddresses at h
  split at h
  · cases h
  · rename_i hlt
    cases h
    refine ⟨Nat.not_le.mp hlt, ?_, rfl⟩
    have h10 : toString (10 : Nat) ++ "." ++ toString (67 : Nat) = LINK_TUNNEL_NET_PREFIX := by
      decide
    have h30 : "/" ++ toString (30 : Nat) = "/30" := by decide
    simp only [Ipv4Net.text, tunnelNet]
    rw [h10]
    simp only [String.append_assoc, h30]

theorem tunnelNet_contains {i addr : Nat} : (tunnelNet i).Contains addr
    ↔ tunnelBlock.first + 4 * i ≤ addr ∧ addr < tunnelBlock.first + 4 * i + 4 := by
  have hfirst : (tunnelNet i).first = tunnelBlock.first + 4 * i := by
    simp only [Ipv4Net.first, tunnelNet, tunnelBlock]
    omega
  rw [Ipv4Net.Contains, hfirst]
  rfl

theorem tunnelNet_disjoint {i j addr : Nat} (hne : i ≠ j) (h : (tunnelNet i).Contains addr) :
    ¬ (tunnelNet j).Contains addr := by
  rw [tunnelNet_contains] at h ⊢
  omega

theorem tunnelNet_inside {i addr : Nat} (hi : i < MAX_LINK_TUNNELS)
    (h : (tunnelNet i).Contains addr) : tunnelBlock.Contains addr := by
  have hbits : (2 : Nat) ^ (32 - tunnelBlock.bits) = 65536 := rfl
  have hmax : MAX_LINK_TUNNELS = 1000 := rfl
  rw [tunnelNet_contains] at h
  rw [Ipv4Net.Contains, hbits]
  omega

/-! ## The pairs that ride a tunnel -/

structure TunnelPair where
  fromNodeId : String
  toNodeId : String
  deriving DecidableEq, Repr

def underlayOf (linkParams : Option LegParams) : Option LinkUnderlay := linkParams.bind (·.underlay)

/-- The pairs between two pools, none unless they ride a tunnel. -/
def tunnelPairsBetween (froms tos : List String) (underlay : Option LinkUnderlay) :
    List TunnelPair :=
  if underlay = some .awg then
    (froms.flatMap fun f => tos.map fun t => (⟨f, t⟩ : TunnelPair)).filter
      fun p => decide (p.fromNodeId ≠ p.toNodeId)
  else []

/-- The pairs of the steps, each from its position's own choice. -/
def tunnelPairsOfSteps : List CascadePosition → List TunnelPair
  | a :: b :: rest =>
    tunnelPairsBetween a.nodeIds b.nodeIds (underlayOf a.linkParams)
      ++ tunnelPairsOfSteps (b :: rest)
  | _ => []

/-- The node pairs of a topology whose leg rides a tunnel, each once. -/
def topologyTunnelPairs (positions : List CascadePosition) (directions : List ResolvedDirection) :
    List TunnelPair :=
  let ordered := sortPositions positions
  (tunnelPairsOfSteps ordered ++
    match ordered.getLast? with
    | none => []
    | some last => directions.flatMap fun d =>
        tunnelPairsBetween last.nodeIds d.nodeIds
          ((underlayOf d.linkParams).or (underlayOf last.linkParams))).eraseDups

/-! ## The stored tunnels -/

structure TunnelRow where
  id : String
  cascadeId : String
  fromNodeId : String
  toNodeId : String
  index : Nat
  port : Nat
  config : Json

def TunnelRow.pair (r : TunnelRow) : TunnelPair := ⟨r.fromNodeId, r.toNodeId⟩

structure PortConflict where
  nodeName : String
  port : Nat
  profileName : String
  deriving DecidableEq, Repr

/-- Why a save is taken back. -/
inductive TunnelRefusal where
  | noFreeIndex
  | portInUse (conflicts : List PortConflict)
  | duplicateKey
  deriving DecidableEq, Repr

def PortConflict.text (c : PortConflict) : String :=
  "node \"" ++ c.nodeName ++ "\" port " ++ toString c.port ++ "/UDP (profile \"" ++ c.profileName
    ++ "\")"

def TunnelRefusal.message : TunnelRefusal → String
  | .noFreeIndex => "no free leg tunnel index: the panel holds " ++ toString MAX_LINK_TUNNELS
      ++ " already"
  | .portInUse conflicts => "The inter-hop link ports this cascade needs are already taken: "
      ++ String.intercalate "; " (conflicts.map PortConflict.text)
      ++ ". Link ports are assigned automatically from 24000 up; move those profiles to another "
      ++ "port and save again."
  | .duplicateKey => "Unique constraint failed on the fields: (`id`)"

/-- The smallest indexes not in `used`, as many as asked for. -/
def freeTunnelIndexes (used : List Nat) (count : Nat) : Except TunnelRefusal (List Nat) :=
  let out := ((List.range MAX_LINK_TUNNELS).filter fun i => decide (i ∉ used)).take count
  if out.length < count then .error .noFreeIndex else .ok out

/-- One save of a cascade, as its tunnels see it. -/
structure TunnelSave where
  cascadeId : String
  positions : List CascadePosition
  directions : List ResolvedDirection
  /-- `newTunnelCred()` and the id of the new row, for the new pair at this place -/
  mint : Nat → TunnelCred
  rowId : Nat → String
  /-- the profiles that hold a UDP port of a node -/
  udpOwners : String → Nat → List String
  nodeName : String → Option String
  /-- whether the transaction of the save commits -/
  commits : Bool

namespace TunnelSave

variable (e : TunnelSave) (rows : List TunnelRow)

def wanted : List TunnelPair := topologyTunnelPairs e.positions e.directions

/-- The cascade's rows whose pair is still wanted and whose credential can be read. -/
def kept : List TunnelRow :=
  rows.filter fun r => decide (r.cascadeId = e.cascadeId) && decide (r.pair ∈ e.wanted)
    && (parseTunnelCred r.config).isSome

def dropped : List TunnelRow :=
  rows.filter fun r => decide (r.cascadeId = e.cascadeId)
    && !(decide (r.pair ∈ e.wanted) && (parseTunnelCred r.config).isSome)

/-- `deleteMany` by id. -/
def remaining : List TunnelRow :=
  rows.filter fun r => decide (r.id ∉ (e.dropped rows).map (·.id))

def missing : List TunnelPair :=
  e.wanted.filter fun p => decide (p ∉ (e.kept rows).map TunnelRow.pair)

/-- The new row at place `i`. -/
def rowOf (i : Nat) (p : TunnelPair) (index : Nat) : TunnelRow :=
  { id := e.rowId i, cascadeId := e.cascadeId, fromNodeId := p.fromNodeId, toNodeId := p.toNodeId,
    index, port := tunnelPort index, config := (e.mint i).json }

def created (indexes : List Nat) : List TunnelRow :=
  ((e.missing rows).zip indexes).zipIdx.map fun x => e.rowOf x.2 x.1.1 x.1.2

def conflicts (created : List TunnelRow) : List PortConflict :=
  created.flatMap fun t => (e.udpOwners t.toNodeId t.port).map fun profileName =>
    { nodeName := (e.nodeName t.toNodeId).getD t.toNodeId, port := t.port, profileName }

/-- The tunnels of one save, inside its transaction. -/
def writeTunnels : Except TunnelRefusal (List TunnelRow) :=
  let rows' := e.remaining rows
  if e.missing rows = [] then .ok rows'
  else do
    let indexes ← freeTunnelIndexes (rows'.map (·.index)) (e.missing rows).length
    let created := e.created rows indexes
    match e.conflicts created with
    | c :: cs => .error (.portInUse (c :: cs))
    | [] => do
      require (decide ((created ++ rows').map (·.id)).Nodup) .duplicateKey
      pure (rows' ++ created)

/-- What is stored after the save: nothing changed when it throws or is rolled back. -/
def run : List TunnelRow :=
  match e.writeTunnels rows with
  | .ok rows' => if e.commits then rows' else rows
  | .error _ => rows

end TunnelSave

/-- The stored tunnels over the saves, one at a time. -/
def tunnelMachine : Machine (List TunnelRow) TunnelSave :=
  Machine.ofFun (· = []) fun rows e => e.run rows

/-- The tunnels stored after a sequence of saves. -/
def tunnelsAfter (saves : List TunnelSave) : List TunnelRow :=
  saves.foldl (fun rows e => e.run rows) []

/-! ## The smallest free indexes -/

/-- What `freeTunnelIndexes` gives: as many as asked for, free, and leaving no smaller one free. -/
structure Smallest (used : List Nat) (count : Nat) (out : List Nat) : Prop where
  length : out.length = count
  nodup : out.Nodup
  lt : ∀ i ∈ out, i < MAX_LINK_TUNNELS
  free : ∀ i ∈ out, i ∉ used
  smallest : ∀ i ∈ out, ∀ j < i, j ∈ used ∨ j ∈ out

theorem freeTunnelIndexes_eq_ok {used : List Nat} {count : Nat} {out : List Nat}
    (h : freeTunnelIndexes used count = .ok out) : Smallest used count out := by
  unfold freeTunnelIndexes at h
  simp only at h
  split at h
  · cases h
  · rename_i hlen
    obtain ⟨free, hfree⟩ : ∃ free, free
      = (List.range MAX_LINK_TUNNELS).filter fun i => decide (i ∉ used) := ⟨_, rfl⟩
    rw [← hfree, Except.ok.injEq] at h
    rw [← hfree, h] at hlen
    have hmem : ∀ i, i ∈ free ↔ i < MAX_LINK_TUNNELS ∧ i ∉ used := by
      intro i
      rw [hfree, List.mem_filter, List.mem_range, decide_eq_true_eq]
    have hsorted : free.Pairwise (· < ·) := by
      rw [hfree]
      exact (List.pairwise_lt_range).filter _
    have hsub : ∀ i ∈ out, i ∈ free := fun i hi => List.mem_of_mem_take (h ▸ hi)
    have hle : out.length ≤ count := by
      rw [← h, List.length_take]
      exact Nat.min_le_left _ _
    refine ⟨by omega, ?_, fun i hi => ((hmem i).mp (hsub i hi)).1,
      fun i hi => ((hmem i).mp (hsub i hi)).2, fun i hi j hj => ?_⟩
    · rw [← h]
      exact (hsorted.imp fun hab => Nat.ne_of_lt hab).sublist (List.take_sublist _ _)
    · by_cases hused : j ∈ used
      · exact Or.inl hused
      · refine Or.inr ?_
        have hjfree : j ∈ free :=
          (hmem j).mpr ⟨Nat.lt_trans hj ((hmem i).mp (hsub i hi)).1, hused⟩
        rw [← List.take_append_drop count free, h] at hjfree hsorted
        rcases List.mem_append.mp hjfree with hin | hin
        · exact hin
        · have := (List.pairwise_append.mp hsorted).2.2 i hi j hin
          omega

/-! ## One save -/

/-- What holds of the stored tunnels at any time. -/
structure Pool (rows : List TunnelRow) : Prop where
  ids : (rows.map (·.id)).Nodup
  indexes : (rows.map (·.index)).Nodup
  range : ∀ r ∈ rows, r.index < MAX_LINK_TUNNELS
  ports : ∀ r ∈ rows, r.port = tunnelPort r.index

theorem Pool.nil : Pool [] := by
  constructor <;> simp

namespace TunnelSave

variable {e : TunnelSave} {rows : List TunnelRow} {r : TunnelRow}

/-- A row stays unless the save drops it. -/
theorem mem_remaining (h : (rows.map (·.id)).Nodup) :
    r ∈ e.remaining rows ↔ r ∈ rows ∧ r ∉ e.dropped rows := by
  rw [remaining, List.mem_filter, decide_eq_true_eq]
  refine and_congr_right fun hr => ?_
  constructor
  · exact fun hid hd => hid (List.mem_map_of_mem hd)
  · rintro hd hid
    obtain ⟨d, hdd, heq⟩ := List.mem_map.mp hid
    have hdr : d = r := List.inj_on_of_nodup_map h (List.mem_filter.mp hdd).1 hr heq
    exact hd (hdr ▸ hdd)

/-- A pair still wanted with a readable credential keeps its row. -/
theorem mem_remaining_of_kept (h : (rows.map (·.id)).Nodup)
    (hr : r ∈ e.kept rows) : r ∈ e.remaining rows := by
  obtain ⟨hrow, hk⟩ := List.mem_filter.mp hr
  simp only [Bool.and_eq_true, decide_eq_true_eq] at hk
  refine (mem_remaining h).mpr ⟨hrow, fun hd => ?_⟩
  obtain ⟨-, hd⟩ := List.mem_filter.mp hd
  simp [hk.1.2, hk.2] at hd

theorem map_index_created {indexes : List Nat} (h : indexes.length = (e.missing rows).length) :
    (e.created rows indexes).map (·.index) = indexes := by
  have hfun : (fun x : (TunnelPair × Nat) × Nat => (e.rowOf x.2 x.1.1 x.1.2).index)
      = Prod.snd ∘ Prod.fst := rfl
  rw [created, List.map_map, Function.comp_def, hfun, ← List.map_map, List.zipIdx_map_fst]
  exact List.map_snd_zip (Nat.le_of_eq h)

theorem map_pair_created {indexes : List Nat} (h : indexes.length = (e.missing rows).length) :
    (e.created rows indexes).map TunnelRow.pair = e.missing rows := by
  have hfun : (fun x : (TunnelPair × Nat) × Nat => (e.rowOf x.2 x.1.1 x.1.2).pair)
      = Prod.fst ∘ Prod.fst := rfl
  rw [created, List.map_map, Function.comp_def, hfun, ← List.map_map, List.zipIdx_map_fst]
  exact List.map_fst_zip (Nat.le_of_eq h.symm)

theorem mem_created {indexes : List Nat} (h : r ∈ e.created rows indexes) :
    r.cascadeId = e.cascadeId ∧ r.port = tunnelPort r.index
      ∧ (parseTunnelCred r.config).isSome := by
  obtain ⟨x, -, rfl⟩ := List.mem_map.mp h
  refine ⟨rfl, rfl, ?_⟩
  rw [rowOf, parseTunnelCred_json]
  rfl

/-- What a save writes: what is left, and a row for each missing pair on the smallest indexes. -/
structure Wrote (e : TunnelSave) (rows rows' : List TunnelRow) (indexes : List Nat) : Prop where
  smallest : Smallest ((e.remaining rows).map (·.index)) (e.missing rows).length indexes
  rows_eq : rows' = e.remaining rows ++ e.created rows indexes
  ids : (rows.map (·.id)).Nodup → (rows'.map (·.id)).Nodup

/-- **What one save does.** -/
theorem writeTunnels_spec {rows' : List TunnelRow} (h : e.writeTunnels rows = .ok rows') :
    ∃ indexes, e.Wrote rows rows' indexes := by
  unfold writeTunnels at h
  simp only at h
  split at h
  · rename_i hnil
    cases h
    refine ⟨[], ⟨⟨by rw [hnil]; rfl, List.nodup_nil, ?_, ?_, ?_⟩, ?_, fun hnd => ?_⟩⟩
    · intro i hi
      cases hi
    · intro i hi
      cases hi
    · intro i hi
      cases hi
    · simp [created]
    · exact hnd.sublist (List.filter_sublist.map _)
  · obtain ⟨indexes, hfree, h⟩ := bind_eq_ok.mp h
    split at h
    · cases h
    · obtain ⟨_, hreq, h⟩ := bind_eq_ok.mp h
      rw [require_eq_ok, decide_eq_true_eq] at hreq
      rw [pure_eq_ok] at h
      subst h
      refine ⟨indexes, freeTunnelIndexes_eq_ok hfree, rfl, fun _ => ?_⟩
      have hperm : ((e.remaining rows ++ e.created rows indexes).map (·.id)).Perm
          ((e.created rows indexes ++ e.remaining rows).map (·.id)) := List.perm_append_comm.map _
      exact hperm.nodup_iff.mpr hreq

namespace Wrote

variable {rows' : List TunnelRow} {indexes : List Nat}

theorem mem_iff (h : e.Wrote rows rows' indexes) (r : TunnelRow) :
    r ∈ rows' ↔ r ∈ e.remaining rows ∨ r ∈ e.created rows indexes := by
  rw [h.rows_eq, List.mem_append]

theorem map_index (h : e.Wrote rows rows' indexes) :
    rows'.map (·.index) = (e.remaining rows).map (·.index) ++ indexes := by
  rw [h.rows_eq, List.map_append, map_index_created h.smallest.length]

theorem pool (h : e.Wrote rows rows' indexes) (hp : Pool rows) : Pool rows' := by
  have hsub : (e.remaining rows).Sublist rows := List.filter_sublist
  refine ⟨h.ids hp.ids, ?_, fun r hr => ?_, fun r hr => ?_⟩
  · rw [h.map_index, List.nodup_append]
    refine ⟨hp.indexes.sublist (hsub.map _), h.smallest.nodup, fun i hi j hj hij => ?_⟩
    exact h.smallest.free j hj (hij ▸ hi)
  · rcases (h.mem_iff r).mp hr with hr | hr
    · exact hp.range r (hsub.subset hr)
    · refine h.smallest.lt r.index ?_
      rw [← map_index_created h.smallest.length]
      exact List.mem_map_of_mem hr
  · rcases (h.mem_iff r).mp hr with hr | hr
    · exact hp.ports r (hsub.subset hr)
    · exact (mem_created hr).2.1

theorem wanted (h : e.Wrote rows rows' indexes) (hp : Pool rows) {p : TunnelPair}
    (hw : p ∈ e.wanted) : ∃ r ∈ rows', r.cascadeId = e.cascadeId ∧ r.pair = p
      ∧ (parseTunnelCred r.config).isSome := by
  by_cases hk : p ∈ (e.kept rows).map TunnelRow.pair
  · obtain ⟨r, hr, rfl⟩ := List.mem_map.mp hk
    obtain ⟨-, hcond⟩ := List.mem_filter.mp hr
    simp only [Bool.and_eq_true, decide_eq_true_eq] at hcond
    exact ⟨r, (h.mem_iff r).mpr (Or.inl (mem_remaining_of_kept hp.ids hr)), hcond.1.1, rfl, hcond.2⟩
  · have hmiss : p ∈ e.missing rows := List.mem_filter.mpr ⟨hw, decide_eq_true hk⟩
    rw [← map_pair_created h.smallest.length] at hmiss
    obtain ⟨r, hr, rfl⟩ := List.mem_map.mp hmiss
    exact ⟨r, (h.mem_iff r).mpr (Or.inr hr), (mem_created hr).1, rfl, (mem_created hr).2.2⟩

/-- A new row has a free index, and no smaller one is left free. -/
theorem new (h : e.Wrote rows rows' indexes) (hr : r ∈ rows') (hnew : r ∉ rows) :
    r.index ∉ (e.remaining rows).map (·.index) ∧ ∀ j < r.index, j ∈ rows'.map (·.index) := by
  have hcreated : r ∈ e.created rows indexes := by
    refine ((h.mem_iff r).mp hr).resolve_left fun hrem => hnew ?_
    exact (List.mem_filter.mp hrem).1
  have hidx : r.index ∈ indexes := by
    rw [← map_index_created h.smallest.length]
    exact List.mem_map_of_mem hcreated
  refine ⟨h.smallest.free _ hidx, fun j hj => ?_⟩
  rw [h.map_index, List.mem_append]
  exact h.smallest.smallest _ hidx j hj

end Wrote

theorem run_pool (hp : Pool rows) : Pool (e.run rows) := by
  unfold run
  split
  · rename_i rows' hw
    split
    · obtain ⟨indexes, h⟩ := writeTunnels_spec hw
      exact h.pool hp
    · exact hp
  · exact hp

theorem mem_run_of_kept (hp : Pool rows) (hr : r ∈ e.kept rows) : r ∈ e.run rows := by
  have hrow : r ∈ rows := (List.mem_filter.mp hr).1
  unfold run
  split
  · rename_i rows' hw
    split
    · obtain ⟨indexes, h⟩ := writeTunnels_spec hw
      exact (h.mem_iff r).mpr (Or.inl (mem_remaining_of_kept hp.ids hr))
    · exact hrow
  · exact hrow

end TunnelSave

/-- **The pool after any sequence of saves.** -/
theorem tunnelsAfter_pool (saves : List TunnelSave) : Pool (tunnelsAfter saves) := by
  have hstart : tunnelMachine.Reachable [] := .start rfl
  have hreach : tunnelMachine.Reachable (tunnelsAfter saves) :=
    Machine.reachable_foldl hstart saves
  refine hreach.invariant ?_ ?_
  · rintro rows rfl
    exact Pool.nil
  · rintro rows e rows' - hp rfl
    exact TunnelSave.run_pool hp

/-! ## No collision -/

/-- The port of a tunnel is none of the other ports a hop holds. -/
structure PortApart (port : Nat) : Prop where
  leg : ∀ (T : SavedTopology) (plan : List PlannedLeg),
    planLegs T.directions 0 T.positions = .ok plan → ∀ p ∈ plan, port ≠ p.port
  tproxy : port ≠ CHAIN_TPROXY_PORT
  socks : ∀ tag ≤ MAX_DIRECTION_TAG, port ≠ chainSocksPort tag

theorem SavedTopology.step_lt (T : SavedTopology) {plan : List PlannedLeg}
    (h : planLegs T.directions 0 T.positions = .ok plan) {p : PlannedLeg} (hp : p ∈ plan) :
    p.step < MAX_CASCADE_PATH := by
  have hle := T.admitted.positions_le
  have hmax : MAX_CASCADE_POSITIONS < MAX_CASCADE_PATH := by decide
  have hplanned := (mem_plan_iff h p).mp hp
  cases hplanned with
  | between ha hb hf ht hd =>
    rename_i i a b f t d
    have := (List.getElem?_eq_some_iff.mp hb).1
    simp only
    omega
  | into hlast hi hf hd ht =>
    simp only
    omega

theorem tunnelPort_apart (index : Nat) : PortApart (tunnelPort index) := by
  have hbase : tunnelPort index = 27000 + index := rfl
  refine ⟨fun T plan hplan p hp => ?_, ?_, fun tag htag => ?_⟩
  · have hstep := T.step_lt hplan hp
    have hport : p.port = 24000 + p.step := rfl
    have hpath : MAX_CASCADE_PATH = 5 := rfl
    omega
  · have : CHAIN_TPROXY_PORT = 25000 := rfl
    omega
  · have hsocks : chainSocksPort tag = 26000 + tag := rfl
    have hmax : MAX_DIRECTION_TAG = 255 := rfl
    omega

/-- What a save does for the pairs of its cascade. -/
structure SavesPairs (e : TunnelSave) (rows : List TunnelRow) : Prop where
  kept : ∀ r ∈ rows, r.cascadeId = e.cascadeId → r.pair ∈ e.wanted →
    (parseTunnelCred r.config).isSome → r ∈ e.run rows
  wanted : ∀ rows', e.writeTunnels rows = .ok rows' → ∀ p ∈ e.wanted,
    ∃ r ∈ rows', r.cascadeId = e.cascadeId ∧ r.pair = p ∧ (parseTunnelCred r.config).isSome
  new : ∀ rows', e.writeTunnels rows = .ok rows' → ∀ r ∈ rows', r ∉ rows →
    r.index ∉ (e.remaining rows).map (·.index) ∧ ∀ j < r.index, j ∈ rows'.map (·.index)

theorem Pool.savesPairs {rows : List TunnelRow} (hp : Pool rows) (e : TunnelSave) :
    SavesPairs e rows := by
  refine ⟨fun r hr hc hpair hcred => ?_, fun rows' h p hw => ?_, fun rows' h r hr hnew => ?_⟩
  · refine TunnelSave.mem_run_of_kept hp (List.mem_filter.mpr ⟨hr, ?_⟩)
    simp [hc, hpair, hcred]
  · obtain ⟨indexes, hwrote⟩ := TunnelSave.writeTunnels_spec h
    exact hwrote.wanted hp hw
  · obtain ⟨indexes, hwrote⟩ := TunnelSave.writeTunnels_spec h
    exact hwrote.new hr hnew

/-- **Leg tunnels never collide**: after any sequence of saves the indexes, the networks and the
ports are apart, and the next save keeps what it may and takes the smallest free indexes. -/
theorem tunnels_never_collide (saves : List TunnelSave) :
    ((tunnelsAfter saves).map (·.index)).Nodup
    ∧ (∀ r ∈ tunnelsAfter saves, r.index < MAX_LINK_TUNNELS)
    ∧ (∀ r ∈ tunnelsAfter saves, ∃ a, tunnelAddresses r.index = .ok a
        ∧ a.network = (tunnelNet r.index).text
        ∧ ∀ addr, (tunnelNet r.index).Contains addr → tunnelBlock.Contains addr)
    ∧ (tunnelsAfter saves).Pairwise (fun r s => ∀ addr, (tunnelNet r.index).Contains addr →
        ¬ (tunnelNet s.index).Contains addr)
    ∧ ((tunnelsAfter saves).map (·.port)).Nodup
    ∧ (∀ r ∈ tunnelsAfter saves, PortApart r.port)
    ∧ ∀ e : TunnelSave, SavesPairs e (tunnelsAfter saves) := by
  have hp := tunnelsAfter_pool saves
  have hapart : (tunnelsAfter saves).Pairwise fun r s => r.index ≠ s.index :=
    List.pairwise_map.mp hp.indexes
  refine ⟨hp.indexes, hp.range, fun r hr => ?_, ?_, ?_, fun r hr => ?_, hp.savesPairs⟩
  · have hlt := hp.range r hr
    obtain ⟨a, ha⟩ : ∃ a, tunnelAddresses r.index = .ok a := by
      unfold tunnelAddresses
      rw [if_neg (Nat.not_le.mpr hlt)]
      exact ⟨_, rfl⟩
    exact ⟨a, ha, (tunnelAddresses_eq_ok ha).2.1, fun addr h => tunnelNet_inside hlt h⟩
  · exact hapart.imp fun hne addr h => tunnelNet_disjoint hne h
  · have hports : (tunnelsAfter saves).map (·.port)
        = (tunnelsAfter saves).map fun r => tunnelPort r.index :=
      List.map_congr_left fun r hr => hp.ports r hr
    rw [hports, List.Nodup, List.pairwise_map]
    exact hapart.imp fun hne h => hne (Nat.add_left_cancel h)
  · rw [hp.ports r hr]
    exact tunnelPort_apart r.index

/-- A save of a path of two steps whose leg rides a tunnel. -/
def tunnelledSave (cascadeId rowId : String) : TunnelSave where
  cascadeId := cascadeId
  positions := [{ nodeIds := ["ru"], position := 0, linkParams := some { underlay := some .awg } },
    { nodeIds := ["nl"], position := 1 }]
  directions := []
  mint _ := ⟨⟨"k", "p"⟩, ⟨"l", "q"⟩, ⟨4, 40, 70, 15, 30, 20, 10, 5, 6, 7, 8⟩⟩
  rowId _ := rowId
  udpOwners _ _ := []
  nodeName _ := none
  commits := true

/-- Two cascades over the same nodes, the first saved twice. -/
theorem tunnels_never_collide_two :
    (tunnelsAfter [tunnelledSave "c1" "t1", tunnelledSave "c2" "t2", tunnelledSave "c1" "t3"]).map
        (fun r => (r.id, r.index, r.port)) = [("t1", 0, 27000), ("t2", 1, 27001)] ∧
      SavesPairs (tunnelledSave "c2" "t4") (tunnelsAfter [tunnelledSave "c1" "t1"]) := by
  obtain ⟨-, -, -, -, -, -, hsaves⟩ := tunnels_never_collide [tunnelledSave "c1" "t1"]
  exact ⟨by decide +kernel, hsaves (tunnelledSave "c2" "t4")⟩

end Iceslab
