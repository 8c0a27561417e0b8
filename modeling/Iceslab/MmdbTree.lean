import Iceslab.GeoDat
import Iceslab.Lib.BitTrie
import Iceslab.Lib.ByteBits
import Iceslab.Lib.OrderedMap

/-!
# The countries of a MaxMind database

`geo-formats.ts`: `mmdbCountries` walks every network of the search tree off an explicit stack.  The
metadata and the data records are read by `mmdb-lib`; the nodes are read here, bit by bit.

* `recordReader` — the two records of a node, of 24, 28 or 32 bits.
* `MmdbTree.visitRecord`, `MmdbTree.walkTree`, `mmdbCountries` — the walk.
* `packTree`, `read_packTree` — the node table as the format packs it is read back.
-/

set_option autoImplicit false

namespace Iceslab

open ByteBits

/-! ## What `mmdb-lib` reads -/

/-- A decoded data record, as far as it is looked at. -/
inductive MmdbValue where
  | text (s : String)
  | map (fields : List (String × MmdbValue))
  /-- zero or false -/
  | falsy
  /-- any other value -/
  | other

/-- `v?.key`; a key written twice has its last value. -/
def MmdbValue.get (v : MmdbValue) (key : String) : Option MmdbValue :=
  match v with
  | .map fields => ((fields.filter fun f => decide (f.1 = key)).getLast?).map Prod.snd
  | _ => none

structure MmdbMetadata where
  nodeCount : Nat
  recordSize : Nat
  ipVersion : Nat
  searchTreeSize : Nat

/-- `new Reader(db).metadata` and `new Decoder(db, base).decodeFast(offset)`; an error is thrown. -/
structure MmdbLib where
  metadata : List UInt8 → Except String MmdbMetadata
  decodeFast : List UInt8 → Nat → Nat → Except String MmdbValue

/-- Why a database is refused; the last two are not ours to word. -/
inductive MmdbError where
  | notReadable (err : String)
  | recordSize (n : Nat)
  | dataRecord (err : String)
  | loops
  | deep
  /-- `iso.toUpperCase is not a function` -/
  | notText
  /-- `RangeError [ERR_OUT_OF_RANGE]` -/
  | outOfRange
  deriving DecidableEq, Repr

/-- The words of a `GeoDatError`, which names byte 0; `num` writes a number. -/
def MmdbError.text (num : Nat → String) : MmdbError → Option String
  | .notReadable err => some ("not a readable MaxMind database: " ++ err)
  | .recordSize n => some ("record size " ++ num n ++ " is not one MaxMind writes")
  | .dataRecord err => some ("a data record of the MaxMind database cannot be read: " ++ err)
  | .loops => some "the MaxMind search tree loops"
  | .deep => some "the MaxMind search tree is deeper than an address"
  | .notText | .outOfRange => none

/-! ## The records of a node -/

section Records

variable (db : List UInt8)

/-- `db.readUIntBE(offset, n)` -/
def readUIntBE (offset n : Nat) : Except MmdbError Nat :=
  if offset + n ≤ db.length then .ok (valueBE ((db.drop offset).take n)) else .error .outOfRange

/-- `db[offset]!`, as an operand: what is missing counts for zero. -/
def byteAt (offset : Nat) : Nat := (db[offset]?.getD 0).toNat

def recordReader (recordSize : Nat) : Except MmdbError (Nat → Bool → Except MmdbError Nat) :=
  let size := recordSize / 4
  if recordSize = 24 then .ok fun n right => readUIntBE db (n * size + if right then 3 else 0) 3
  else if recordSize = 28 then
    .ok fun n right =>
      let o := n * size
      if right then
        (readUIntBE db (o + 4) 3).map fun low => (byteAt db (o + 3) &&& 0x0f) <<< 24 ||| low
      else (readUIntBE db o 3).map fun low => (byteAt db (o + 3) &&& 0xf0) <<< 20 ||| low
  else if recordSize = 32 then
    .ok fun n right => readUIntBE db (n * size + if right then 4 else 0) 4
  else .error (.recordSize recordSize)

end Records

/-! ## The walk -/

/-- A node on the stack, with the address that leads to it. -/
structure TreeVisit where
  node : Nat
  depth : Nat
  addr : List UInt8

/-- What the walk has in its hands: `stack` from its top, `isoAt`, `out`. -/
structure MmdbWalk where
  stack : List TreeVisit
  isoAt : List (Nat × Option MmdbValue)
  out : OrderedMap String (List GeoCidr)

namespace MmdbTree

variable (lib : MmdbLib) (cases : CaseLib) (db : List UInt8) (info : MmdbMetadata)

/-- `bits` -/
def addressBits : Nat := if info.ipVersion = 6 then 128 else 32

/-- `v?.country?.iso_code ?? v?.registered_country?.iso_code ?? null` -/
def isoField (v : MmdbValue) : Option MmdbValue :=
  ((v.get "country").bind (·.get "iso_code")).or
    ((v.get "registered_country").bind (·.get "iso_code"))

/-- What a data record names. -/
def isoNamed (record : Nat) : Except MmdbError (Option MmdbValue) :=
  match lib.decodeFast db (info.searchTreeSize + 16)
      (record - info.nodeCount + info.searchTreeSize) with
  | .error err => .error (.dataRecord err)
  | .ok v => .ok (isoField v)

/-- `isoOf`, which decodes a record once. -/
def isoOf (isoAt : List (Nat × Option MmdbValue)) (record : Nat) :
    Except MmdbError (Option MmdbValue × List (Nat × Option MmdbValue)) :=
  match isoAt.find? fun e => decide (e.1 = record) with
  | some e => .ok (e.2, isoAt)
  | none => (isoNamed lib db info record).map fun iso => (iso, isoAt ++ [(record, iso)])

/-- `iso.toUpperCase()`, none where there is no `iso`; what is no text has no such method. -/
def countryName : Option MmdbValue → Except MmdbError (Option String)
  | none | some .falsy => .ok none
  | some (.text s) => .ok (if s = "" then none else some (cases.toUpperCase s))
  | some _ => .error .notText

/-- A network as it is listed: under ::/96 it is one of IPv4. -/
def cidrAt (addr : List UInt8) (depth : Nat) : GeoCidr :=
  if addressBits info = 128 ∧ 96 ≤ depth ∧ (addr.take 12).all (fun b => decide (b = 0)) then
    ⟨(addr.drop 12).take 4, depth - 96⟩
  else ⟨addr, depth⟩

/-- `emit` -/
def emit (w : MmdbWalk) (addr : List UInt8) (depth record : Nat) : Except MmdbError MmdbWalk :=
  (isoOf lib db info w.isoAt record).bind fun r =>
    (countryName cases r.1).map fun country =>
      match country with
      | none => { w with isoAt := r.2 }
      | some c =>
        { w with
          isoAt := r.2
          out := w.out.alter c fun list => list.getD [] ++ [cidrAt info addr depth] }

/-- 2002::/16 and ::ffff:0:0/96, at the node where each begins. -/
def isAlias (addr : List UInt8) (depth : Nat) : Bool :=
  decide (addressBits info = 128) &&
    (decide (depth = 16 ∧ addr[0]? = some 0x20 ∧ addr[1]? = some 0x02) ||
      (decide (depth = 96) && (addr.take 10).all (fun b => decide (b = 0))
        && decide (addr[10]? = some 0xff) && decide (addr[11]? = some 0xff)))

variable (read : Nat → Bool → Except MmdbError Nat)

/-- One record of a node. -/
def visitRecord (v : TreeVisit) (w : MmdbWalk) (right : Bool) : Except MmdbError MmdbWalk :=
  let next := if right then setBit v.addr v.depth else v.addr
  (read v.node right).bind fun record =>
    let d := v.depth + 1
    if isAlias info next d then .ok w
    else if record < info.nodeCount then
      if addressBits info ≤ d then .error .deep
      else .ok { w with stack := ⟨record, d, next⟩ :: w.stack }
    else if info.nodeCount < record then emit lib cases db info w next d record
    else .ok w

/-- The loop, with the number of visits left. -/
def walkTree : Nat → MmdbWalk → Except MmdbError (OrderedMap String (List GeoCidr))
  | _, ⟨[], _, out⟩ => .ok out
  | 0, ⟨_ :: _, _, _⟩ => .error .loops
  | left + 1, ⟨v :: stack, isoAt, out⟩ =>
    ((visitRecord lib cases db info read v ⟨stack, isoAt, out⟩ false).bind fun w =>
      visitRecord lib cases db info read v w true).bind (walkTree left)

end MmdbTree

/-- `mmdbCountries` -/
def mmdbCountries (lib : MmdbLib) (cases : CaseLib) (db : List UInt8) :
    Except MmdbError (OrderedMap String (List GeoCidr)) :=
  match lib.metadata db with
  | .error err => .error (.notReadable err)
  | .ok info =>
    (recordReader db info.recordSize).bind fun read =>
      MmdbTree.walkTree lib cases db info read (info.nodeCount * 2 + 1)
        ⟨[⟨0, 0, List.replicate (MmdbTree.addressBits info / 8) 0⟩], [], .empty⟩

/-! ## The node table as it is packed -/

/-- The records of a node; what is not in the table counts for zero. -/
def nodeRecords (nodes : List (Nat × Nat)) (n : Nat) : Nat × Nat := nodes[n]?.getD (0, 0)

def childOf (nodes : List (Nat × Nat)) (n : Nat) (right : Bool) : Nat :=
  if right then (nodeRecords nodes n).2 else (nodeRecords nodes n).1

/-- Two records; of 28 bits each, the byte between them holds the upper four of both. -/
def packNode (recordSize : Nat) (r : Nat × Nat) : List UInt8 :=
  if recordSize = 24 then bytesBE 3 r.1 ++ bytesBE 3 r.2
  else if recordSize = 28 then
    bytesBE 3 (r.1 % 2 ^ 24) ++ UInt8.ofNat (r.1 / 2 ^ 24 * 16 + r.2 / 2 ^ 24)
      :: bytesBE 3 (r.2 % 2 ^ 24)
  else bytesBE 4 r.1 ++ bytesBE 4 r.2

def packTree (recordSize : Nat) (nodes : List (Nat × Nat)) : List UInt8 :=
  nodes.flatMap (packNode recordSize)

/-- The record sizes there are. -/
def RecordSize (n : Nat) : Prop := n = 24 ∨ n = 28 ∨ n = 32

variable {recordSize : Nat} {mid post pre : List UInt8} {n offset : Nat}

theorem length_packNode (h : RecordSize recordSize) (r : Nat × Nat) :
    (packNode recordSize r).length = recordSize / 4 := by
  rcases h with rfl | rfl | rfl <;> simp [packNode]

theorem length_packTree (h : RecordSize recordSize) (nodes : List (Nat × Nat)) :
    (packTree recordSize nodes).length = nodes.length * (recordSize / 4) := by
  induction nodes with
  | nil => simp [packTree]
  | cons r nodes ih =>
    rw [packTree] at ih
    rw [packTree, List.flatMap_cons, List.length_append, ih, length_packNode h, List.length_cons]
    ring

theorem packNode_zero (h : RecordSize recordSize) :
    packNode recordSize (0, 0) = List.replicate (recordSize / 4) 0 := by
  rcases h with rfl | rfl | rfl <;> rfl

theorem readUIntBE_append (ho : offset = pre.length)
    (hn : n = mid.length) : readUIntBE (pre ++ (mid ++ post)) offset n = .ok (valueBE mid) := by
  subst ho hn
  rw [readUIntBE, if_pos (by simp), List.drop_left, List.take_left]

/-- A node stands where its number says; behind an empty table stand zeros. -/
theorem packTree_split (h : RecordSize recordSize) {nodes : List (Nat × Nat)}
    (data : List UInt8) (hn : n < nodes.length ∨ nodes = [] ∧ n = 0) :
    ∃ pre post, packTree recordSize nodes ++ (List.replicate 16 0 ++ data)
        = pre ++ (packNode recordSize (nodeRecords nodes n) ++ post)
      ∧ pre.length = n * (recordSize / 4) := by
  rcases hn with hn | ⟨rfl, rfl⟩
  · refine ⟨packTree recordSize (nodes.take n), packTree recordSize (nodes.drop (n + 1)) ++
      (List.replicate 16 0 ++ data), ?_, ?_⟩
    · have hsplit : nodes = nodes.take n ++ nodeRecords nodes n :: nodes.drop (n + 1) := by
        rw [nodeRecords, List.getElem?_eq_getElem hn, Option.getD_some,
          ← List.drop_eq_getElem_cons hn, List.take_append_drop]
      have hpack : packTree recordSize nodes = packTree recordSize (nodes.take n) ++
          (packNode recordSize (nodeRecords nodes n) ++
            packTree recordSize (nodes.drop (n + 1))) := by
        conv_lhs => rw [hsplit]
        simp only [packTree, List.flatMap_append, List.flatMap_cons]
      rw [hpack]
      simp only [List.append_assoc]
    · rw [length_packTree h, List.length_take, min_eq_left hn.le]
  · refine ⟨[], List.replicate (16 - recordSize / 4) 0 ++ data, ?_, by simp⟩
    have hle : recordSize / 4 ≤ 16 := by rcases h with rfl | rfl | rfl <;> decide
    rw [show nodeRecords [] 0 = (0, 0) from rfl, packNode_zero h]
    rw [← List.append_assoc (List.replicate _ _), List.replicate_append_replicate,
      Nat.add_sub_cancel' hle]
    rfl

theorem nibbles : ∀ hi < 16, ∀ lo < 16,
    (hi * 16 + lo) &&& 0x0f = lo ∧ (hi * 16 + lo) &&& 0xf0 = hi * 16 := by decide

/-- The byte in the middle of a node of 28 bits gives each record back. -/
theorem middle_byte {l r : Nat} (hl : l < 2 ^ 28) (hr : r < 2 ^ 28) :
    ((UInt8.ofNat (l / 2 ^ 24 * 16 + r / 2 ^ 24)).toNat &&& 0x0f) <<< 24 ||| r % 2 ^ 24 = r ∧
      ((UInt8.ofNat (l / 2 ^ 24 * 16 + r / 2 ^ 24)).toNat &&& 0xf0) <<< 20 ||| l % 2 ^ 24 = l := by
  have hhi : l / 2 ^ 24 < 16 := by omega
  have hlo : r / 2 ^ 24 < 16 := by omega
  obtain ⟨hlow, hhigh⟩ := nibbles _ hhi _ hlo
  have hbyte : (UInt8.ofNat (l / 2 ^ 24 * 16 + r / 2 ^ 24)).toNat
      = l / 2 ^ 24 * 16 + r / 2 ^ 24 := by
    rw [UInt8.toNat_ofNat']
    omega
  have hshift : (l / 2 ^ 24 * 16) <<< 20 = (l / 2 ^ 24) <<< 24 := by
    rw [Nat.shiftLeft_eq, Nat.shiftLeft_eq]
    ring
  have hl24 : l % 2 ^ 24 < 2 ^ 24 := Nat.mod_lt _ (by decide)
  have hr24 : r % 2 ^ 24 < 2 ^ 24 := Nat.mod_lt _ (by decide)
  rw [hbyte, hlow, hhigh, hshift, ← Nat.shiftLeft_add_eq_or_of_lt hr24,
    ← Nat.shiftLeft_add_eq_or_of_lt hl24, Nat.shiftLeft_eq, Nat.shiftLeft_eq]
  omega

theorem byteAt_append {b : UInt8} (ho : offset = pre.length + mid.length) :
    byteAt (pre ++ (mid ++ b :: post)) offset = b.toNat := by
  subst ho
  rw [byteAt, ← List.append_assoc, List.getElem?_append_right (by simp)]
  simp

theorem read_halves {r : Nat × Nat} {k : Nat} (hl : r.1 < 256 ^ k)
    (hr : r.2 < 256 ^ k) (right : Bool) :
    readUIntBE (pre ++ (bytesBE k r.1 ++ bytesBE k r.2 ++ post))
      (pre.length + if right then k else 0) k = .ok (if right then r.2 else r.1) := by
  rw [List.append_assoc]
  cases right with
  | true =>
    rw [← List.append_assoc pre]
    exact (readUIntBE_append (by simp) (by simp)).trans (congrArg _ (valueBE_bytesBE hr))
  | false =>
    exact (readUIntBE_append (by simp) (by simp)).trans (congrArg _ (valueBE_bytesBE hl))

theorem read_shared {r : Nat × Nat} (hl : r.1 < 2 ^ 28)
    (hr : r.2 < 2 ^ 28) {db : List UInt8} (hdb : db = pre ++ (packNode 28 r ++ post)) :
    (readUIntBE db (pre.length + 4) 3).map
        (fun low => (byteAt db (pre.length + 3) &&& 0x0f) <<< 24 ||| low) = .ok r.2 ∧
      (readUIntBE db pre.length 3).map
        (fun low => (byteAt db (pre.length + 3) &&& 0xf0) <<< 20 ||| low) = .ok r.1 := by
  obtain ⟨hright, hleft⟩ := middle_byte hl hr
  have hl24 : r.1 % 2 ^ 24 < 256 ^ 3 := Nat.mod_lt _ (by decide)
  have hr24 : r.2 % 2 ^ 24 < 256 ^ 3 := Nat.mod_lt _ (by decide)
  have hdb' : db = pre ++ (bytesBE 3 (r.1 % 2 ^ 24) ++
      UInt8.ofNat (r.1 / 2 ^ 24 * 16 + r.2 / 2 ^ 24) :: (bytesBE 3 (r.2 % 2 ^ 24) ++ post)) := by
    rw [hdb, packNode, if_neg (by decide), if_pos rfl, List.append_assoc, List.cons_append]
  have hmid : byteAt db (pre.length + 3)
      = (UInt8.ofNat (r.1 / 2 ^ 24 * 16 + r.2 / 2 ^ 24)).toNat := by
    rw [hdb']
    exact byteAt_append (by simp)
  have hlow : readUIntBE db pre.length 3 = .ok (r.1 % 2 ^ 24) := by
    rw [hdb', readUIntBE_append rfl (by simp), valueBE_bytesBE hl24]
  have hhigh : readUIntBE db (pre.length + 4) 3 = .ok (r.2 % 2 ^ 24) := by
    have hdb'' : db = (pre ++ (bytesBE 3 (r.1 % 2 ^ 24) ++
        [UInt8.ofNat (r.1 / 2 ^ 24 * 16 + r.2 / 2 ^ 24)])) ++
          (bytesBE 3 (r.2 % 2 ^ 24) ++ post) := by
      rw [hdb']
      simp
    rw [hdb'', readUIntBE_append (by simp) (by simp), valueBE_bytesBE hr24]
  rw [hlow, hhigh, hmid]
  exact ⟨congrArg Except.ok hright, congrArg Except.ok hleft⟩

/-- A packed node table is read back. -/
theorem read_packTree (h : RecordSize recordSize) {nodes : List (Nat × Nat)}
    (hfits : ∀ r ∈ nodes, r.1 < 2 ^ recordSize ∧ r.2 < 2 ^ recordSize) (data : List UInt8) :
    ∃ read, recordReader (packTree recordSize nodes ++ (List.replicate 16 0 ++ data)) recordSize
        = .ok read ∧
      ∀ n right, n < nodes.length ∨ nodes = [] ∧ n = 0 →
        read n right = .ok (childOf nodes n right) := by
  have hrecords : ∀ n, (nodeRecords nodes n).1 < 2 ^ recordSize ∧
      (nodeRecords nodes n).2 < 2 ^ recordSize := by
    intro n
    rw [nodeRecords]
    cases hn : nodes[n]? with
    | none => simp
    | some r => exact hfits r (List.mem_of_getElem? hn)
  rcases h with rfl | rfl | rfl
  · refine ⟨_, rfl, fun n right hn => ?_⟩
    obtain ⟨pre, post, hdb, hpre⟩ := packTree_split (.inl rfl) data hn
    obtain ⟨hl, hr⟩ := hrecords n
    rw [hdb, ← hpre]
    exact read_halves hl hr right
  · refine ⟨_, rfl, fun n right hn => ?_⟩
    obtain ⟨pre, post, hdb, hpre⟩ := packTree_split (.inr (.inl rfl)) data hn
    obtain ⟨hl, hr⟩ := hrecords n
    have hread := read_shared hl hr hdb
    rw [hpre] at hread
    cases right with
    | true => exact hread.1
    | false => exact hread.2
  · refine ⟨_, rfl, fun n right hn => ?_⟩
    obtain ⟨pre, post, hdb, hpre⟩ := packTree_split (.inr (.inr rfl)) data hn
    obtain ⟨hl, hr⟩ := hrecords n
    rw [hdb, ← hpre]
    exact read_halves hl hr right

end Iceslab
