import Iceslab.GeoWalk

/-!
# Writing a geo file

`geo-formats.ts`: the lists other formats are turned into.  A field is written as `Wire` writes one.

* `encodeGeoSiteList`, `encodeGeoIPList` — a list of entries as its bytes.
* `domainOf_domainBytes`, `geoCidrOf_cidrBytes` — a message is read back.
* `walk_encoded` — the walk accepts what is written, and finds every entry where it lies.
-/

set_option autoImplicit false

namespace Iceslab

open Checked JsBytes JsText

/-! ## The encoders -/

inductive DomainType where
  | plain
  | regex
  | domain
  | full
  deriving DecidableEq, Repr

/-- `DOMAIN_TYPE` -/
def DomainType.number : DomainType → Nat
  | .plain => 0
  | .regex => 1
  | .domain => 2
  | .full => 3

structure GeoSiteDomain where
  type : DomainType
  value : String
  deriving DecidableEq, Repr

structure GeoSiteEntry where
  code : String
  domains : List GeoSiteDomain
  deriving DecidableEq, Repr

structure GeoIPEntry where
  code : String
  cidrs : List GeoCidr
  deriving DecidableEq

def domainBytes (d : GeoSiteDomain) : List UInt8 :=
  [0x08, UInt8.ofNat d.type.number] ++ Wire.bytesField 2 (utf8Encode d.value)

def cidrBytes (c : GeoCidr) : List UInt8 :=
  Wire.bytesField 1 c.ip ++ ([0x10] ++ Wire.encodeVarint c.prefixLen)

/-- An entry: its code, and its messages. -/
def entryBytes (code : String) (items : List (List UInt8)) : List UInt8 :=
  Wire.bytesField 1 (utf8Encode code) ++ (items.map (Wire.bytesField 2)).flatten

/-- The entries of a list, each under its code. -/
def encodeEntries (entries : List (String × List (List UInt8))) : List UInt8 :=
  (entries.map fun e => Wire.bytesField 1 (entryBytes e.1 e.2)).flatten

def encodeGeoSiteList (entries : List GeoSiteEntry) : List UInt8 :=
  encodeEntries (entries.map fun e => (e.code, e.domains.map domainBytes))

def encodeGeoIPList (entries : List GeoIPEntry) : List UInt8 :=
  encodeEntries (entries.map fun e => (e.code, e.cidrs.map cidrBytes))

/-! ## Messages read back -/

/-- Bytes a number counts exactly. -/
def Fits (bs : List UInt8) : Prop := bs.length < 2 ^ 53

instance (bs : List UInt8) : Decidable (Fits bs) := inferInstanceAs (Decidable (_ < _))

variable {code : String} {num : Nat}

theorem nextField_fits {payload : List UInt8} (hnum : 0 < num) (hsmall : num < 16)
    (h : Fits payload) (rest : List UInt8) :
    Wire.nextField arith (Wire.bytesField num payload ++ rest) = some (⟨num, .bytes payload⟩, rest) := by
  have hlim : arith.limit = 2 ^ 53 := rfl
  unfold Fits at h
  refine Wire.nextField_bytesField hnum ?_ ?_ ?_ ?_
  · rw [hlim]
    omega
  · omega
  · rw [hlim]
    exact h
  · exact h.trans (by decide)

theorem Fits.of_bytesField {payload : List UInt8}
    (h : Fits (Wire.bytesField num payload)) : Fits payload :=
  (Wire.length_lt_bytesField num payload).trans h

theorem Fits.append {a b : List UInt8} (h : Fits (a ++ b)) : Fits a ∧ Fits b := by
  unfold Fits at *
  rw [List.length_append] at h
  omega

theorem Fits.of_flatten {parts : List (List UInt8)} (h : Fits parts.flatten) :
    ∀ p ∈ parts, Fits p := by
  intro p hp
  unfold Fits at *
  exact Nat.lt_of_le_of_lt (List.Sublist.length_le (List.sublist_flatten_of_mem hp)) h

theorem domainBytes_eq (d : GeoSiteDomain) :
    domainBytes d = Wire.varintField 1 d.type.number ++ Wire.bytesField 2 (utf8Encode d.value) := by
  obtain ⟨type, value⟩ := d
  cases type <;> rfl

/-- A domain is read back, but for a byte order mark in front of its value. -/
theorem domainOf_domainBytes {d : GeoSiteDomain} (h : Fits (domainBytes d))
    (hvalue : dropBOM d.value ≠ "") :
    domainOf (domainBytes d) = some ⟨d.type.number, dropBOM d.value, []⟩ := by
  have htype : d.type.number ≤ 3 := by
    cases d.type <;> decide
  have hfits : Fits (utf8Encode d.value) := (Fits.append h).2.of_bytesField
  have hfields : Wire.fields arith (domainBytes d) =
      some [⟨1, .varint d.type.number⟩, ⟨2, .bytes (utf8Encode d.value)⟩] := by
    rw [domainBytes_eq]
    refine (Wire.fields_of_nextField (Wire.nextField_varintField (by decide) (by decide)
      (by decide) ?_ ?_)).trans ?_
    · exact Nat.lt_of_le_of_lt htype (by decide)
    · exact Nat.lt_of_le_of_lt htype (by decide)
    · have hlast : Wire.nextField arith (Wire.bytesField 2 (utf8Encode d.value) ++ []) = _ :=
        nextField_fits (by decide) (by decide) hfits []
      rw [List.append_nil] at hlast
      rw [Wire.fields_of_nextField hlast, Wire.fields_nil]
      rfl
  have htext : textOf (.bytes (utf8Encode d.value)) = some (dropBOM d.value) :=
    utf8Decode_utf8Encode d.value
  unfold domainOf messageOf
  rw [hfields, Option.bind_some]
  simp [domainField, wireNumber, htext, Nat.not_lt.mpr htype, hvalue]

theorem geoCidrOf_cidrBytes {c : GeoCidr} (hip : c.ip.length = 4 ∨ c.ip.length = 16)
    (hbits : c.prefixLen ≤ 8 * c.ip.length) : geoCidrOf (cidrBytes c) = some c := by
  have hfits : Fits c.ip := by
    unfold Fits
    omega
  have hlim : arith.limit = 2 ^ 53 := rfl
  have hsmall : c.prefixLen < 2 ^ 53 := by omega
  have hbytes : cidrBytes c = Wire.bytesField 1 c.ip ++ (Wire.varintField 2 c.prefixLen ++ []) := by
    rw [List.append_nil]
    rfl
  have hfields : Wire.fields arith (cidrBytes c) =
      some [⟨1, .bytes c.ip⟩, ⟨2, .varint c.prefixLen⟩] := by
    rw [hbytes, Wire.fields_of_nextField (nextField_fits (by decide) (by decide) hfits _)]
    have hlast : Wire.nextField arith (Wire.varintField 2 c.prefixLen ++ []) = _ :=
      Wire.nextField_varintField (by decide) (by decide) (by decide) (by rw [hlim]; exact hsmall)
        (hsmall.trans (by decide))
    rw [Wire.fields_of_nextField hlast, Wire.fields_nil]
    rfl
  unfold geoCidrOf messageOf
  rw [hfields, Option.bind_some]
  have hlen : ¬(c.ip.length ≠ 4 ∧ c.ip.length ≠ 16) := by omega
  have hle : ¬c.ip.length * 8 < c.prefixLen := by omega
  simp [cidrField, bytesOf, wireNumber, hlen, hle]

/-! ## Entries read back -/

variable {items : List (List UInt8)}

section Entries

variable {lib : CaseLib} {kind : GeoSetKind}

/-- A message the reader of a kind takes, with no attribute. -/
def ItemReads : GeoSetKind → List UInt8 → Prop
  | .geosite, item => ∃ d, domainOf item = some d ∧ d.attrs = []
  | .geoip, item => ∃ c, geoCidrOf item = some c

theorem fields_items (h : ∀ i ∈ items, Fits i) (hnum : 0 < num) (hsmall : num < 16) :
    Wire.fields arith (items.map (Wire.bytesField num)).flatten =
      some (items.map fun i => ⟨num, .bytes i⟩) := by
  let parts : List (List UInt8 × Wire.Field) :=
    items.map fun i => (Wire.bytesField num i, ⟨num, .bytes i⟩)
  have hparts : Wire.fields arith (parts.map (·.1)).flatten = some (parts.map (·.2)) := by
    refine Wire.fields_flatten fun p hp rest => ?_
    obtain ⟨i, hi, rfl⟩ := List.mem_map.mp hp
    exact nextField_fits hnum hsmall (h i hi) rest
  simpa [parts, List.map_map, Function.comp_def] using hparts

theorem entryField_item {s : EntryRead} {item : List UInt8} (h : ItemReads kind item) :
    entryField lib kind s ⟨2, .bytes item⟩ =
      some ⟨{ s.entry with entries := s.entry.entries + 1 }, false⟩ := by
  cases kind with
  | geosite =>
    obtain ⟨d, hd, hattrs⟩ := h
    simp [entryField, siteField, bytesOf, hd, hattrs, noteAttrs]
  | geoip =>
    obtain ⟨c, hc⟩ := h
    simp [entryField, ipField, bytesOf, hc]

theorem foldlM_items (h : ∀ i ∈ items, ItemReads kind i) (entry : RawEntry) :
    ((items.map fun i => (⟨2, .bytes i⟩ : Wire.Field)).foldlM (entryField lib kind)
      ⟨entry, false⟩) = some ⟨{ entry with entries := entry.entries + items.length }, false⟩ := by
  induction items generalizing entry with
  | nil => rfl
  | cons i items ih =>
    have hi : entryField lib kind ⟨entry, false⟩ ⟨2, .bytes i⟩ = _ :=
      entryField_item (h i List.mem_cons_self)
    rw [List.map_cons, List.foldlM_cons, hi]
    refine (ih (fun j hj => h j (List.mem_cons_of_mem i hj)) _).trans ?_
    simp only [List.length_cons, Nat.add_assoc, Nat.add_comm 1]

theorem fields_entryBytes
    (hfits : Fits (entryBytes code items)) : Wire.fields arith (entryBytes code items) =
      some (⟨1, .bytes (utf8Encode code)⟩ :: items.map fun i => ⟨2, .bytes i⟩) := by
  obtain ⟨hfirst, hrest⟩ := hfits.append
  have hall : ∀ i ∈ items, Fits i := fun i hi =>
    (hrest.of_flatten _ (List.mem_map_of_mem hi)).of_bytesField
  unfold entryBytes
  rw [Wire.fields_of_nextField (nextField_fits (by decide) (by decide) hfirst.of_bytesField _),
    fields_items hall (by decide) (by decide)]
  rfl

/-- An entry is read with its code first and its messages counted. -/
theorem message_entryBytes {start stop : Nat}
    (hfits : Fits (entryBytes code items)) (hcode : ¬BeginsWithBOM code)
    (hitems : ∀ i ∈ items, ItemReads kind i) :
    (messageOf (entryField lib kind) ⟨blankEntry start stop, true⟩ (entryBytes code items)).map
      (·.entry) = some ⟨code, true, start, stop, items.length, []⟩ := by
  have htext : textOf (.bytes (utf8Encode code)) = some code := by
    have hdecode := utf8Decode_utf8Encode code
    rw [dropBOM_of_not hcode] at hdecode
    exact hdecode
  have hone : entryField lib kind ⟨blankEntry start stop, true⟩ ⟨1, .bytes (utf8Encode code)⟩ =
      some ⟨⟨code, true, start, stop, 0, []⟩, false⟩ := by
    cases kind <;> simp [entryField, siteField, ipField, htext, blankEntry]
  unfold messageOf
  rw [fields_entryBytes hfits, Option.bind_some, List.foldlM_cons, hone]
  refine (congrArg (Option.map _) (foldlM_items hitems _)).trans ?_
  simp

end Entries

/-! ## The list read back -/

section Walk

variable {lib : CaseLib} {kind : GeoSetKind} {entries : List (String × List (List UInt8))}

/-- An entry the walk takes: a code that is a text, and messages of the kind. -/
structure EntryReads (kind : GeoSetKind) (e : String × List (List UInt8)) : Prop where
  code : e.1 ≠ ""
  noBOM : ¬BeginsWithBOM e.1
  items : ∀ i ∈ e.2, ItemReads kind i

/-- What the walk remembers of a written entry, and the bytes it has found it at. -/
def FoundAt (buf : List UInt8) (e : String × List (List UInt8)) (raw : RawEntry) : Prop :=
  raw = ⟨e.1, true, raw.start, raw.stop, e.2.length, []⟩ ∧
    slice buf raw.start raw.stop = entryBytes e.1 e.2

theorem fits_entry
    (h : Fits (encodeEntries entries)) {e : String × List (List UInt8)} (he : e ∈ entries) :
    Fits (entryBytes e.1 e.2) := (h.of_flatten _ (List.mem_map_of_mem he)).of_bytesField

theorem fits_item (h : Fits (entryBytes code items)) {i : List UInt8} (hi : i ∈ items) : Fits i :=
  (h.append.2.of_flatten _ (List.mem_map_of_mem hi)).of_bytesField

/-- **What is written is walked**, entry by entry. -/
theorem walk_encoded (hne : entries ≠ [])
    (hfits : Fits (encodeEntries entries)) (h : ∀ e ∈ entries, EntryReads kind e) :
    ∃ raw, walk lib (encodeEntries entries) kind = .ok raw ∧
      List.Forall₂ (FoundAt (encodeEntries entries)) entries raw := by
  have hbytes : encodeEntries entries =
      ((entries.map fun e => entryBytes e.1 e.2).map (Wire.bytesField 1)).flatten := by
    rw [List.map_map]
    rfl
  have hall : ∀ e ∈ entries, Fits (entryBytes e.1 e.2) := fun e he => fits_entry hfits he
  have hfields : Wire.fields arith (encodeEntries entries) =
      some (entries.map fun e => ⟨1, .bytes (entryBytes e.1 e.2)⟩) := by
    rw [hbytes, fields_items ?_ (by decide) (by decide), List.map_map]
    · rfl
    · intro i hi
      obtain ⟨e, he, rfl⟩ := List.mem_map.mp hi
      exact hall e he
  have hread : ∀ e ∈ entries, ∀ start stop,
      (messageOf (entryField lib kind) ⟨blankEntry start stop, true⟩ (entryBytes e.1 e.2)).map
        (·.entry) = some ⟨e.1, true, start, stop, e.2.length, []⟩ := fun e he start stop =>
    message_entryBytes (hall e he) (h e he).noBOM (h e he).items
  have hwalk : ∃ raw, walk lib (encodeEntries entries) kind = .ok raw := by
    refine walk_of_fields (by simpa using hne) hfields fun f hf => ?_
    obtain ⟨e, he, rfl⟩ := List.mem_map.mp hf
    exact ⟨rfl, _, rfl, fun start stop => ⟨_, hread e he start stop, (h e he).code⟩⟩
  obtain ⟨raw, hraw⟩ := hwalk
  refine ⟨raw, hraw, ?_⟩
  obtain ⟨fs, hfs, hes⟩ := walk_entries hraw
  rw [hfields] at hfs
  injection hfs with hfs
  subst hfs
  rw [List.forall₂_map_left_iff] at hes
  refine List.Forall₂.imp ?_ ((List.forall₂_and_left entries raw).mpr ⟨fun e he => he, hes⟩)
  rintro e r ⟨he, hat⟩
  have hslice : slice (encodeEntries entries) r.start r.stop = entryBytes e.1 e.2 := by
    have hvalue := hat.value
    injection hvalue with hvalue
    exact hvalue.symm
  have hmessage := hat.message
  rw [hslice, hread e he] at hmessage
  exact ⟨(Option.some.inj hmessage).symm, hslice⟩

end Walk

end Iceslab
