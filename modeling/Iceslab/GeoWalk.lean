import Iceslab.GeoMessages

/-!
# The walk over a geo file

The walk accepts a file whose fields are all entries of the kind, and remembers for each where its
bytes lie.

* `walk_entries` — every entry of an accepted file, against the message of its bytes.
* `walk_of_fields` — a file whose fields are all entries is accepted.
-/

set_option autoImplicit false

namespace Iceslab

open Checked JsBytes JsText

/-- The bytes of a file between two offsets. -/
def slice (buf : List UInt8) (start stop : Nat) : List UInt8 := (buf.take stop).drop start

@[simp] theorem over_rest (buf : List UInt8) (start stop : Nat) :
    (Reader.create buf start stop).rest = slice buf start stop := rfl

section Walk

variable {lib : CaseLib} {kind : GeoSetKind} {buf : List UInt8} {out out' : List RawEntry}

/-- An entry about to be read. -/
def blankEntry (start stop : Nat) : RawEntry := ⟨"", false, start, stop, 0, []⟩

/-- The entry a field of the file holds, and where the walk has found it. -/
structure EntryAt (lib : CaseLib) (kind : GeoSetKind) (buf : List UInt8) (f : Wire.Field)
    (e : RawEntry) : Prop where
  num : f.num = 1
  value : f.value = .bytes (slice buf e.start e.stop)
  message : (messageOf (entryField lib kind) ⟨blankEntry e.start e.stop, true⟩
    (slice buf e.start e.stop)).map (·.entry) = some e
  code : e.code ≠ ""

/-- A reader inside a file, to its end. -/
structure Reader.At (buf : List UInt8) (r : Reader) : Prop where
  rest : r.rest <:+ buf
  stop : r.stop = buf.length

theorem slice_of_suffix {payload rest : List UInt8} {start stop : Nat}
    (h : payload ++ rest <:+ buf) (hstart : start + payload.length = stop)
    (hstop : stop + rest.length = buf.length) : slice buf start stop = payload := by
  obtain ⟨before, rfl⟩ := h
  simp only [List.length_append] at hstop
  have hlen : start = before.length := by omega
  unfold slice
  rw [← List.append_assoc, ← hstart, hlen, ← List.length_append, List.take_left, List.drop_left]

theorem entryField_bounds {s s' : EntryRead} {f : Wire.Field}
    (h : entryField lib kind s f = some s') :
    s'.entry.start = s.entry.start ∧ s'.entry.stop = s.entry.stop := by
  cases kind with
  | geosite =>
    have h : siteField lib s f = some s' := h
    unfold siteField at h
    split at h
    · obtain ⟨_, -, rfl⟩ := Option.map_eq_some_iff.mp h
      exact ⟨rfl, rfl⟩
    · split at h
      · obtain ⟨_, -, rfl⟩ := Option.map_eq_some_iff.mp h
        exact ⟨rfl, rfl⟩
      · cases h
        exact ⟨rfl, rfl⟩
  | geoip =>
    have h : ipField s f = some s' := h
    unfold ipField at h
    split at h
    · obtain ⟨_, -, rfl⟩ := Option.map_eq_some_iff.mp h
      exact ⟨rfl, rfl⟩
    · split at h
      · obtain ⟨_, -, rfl⟩ := Option.map_eq_some_iff.mp h
        exact ⟨rfl, rfl⟩
      · split at h
        · obtain ⟨_, -, rfl⟩ := Option.map_eq_some_iff.mp h
          exact ⟨rfl, rfl⟩
        · cases h
          exact ⟨rfl, rfl⟩

theorem foldlM_bounds {s s' : EntryRead} {fs : List Wire.Field}
    (h : fs.foldlM (entryField lib kind) s = some s') :
    s'.entry.start = s.entry.start ∧ s'.entry.stop = s.entry.stop := by
  induction fs generalizing s with
  | nil =>
    cases h
    exact ⟨rfl, rfl⟩
  | cons f fs ih =>
    rw [List.foldlM_cons] at h
    obtain ⟨s₁, hf, h⟩ := Option.bind_eq_some_iff.mp h
    obtain ⟨hstart, hstop⟩ := ih h
    obtain ⟨hstart₁, hstop₁⟩ := entryField_bounds hf
    exact ⟨hstart.trans hstart₁, hstop.trans hstop₁⟩

theorem message_bounds {start stop : Nat} {bs : List UInt8} {e : RawEntry}
    (h : (messageOf (entryField lib kind) ⟨blankEntry start stop, true⟩ bs).map (·.entry) = some e) :
    e.start = start ∧ e.stop = stop := by
  obtain ⟨s, hs, rfl⟩ := Option.map_eq_some_iff.mp h
  obtain ⟨fs, -, hs⟩ := Option.bind_eq_some_iff.mp hs
  exact foldlM_bounds hs

theorem entryAt_of_turn {r r' : Reader} (hr : r.At buf)
    (h : walkTurn lib kind out r = .ok (out', r')) :
    ∃ f e, Wire.nextField arith r.rest = some (f, r'.rest) ∧ r'.At buf ∧ out' = out ++ [e] ∧
      EntryAt lib kind buf f e := by
  unfold walkTurn at h
  obtain ⟨⟨k, r₁⟩, hk, h⟩ := bind_eq_ok.mp h
  dsimp only at h
  split at h
  · cases h
  · rename_i hnum
    obtain ⟨payload, v, r₂, hv, hstop, hpayload, hpos, h⟩ := (bytes_branch (f := fun v r => do
      let e ← readEntry lib kind v ⟨"", false, v.pos, v.stop, 0, []⟩
      if e.code = "" then .error ⟨.noCode, v.pos⟩ else .ok (out ++ [e], r))).mp h
    obtain ⟨e, he, h⟩ := bind_eq_ok.mp h
    split at h
    · cases h
    · rename_i hcode
      cases h
      have hfield := Reader.key_nextField hk hv
      obtain ⟨n, hn, hstop₁, -, -⟩ := Reader.key_ok.mp hk
      have hv₂ := hv
      rw [wire_of_bytes hv] at hv₂
      obtain ⟨p, hp, hlen⟩ := Wire.value_two.mp hv₂
      cases hp
      have hsuffix := ((Wire.varint_suffix hlen).trans (Wire.varint_suffix hn)).trans hr.rest
      have hend : r'.stop = buf.length := (hstop.trans hstop₁).trans hr.stop
      have hmessage := readEntry_iff.mp he
      obtain ⟨hs, he'⟩ := message_bounds hmessage
      have hslice : slice buf v.pos v.stop = payload := by
        rw [← hpayload] at hsuffix ⊢
        refine slice_of_suffix hsuffix rfl ?_
        rw [hpos]
        exact hend
      rw [← hs, ← he'] at hslice
      refine ⟨_, e, hfield, ⟨(List.suffix_append _ _).trans hsuffix, hend⟩, rfl, ?_⟩
      refine ⟨not_not.mp hnum, ?_, ?_, hcode⟩
      · rw [hslice]
      · rw [hslice, ← hpayload, hs, he']
        exact hmessage

theorem walkFrom_entries {n : Nat} {r : Reader} (hr : r.At buf)
    (h : Reader.eachFrom (walkTurn lib kind) n out r = .ok out') :
    ∃ fs es, Wire.fieldsFrom arith n r.rest = some fs ∧ out' = out ++ es ∧
      List.Forall₂ (EntryAt lib kind buf) fs es := by
  induction n generalizing out r with
  | zero =>
    obtain ⟨pos, rest⟩ := r
    cases rest with
    | nil =>
      cases h
      exact ⟨[], [], rfl, (List.append_nil _).symm, .nil⟩
    | cons b rest => cases h
  | succ n ih =>
    obtain ⟨pos, rest⟩ := r
    cases rest with
    | nil =>
      cases h
      exact ⟨[], [], rfl, (List.append_nil _).symm, .nil⟩
    | cons b rest =>
      rw [Reader.eachFrom] at h
      · obtain ⟨⟨out₁, r₁⟩, hturn, h⟩ := bind_eq_ok.mp h
        obtain ⟨f, e, hf, hr₁, rfl, he⟩ := entryAt_of_turn hr hturn
        obtain ⟨fs, es, hfs, rfl, hes⟩ := ih hr₁ h
        refine ⟨f :: fs, e :: es, ?_, ?_, .cons he hes⟩
        · rw [Wire.fieldsFrom, hf, Option.bind_some, hfs]
          rfl
        · rw [List.append_assoc, List.singleton_append]
      · intro _ hnil
        cases hnil

theorem over_whole (buf : List UInt8) :
    (Reader.create buf 0 buf.length).rest = buf ∧ (Reader.create buf 0 buf.length).At buf := by
  have hrest : (Reader.create buf 0 buf.length).rest = buf := by
    rw [over_rest, slice, List.take_length, List.drop_zero]
  refine ⟨hrest, hrest.symm ▸ List.suffix_rfl, ?_⟩
  · unfold Reader.stop
    rw [hrest]
    exact Nat.zero_add _

theorem each_entries (h : (Reader.create buf 0 buf.length).each (walkTurn lib kind) [] = .ok out) :
    ∃ fs, Wire.fields arith buf = some fs ∧ List.Forall₂ (EntryAt lib kind buf) fs out := by
  obtain ⟨hrest, hat⟩ := over_whole buf
  obtain ⟨fs, es, hfs, rfl, hes⟩ := walkFrom_entries hat h
  rw [hrest] at hfs
  exact ⟨fs, hfs, hes⟩

/-- **The entries of an accepted file.** -/
theorem walk_entries {raw : List RawEntry} (h : walk lib buf kind = .ok raw) :
    ∃ fs, Wire.fields arith buf = some fs ∧ List.Forall₂ (EntryAt lib kind buf) fs raw := by
  unfold walk at h
  obtain ⟨out, hout, h⟩ := bind_eq_ok.mp h
  split at h
  · cases h
  · cases h
    exact each_entries hout

/-- A field that holds an entry with a code, wherever it lies. -/
def Readable (lib : CaseLib) (kind : GeoSetKind) (f : Wire.Field) : Prop :=
  f.num = 1 ∧ ∃ payload, f.value = .bytes payload ∧ ∀ start stop, ∃ e,
    (messageOf (entryField lib kind) ⟨blankEntry start stop, true⟩ payload).map (·.entry) = some e ∧
      e.code ≠ ""

theorem turn_of_readable (out : List RawEntry) {r : Reader} {f : Wire.Field} {rest : List UInt8}
    (hf : Readable lib kind f) (h : Wire.nextField arith r.rest = some (f, rest)) :
    ∃ out' r', walkTurn lib kind out r = .ok (out', r') ∧ r'.rest = rest := by
  obtain ⟨hnum, payload, hvalue, hread⟩ := hf
  obtain ⟨k, r₁, hk, -, hfield, hv⟩ := Reader.exists_key h
  rw [hvalue] at hv
  have hstop : (⟨r₁.stop - rest.length, rest⟩ : Reader).stop = r₁.stop := by
    have hle := Wire.value_le hv
    simp only [Reader.stop]
    omega
  obtain ⟨v, hpayload, hpos⟩ := exists_span hv hstop
  obtain ⟨e, he, hcode⟩ := hread v.pos v.stop
  refine ⟨out ++ [e], ⟨r₁.stop - rest.length, rest⟩, ?_, rfl⟩
  unfold walkTurn
  refine bind_eq_ok.mpr ⟨(k, r₁), hk, ?_⟩
  dsimp only
  rw [if_neg (not_not.mpr (hfield.trans hnum))]
  refine (bytes_branch (f := fun v r => do
    let e ← readEntry lib kind v ⟨"", false, v.pos, v.stop, 0, []⟩
    if e.code = "" then .error ⟨.noCode, v.pos⟩ else .ok (out ++ [e], r))).mpr ?_
  refine ⟨payload, v, _, hv, hstop, hpayload, hpos, bind_eq_ok.mpr ⟨e, ?_, if_neg hcode⟩⟩
  rw [readEntry_iff, hpayload]
  exact he

/-- **A file whose fields all hold entries is accepted.** -/
theorem walk_of_fields {fs : List Wire.Field} (hne : fs ≠ [])
    (hfs : Wire.fields arith buf = some fs) (h : ∀ f ∈ fs, Readable lib kind f) :
    ∃ raw, walk lib buf kind = .ok raw := by
  have hfrom := hfs
  rw [← (over_whole buf).1] at hfrom
  obtain ⟨out, hout, -⟩ := eachFrom_of_invariant (fun _ fs => ∀ f ∈ fs, Readable lib kind f)
    (fun s r f fs rest hall hnext => by
      obtain ⟨out', r', hturn, hr'⟩ := turn_of_readable s (hall f List.mem_cons_self) hnext
      exact ⟨out', r', hturn, hr', fun g hg => hall g (List.mem_cons_of_mem f hg)⟩)
    (s := ([] : List RawEntry)) h hfrom
  refine ⟨out, bind_eq_ok.mpr ⟨out, hout, if_neg fun hout' => hne ?_⟩⟩
  obtain ⟨fs', hfs', hes⟩ := each_entries hout
  rw [hfs] at hfs'
  cases hfs'
  rw [hout'] at hes
  exact List.forall₂_nil_right_iff.mp hes

end Walk

end Iceslab
