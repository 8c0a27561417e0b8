import Iceslab.GeoCursor
import Iceslab.MmdbCountries

/-!
# A geo file that ends early

`geo-dat.ts`, `walk` and `parseGeoDat` on the first bytes of a file they accept.

* `Reader.extend`, `walkTurn_extend` — a turn of the walk does not see what follows its entry.
* `walkFrom_extend` — what is read of the first bytes is read of the whole file.
* `stop_mem_of_walk_take` — the first bytes are accepted only where an entry ends.
* `truncated_refused` — and with it, that no file whatsoever leads the reader out of it.
-/

set_option autoImplicit false

namespace Iceslab

open Checked

namespace Reader

/-- The reader with more bytes before its end. -/
def extend (r : Reader) (more : List UInt8) : Reader := ⟨r.pos, r.rest ++ more⟩

variable {r r' : Reader}

theorem varintFrom_extend {i result shift n : Nat} (h : varintFrom i result shift r = .ok (n, r'))
    (more : List UInt8) : varintFrom i result shift (r.extend more) = .ok (n, r'.extend more) := by
  induction i generalizing result shift r with
  | zero => cases h
  | succ i ih =>
    obtain ⟨pos, rest⟩ := r
    cases rest with
    | nil => cases h
    | cons b rest =>
      rw [varintFrom] at h
      dsimp only at h
      rw [extend, List.cons_append, varintFrom]
      dsimp only
      split at h
      · rename_i hlast
        cases h
        exact if_pos hlast
      · rename_i hlast
        rw [if_neg hlast]
        exact ih h

theorem key_extend {k : Key} (h : r.key = .ok (k, r')) (more : List UInt8) :
    (r.extend more).key = .ok (k, r'.extend more) := by
  obtain ⟨⟨n, mid⟩, hn, h⟩ := bind_eq_ok.mp h
  refine bind_eq_ok.mpr ⟨(n, mid.extend more), varintFrom_extend hn more, ?_⟩
  dsimp only at h ⊢
  split at h
  · cases h
  · rename_i hfield
    cases h
    exact if_neg hfield

theorem bytes_extend {v : Reader} (h : r.bytes = .ok (v, r')) (more : List UInt8) :
    (r.extend more).bytes = .ok (v, r'.extend more) := by
  obtain ⟨⟨len, mid⟩, hlen, h⟩ := bind_eq_ok.mp h
  refine bind_eq_ok.mpr ⟨(len, mid.extend more), varintFrom_extend hlen more, ?_⟩
  dsimp only at h ⊢
  split at h
  · cases h
  · rename_i hle
    rw [not_lt] at hle
    cases h
    have hle' : ¬ (mid.rest ++ more).length < len := by
      rw [List.length_append]
      omega
    rw [extend, if_neg hle', List.take_append_of_le_length hle, List.drop_append_of_le_length hle]
    rfl

end Reader

section Walk

variable {lib : CaseLib} {kind : GeoSetKind} {out out' raw : List RawEntry} {r r' : Reader}
  {buf : List UInt8}

/-- A turn reads one entry, up to where it leaves the reader, and does not see what follows. -/
structure EntryTurn (lib : CaseLib) (kind : GeoSetKind) (out : List RawEntry) (r : Reader)
    (out' : List RawEntry) (r' : Reader) : Prop where
  entry : ∃ e, out' = out ++ [e] ∧ e.stop = r'.pos
  stop : r'.stop = r.stop
  less : r'.rest.length < r.rest.length
  extend : ∀ more, walkTurn lib kind out (r.extend more) = .ok (out', r'.extend more)

theorem walkTurn_extend (h : walkTurn lib kind out r = .ok (out', r')) :
    EntryTurn lib kind out r out' r' := by
  unfold walkTurn at h
  obtain ⟨⟨k, r₁⟩, hk, h⟩ := bind_eq_ok.mp h
  dsimp only at h
  split at h
  · cases h
  · rename_i hnum
    obtain ⟨_, hwire, h⟩ := bind_eq_ok.mp h
    obtain ⟨⟨v, r₂⟩, hv, h⟩ := bind_eq_ok.mp h
    obtain ⟨e, he, h⟩ := bind_eq_ok.mp h
    split at h
    · cases h
    · rename_i hcode
      cases h
      obtain ⟨n, hn, hstop₁, -⟩ := Reader.key_ok.mp hk
      obtain ⟨hvalue, hstop₂, hpos⟩ := Reader.bytes_ok.mp hv
      have hlt := Wire.varint_lt hn
      have hle := Wire.value_le hvalue
      refine ⟨⟨e, rfl, ?_⟩, hstop₂.trans hstop₁, lt_of_le_of_lt hle hlt, fun more => ?_⟩
      · rw [(message_bounds (readEntry_iff.mp he)).2]
        exact hpos
      · unfold walkTurn
        refine bind_eq_ok.mpr ⟨_, Reader.key_extend hk more, ?_⟩
        dsimp only
        rw [if_neg hnum]
        refine bind_eq_ok.mpr ⟨_, hwire, bind_eq_ok.mpr ⟨_, Reader.bytes_extend hv more, ?_⟩⟩
        exact bind_eq_ok.mpr ⟨e, he, if_neg hcode⟩

/-- What is read of the first bytes is read of the whole file, which is then read on from there. -/
theorem walkFrom_extend {n m : Nat} (h : Reader.eachFrom (walkTurn lib kind) n out r = .ok out')
    (more : List UInt8) (hm : (r.extend more).rest.length ≤ m) :
    ∃ m', Reader.eachFrom (walkTurn lib kind) m out (r.extend more) =
        Reader.eachFrom (walkTurn lib kind) m' out' ⟨r.stop, more⟩ ∧
      (r.rest ≠ [] → r.stop ∈ out'.map RawEntry.stop) := by
  induction n generalizing out r m with
  | zero =>
    obtain ⟨pos, rest⟩ := r
    cases rest with
    | nil =>
      cases h
      exact ⟨m, rfl, fun hne => absurd rfl hne⟩
    | cons b rest => cases h
  | succ n ih =>
    by_cases hrest : r.rest = []
    · obtain ⟨pos, rest⟩ := r
      obtain rfl : rest = [] := hrest
      cases h
      exact ⟨m, rfl, fun hne => absurd rfl hne⟩
    · rw [Reader.eachFrom_cons hrest] at h
      obtain ⟨⟨out₁, r₁⟩, hturn, h⟩ := bind_eq_ok.mp h
      obtain ⟨⟨e, rfl, he⟩, hstop, hless, hextend⟩ := walkTurn_extend hturn
      have hne : (r.extend more).rest ≠ [] := by simp [Reader.extend, hrest]
      obtain ⟨m, rfl⟩ : ∃ k, m = k + 1 := by
        have := List.length_pos_of_ne_nil hne
        exact ⟨m - 1, by omega⟩
      have hm₁ : (r₁.extend more).rest.length ≤ m := by
        simp only [Reader.extend, List.length_append] at hm ⊢
        omega
      obtain ⟨m', hrun, hmem⟩ := ih h hm₁
      refine ⟨m', ?_, fun _ => ?_⟩
      · rw [Reader.eachFrom_cons hne, hextend more, ← hstop, ← hrun]
        rfl
      · by_cases hlast : r₁.rest = []
        · have hout : out' = out ++ [e] := by
            obtain ⟨pos, rest⟩ := r₁
            obtain rfl : rest = [] := hlast
            cases n <;> cases h <;> rfl
          have hend : e.stop = r.stop := by
            rw [he, ← hstop, Reader.stop, hlast]
            rfl
          rw [hout, ← hend]
          simp
        · rw [← hstop]
          exact hmem hlast

/-- The walk only adds entries. -/
theorem prefix_of_walkFrom {n : Nat} (h : Reader.eachFrom (walkTurn lib kind) n out r = .ok out') :
    out <+: out' := by
  induction n generalizing out r with
  | zero =>
    obtain ⟨pos, rest⟩ := r
    cases rest with
    | nil =>
      cases h
      exact List.prefix_rfl
    | cons b rest => cases h
  | succ n ih =>
    by_cases hrest : r.rest = []
    · obtain ⟨pos, rest⟩ := r
      obtain rfl : rest = [] := hrest
      cases h
      exact List.prefix_rfl
    · rw [Reader.eachFrom_cons hrest] at h
      obtain ⟨⟨out₁, r₁⟩, hturn, h⟩ := bind_eq_ok.mp h
      obtain ⟨⟨e, rfl, -⟩, -⟩ := walkTurn_extend hturn
      exact (List.prefix_append _ _).trans (ih h)

theorem walk_ok (h : walk lib buf kind = .ok raw) :
    Reader.eachFrom (walkTurn lib kind) buf.length [] ⟨0, buf⟩ = .ok raw ∧ buf ≠ [] := by
  unfold walk at h
  obtain ⟨out, hout, h⟩ := bind_eq_ok.mp h
  have hcreate : Reader.create buf 0 buf.length = ⟨0, buf⟩ := by
    unfold Reader.create
    rw [List.take_length, List.drop_zero]
  rw [Reader.each, hcreate] at hout
  split at h
  · cases h
  · rename_i hne
    cases h
    refine ⟨hout, fun hbuf => hne ?_⟩
    subst hbuf
    cases hout
    rfl

/-- The first bytes of a file are accepted only where an entry ends. -/
theorem stop_mem_of_walk_take {n : Nat} {raw' : List RawEntry}
    (h : walk lib buf kind = .ok raw) (hn : n ≤ buf.length)
    (htake : walk lib (buf.take n) kind = .ok raw') : n ∈ raw.map RawEntry.stop := by
  obtain ⟨hbuf, -⟩ := walk_ok h
  obtain ⟨hfirst, hne⟩ := walk_ok htake
  have hwhole : (⟨0, buf.take n⟩ : Reader).extend (buf.drop n) = ⟨0, buf⟩ := by
    rw [Reader.extend, List.take_append_drop]
  obtain ⟨m', hrun, hmem⟩ := walkFrom_extend hfirst (buf.drop n)
    (Nat.le_of_eq (congrArg (fun r => r.rest.length) hwhole))
  rw [hwhole, hbuf] at hrun
  have hend : (⟨0, buf.take n⟩ : Reader).stop = n := by
    simp [Reader.stop, hn]
  rw [hend] at hmem
  exact ((prefix_of_walkFrom hrun.symm).map _).subset (hmem hne)

/-- Where the entries of a file end. -/
def entryEnds (lib : CaseLib) (buf : List UInt8) (kind : GeoSetKind) : List Nat :=
  match walk lib buf kind with
  | .ok raw => raw.map RawEntry.stop
  | .error _ => []

theorem parseGeoDat_ok {index : GeoDatIndex}
    (h : parseGeoDat lib buf kind = .ok index) : ∃ raw, walk lib buf kind = .ok raw := by
  unfold parseGeoDat at h
  split at h
  · split at h <;> cases h
  · exact ⟨_, ‹_›⟩

end Walk

/-- **A file that ends early is refused** as the kind it was accepted as, unless it ends where an
entry does; and whatever the bytes are, the walk over them reads inside the buffer, ends as the walk
over the list does, and makes no more turns than there are bytes. -/
theorem truncated_refused (lib : CaseLib) :
    (∀ buf kind index, parseGeoDat lib buf kind = .ok index →
      ∀ n < buf.length, n ∉ entryEnds lib buf kind →
        ∃ e, parseGeoDat lib (buf.take n) kind = .error e) ∧
    ∀ buf kind, (Cursor.walk buf lib kind).result = (walk lib buf kind).mapError .refused ∧
      (∀ i, (Cursor.walk buf lib kind).result ≠ .error (.outside i)) ∧
      (Cursor.walk buf lib kind).result ≠ .error .unfinished ∧
      (Cursor.walk buf lib kind).turns ≤ buf.length := by
  constructor
  · intro buf kind index hindex n hn hend
    obtain ⟨raw, hraw⟩ := parseGeoDat_ok hindex
    cases htake : parseGeoDat lib (buf.take n) kind with
    | error e => exact ⟨e, rfl⟩
    | ok index' =>
      obtain ⟨raw', hraw'⟩ := parseGeoDat_ok htake
      refine absurd (stop_mem_of_walk_take hraw (Nat.le_of_lt hn) hraw') ?_
      rwa [entryEnds, hraw] at hend
  · intro buf kind
    have h := @Cursor.ends_walk buf lib kind
    generalize Cursor.walk buf lib kind = x at h ⊢
    generalize walk lib buf kind = y at h ⊢
    cases h with
    | ok paid => exact ⟨rfl, nofun, nofun, by simpa using paid⟩
    | refused paid => exact ⟨rfl, nofun, nofun, by simpa using paid⟩

/-- One entry, `DE`, with one network. -/
def oneEntryFile : List UInt8 := [10, 14, 10, 2, 68, 69, 18, 8, 10, 4, 10, 0, 0, 0, 16, 8]

theorem truncated_refused_one : ∃ index e, parseGeoDat asciiCases oneEntryFile .geoip = .ok index ∧
    parseGeoDat asciiCases (oneEntryFile.take 15) .geoip = .error e := by
  have hok : (parseGeoDat asciiCases oneEntryFile .geoip).toOption.isSome = true := by
    decide +kernel
  obtain ⟨index, hindex⟩ := exists_ok_of_isSome hok
  have hrefused := (truncated_refused asciiCases).1 _ _ _ hindex 15 (by decide) (by decide +kernel)
  obtain ⟨e, he⟩ := hrefused
  exact ⟨index, e, hindex, he⟩

end Iceslab
