import Iceslab.GeoDat

/-!
# The messages of a geo file

What the bytes of a geo file say under its schema: a message is a fold over its fields, the last
one of a number winning, a repeated one gathered.  The readers of `geo-dat.ts` read exactly that.

* `readDomain_iff`, `readCidr_iff`, `readEntry_iff` — a reader against the message of its bytes.
* `siteField`, `ipField` — a field of an entry.
-/

set_option autoImplicit false

namespace Iceslab

open Checked JsBytes JsText

/-- A message read field by field. -/
def messageOf {σ : Type} (field : σ → Wire.Field → Option σ) (s : σ) (bs : List UInt8) : Option σ :=
  (Wire.fields arith bs).bind fun fs => fs.foldlM field s

def textOf (v : Wire.Value) : Option String := (bytesOf v).bind utf8Decode

def attributeField (key : String) (f : Wire.Field) : Option String :=
  if f.num = 1 then textOf f.value else some key

/-- An attribute is its key. -/
def attributeOf (bs : List UInt8) : Option String :=
  (messageOf attributeField "" bs).bind fun key => if key = "" then none else some key

def domainField (d : GeoDomain) (f : Wire.Field) : Option GeoDomain :=
  if f.num = 1 then
    (wireNumber f.value).bind fun type => if 3 < type then none else some { d with type }
  else if f.num = 2 then (textOf f.value).map fun value => { d with value }
  else if f.num = 3 then
    ((bytesOf f.value).bind attributeOf).map fun key => { d with attrs := d.attrs ++ [key] }
  else some d

/-- A domain has a value. -/
def domainOf (bs : List UInt8) : Option GeoDomain :=
  (messageOf domainField ⟨0, "", []⟩ bs).bind fun d => if d.value = "" then none else some d

def cidrField (c : Option (List UInt8) × Nat) (f : Wire.Field) :
    Option (Option (List UInt8) × Nat) :=
  if f.num = 1 then
    (bytesOf f.value).bind fun ip =>
      if ip.length ≠ 4 ∧ ip.length ≠ 16 then none else some (some ip, c.2)
  else if f.num = 2 then (wireNumber f.value).map fun n => (c.1, n)
  else some c

/-- A network has an address, and a prefix no longer than it. -/
def geoCidrOf (bs : List UInt8) : Option GeoCidr :=
  (messageOf cidrField (none, 0) bs).bind fun c =>
    match c.1 with
    | none => none
    | some ip => if ip.length * 8 < c.2 then none else some ⟨ip, c.2⟩

/-- A field of a geosite entry. -/
def siteField (lib : CaseLib) (s : EntryRead) (f : Wire.Field) : Option EntryRead :=
  if f.num = 1 then
    (textOf f.value).map fun code => ⟨{ s.entry with code, codeFirst := s.first }, false⟩
  else if f.num = 2 then
    ((bytesOf f.value).bind domainOf).map fun d =>
      ⟨{ s.entry with
        attrs := noteAttrs lib s.entry.attrs d.attrs, entries := s.entry.entries + 1 }, false⟩
  else some ⟨s.entry, false⟩

/-- A field of a geoip entry. -/
def ipField (s : EntryRead) (f : Wire.Field) : Option EntryRead :=
  if f.num = 1 then
    (textOf f.value).map fun code => ⟨{ s.entry with code, codeFirst := s.first }, false⟩
  else if f.num = 2 then
    ((bytesOf f.value).bind geoCidrOf).map fun _ =>
      ⟨{ s.entry with entries := s.entry.entries + 1 }, false⟩
  else if f.num = 3 then (wireNumber f.value).map fun _ => ⟨s.entry, false⟩
  else some ⟨s.entry, false⟩

def entryField (lib : CaseLib) : GeoSetKind → EntryRead → Wire.Field → Option EntryRead
  | .geosite => siteField lib
  | .geoip => ipField

/-! ## The readers -/

section Turns

variable {σ α : Type} {s' : σ} {r r' : Reader} {k : Key} {what : String}

theorem pass_turn {s : σ} :
    (r.pass k.wire k.pos >>= fun r => .ok (s, r)) = (.ok (s', r') : GeoRead (σ × Reader)) ↔
      ∃ v, Wire.value arith k.wire r.rest = some (v, r'.rest) ∧ r'.stop = r.stop ∧
        some s = some s' := by
  rw [pass_branch]
  constructor
  · rintro ⟨v, r₁, hv, hstop, h⟩
    cases h
    exact ⟨v, hv, hstop, rfl⟩
  · rintro ⟨v, hv, hstop, h⟩
    cases h
    exact ⟨v, r', hv, hstop, rfl⟩

/-- A value is read as `read` reads it, and what is done with it is `o` of what was read. -/
theorem value_turn {β : Type} {x : GeoRead (σ × Reader)} {read : Wire.Value → Option β}
    {f : β → Reader → GeoRead (σ × Reader)} {o : β → Option σ}
    (hx : x = .ok (s', r') ↔ ∃ v b r₁, Wire.value arith k.wire r.rest = some (v, r₁.rest) ∧
      r₁.stop = r.stop ∧ read v = some b ∧ f b r₁ = .ok (s', r'))
    (hf : ∀ b r s' r', f b r = .ok (s', r') ↔ o b = some s' ∧ r' = r) :
    x = .ok (s', r') ↔ ∃ v, Wire.value arith k.wire r.rest = some (v, r'.rest) ∧
      r'.stop = r.stop ∧ (read v).bind o = some s' := by
  rw [hx]
  constructor
  · rintro ⟨v, b, r₁, hv, hstop, hb, h⟩
    obtain ⟨ho, rfl⟩ := (hf _ _ _ _).mp h
    exact ⟨v, hv, hstop, Option.bind_eq_some_iff.mpr ⟨b, hb, ho⟩⟩
  · rintro ⟨v, hv, hstop, h⟩
    obtain ⟨b, hb, ho⟩ := Option.bind_eq_some_iff.mp h
    exact ⟨v, b, r', hv, hstop, hb, (hf _ _ _ _).mpr ⟨ho, rfl⟩⟩

theorem bytes_turn {f : Reader → Reader → GeoRead (σ × Reader)} {o : List UInt8 → Option σ}
    (hf : ∀ v r s' r', f v r = .ok (s', r') ↔ o v.rest = some s' ∧ r' = r) :
    (expectWire what k 2 >>= fun _ => r.bytes >>= fun x => f x.1 x.2) = .ok (s', r') ↔
      ∃ v, Wire.value arith k.wire r.rest = some (v, r'.rest) ∧ r'.stop = r.stop ∧
        (bytesOf v).bind o = some s' := by
  rw [bytes_branch]
  constructor
  · rintro ⟨payload, v, r₁, hv, hstop, rfl, -, h⟩
    obtain ⟨ho, rfl⟩ := (hf _ _ _ _).mp h
    exact ⟨.bytes v.rest, hv, hstop, ho⟩
  · rintro ⟨v, hv, hstop, h⟩
    obtain ⟨payload, hp, ho⟩ := Option.bind_eq_some_iff.mp h
    cases v with
    | bytes p =>
      cases hp
      obtain ⟨v, rfl, hpos⟩ := exists_span hv hstop
      exact ⟨v.rest, v, r', hv, hstop, rfl, hpos, (hf _ _ _ _).mpr ⟨ho, rfl⟩⟩
    | varint n => cases hp
    | fixed p => cases hp

theorem read_turn {x : GeoRead α} {o : Option α} {g : α → σ} (h : ∀ a, x = .ok a ↔ o = some a) :
    (x >>= fun a => .ok (g a, r)) = (.ok (s', r') : GeoRead (σ × Reader)) ↔
      o.bind (some ∘ g) = some s' ∧ r' = r := by
  rw [bind_eq_ok, Option.bind_eq_some_iff]
  constructor
  · rintro ⟨a, ha, h'⟩
    cases h'
    exact ⟨⟨a, (h a).mp ha, rfl⟩, rfl⟩
  · rintro ⟨⟨a, ha, hg⟩, rfl⟩
    cases hg
    exact ⟨a, (h a).mpr ha, rfl⟩

theorem ok_turn {s : σ} :
    (.ok (s, r) : GeoRead (σ × Reader)) = .ok (s', r') ↔ some s = some s' ∧ r' = r := by
  simp only [Except.ok.injEq, Prod.mk.injEq, Option.some.injEq]
  exact and_congr Iff.rfl eq_comm

theorem guard_turn {p : Prop} [Decidable p] {e : GeoDatError} {s : σ} :
    (if p then .error e else .ok (s, r) : GeoRead (σ × Reader)) = .ok (s', r') ↔
      (if p then none else some s) = some s' ∧ r' = r := by
  split
  · simp
  · exact ok_turn

end Turns

theorem each_messageOf {σ : Type} {turn : σ → Reader → GeoRead (σ × Reader)}
    {field : σ → Wire.Field → Option σ} (h : TakesField turn field) {s s' : σ} {r : Reader} :
    r.each turn s = .ok s' ↔ messageOf field s r.rest = some s' := by
  rw [Reader.each_iff h, messageOf, Option.bind_eq_some_iff]

theorem takesField_attribute : TakesField attributeTurn attributeField := by
  refine takesField_of_key (fun _ _ => rfl) fun s k r s' r' => ?_
  unfold attributeField
  dsimp only
  split
  · rw [← bind_pure (r.text _)]
    refine (value_turn (text_branch (f := fun key r => .ok (key, r))) (o := some)
      fun _ _ _ _ => ok_turn).trans ?_
    simp only [textOf, Option.bind_fun_some]
  · exact pass_turn

theorem readAttribute_iff {r : Reader} {key : String} :
    readAttribute r = .ok key ↔ attributeOf r.rest = some key := by
  unfold readAttribute attributeOf
  rw [bind_eq_ok, Option.bind_eq_some_iff]
  refine exists_congr fun a => and_congr (each_messageOf takesField_attribute) ?_
  split <;> simp

theorem takesField_domain : TakesField domainTurn domainField := by
  refine takesField_of_key (fun _ _ => rfl) fun s k r s' r' => ?_
  unfold domainField
  simp only [Option.map_eq_bind, Option.bind_assoc]
  split
  · exact value_turn (varint_branch (f := fun type r =>
      if 3 < type then .error ⟨.domainType type, k.pos⟩ else .ok ({ s with type }, r)))
      fun _ _ _ _ => guard_turn
  · split
    · exact value_turn (text_branch (f := fun value r => .ok ({ s with value }, r)))
        fun _ _ _ _ => ok_turn
    · split
      · refine bytes_turn (f := fun v r => do
          let key ← readAttribute v
          .ok ({ s with attrs := s.attrs ++ [key] }, r)) ?_
        exact fun _ _ _ _ => read_turn fun _ => readAttribute_iff
      · exact pass_turn

theorem readDomain_iff {r : Reader} {d : GeoDomain} :
    readDomain r = .ok d ↔ domainOf r.rest = some d := by
  unfold readDomain domainOf
  rw [bind_eq_ok, Option.bind_eq_some_iff]
  refine exists_congr fun a => and_congr (each_messageOf takesField_domain) ?_
  split <;> simp

theorem takesField_cidr : TakesField cidrTurn cidrField := by
  refine takesField_of_key (fun _ _ => rfl) fun s k r s' r' => ?_
  unfold cidrField
  simp only [Option.map_eq_bind]
  split
  · refine bytes_turn (f := fun v r =>
      if v.rest.length ≠ 4 ∧ v.rest.length ≠ 16 then .error ⟨.addressLength v.rest.length, v.pos⟩
      else .ok ((some v.rest, s.2), r)) ?_
    exact fun _ _ _ _ => guard_turn
  · split
    · exact value_turn (varint_branch (f := fun n r => .ok ((s.1, n), r))) fun _ _ _ _ => ok_turn
    · exact pass_turn

theorem readCidr_iff {r : Reader} {c : GeoCidr} :
    readCidr r = .ok c ↔ geoCidrOf r.rest = some c := by
  unfold readCidr geoCidrOf
  rw [bind_eq_ok, Option.bind_eq_some_iff]
  refine exists_congr fun a => and_congr (each_messageOf takesField_cidr) ?_
  obtain ⟨ip, n⟩ := a
  cases ip with
  | none => simp
  | some ip =>
    dsimp only
    split <;> simp

theorem takesField_site (lib : CaseLib) : TakesField (siteTurn lib) (siteField lib) := by
  refine takesField_of_key (fun _ _ => rfl) fun s k r s' r' => ?_
  unfold siteField
  simp only [Option.map_eq_bind, Option.bind_assoc]
  split
  · exact value_turn (text_branch (f := fun code r =>
      .ok (EntryRead.mk { s.entry with code, codeFirst := s.first } false, r)))
      fun _ _ _ _ => ok_turn
  · split
    · refine bytes_turn (f := fun v r => do
        let d ← readDomain v
        .ok (EntryRead.mk { s.entry with
          attrs := noteAttrs lib s.entry.attrs d.attrs, entries := s.entry.entries + 1 } false,
          r)) ?_
      exact fun _ _ _ _ => read_turn fun _ => readDomain_iff
    · exact pass_turn

theorem takesField_ip : TakesField ipTurn ipField := by
  refine takesField_of_key (fun _ _ => rfl) fun s k r s' r' => ?_
  unfold ipField
  simp only [Option.map_eq_bind, Option.bind_assoc]
  split
  · exact value_turn (text_branch (f := fun code r =>
      .ok (EntryRead.mk { s.entry with code, codeFirst := s.first } false, r)))
      fun _ _ _ _ => ok_turn
  · split
    · refine bytes_turn (f := fun v r => do
        let _ ← readCidr v
        .ok (EntryRead.mk { s.entry with entries := s.entry.entries + 1 } false, r)) ?_
      exact fun _ _ _ _ => read_turn fun _ => readCidr_iff
    · split
      · exact value_turn (varint_branch (f := fun _ r => .ok (EntryRead.mk s.entry false, r)))
          fun _ _ _ _ => ok_turn
      · exact pass_turn

theorem takesField_entry (lib : CaseLib) (kind : GeoSetKind) :
    TakesField (entryTurn lib kind) (entryField lib kind) := by
  cases kind with
  | geosite => exact takesField_site lib
  | geoip => exact takesField_ip

/-- **An entry is read as the message of its bytes.** -/
theorem readEntry_iff {lib : CaseLib} {kind : GeoSetKind} {r : Reader} {e e' : RawEntry} :
    readEntry lib kind r e = .ok e' ↔
      (messageOf (entryField lib kind) ⟨e, true⟩ r.rest).map (·.entry) = some e' := by
  unfold readEntry
  rw [bind_eq_ok, Option.map_eq_some_iff]
  refine exists_congr fun s => and_congr (each_messageOf (takesField_entry lib kind)) ?_
  rw [Except.ok.injEq]

end Iceslab
