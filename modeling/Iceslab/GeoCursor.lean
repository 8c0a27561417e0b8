import Iceslab.GeoWalk

/-!
# The reader of a geo file by its indexes

`geo-dat.ts`, `Reader`: the buffer is read by index, and nothing but the reader's own bounds keeps an
index inside it.  The readers of `GeoDat` walk a list and cannot leave it; here they are written once
more over the buffer, where a read outside it and a loop that goes on are outcomes of their own, and
every turn of a loop is counted.

* `Run` — a program of the reader: what it ends with, and the turns its loops have made.
* `Cursor.walk` — the walk over indexes.
* `Follows` — a program on indexes does what the one on lists does, inside the bounds, with no more
  turns than bytes.
* `walk_follows` — so does the walk.
-/

set_option autoImplicit false

namespace Iceslab

open Checked JsBytes JsText

/-- How a program on indexes ends, other than with a value. -/
inductive GeoFault where
  /-- a read outside the buffer -/
  | outside (index : Nat)
  /-- a loop that has not ended -/
  | unfinished
  | refused (e : GeoDatError)
  deriving DecidableEq, Repr

structure Run (α : Type) where
  result : Except GeoFault α
  turns : Nat

instance : Monad Run where
  pure a := ⟨.ok a, 0⟩
  bind x f :=
    match x.result with
    | .error e => ⟨.error e, x.turns⟩
    | .ok a => ⟨(f a).result, x.turns + (f a).turns⟩

namespace Run

section Laws

variable {α β γ : Type}

theorem id_map (x : Run α) : id <$> x = x := by
  obtain ⟨result, turns⟩ := x
  cases result <;> rfl

theorem pure_bind (a : α) (f : α → Run β) : pure a >>= f = f a := by
  change (⟨(f a).result, 0 + (f a).turns⟩ : Run β) = f a
  rw [Nat.zero_add]

theorem bind_assoc (x : Run α) (f : α → Run β) (g : β → Run γ) :
    x >>= f >>= g = x >>= fun a => f a >>= g := by
  obtain ⟨result, turns⟩ := x
  cases result with
  | error e => rfl
  | ok a =>
    change (⟨(f a).result, turns + (f a).turns⟩ >>= g : Run γ) =
      ⟨(f a >>= g).result, turns + (f a >>= g).turns⟩
    obtain ⟨result', turns'⟩ := f a
    cases result' with
    | error e => rfl
    | ok b =>
      change (⟨(g b).result, turns + turns' + (g b).turns⟩ : Run γ) =
        ⟨(g b).result, turns + (turns' + (g b).turns)⟩
      rw [Nat.add_assoc]

end Laws

end Run

instance : LawfulMonad Run := LawfulMonad.mk' Run Run.id_map Run.pure_bind Run.bind_assoc

namespace Run

def fail {α : Type} (e : GeoFault) : Run α := ⟨.error e, 0⟩

def refuse {α : Type} (e : GeoDatError) : Run α := fail (.refused e)

/-- One more turn of a loop. -/
def tick : Run Unit := ⟨.ok (), 1⟩

end Run

theorem Reader.eachFrom_cons {σ : Type} {turn : σ → Reader → GeoRead (σ × Reader)} {n : Nat} {s : σ}
    {r : Reader} (h : r.rest ≠ []) :
    Reader.eachFrom turn (n + 1) s r = turn s r >>= fun x => Reader.eachFrom turn n x.1 x.2 := by
  obtain ⟨pos, rest⟩ := r
  cases rest with
  | nil => exact absurd rfl h
  | cons b rest => rfl

/-! ## The reader -/

/-- `pos` and `end` of a `Reader`; the buffer is an argument. -/
structure Cursor where
  pos : Nat
  stop : Nat
  deriving DecidableEq, Repr

namespace Cursor

section Read

variable (buf : List UInt8)

/-- `this.buf[i]` -/
def byteAt (i : Nat) : Run UInt8 :=
  match buf[i]? with
  | some b => pure b
  | none => .fail (.outside i)

/-- `this.buf.subarray(start, end)` -/
def subarray (v : Cursor) : Run (List UInt8) :=
  if v.pos ≤ v.stop ∧ v.stop ≤ buf.length then pure (slice buf v.pos v.stop)
  else .fail (.outside v.stop)

def varintFrom : Nat → Nat → Nat → Cursor → Run (Nat × Cursor)
  | 0, _, _, c => .refuse ⟨.longNumber, c.pos⟩
  | i + 1, result, shift, c =>
    if c.stop ≤ c.pos then .refuse ⟨.endsInNumber, c.pos⟩
    else do
      let b ← byteAt buf c.pos
      let result := arith.add result (b.toNat % 128 * 2 ^ shift)
      if b.toNat < 128 then pure (result, { c with pos := c.pos + 1 })
      else varintFrom i result (shift + 7) { c with pos := c.pos + 1 }

def varint (c : Cursor) : Run (Nat × Cursor) := varintFrom buf 10 0 0 c

def key (c : Cursor) : Run (Key × Cursor) := do
  let (k, c') ← c.varint buf
  if k / 8 = 0 then .refuse ⟨.fieldZero, c.pos⟩ else pure (⟨k / 8, k % 8, c.pos⟩, c')

def bytes (c : Cursor) : Run (Cursor × Cursor) := do
  let (len, c') ← c.varint buf
  if c'.stop < c'.pos + len then .refuse ⟨.runsPast len (c'.stop - c'.pos), c.pos⟩
  else pure (⟨c'.pos, c'.pos + len⟩, ⟨c'.pos + len, c'.stop⟩)

/-- `string` -/
def text (what : String) (c : Cursor) : Run (String × Cursor) := do
  let (v, c') ← c.bytes buf
  let payload ← v.subarray buf
  match utf8Decode payload with
  | some s => pure (s, c')
  | none => .refuse ⟨.notUtf8 what, v.pos⟩

def advance (n pos : Nat) (c : Cursor) : Run Cursor :=
  if c.stop < c.pos + n then .refuse ⟨.endsInFixed, pos⟩ else pure ⟨c.pos + n, c.stop⟩

/-- `skip` -/
def pass (wire pos : Nat) (c : Cursor) : Run Cursor :=
  match wire with
  | 0 => do
    let (_, c') ← c.varint buf
    pure c'
  | 1 => c.advance 8 pos
  | 2 => do
    let (_, c') ← c.bytes buf
    pure c'
  | 5 => c.advance 4 pos
  | _ => .refuse ⟨.unknownWire wire, pos⟩

/-- `while (!r.done())`, for so many turns. -/
def eachFrom {σ : Type} (turn : σ → Cursor → Run (σ × Cursor)) : Nat → σ → Cursor → Run σ
  | n, s, c =>
    if c.stop ≤ c.pos then pure s
    else
      match n with
      | 0 => .fail .unfinished
      | n + 1 => do
        Run.tick
        let (s', c') ← turn s c
        eachFrom turn n s' c'

def each {σ : Type} (turn : σ → Cursor → Run (σ × Cursor)) (s : σ) (c : Cursor) : Run σ :=
  eachFrom turn buf.length s c

def expectWire (what : String) (k : Key) (want : Nat) : Run Unit :=
  if k.wire = want then pure () else .refuse ⟨.wrongWire what k.wire want, k.pos⟩

/-! ## Messages -/

def attributeTurn (key : String) (c : Cursor) : Run (String × Cursor) := do
  let (k, c) ← c.key buf
  if k.field = 1 then do
    expectWire "the key of an attribute" k 2
    c.text buf "the key of an attribute"
  else do
    let c ← c.pass buf k.wire k.pos
    pure (key, c)

def readAttribute (c : Cursor) : Run String := do
  let key ← c.each buf (attributeTurn buf) ""
  if key = "" then .refuse ⟨.noKey, c.stop⟩ else pure key

def domainTurn (d : GeoDomain) (c : Cursor) : Run (GeoDomain × Cursor) := do
  let (k, c) ← c.key buf
  if k.field = 1 then do
    expectWire "the type of a domain" k 0
    let (type, c) ← c.varint buf
    if 3 < type then .refuse ⟨.domainType type, k.pos⟩ else pure ({ d with type }, c)
  else if k.field = 2 then do
    expectWire "the value of a domain" k 2
    let (value, c) ← c.text buf "the value of a domain"
    pure ({ d with value }, c)
  else if k.field = 3 then do
    expectWire "an attribute" k 2
    let (v, c) ← c.bytes buf
    let key ← v.readAttribute buf
    pure ({ d with attrs := d.attrs ++ [key] }, c)
  else do
    let c ← c.pass buf k.wire k.pos
    pure (d, c)

def readDomain (c : Cursor) : Run GeoDomain := do
  let d ← c.each buf (domainTurn buf) ⟨0, "", []⟩
  if d.value = "" then .refuse ⟨.noValue, c.stop⟩ else pure d

def cidrTurn (s : Option (List UInt8) × Nat) (c : Cursor) :
    Run ((Option (List UInt8) × Nat) × Cursor) := do
  let (k, c) ← c.key buf
  if k.field = 1 then do
    expectWire "the address of a CIDR" k 2
    let (v, c) ← c.bytes buf
    let ip ← v.subarray buf
    if ip.length ≠ 4 ∧ ip.length ≠ 16 then .refuse ⟨.addressLength ip.length, v.pos⟩
    else pure ((some ip, s.2), c)
  else if k.field = 2 then do
    expectWire "the prefix of a CIDR" k 0
    let (n, c) ← c.varint buf
    pure ((s.1, n), c)
  else do
    let c ← c.pass buf k.wire k.pos
    pure (s, c)

def readCidr (c : Cursor) : Run GeoCidr := do
  let s ← c.each buf (cidrTurn buf) (none, 0)
  match s.1 with
  | none => .refuse ⟨.noAddress, c.stop⟩
  | some ip => if ip.length * 8 < s.2 then .refuse ⟨.longPrefix s.2, c.stop⟩ else pure ⟨ip, s.2⟩

/-! ## Entries -/

variable (lib : CaseLib)

def siteTurn (s : EntryRead) (c : Cursor) : Run (EntryRead × Cursor) := do
  let (k, c) ← c.key buf
  if k.field = 1 then do
    expectWire "the code of a geosite entry" k 2
    let (code, c) ← c.text buf "the code of a geosite entry"
    pure (⟨{ s.entry with code, codeFirst := s.first }, false⟩, c)
  else if k.field = 2 then do
    expectWire "a domain" k 2
    let (v, c) ← c.bytes buf
    let d ← v.readDomain buf
    pure (⟨{ s.entry with
      attrs := noteAttrs lib s.entry.attrs d.attrs, entries := s.entry.entries + 1 }, false⟩, c)
  else do
    let c ← c.pass buf k.wire k.pos
    pure (⟨s.entry, false⟩, c)

def ipTurn (s : EntryRead) (c : Cursor) : Run (EntryRead × Cursor) := do
  let (k, c) ← c.key buf
  if k.field = 1 then do
    expectWire "the code of a geoip entry" k 2
    let (code, c) ← c.text buf "the code of a geoip entry"
    pure (⟨{ s.entry with code, codeFirst := s.first }, false⟩, c)
  else if k.field = 2 then do
    expectWire "a CIDR" k 2
    let (v, c) ← c.bytes buf
    let _ ← v.readCidr buf
    pure (⟨{ s.entry with entries := s.entry.entries + 1 }, false⟩, c)
  else if k.field = 3 then do
    expectWire "reverse_match" k 0
    let (_, c) ← c.varint buf
    pure (⟨s.entry, false⟩, c)
  else do
    let c ← c.pass buf k.wire k.pos
    pure (⟨s.entry, false⟩, c)

def entryTurn : GeoSetKind → EntryRead → Cursor → Run (EntryRead × Cursor)
  | .geosite => siteTurn buf lib
  | .geoip => ipTurn buf

/-- `readSite`, `readIP` -/
def readEntry (kind : GeoSetKind) (c : Cursor) (entry : RawEntry) : Run RawEntry := do
  let s ← c.each buf (entryTurn buf lib kind) ⟨entry, true⟩
  pure s.entry

def walkTurn (kind : GeoSetKind) (out : List RawEntry) (c : Cursor) :
    Run (List RawEntry × Cursor) := do
  let (k, c) ← c.key buf
  if k.field ≠ 1 then .refuse ⟨.topLevel k.field, k.pos⟩
  else do
    expectWire "an entry" k 2
    let (v, c) ← c.bytes buf
    let e ← v.readEntry buf lib kind ⟨"", false, v.pos, v.stop, 0, []⟩
    if e.code = "" then .refuse ⟨.noCode, v.pos⟩ else pure (out ++ [e], c)

def walk (kind : GeoSetKind) : Run (List RawEntry) := do
  let out ← each buf (walkTurn buf lib kind) [] ⟨0, buf.length⟩
  if out = [] then .refuse ⟨.noEntries, 0⟩ else pure out

end Read

/-! ## The two readers -/

/-- Inside the buffer. -/
structure Valid (buf : List UInt8) (c : Cursor) : Prop where
  pos : c.pos ≤ c.stop
  stop : c.stop ≤ buf.length

/-- The reader on lists that stands where the cursor does. -/
def view (buf : List UInt8) (c : Cursor) : Reader := Reader.create buf c.pos c.stop

/-- A program on indexes that goes on at a cursor does what the one on lists does, stays inside the
bounds and makes no more turns than it reads bytes and is given. -/
inductive Follows {α : Type} (buf : List UInt8) (c : Cursor) (credit : Int) :
    Run (α × Cursor) → GeoRead (α × Reader) → Prop where
  | ok {a : α} {c' : Cursor} {turns : Nat} (valid : c'.Valid buf) (pos : c.pos ≤ c'.pos)
    (stop : c'.stop = c.stop) (paid : (turns : Int) ≤ credit + (c'.pos - c.pos)) :
    Follows buf c credit ⟨.ok (a, c'), turns⟩ (.ok (a, c'.view buf))
  | refused {e : GeoDatError} {turns : Nat} (paid : (turns : Int) ≤ credit + (c.stop - c.pos)) :
    Follows buf c credit ⟨.error (.refused e), turns⟩ (.error e)

/-- A program that reads a value to its end. -/
inductive Ends {α : Type} (c : Cursor) : Run α → GeoRead α → Prop where
  | ok {a : α} {turns : Nat} (paid : (turns : Int) ≤ c.stop - c.pos) : Ends c ⟨.ok a, turns⟩ (.ok a)
  | refused {e : GeoDatError} {turns : Nat} (paid : (turns : Int) ≤ c.stop - c.pos) :
    Ends c ⟨.error (.refused e), turns⟩ (.error e)

section Rules

variable {α β : Type} {buf : List UInt8} {c c₁ v : Cursor} {credit : Int}

theorem length_view (hc : c.Valid buf) : (c.view buf).rest.length = c.stop - c.pos := by
  have hstop := hc.stop
  simp only [view, over_rest, slice, List.length_drop, List.length_take]
  omega

theorem stop_view (hc : c.Valid buf) : (c.view buf).stop = c.stop := by
  have hpos := hc.pos
  rw [Reader.stop, length_view hc]
  exact Nat.add_sub_cancel' hpos

theorem view_nil (hc : c.Valid buf) (h : c.stop ≤ c.pos) : c.view buf = ⟨c.pos, []⟩ := by
  have hrest : (c.view buf).rest = [] := by
    refine List.eq_nil_of_length_eq_zero ?_
    rw [length_view hc]
    omega
  rw [← hrest]
  rfl

/-- A cursor before its end stands at a byte of the buffer. -/
theorem view_cons (hc : c.Valid buf) (h : c.pos < c.stop) :
    ∃ b, byteAt buf c.pos = pure b ∧
      c.view buf = ⟨c.pos, b :: ((⟨c.pos + 1, c.stop⟩ : Cursor).view buf).rest⟩ := by
  have hlt : c.pos < buf.length := lt_of_lt_of_le h hc.stop
  refine ⟨buf[c.pos], by rw [byteAt, List.getElem?_eq_getElem hlt], ?_⟩
  have hlen : c.pos < (buf.take c.stop).length := by
    rw [List.length_take]
    omega
  rw [view, Reader.create, List.drop_eq_getElem_cons hlen, List.getElem_take]
  rfl

theorem Follows.mono {x : Run (α × Cursor)} {y : GeoRead (α × Reader)} {credit₁ : Int}
    (h : Follows buf c₁ credit₁ x y) (hpos : c.pos ≤ c₁.pos) (hstop : c₁.stop = c.stop)
    (hcredit : credit₁ ≤ credit + (c₁.pos - c.pos)) : Follows buf c credit x y := by
  cases h with
  | ok valid pos stop paid => exact .ok valid (hpos.trans pos) (stop.trans hstop) (by omega)
  | refused paid => exact .refused (by omega)

theorem Follows.bind {x : Run (α × Cursor)} {y : GeoRead (α × Reader)}
    {f : α × Cursor → Run (β × Cursor)} {g : α × Reader → GeoRead (β × Reader)}
    (h : Follows buf c credit x y)
    (hf : ∀ a c₁, c₁.Valid buf → c₁.stop = c.stop → Follows buf c₁ 0 (f (a, c₁)) (g (a, c₁.view buf))) :
    Follows buf c credit (x >>= f) (y >>= g) := by
  cases h with
  | refused paid => exact .refused paid
  | @ok a c₁ turns valid pos stop paid =>
    have hnext := hf a c₁ valid stop
    change Follows buf c credit ⟨(f (a, c₁)).result, turns + (f (a, c₁)).turns⟩ (g (a, c₁.view buf))
    generalize f (a, c₁) = x' at hnext ⊢
    generalize g (a, c₁.view buf) = y' at hnext ⊢
    cases hnext with
    | ok valid' pos' stop' paid' =>
      refine .ok valid' (pos.trans pos') (stop'.trans stop) ?_
      push_cast
      omega
    | refused paid' =>
      refine .refused ?_
      push_cast
      omega

/-- A value inside is read to its end, and the turns of that are paid by its bytes. -/
theorem Ends.bind {x : Run α} {y : GeoRead α} {f : α → Run (β × Cursor)}
    {g : α → GeoRead (β × Reader)} (h : Ends v x y) (hc : c.Valid buf)
    (hf : ∀ a, Follows buf c 0 (f a) (g a)) :
    Follows buf c (v.stop - v.pos) (x >>= f) (y >>= g) := by
  have hpos := hc.pos
  cases h with
  | refused paid => exact .refused (paid.trans (by omega))
  | @ok a turns paid =>
    have hnext := hf a
    change Follows buf c _ ⟨(f a).result, turns + (f a).turns⟩ (g a)
    generalize f a = x' at hnext ⊢
    generalize g a = y' at hnext ⊢
    cases hnext with
    | ok valid' pos' stop' paid' =>
      refine .ok valid' pos' stop' ?_
      push_cast
      omega
    | refused paid' =>
      refine .refused ?_
      push_cast
      omega

theorem follows_pure (hc : c.Valid buf) (hcredit : 0 ≤ credit) (a : α) :
    Follows buf c credit (pure (a, c)) (.ok (a, c.view buf)) :=
  .ok hc le_rfl rfl (by push_cast; omega)

theorem follows_refuse (hc : c.Valid buf) (hcredit : 0 ≤ credit) (e : GeoDatError) :
    Follows (α := α) buf c credit (Run.refuse e) (.error e) :=
  .refused (by have := hc.pos; push_cast; omega)

theorem follows_ite {p : Prop} [Decidable p] {x x' : Run (α × Cursor)} {y y' : GeoRead (α × Reader)}
    (h : p → Follows buf c credit x y) (h' : ¬p → Follows buf c credit x' y') :
    Follows buf c credit (if p then x else x') (if p then y else y') := by
  split
  · exact h ‹p›
  · exact h' ‹¬p›

end Rules

/-! ## The operations of the reader -/

section Operations

variable {α : Type} {buf : List UInt8} {c : Cursor}

/-- What a program that reads a byte at least leaves for a turn: nothing, where there is no byte. -/
def fare (c : Cursor) : Int := if c.pos < c.stop then -1 else 0

theorem fare_nonpos (c : Cursor) : c.fare ≤ 0 := by
  unfold fare
  split <;> omega

theorem follows_varintFrom (i result shift : Nat) (hc : c.Valid buf) :
    Follows buf c c.fare (varintFrom buf i result shift c)
      ((c.view buf).varintFrom i result shift) := by
  have hpos := hc.pos
  induction i generalizing result shift c with
  | zero =>
    refine .refused ?_
    unfold fare
    split <;> push_cast <;> omega
  | succ i ih =>
    rw [varintFrom]
    by_cases hlt : c.pos < c.stop
    · obtain ⟨b, hb, hview⟩ := view_cons hc hlt
      have hnext : (⟨c.pos + 1, c.stop⟩ : Cursor).Valid buf := ⟨hlt, hc.stop⟩
      rw [if_neg (by omega), hb, hview, Reader.varintFrom, pure_bind]
      refine follows_ite (fun _ => ?_) fun _ => ?_
      · refine .ok hnext (Nat.le_succ _) rfl ?_
        rw [fare, if_pos hlt]
        push_cast
        omega
      · refine (ih _ _ hnext hlt).mono (Nat.le_succ _) rfl ?_
        have hfare := fare_nonpos ⟨c.pos + 1, c.stop⟩
        have hone : c.fare = -1 := if_pos hlt
        rw [hone]
        push_cast
        omega
    · rw [if_pos (not_lt.mp hlt), view_nil hc (not_lt.mp hlt), Reader.varintFrom]
      refine .refused ?_
      rw [fare, if_neg hlt]
      push_cast
      omega

theorem follows_varint (hc : c.Valid buf) :
    Follows buf c c.fare (c.varint buf) (c.view buf).varint :=
  follows_varintFrom 10 0 0 hc

theorem follows_varint_zero (hc : c.Valid buf) :
    Follows buf c 0 (c.varint buf) (c.view buf).varint :=
  (follows_varint hc).mono le_rfl rfl (by have := c.fare_nonpos; omega)

theorem follows_key (hc : c.Valid buf) : Follows buf c c.fare (c.key buf) (c.view buf).key := by
  refine (follows_varint hc).bind fun k c₁ hc₁ _ => ?_
  dsimp only
  exact follows_ite (fun _ => follows_refuse hc₁ le_rfl _) fun _ => follows_pure hc₁ le_rfl _

/-- A value with a length: what follows is given as many turns as the value has bytes. -/
theorem bytes_bind {f : Cursor × Cursor → Run (α × Cursor)} {g : Reader × Reader → GeoRead (α × Reader)}
    (hc : c.Valid buf) (h : ∀ v c₁ : Cursor, v.Valid buf → c₁.Valid buf →
      Follows buf c₁ (v.stop - v.pos) (f (v, c₁)) (g (v.view buf, c₁.view buf))) :
    Follows buf c 0 (c.bytes buf >>= f) ((c.view buf).bytes >>= g) := by
  unfold bytes Reader.bytes
  rw [bind_assoc, bind_assoc]
  refine (follows_varint_zero hc).bind fun len c₁ hc₁ hstop => ?_
  have hpos₁ := hc₁.pos
  have hstop₁ := hc₁.stop
  dsimp only
  rw [length_view hc₁]
  by_cases hlen : c₁.stop < c₁.pos + len
  · rw [if_pos hlen, if_pos (by omega)]
    exact follows_refuse hc₁ le_rfl _
  · rw [if_neg hlen, if_neg (by omega), pure_bind]
    have hchild : (⟨c₁.pos, c₁.pos + len⟩ : Cursor).view buf =
        ⟨(c₁.view buf).pos, (c₁.view buf).rest.take len⟩ := by
      have htake : min (c₁.pos + len) c₁.stop = c₁.pos + len := by omega
      simp only [view, Reader.create, List.take_drop, List.take_take, htake]
    have hrest : (⟨c₁.pos + len, c₁.stop⟩ : Cursor).view buf =
        ⟨(c₁.view buf).pos + len, (c₁.view buf).rest.drop len⟩ := by
      simp only [view, Reader.create, List.drop_drop]
    have hnext := h ⟨c₁.pos, c₁.pos + len⟩ ⟨c₁.pos + len, c₁.stop⟩
      ⟨Nat.le_add_right _ _, (not_lt.mp hlen).trans hstop₁⟩ ⟨not_lt.mp hlen, hstop₁⟩
    rw [hchild, hrest] at hnext
    exact hnext.mono (Nat.le_add_right _ _) rfl (by push_cast; omega)

theorem subarray_of_valid {v : Cursor} (hv : v.Valid buf) :
    v.subarray buf = pure (v.view buf).rest :=
  if_pos ⟨hv.pos, hv.stop⟩

theorem follows_text (what : String) (hc : c.Valid buf) :
    Follows buf c 0 (c.text buf what) ((c.view buf).text what) := by
  refine bytes_bind hc fun v c₁ hv hc₁ => ?_
  have hcredit : (0 : Int) ≤ v.stop - v.pos := by
    have := hv.pos
    omega
  dsimp only
  rw [subarray_of_valid hv, pure_bind]
  cases utf8Decode (v.view buf).rest with
  | some s => exact follows_pure hc₁ hcredit s
  | none => exact follows_refuse hc₁ hcredit _

theorem advance_bind (a : α) (n pos : Nat) (hc : c.Valid buf) :
    Follows buf c 0 (c.advance n pos >>= fun c => pure (a, c))
      ((c.view buf).advance n pos >>= fun r => .ok (a, r)) := by
  have hpos := hc.pos
  have hstop := hc.stop
  unfold advance Reader.advance
  rw [length_view hc]
  by_cases hn : c.stop < c.pos + n
  · rw [if_pos hn, if_pos (by omega)]
    exact follows_refuse hc le_rfl _
  · rw [if_neg hn, if_neg (by omega), pure_bind]
    have hview : (⟨c.pos + n, c.stop⟩ : Cursor).view buf =
        ⟨(c.view buf).pos + n, (c.view buf).rest.drop n⟩ := by
      simp only [view, Reader.create, List.drop_drop]
    have hvalid : (⟨c.pos + n, c.stop⟩ : Cursor).Valid buf := ⟨not_lt.mp hn, hstop⟩
    have hnext := follows_pure hvalid le_rfl a
    rw [hview] at hnext
    exact hnext.mono (Nat.le_add_right _ _) rfl (by push_cast; omega)

theorem map_snd_bind {β γ : Type} (x : GeoRead (β × Reader)) (f : Reader → GeoRead γ) :
    x.map (·.2) >>= f = x >>= fun y => f y.2 := by
  cases x <;> rfl

theorem pass_bind (a : α) (wire pos : Nat) (hc : c.Valid buf) :
    Follows buf c 0 (c.pass buf wire pos >>= fun c => pure (a, c))
      ((c.view buf).pass wire pos >>= fun r => .ok (a, r)) := by
  match wire with
  | 0 =>
    change Follows buf c 0 ((c.varint buf >>= fun x => pure x.2) >>= _) (Except.map _ _ >>= _)
    rw [map_snd_bind, bind_assoc]
    exact (follows_varint_zero hc).bind fun n c₁ hc₁ _ => follows_pure hc₁ le_rfl a
  | 2 =>
    change Follows buf c 0 ((c.bytes buf >>= fun x => pure x.2) >>= _) (Except.map _ _ >>= _)
    rw [map_snd_bind, bind_assoc]
    refine bytes_bind hc fun v c₁ hv hc₁ => ?_
    have hcredit : (0 : Int) ≤ v.stop - v.pos := by
      have := hv.pos
      omega
    exact follows_pure hc₁ hcredit a
  | 1 => exact advance_bind a 8 pos hc
  | 5 => exact advance_bind a 4 pos hc
  | 3 => exact follows_refuse hc le_rfl _
  | 4 => exact follows_refuse hc le_rfl _
  | n + 6 => exact follows_refuse hc le_rfl _

theorem expectWire_bind {credit : Int} {f : Unit → Run (α × Cursor)}
    {g : Unit → GeoRead (α × Reader)} (what : String) (k : Key) (want : Nat) (hc : c.Valid buf)
    (hcredit : 0 ≤ credit) (h : Follows buf c credit (f ()) (g ())) :
    Follows buf c credit (expectWire what k want >>= f) (Iceslab.expectWire what k want >>= g) := by
  unfold expectWire Iceslab.expectWire require
  by_cases hwire : k.wire = want
  · rw [if_pos hwire, if_pos (decide_eq_true hwire), pure_bind]
    exact h
  · rw [if_neg hwire, if_neg (by simpa using hwire)]
    exact follows_refuse hc hcredit _

end Operations

/-! ## Loops -/

section Loops

variable {σ : Type} {buf : List UInt8} {turn : σ → Cursor → Run (σ × Cursor)}
  {turn' : σ → Reader → GeoRead (σ × Reader)}

/-- A turn does what the one on lists does, and pays for itself. -/
def TurnFollows (buf : List UInt8) (turn : σ → Cursor → Run (σ × Cursor))
    (turn' : σ → Reader → GeoRead (σ × Reader)) : Prop :=
  ∀ s c, c.Valid buf → Follows buf c c.fare (turn s c) (turn' s (c.view buf))

theorem ends_eachFrom (h : TurnFollows buf turn turn') {n m : Nat} {s : σ} {c : Cursor}
    (hc : c.Valid buf) (hn : c.stop - c.pos ≤ n) (hm : c.stop - c.pos ≤ m) :
    Ends c (eachFrom turn n s c) (Reader.eachFrom turn' m s (c.view buf)) := by
  induction n generalizing m s c with
  | zero =>
    have hdone : c.stop ≤ c.pos := by omega
    have hpos := hc.pos
    rw [eachFrom, if_pos hdone, view_nil hc hdone, Reader.eachFrom]
    exact .ok (by push_cast; omega)
  | succ n ih =>
    have hpos := hc.pos
    by_cases hdone : c.stop ≤ c.pos
    · rw [eachFrom, if_pos hdone, view_nil hc hdone, Reader.eachFrom]
      exact .ok (by push_cast; omega)
    · obtain ⟨m, rfl⟩ : ∃ k, m = k + 1 := ⟨m - 1, by omega⟩
      have hne : (c.view buf).rest ≠ [] := by
        intro hnil
        have hlen := length_view hc
        rw [hnil, List.length_nil] at hlen
        omega
      rw [eachFrom, if_neg hdone, Reader.eachFrom_cons hne]
      have hfare : c.fare = -1 := if_pos (not_le.mp hdone)
      have hturn := h s c hc
      rw [hfare] at hturn
      generalize turn s c = x at hturn ⊢
      generalize turn' s (c.view buf) = y at hturn ⊢
      cases hturn with
      | @refused e turns paid =>
        change Ends c ⟨.error (.refused e), 1 + turns⟩ (.error e)
        refine .refused ?_
        push_cast
        omega
      | @ok s' c' turns valid pos stop paid =>
        have hless : c.pos < c'.pos := by omega
        have hrest := ih (m := m) (s := s') valid (by omega) (by omega)
        change Ends c ⟨(eachFrom turn n s' c').result, 1 + (turns + (eachFrom turn n s' c').turns)⟩
          (Reader.eachFrom turn' m s' (c'.view buf))
        generalize eachFrom turn n s' c' = x at hrest ⊢
        generalize Reader.eachFrom turn' m s' (c'.view buf) = y at hrest ⊢
        cases hrest with
        | ok paid' =>
          refine .ok ?_
          push_cast
          omega
        | refused paid' =>
          refine .refused ?_
          push_cast
          omega

/-- A last check that reads nothing. -/
inductive Settled {α : Type} : Run α → GeoRead α → Prop where
  | ok (a : α) : Settled (pure a) (.ok a)
  | refused (e : GeoDatError) : Settled (Run.refuse e) (.error e)

theorem Settled.ite {α : Type} {p : Prop} [Decidable p] {x x' : Run α} {y y' : GeoRead α}
    (h : Settled x y) (h' : Settled x' y') :
    Settled (if p then x else x') (if p then y else y') := by
  split
  · exact h
  · exact h'

theorem Ends.settle {α β : Type} {c : Cursor} {x : Run α} {y : GeoRead α} {f : α → Run β}
    {g : α → GeoRead β} (h : Ends c x y) (hf : ∀ a, Settled (f a) (g a)) :
    Ends c (x >>= f) (y >>= g) := by
  cases h with
  | refused paid => exact .refused paid
  | @ok a turns paid =>
    have hlast := hf a
    change Ends c ⟨(f a).result, turns + (f a).turns⟩ (g a)
    generalize f a = x' at hlast ⊢
    generalize g a = y' at hlast ⊢
    cases hlast with
    | ok b => exact .ok paid
    | refused e => exact .refused paid

theorem ends_each (h : TurnFollows buf turn turn') (s : σ) {c : Cursor} (hc : c.Valid buf) :
    Ends c (c.each buf turn s) ((c.view buf).each turn' s) := by
  have hstop := hc.stop
  refine ends_eachFrom h hc (by omega) ?_
  rw [length_view hc]

end Loops

/-! ## The messages -/

section Messages

variable {buf : List UInt8}

theorem follows_attribute : TurnFollows buf (attributeTurn buf) Iceslab.attributeTurn := by
  intro key c hc
  refine (follows_key hc).bind fun k c₁ hc₁ _ => follows_ite (fun _ => ?_) fun _ => ?_
  · exact expectWire_bind _ k 2 hc₁ le_rfl (follows_text _ hc₁)
  · exact pass_bind key k.wire k.pos hc₁

theorem ends_attribute {c : Cursor} (hc : c.Valid buf) :
    Ends c (c.readAttribute buf) (Iceslab.readAttribute (c.view buf)) := by
  refine (ends_each follows_attribute "" hc).settle fun key => ?_
  rw [stop_view hc]
  exact .ite (.refused _) (.ok _)

theorem follows_domain : TurnFollows buf (domainTurn buf) Iceslab.domainTurn := by
  intro d c hc
  refine (follows_key hc).bind fun k c₁ hc₁ _ => follows_ite (fun _ => ?_) fun _ =>
    follows_ite (fun _ => ?_) fun _ => follows_ite (fun _ => ?_) fun _ => ?_
  · refine expectWire_bind _ k 0 hc₁ le_rfl ((follows_varint_zero hc₁).bind fun type c₂ hc₂ _ => ?_)
    exact follows_ite (fun _ => follows_refuse hc₂ le_rfl _) fun _ => follows_pure hc₂ le_rfl _
  · refine expectWire_bind _ k 2 hc₁ le_rfl ((follows_text _ hc₁).bind fun value c₂ hc₂ _ => ?_)
    exact follows_pure hc₂ le_rfl _
  · refine expectWire_bind _ k 2 hc₁ le_rfl (bytes_bind hc₁ fun v c₂ hv hc₂ => ?_)
    exact (ends_attribute hv).bind hc₂ fun key => follows_pure hc₂ le_rfl _
  · exact pass_bind d k.wire k.pos hc₁

theorem ends_domain {c : Cursor} (hc : c.Valid buf) :
    Ends c (c.readDomain buf) (Iceslab.readDomain (c.view buf)) := by
  refine (ends_each follows_domain ⟨0, "", []⟩ hc).settle fun d => ?_
  rw [stop_view hc]
  exact .ite (.refused _) (.ok _)

theorem follows_cidr : TurnFollows buf (cidrTurn buf) Iceslab.cidrTurn := by
  intro s c hc
  refine (follows_key hc).bind fun k c₁ hc₁ _ => follows_ite (fun _ => ?_) fun _ =>
    follows_ite (fun _ => ?_) fun _ => ?_
  · refine expectWire_bind _ k 2 hc₁ le_rfl (bytes_bind hc₁ fun v c₂ hv hc₂ => ?_)
    have hcredit : (0 : Int) ≤ v.stop - v.pos := by
      have := hv.pos
      omega
    dsimp only
    rw [subarray_of_valid hv, pure_bind]
    exact follows_ite (fun _ => follows_refuse hc₂ hcredit _) fun _ => follows_pure hc₂ hcredit _
  · refine expectWire_bind _ k 0 hc₁ le_rfl ((follows_varint_zero hc₁).bind fun n c₂ hc₂ _ => ?_)
    exact follows_pure hc₂ le_rfl _
  · exact pass_bind s k.wire k.pos hc₁

theorem ends_cidr {c : Cursor} (hc : c.Valid buf) :
    Ends c (c.readCidr buf) (Iceslab.readCidr (c.view buf)) := by
  refine (ends_each follows_cidr (none, 0) hc).settle fun s => ?_
  obtain ⟨ip, n⟩ := s
  cases ip with
  | none =>
    dsimp only
    rw [stop_view hc]
    exact .refused _
  | some ip =>
    dsimp only
    rw [stop_view hc]
    exact .ite (.refused _) (.ok _)

variable (lib : CaseLib)

theorem follows_site : TurnFollows buf (siteTurn buf lib) (Iceslab.siteTurn lib) := by
  intro s c hc
  refine (follows_key hc).bind fun k c₁ hc₁ _ => follows_ite (fun _ => ?_) fun _ =>
    follows_ite (fun _ => ?_) fun _ => ?_
  · refine expectWire_bind _ k 2 hc₁ le_rfl ((follows_text _ hc₁).bind fun code c₂ hc₂ _ => ?_)
    exact follows_pure hc₂ le_rfl _
  · refine expectWire_bind _ k 2 hc₁ le_rfl (bytes_bind hc₁ fun v c₂ hv hc₂ => ?_)
    exact (ends_domain hv).bind hc₂ fun d => follows_pure hc₂ le_rfl _
  · exact pass_bind _ k.wire k.pos hc₁

theorem follows_ip : TurnFollows buf (ipTurn buf) Iceslab.ipTurn := by
  intro s c hc
  refine (follows_key hc).bind fun k c₁ hc₁ _ => follows_ite (fun _ => ?_) fun _ =>
    follows_ite (fun _ => ?_) fun _ => follows_ite (fun _ => ?_) fun _ => ?_
  · refine expectWire_bind _ k 2 hc₁ le_rfl ((follows_text _ hc₁).bind fun code c₂ hc₂ _ => ?_)
    exact follows_pure hc₂ le_rfl _
  · refine expectWire_bind _ k 2 hc₁ le_rfl (bytes_bind hc₁ fun v c₂ hv hc₂ => ?_)
    exact (ends_cidr hv).bind hc₂ fun _ => follows_pure hc₂ le_rfl _
  · refine expectWire_bind _ k 0 hc₁ le_rfl ((follows_varint_zero hc₁).bind fun n c₂ hc₂ _ => ?_)
    exact follows_pure hc₂ le_rfl _
  · exact pass_bind _ k.wire k.pos hc₁

theorem follows_entry (kind : GeoSetKind) :
    TurnFollows buf (entryTurn buf lib kind) (Iceslab.entryTurn lib kind) := by
  cases kind with
  | geosite => exact follows_site lib
  | geoip => exact follows_ip

theorem ends_entry (kind : GeoSetKind) (e : RawEntry) {c : Cursor} (hc : c.Valid buf) :
    Ends c (c.readEntry buf lib kind e) (Iceslab.readEntry lib kind (c.view buf) e) :=
  (ends_each (follows_entry lib kind) ⟨e, true⟩ hc).settle fun s => .ok s.entry

theorem follows_walk (kind : GeoSetKind) :
    TurnFollows buf (walkTurn buf lib kind) (Iceslab.walkTurn lib kind) := by
  intro out c hc
  refine (follows_key hc).bind fun k c₁ hc₁ _ => follows_ite (fun _ => ?_) fun _ => ?_
  · exact follows_refuse hc₁ le_rfl _
  · refine expectWire_bind _ k 2 hc₁ le_rfl (bytes_bind hc₁ fun v c₂ hv hc₂ => ?_)
    dsimp only
    rw [stop_view hv]
    refine (ends_entry lib kind _ hv).bind hc₂ fun e => ?_
    exact follows_ite (fun _ => follows_refuse hc₂ le_rfl _) fun _ => follows_pure hc₂ le_rfl _

/-- **The walk over indexes is the walk over the bytes**, inside the buffer and in no more turns, of
all its loops together, than the buffer has bytes. -/
theorem ends_walk (kind : GeoSetKind) :
    Ends ⟨0, buf.length⟩ (walk buf lib kind) (Iceslab.walk lib buf kind) := by
  have hc : (⟨0, buf.length⟩ : Cursor).Valid buf := ⟨Nat.zero_le _, le_rfl⟩
  exact (ends_each (follows_walk lib kind) [] hc).settle fun out => .ite (.refused _) (.ok _)

end Messages

end Cursor

end Iceslab
