import Mathlib.Algebra.GroupWithZero.Nat
import Iceslab.HwidDevices
import Mathlib.Data.List.Nodup

/-!
# The limits of a user's devices

The look-up of a device stands outside the lock, the count inside it.

* `turn_cases` — what one statement of a run may do.
* `DevicesInv` — the lock has one holder, and what the holder counted still bounds the table.
* `limits_hold` — every run: one row a device, the ceilings kept; and, where what a call looked up
  still holds at its next step, a verdict for every call and no refusal of a registered device.
* `owner_refused` — two first requests of one device at the limit.
-/

set_option autoImplicit false

namespace Iceslab.Hwid

/-! ## Statements -/

section Statements

variable {systemMax i now : Nat} {c : HwidCall} {t t' : DeviceTable} {p p' : Progress}

/-- The devices on the table. -/
def DeviceTable.hwids (t : DeviceTable) : List String := t.rows.map (·.hwid)

theorem registered_iff (hwid : String) : t.registered hwid = true ↔ hwid ∈ t.hwids := by
  simp [DeviceTable.registered, DeviceTable.hwids]

@[simp] theorem length_hwids : t.hwids.length = t.rows.length := List.length_map _

@[simp] theorem hwids_touch (id : Nat) : (t.touch id now).hwids = t.hwids := by
  simp only [DeviceTable.hwids, DeviceTable.touch, List.map_map]
  refine List.map_congr_left fun r _ => ?_
  simp only [Function.comp_apply]
  split <;> rfl

@[simp] theorem hwids_release : t.release.hwids = t.hwids := rfl

@[simp] theorem hwids_insert (hwid : String) : (t.insert hwid now).hwids = t.hwids ++ [hwid] := by
  simp [DeviceTable.hwids, DeviceTable.insert]

theorem hwids_remove (id : Nat) : (t.remove id).hwids.Sublist t.hwids :=
  List.filter_sublist.map _

/-- What a statement does, by what the call has behind it. -/
inductive Made (systemMax i now : Nat) (c : HwidCall) (t : DeviceTable) :
    Progress → DeviceTable → Progress → Prop
  | found (id : Nat) : Made systemMax i now c t .begun t (.found id)
  | missed (h : c.hwid ∉ t.hwids) : Made systemMax i now c t .begun t .missed
  | touched (id : Nat) : Made systemMax i now c t (.found id) (t.touch id now) .touched
  | seen (id : Nat) (v : HwidCheckResult) :
    Made systemMax i now c t (.found id) (t.touch id now) (.ended (.ok v))
  | gone (id : Nat) (h : t.has id = false) :
    Made systemMax i now c t (.found id) t (.ended (.error .notFound))
  | summed (v : HwidCheckResult) : Made systemMax i now c t .touched t (.ended (.ok v))
  | locks (h : t.lock = none) : Made systemMax i now c t .missed { t with lock := some i } .locked
  | unrecorded (h : systemMax ≤ t.rows.length) (hlimit : c.limit = none) :
    Made systemMax i now c t .locked t (.decided ⟨.allowed, 0, none⟩)
  | denied (limit : Nat) (hlimit : c.limit = some limit) :
    Made systemMax i now c t .locked t (.decided ⟨.denied, t.rows.length, some limit⟩)
  | counted (h : t.rows.length < effectiveDeviceCeiling c.limit systemMax) :
    Made systemMax i now c t .locked t (.counted t.rows.length)
  | clashed (n : Nat) (h : c.hwid ∈ t.hwids) :
    Made systemMax i now c t (.counted n) t (.failed .uniqueViolation)
  | created (n : Nat) (h : c.hwid ∉ t.hwids) : Made systemMax i now c t (.counted n) t (.created n)
  | inserted (n : Nat) : Made systemMax i now c t (.created n) (t.insert c.hwid now).release
    (.ended (.ok (c.allowed (n + 1))))
  | committed (v : HwidCheckResult) :
    Made systemMax i now c t (.decided v) t.release (.ended (.ok v))
  | rolledBack (e : HwidError) : Made systemMax i now c t (.failed e) t.release (.ended (.error e))

theorem made_of_statement (h : statement systemMax i now c t p = some (t', p')) :
    Made systemMax i now c t p t' p' := by
  unfold statement at h
  split at h
  · split at h
    · cases h
      exact .found _
    · rename_i hnone
      cases h
      refine .missed fun hmem => ?_
      obtain ⟨r, hr, hw⟩ := List.mem_map.mp hmem
      exact absurd (List.find?_eq_none.mp hnone r hr) (by simpa using hw)
  · split at h
    · cases hl : c.limit with
      | none =>
        rw [if_pos hl] at h
        cases h
        exact .seen _ _
      | some limit =>
        rw [if_neg (by simp [hl])] at h
        cases h
        exact .touched _
    · rename_i hgone
      cases h
      exact .gone _ (by simpa using hgone)
  · cases h
    exact .summed _
  · split at h
    · rename_i hfree
      cases h
      exact .locks hfree
    · cases h
  · cases h
    unfold decideUnderLock
    split
    · rename_i hceiling
      cases hl : c.limit with
      | none => exact .unrecorded (by simpa [effectiveDeviceCeiling, hl] using hceiling) hl
      | some limit => exact .denied limit hl
    · rename_i hbelow
      exact .counted (Nat.lt_of_not_le hbelow)
  · split at h
    · rename_i hclash
      cases h
      exact .clashed _ ((registered_iff _).mp hclash)
    · rename_i hfree
      cases h
      exact .created _ fun hmem => hfree ((registered_iff _).mpr hmem)
  · cases h
    exact .inserted _
  · cases h
    exact .committed _
  · cases h
    exact .rolledBack _
  · cases h

/-- What a statement does to the lock and to the devices: the first statement of the transaction
takes the lock, its end gives it back, and only the end of one that inserted adds a device. -/
inductive Effect (i : Nat) (c : HwidCall) (t : DeviceTable) (p : Progress) (t' : DeviceTable)
    (p' : Progress) : Prop
  | keeps (hp : p.inSection = p'.inSection) (hlock : t'.lock = t.lock) (hrows : t'.hwids = t.hwids)
  | takes (hp : p.inSection = false) (hp' : p' = .locked) (hfree : t.lock = none)
    (hlock : t'.lock = some i) (hrows : t'.hwids = t.hwids)
  | gives (hp : p.inSection = true) (hp' : p'.inSection = false) (hlock : t'.lock = none)
    (hrows : t'.hwids = t.hwids)
  | inserts (n : Nat) (hp : p = .created n) (hp' : p'.inSection = false) (hlock : t'.lock = none)
    (hrows : t'.hwids = t.hwids ++ [c.hwid])

theorem Made.effect (h : Made systemMax i now c t p t' p') : Effect i c t p t' p' := by
  cases h with
  | found | missed | gone | summed | unrecorded | denied | counted | clashed | created =>
    exact .keeps rfl rfl rfl
  | touched id => exact .keeps rfl rfl (hwids_touch id)
  | seen id => exact .keeps rfl rfl (hwids_touch id)
  | locks hfree => exact .takes rfl rfl hfree rfl rfl
  | inserted n => exact .inserts n rfl rfl rfl (by simp)
  | committed => exact .gives rfl rfl rfl rfl
  | rolledBack => exact .gives rfl rfl rfl rfl

end Statements

/-! ## Steps -/

section Steps

variable {systemMax : Nat} {s : Devices}

/-- What a turn comes to: nothing, or one statement of one call. -/
theorem turn_cases (i now : Nat) :
    s.turn systemMax i now = s ∨ ∃ c p t p', s.calls[i]? = some (c, p) ∧
      statement systemMax i now c s.table p = some (t, p') ∧
      s.turn systemMax i now = ⟨t, s.calls.set i (c, p')⟩ := by
  unfold Devices.turn
  split
  · exact .inl rfl
  · rename_i c p hcall
    split
    · exact .inl rfl
    · rename_i t p' hs
      exact .inr ⟨c, p, t, p', hcall, hs, rfl⟩

/-- The lock has one holder, and what the holder knows of the table is true. -/
structure DevicesInv (systemMax : Nat) (s : Devices) : Prop where
  oneRow : s.table.hwids.Nodup
  total : s.table.rows.length ≤ systemMax
  holder : ∀ i c p, s.calls[i]? = some (c, p) → p.inSection = true → s.table.lock = some i
  held : ∀ i, s.table.lock = some i → ∃ c p, s.calls[i]? = some (c, p) ∧ p.inSection = true
  counted : ∀ (i : Nat) (c : HwidCall) (current : Nat),
    s.calls[i]? = some (c, .counted current) ∨ s.calls[i]? = some (c, .created current) →
    s.table.rows.length ≤ current ∧ current < effectiveDeviceCeiling c.limit systemMax
  created : ∀ (i : Nat) (c : HwidCall) (current : Nat),
    s.calls[i]? = some (c, .created current) → c.hwid ∉ s.table.hwids

theorem effectiveDeviceCeiling_le (limit : Option Nat) :
    effectiveDeviceCeiling limit systemMax ≤ systemMax := by
  unfold effectiveDeviceCeiling
  split
  · exact Nat.le_refl _
  · exact Nat.min_le_right _ _

theorem inv_of_fresh (h : s.Fresh systemMax) : DevicesInv systemMax s := by
  have hnone : ∀ i, s.calls[i]? = none := fun i => by rw [h.calls, List.getElem?_nil]
  refine ⟨h.oneRow, h.total, fun i c p hp => ?_, fun i hi => ?_, fun i c n hn => ?_,
    fun i c n hn => ?_⟩
  · rw [hnone i] at hp
    cases hp
  · rw [h.lock] at hi
    cases hi
  · rw [hnone i] at hn
    rcases hn with hn | hn <;> cases hn
  · rw [hnone i] at hn
    cases hn

theorem inSection_enforceHwid (hwid : Option String) (limit : Option Nat) :
    (enforceHwid hwid limit).2.inSection = false := by
  unfold enforceHwid
  split
  · rfl
  · dsimp only
    split <;> rfl

theorem getElem?_call {hwid : Option String} {limit : Option Nat} {i : Nat} {c : HwidCall}
    {p : Progress} (h : (s.calls ++ [enforceHwid hwid limit])[i]? = some (c, p))
    (hp : p.inSection = true) : s.calls[i]? = some (c, p) := by
  rw [List.getElem?_append] at h
  split at h
  · exact h
  · rw [List.getElem?_singleton] at h
    split at h
    · have heq : enforceHwid hwid limit = (c, p) := Option.some.inj h
      have hout := inSection_enforceHwid hwid limit
      rw [heq, hp] at hout
      cases hout
    · cases h

theorem DevicesInv.call (h : DevicesInv systemMax s) (hwid : Option String) (limit : Option Nat) :
    DevicesInv systemMax { s with calls := s.calls ++ [enforceHwid hwid limit] } := by
  refine ⟨h.oneRow, h.total, fun i c p hc hp => h.holder i c p (getElem?_call hc hp) hp,
    fun i hi => ?_, fun i c n hn => h.counted i c n ?_, fun i c n hn => ?_⟩
  · obtain ⟨c, p, hc, hp⟩ := h.held i hi
    exact ⟨c, p, by rw [List.getElem?_append_left (List.getElem?_eq_some_iff.mp hc).1, hc], hp⟩
  · exact hn.imp (getElem?_call · rfl) (getElem?_call · rfl)
  · exact h.created i c n (getElem?_call hn rfl)

theorem DevicesInv.remove (h : DevicesInv systemMax s) (id : Nat) :
    DevicesInv systemMax { s with table := s.table.remove id } := by
  have hsub := @hwids_remove s.table id
  have hle : (s.table.remove id).rows.length ≤ s.table.rows.length := by
    simpa using hsub.length_le
  refine ⟨h.oneRow.sublist hsub, Nat.le_trans hle h.total, h.holder, h.held, fun i c n hn => ?_,
    fun i c n hn hmem => h.created i c n hn (hsub.subset hmem)⟩
  obtain ⟨hrows, hceiling⟩ := h.counted i c n hn
  exact ⟨Nat.le_trans hle hrows, hceiling⟩

section Turn

variable {i now : Nat} {c : HwidCall} {p p' : Progress} {t : DeviceTable}

theorem DevicesInv.alone (h : DevicesInv systemMax s) (hcall : s.calls[i]? = some (c, p))
    (hp : p.inSection = true) {j : Nat} {c' : HwidCall} {q : Progress}
    (hother : s.calls[j]? = some (c', q)) (hq : q.inSection = true) : i = j :=
  Option.some.inj ((h.holder i c p hcall hp).symm.trans (h.holder j c' q hother hq))

theorem DevicesInv.turn (h : DevicesInv systemMax s) (hcall : s.calls[i]? = some (c, p))
    (hmade : Made systemMax i now c s.table p t p') :
    DevicesInv systemMax ⟨t, s.calls.set i (c, p')⟩ := by
  have hi := (List.getElem?_eq_some_iff.mp hcall).1
  have hself : (s.calls.set i (c, p'))[i]? = some (c, p') := by
    rw [List.getElem?_set_self hi]
  have hothers : ∀ {j : Nat}, j ≠ i → (s.calls.set i (c, p'))[j]? = s.calls[j]? :=
    fun hj => List.getElem?_set_ne (Ne.symm hj)
  have heffect := hmade.effect
  -- a device comes in only by the commit of an insert, below the ceiling it counted
  have hgrown : t.hwids = s.table.hwids ∨ ∃ n, p = .created n ∧ t.hwids = s.table.hwids ++ [c.hwid] ∧
      s.table.rows.length < effectiveDeviceCeiling c.limit systemMax := by
    cases heffect with
    | keeps _ _ hrows => exact .inl hrows
    | takes _ _ _ _ hrows => exact .inl hrows
    | gives _ _ _ hrows => exact .inl hrows
    | inserts n hp _ _ hrows =>
      have hcount := h.counted i c n (.inr (hp ▸ hcall))
      exact .inr ⟨n, hp, hrows, Nat.lt_of_le_of_lt hcount.1 hcount.2⟩
  refine ⟨?_, ?_, fun j c' q hj hq => ?_, fun j hj => ?_, fun j c' n hn => ?_, fun j c' n hn => ?_⟩
  · rcases hgrown with hrows | ⟨n, rfl, hrows, -⟩
    · rw [hrows]
      exact h.oneRow
    · rw [hrows, List.nodup_append]
      refine ⟨h.oneRow, List.nodup_singleton _, fun a ha b hb => ?_⟩
      rintro rfl
      rw [List.mem_singleton.mp hb] at ha
      exact h.created i c n hcall ha
  · show t.rows.length ≤ systemMax
    rw [← length_hwids]
    rcases hgrown with hrows | ⟨n, -, hrows, hlt⟩
    · rw [hrows, length_hwids]
      exact h.total
    · have hmax := @effectiveDeviceCeiling_le systemMax c.limit
      rw [hrows, List.length_append, length_hwids, List.length_singleton]
      omega
  · by_cases hji : j = i
    · subst hji
      obtain ⟨rfl, rfl⟩ : c = c' ∧ p' = q := by simpa using hself.symm.trans hj
      cases heffect with
      | keeps hp hlock => exact hlock.trans (h.holder j c p hcall (hp.trans hq))
      | takes _ _ _ hlock => exact hlock
      | gives _ hp' => rw [hp'] at hq; cases hq
      | inserts _ _ hp' => rw [hp'] at hq; cases hq
    · rw [hothers hji] at hj
      have hlocked := h.holder j c' q hj hq
      cases heffect with
      | keeps _ hlock => exact hlock.trans hlocked
      | takes _ _ hfree => rw [hfree] at hlocked; cases hlocked
      | gives hp => exact absurd (h.alone hcall hp hj hq).symm hji
      | inserts n hp => exact absurd (h.alone hcall (hp ▸ rfl) hj hq).symm hji
  · cases heffect with
    | keeps hp hlock =>
      obtain ⟨c', q, hq, hsec⟩ := h.held j (hlock.symm.trans hj)
      by_cases hji : j = i
      · subst hji
        obtain ⟨rfl, rfl⟩ : c = c' ∧ p = q := by simpa using hcall.symm.trans hq
        exact ⟨c, p', hself, hp.symm.trans hsec⟩
      · exact ⟨c', q, (hothers hji).trans hq, hsec⟩
    | takes _ hp' _ hlock =>
      obtain rfl : i = j := Option.some.inj (hlock.symm.trans hj)
      exact ⟨c, p', hself, hp' ▸ rfl⟩
    | gives _ _ hlock => rw [hlock] at hj; cases hj
    | inserts _ _ _ hlock => rw [hlock] at hj; cases hj
  · by_cases hji : j = i
    · subst hji
      rcases hn with hn | hn
      · obtain ⟨rfl, rfl⟩ : c = c' ∧ p' = .counted n := by simpa using hself.symm.trans hn
        cases hmade with
        | counted hlt => exact ⟨Nat.le_refl _, hlt⟩
      · obtain ⟨rfl, rfl⟩ : c = c' ∧ p' = .created n := by simpa using hself.symm.trans hn
        cases hmade with
        | created n => exact h.counted j c n (.inl hcall)
    · rw [hothers hji] at hn
      have hrows : t.hwids = s.table.hwids := by
        rcases hgrown with hrows | ⟨m, rfl, -⟩
        · exact hrows
        · rcases hn with hn | hn
          · exact absurd (h.alone hcall rfl hn rfl).symm hji
          · exact absurd (h.alone hcall rfl hn rfl).symm hji
      have hlen : t.rows.length = s.table.rows.length := by
        rw [← length_hwids, hrows, length_hwids]
      rw [show (Devices.mk t (s.calls.set i (c, p'))).table = t from rfl, hlen]
      exact h.counted j c' n hn
  · by_cases hji : j = i
    · subst hji
      obtain ⟨rfl, rfl⟩ : c = c' ∧ p' = .created n := by simpa using hself.symm.trans hn
      cases hmade with
      | created n hfree => exact hfree
    · rw [hothers hji] at hn
      rcases hgrown with hrows | ⟨m, rfl, -⟩
      · exact hrows ▸ h.created j c' n hn
      · exact absurd (h.alone hcall rfl hn rfl).symm hji

end Turn

theorem DevicesInv.step (h : DevicesInv systemMax s) (e : DeviceEvent) :
    DevicesInv systemMax (s.step systemMax e) := by
  cases e with
  | call hwid limit => exact h.call hwid limit
  | remove id => exact h.remove id
  | turn i now =>
    rcases turn_cases i now with heq | ⟨c, p, t, p', hcall, hs, heq⟩
    · rw [Devices.step, heq]
      exact h
    · rw [Devices.step, heq]
      exact h.turn hcall (made_of_statement hs)

/-! ## What a call still has to do -/

def Progress.left : Progress → Nat
  | .begun => 5
  | .missed => 4
  | .locked => 3
  | .counted _ | .found _ => 2
  | .touched | .created _ | .decided _ | .failed _ => 1
  | .ended _ => 0

/-- The statements the calls have left, at most. -/
def Devices.left (s : Devices) : Nat := (s.calls.map fun c => c.2.left).sum

theorem sum_set_lt {α : Type} (f : α → Nat) {a b : α} (hlt : f a < f b) :
    ∀ {l : List α} {i : Nat}, l[i]? = some b → ((l.set i a).map f).sum < (l.map f).sum
  | x :: l, 0, h => by
    obtain rfl : x = b := by simpa using h
    simpa using hlt
  | x :: l, i + 1, h => by
    have ih := sum_set_lt f hlt (l := l) (i := i) (by simpa using h)
    simpa using ih

theorem Made.left_lt {i now : Nat} {c : HwidCall} {t t' : DeviceTable} {p p' : Progress}
    (h : Made systemMax i now c t p t' p') : p'.left < p.left := by
  cases h <;> simp [Progress.left]

theorem left_ne_zero {p : Progress} (h : p.inSection = true) : p.left ≠ 0 := by
  cases p with
  | begun | found | touched | missed | ended => cases h
  | locked | counted | created | decided | failed => exact Nat.succ_ne_zero _

/-- A call that waits for nobody makes its next statement. -/
theorem left_turn {i : Nat} {c : HwidCall} {p : Progress} (hcall : s.calls[i]? = some (c, p))
    (hp : p.left ≠ 0) (hfree : p = .missed → s.table.lock = none) (now : Nat) :
    (s.turn systemMax i now).left < s.left := by
  rcases turn_cases i now with heq | ⟨c', q, t, q', hcall', hs, heq⟩
  · -- a turn that does nothing finds no statement
    exfalso
    cases hs : statement systemMax i now c s.table p with
    | none =>
      unfold statement at hs
      split at hs
      · split at hs <;> cases hs
      · split at hs <;> cases hs
      · cases hs
      · rw [if_pos (hfree rfl)] at hs
        cases hs
      · cases hs
      · split at hs <;> cases hs
      · cases hs
      · cases hs
      · cases hs
      · exact hp rfl
    | some r =>
      have hrun : s.turn systemMax i now = ⟨r.1, s.calls.set i (c, r.2)⟩ := by
        simp only [Devices.turn, hcall, hs]
      have hcalls := congrArg Devices.calls (hrun.symm.trans heq)
      have hmade : Made systemMax i now c s.table p r.1 r.2 := made_of_statement hs
      have hlt := hmade.left_lt
      have hsame : (s.calls.set i (c, r.2))[i]? = s.calls[i]? := congrArg (fun l => l[i]?) hcalls
      rw [List.getElem?_set_self (List.getElem?_eq_some_iff.mp hcall).1, hcall] at hsame
      obtain rfl : r.2 = p := by simpa using hsame
      omega
  · rw [heq]
    exact sum_set_lt (fun c : HwidCall × Progress => c.2.left) (made_of_statement hs).left_lt hcall'

/-- **No call waits for good**: some call with statements left can make one. -/
theorem DevicesInv.goesOn (h : DevicesInv systemMax s) (hleft : s.left ≠ 0) :
    ∃ i, ∀ now, (s.turn systemMax i now).left < s.left := by
  cases hlock : s.table.lock with
  | some j =>
    obtain ⟨c, p, hcall, hp⟩ := h.held j hlock
    refine ⟨j, left_turn hcall (left_ne_zero hp) ?_⟩
    rintro rfl
    cases hp
  | none =>
    have hsome : ∃ call ∈ s.calls, call.2.left ≠ 0 := by
      by_contra hnone
      refine hleft (List.sum_eq_zero_iff_forall_eq_nat.mpr fun n hn => ?_)
      obtain ⟨call, hmem, rfl⟩ := List.mem_map.mp hn
      exact Decidable.not_not.mp fun hne => hnone ⟨call, hmem, hne⟩
    obtain ⟨⟨c, p⟩, hmem, hp⟩ := hsome
    obtain ⟨i, hi⟩ := List.mem_iff_getElem?.mp hmem
    exact ⟨i, left_turn hi hp fun _ => hlock⟩

end Steps

/-! ## Steps that come in time -/

section InTime

variable {systemMax : Nat} {s : Devices}

/-- What a call looked up still holds when it goes on from it: the row it found is there, and the
device it did not find is not registered when, under the lock, the devices are counted (or that
count lets it through unrecorded). -/
def inTime (systemMax : Nat) (s : Devices) : DeviceEvent → Bool
  | .turn i _ =>
    match s.calls[i]? with
    | some (_, .found id) => s.table.has id
    | some (c, .locked) =>
      !s.table.registered c.hwid
        || (decide (c.limit = none) && decide (systemMax ≤ s.table.rows.length))
    | _ => true
  | _ => true

/-- What the limits promise of one step. -/
structure LimitsHold (systemMax : Nat) (s : Devices) (e : DeviceEvent) (s' : Devices) : Prop where
  /-- every call that ends, ends with a verdict -/
  verdict : ∀ c r, (c, .ended r) ∈ s'.calls → ∃ v, r = .ok v
  /-- no call waits for good -/
  goesOn : s'.left ≠ 0 → ∃ i, ∀ now, (s'.turn systemMax i now).left < s'.left
  /-- no call is refused whose device is registered when that is decided -/
  known : ∀ (i : Nat) (c : HwidCall) (v : HwidCheckResult), s.calls[i]? = some (c, .locked) →
    s'.calls[i]? = some (c, .decided v) → v.status = .denied → c.hwid ∉ s.table.hwids
  /-- a device comes in only below the ceiling of its call -/
  inserted : ∀ hwid ∈ s'.table.hwids, hwid ∉ s.table.hwids → ∃ i now c p, e = .turn i now ∧
    s.calls[i]? = some (c, p) ∧ c.hwid = hwid ∧
    s.table.rows.length < effectiveDeviceCeiling c.limit systemMax
  oneRow : s'.table.hwids.Nodup
  total : s'.table.rows.length ≤ systemMax

/-- No call has failed, and one that has counted has its device still to register. -/
structure Timely (s : Devices) : Prop where
  verdict : ∀ c r, (c, .ended r) ∈ s.calls → ∃ v, r = .ok v
  noFailure : ∀ c e, (c, .failed e) ∉ s.calls
  counted : ∀ c n, (c, .counted n) ∈ s.calls → c.hwid ∉ s.table.hwids

theorem ended_enforceHwid {hwid : Option String} {limit : Option Nat} {c : HwidCall}
    {p : Progress} (h : (c, p) = enforceHwid hwid limit) :
    p = .begun ∨ p = .ended (.ok ⟨.disabled, 0, limit⟩) := by
  unfold enforceHwid at h
  split at h
  · exact .inr (congrArg Prod.snd h)
  · have hp := congrArg Prod.snd h
    dsimp only at hp
    split at hp
    · exact .inr hp
    · exact .inl hp

theorem Timely.step (hinv : DevicesInv systemMax s) (h : Timely s) {e : DeviceEvent}
    (hin : inTime systemMax s e = true) : Timely (s.step systemMax e) := by
  cases e with
  | call hwid limit =>
    have hmem : ∀ {c p}, (c, p) ∈ s.calls ++ [enforceHwid hwid limit] →
        (c, p) ∈ s.calls ∨ p = .begun ∨ p = .ended (.ok ⟨.disabled, 0, limit⟩) := fun hm =>
      (List.mem_append.mp hm).imp_right fun hm => ended_enforceHwid (List.mem_singleton.mp hm)
    refine ⟨fun c r hm => ?_, fun c e hm => ?_, fun c n hm => ?_⟩
    · rcases hmem hm with hm | hp | hp
      · exact h.verdict c r hm
      · cases hp
      · cases hp
        exact ⟨_, rfl⟩
    · rcases hmem hm with hm | hp | hp
      · exact h.noFailure c e hm
      · cases hp
      · cases hp
    · rcases hmem hm with hm | hp | hp
      · exact h.counted c n hm
      · cases hp
      · cases hp
  | remove id =>
    exact ⟨h.verdict, h.noFailure, fun c n hm hw => h.counted c n hm ((hwids_remove id).subset hw)⟩
  | turn i now =>
    rcases turn_cases i now with heq | ⟨c, p, t, p', hcall, hs, heq⟩
    · rw [Devices.step, heq]
      exact h
    · have hmade := made_of_statement hs
      have hmem : (c, p) ∈ s.calls := List.mem_of_getElem? hcall
      simp only [inTime, hcall] at hin
      rw [Devices.step, heq]
      refine ⟨fun c' r hm => ?_, fun c' e hm => ?_, fun c' n hm => ?_⟩
      · rcases List.mem_or_eq_of_mem_set hm with hm | heq'
        · exact h.verdict c' r hm
        · cases heq'
          cases hmade with
          | seen | summed | inserted | committed => exact ⟨_, rfl⟩
          | gone id hgone =>
            dsimp only at hin
            rw [hgone] at hin
            cases hin
          | rolledBack e => exact absurd hmem (h.noFailure c e)
      · rcases List.mem_or_eq_of_mem_set hm with hm | heq'
        · exact h.noFailure c' e hm
        · cases heq'
          cases hmade with
          | clashed n hclash => exact h.counted c n hmem hclash
      · rcases List.mem_or_eq_of_mem_set hm with hm | heq'
        · -- the call that has counted has the lock, so nobody else puts a device in
          obtain ⟨j, hj⟩ := List.mem_iff_getElem?.mp hm
          have hrows : t.hwids = s.table.hwids := by
            cases hmade.effect with
            | keeps _ _ hrows => exact hrows
            | takes _ _ _ _ hrows => exact hrows
            | gives _ _ _ hrows => exact hrows
            | inserts m hp =>
              obtain rfl := hinv.alone hcall (hp ▸ rfl) hj rfl
              obtain ⟨-, rfl⟩ : c = c' ∧ p = .counted n := by simpa using hcall.symm.trans hj
              cases hp
          exact fun hw => h.counted c' n hm (hrows ▸ hw)
        · cases heq'
          cases hmade with
          | counted hlt =>
            intro hw
            dsimp only at hin hw
            rw [(registered_iff _).mpr hw] at hin
            cases hl : c.limit with
            | some limit => simp [hl] at hin
            | none =>
              simp only [hl, effectiveDeviceCeiling] at hlt
              simp only [hl, Bool.not_true, decide_true, Bool.true_and, Bool.false_or,
                decide_eq_true_eq] at hin
              omega

theorem limitsHold_step (hinv : DevicesInv systemMax s) (h : Timely s) {e : DeviceEvent}
    (hin : inTime systemMax s e = true) : LimitsHold systemMax s e (s.step systemMax e) := by
  have hinv' := hinv.step e
  refine ⟨(h.step hinv hin).verdict, hinv'.goesOn, fun i c v hcall hdecided hdenied => ?_,
    fun hwid hnew hold => ?_, hinv'.oneRow, hinv'.total⟩
  · cases e with
    | call hwid limit =>
      have hi := (List.getElem?_eq_some_iff.mp hcall).1
      have hkept : (s.calls ++ [enforceHwid hwid limit])[i]? = s.calls[i]? :=
        List.getElem?_append_left hi
      cases (hkept.trans hcall).symm.trans hdecided
    | remove id => cases hcall.symm.trans hdecided
    | turn j now =>
      rcases turn_cases j now with heq | ⟨c', p, t, p', hcall', hs, heq⟩
      · rw [Devices.step, heq] at hdecided
        cases hcall.symm.trans hdecided
      · rw [Devices.step, heq] at hdecided
        by_cases hij : i = j
        · subst hij
          obtain ⟨rfl, rfl⟩ : c = c' ∧ Progress.locked = p := by simpa using hcall.symm.trans hcall'
          have hself := List.getElem?_set_self (a := (c, p'))
            (List.getElem?_eq_some_iff.mp hcall).1
          obtain rfl : p' = .decided v := by simpa using hself.symm.trans hdecided
          simp only [inTime, hcall] at hin
          cases made_of_statement hs with
          | unrecorded => cases hdenied
          | denied limit hlimit =>
            intro hw
            simp [(registered_iff _).mpr hw, hlimit] at hin
        · have hkept := (List.getElem?_set_ne (a := (c', p')) (Ne.symm hij)).trans hcall
          cases hkept.symm.trans hdecided
  · cases e with
    | call => exact absurd hnew hold
    | remove id => exact absurd ((hwids_remove id).subset hnew) hold
    | turn i now =>
      rcases turn_cases i now with heq | ⟨c, p, t, p', hcall, hs, heq⟩
      · rw [Devices.step, heq] at hnew
        exact absurd hnew hold
      · rw [Devices.step, heq] at hnew
        cases (made_of_statement hs).effect with
        | keeps _ _ hrows => exact absurd (hrows ▸ hnew) hold
        | takes _ _ _ _ hrows => exact absurd (hrows ▸ hnew) hold
        | gives _ _ _ hrows => exact absurd (hrows ▸ hnew) hold
        | inserts n hp _ _ hrows =>
          have hcount := hinv.counted i c n (.inr (hp ▸ hcall))
          refine ⟨i, now, c, p, rfl, hcall, ?_, Nat.lt_of_le_of_lt hcount.1 hcount.2⟩
          have hmem : hwid ∈ s.table.hwids ++ [c.hwid] := hrows ▸ hnew
          rcases List.mem_append.mp hmem with hmem | hmem
          · exact absurd hmem hold
          · exact (List.mem_singleton.mp hmem).symm

end InTime

/-! ## Runs -/

theorem timely_of_fresh {systemMax : Nat} {s : Devices} (h : s.Fresh systemMax) : Timely s := by
  refine ⟨fun c r hm => ?_, fun c e hm => ?_, fun c n hm => ?_⟩ <;>
  · rw [h.calls] at hm
    cases hm

/-- **The limits of a run whose calls go on from what still holds.** -/
theorem limits_hold {systemMax : Nat} {s₀ s : Devices}
    {steps : List (Devices × DeviceEvent × Devices)} (h : (devices systemMax).Run s₀ steps s)
    (h₀ : (devices systemMax).start s₀) (hin : ∀ st ∈ steps, inTime systemMax st.1 st.2.1 = true) :
    ∀ st ∈ steps, LimitsHold systemMax st.1 st.2.1 st.2.2 := by
  have hkept : DevicesInv systemMax s₀ ∧ Timely s₀ := ⟨inv_of_fresh h₀, timely_of_fresh h₀⟩
  clear h₀
  induction h with
  | nil => exact nofun
  | cons hs h ih =>
    obtain ⟨hinv, htimely⟩ := hkept
    have hfirst := hin _ List.mem_cons_self
    cases hs
    refine List.forall_mem_cons.mpr ⟨limitsHold_step hinv htimely hfirst, ?_⟩
    exact ih (fun st hst => hin st (List.mem_cons_of_mem _ hst))
      ⟨hinv.step _, htimely.step hinv hfirst⟩

/-- No device, no call. -/
def noDevices : Devices := ⟨⟨[], none, 0⟩, []⟩

theorem noDevices_fresh (systemMax : Nat) : (devices systemMax).start noDevices :=
  ⟨rfl, rfl, List.nodup_nil, Nat.zero_le _⟩

/-- A first request of `phone` with room for one device. -/
def firstRequest : DeviceEvent := .call (some "phone") (some 1)

/-- One request, to its end. -/
def oneRequest : List DeviceEvent := firstRequest :: List.replicate 5 (.turn 0 60)

/-- Two at once: both look the device up before either has put it in. -/
def twoRequests : List DeviceEvent :=
  [firstRequest, firstRequest, .turn 0 60, .turn 1 60] ++ List.replicate 4 (.turn 0 60)
    ++ List.replicate 3 (.turn 1 60)

theorem limits_hold_oneRequest : (devices 1000).start noDevices ∧
    ∀ st ∈ Machine.trace (Devices.step 1000) noDevices oneRequest,
      LimitsHold 1000 st.1 st.2.1 st.2.2 :=
  ⟨noDevices_fresh 1000,
    limits_hold (Machine.run_trace _ _ noDevices oneRequest) (noDevices_fresh 1000) (by decide)⟩

/-- **The owner's own device is refused**: the second request counts under the lock the row the
first has put in for the same device, and finds the limit reached. -/
theorem owner_refused : ∃ s,
    (devices 1000).Run noDevices (Machine.trace (Devices.step 1000) noDevices twoRequests) s ∧
    (devices 1000).start noDevices ∧
    ¬ ∀ st ∈ Machine.trace (Devices.step 1000) noDevices twoRequests,
      LimitsHold 1000 st.1 st.2.1 st.2.2 := by
  refine ⟨_, Machine.run_trace _ _ noDevices twoRequests, noDevices_fresh 1000, fun h => ?_⟩
  have hstep := h _ (List.get_mem _ ⟨9, by decide⟩)
  exact hstep.known 1 ⟨"phone", some 1⟩ ⟨.denied, 1, some 1⟩ (by decide) (by decide) rfl (by decide)

end Iceslab.Hwid
