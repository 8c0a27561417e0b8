import Mathlib.Logic.Function.Basic

/-!
# Keys that expire

A store of keys that may be set to go at a time, the clock passed to every read.  A key is there up
to and including the time it is set to go at.
-/

set_option autoImplicit false

/-- What a key holds, and when it goes. -/
structure Slot (ν : Type) where
  value : ν
  goesAt : Option Nat
deriving DecidableEq, Repr

/-- The keys of a store. -/
structure Expiring (κ ν : Type) where
  slot : κ → Option (Slot ν)

namespace Expiring

variable {κ ν : Type} [DecidableEq κ]

def empty : Expiring κ ν := ⟨fun _ => none⟩

omit [DecidableEq κ] in
/-- The slot of a key that has not gone. -/
def find (keys : Expiring κ ν) (now : Nat) (key : κ) : Option (Slot ν) :=
  (keys.slot key).filter fun s => s.goesAt.all fun t => decide (now ≤ t)

omit [DecidableEq κ] in
def get (keys : Expiring κ ν) (now : Nat) (key : κ) : Option ν :=
  (keys.find now key).map Slot.value

def put (keys : Expiring κ ν) (key : κ) (s : Option (Slot ν)) : Expiring κ ν :=
  ⟨Function.update keys.slot key s⟩

def set (keys : Expiring κ ν) (key : κ) (value : ν) (goesAt : Option Nat) : Expiring κ ν :=
  keys.put key (some ⟨value, goesAt⟩)

def del (keys : Expiring κ ν) (key : κ) : Expiring κ ν := keys.put key none

/-- A key that is there goes at a time. -/
def expire (keys : Expiring κ ν) (now : Nat) (key : κ) (goesAt : Nat) : Expiring κ ν :=
  match keys.find now key with
  | some s => keys.put key (some { s with goesAt := some goesAt })
  | none => keys

/-- Count up a key, from none. -/
def incr (keys : Expiring κ Nat) (now : Nat) (key : κ) : Expiring κ Nat :=
  match keys.find now key with
  | some s => keys.put key (some { s with value := s.value + 1 })
  | none => keys.put key (some ⟨1, none⟩)

section Lemmas

variable {keys : Expiring κ ν} {now t : Nat} {key other : κ} {v : ν} {s : Option (Slot ν)}

@[simp] theorem put_slot_self : (keys.put key s).slot key = s := by
  simp [put]

theorem put_slot_of_ne (h : other ≠ key) : (keys.put key s).slot other = keys.slot other := by
  simp [put, h]

theorem expire_slot_of_ne (h : other ≠ key) :
    (keys.expire now key t).slot other = keys.slot other := by
  unfold expire
  split
  · exact put_slot_of_ne h
  · rfl

theorem incr_slot_of_ne {keys : Expiring κ Nat} (h : other ≠ key) :
    (keys.incr now key).slot other = keys.slot other := by
  unfold incr
  split <;> exact put_slot_of_ne h

omit [DecidableEq κ] in
/-- A key set to go later is still there. -/
theorem get_of_slot (h : keys.slot key = some ⟨v, some t⟩) (hnow : now ≤ t) :
    keys.get now key = some v := by
  unfold get find
  rw [h, Option.filter_some, if_pos (by simpa using hnow)]
  rfl

end Lemmas

end Expiring
