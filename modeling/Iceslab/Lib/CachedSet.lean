import Mathlib.Data.Finset.Basic

/-!
# A set kept elsewhere, with a memory of what was put into it

An owner adds to a set it cannot cheaply read and remembers what it has added, so that adding again
costs nothing.  The memory is sound: what it names is there.  It is lost with its owner
(`CachedSet.forget`), the set is not.

* `mem_add`, `mem_remove`, `mem_forget` — what each operation does to the set; the memory never
  shows.
* `mem_addAll`, `mem_removeAll`, `mem_removeOnce` — the same over a list, in any order.
-/

set_option autoImplicit false

structure CachedSet (α : Type*) where
  members : Finset α
  remembered : Finset α
  sound : remembered ⊆ members

namespace CachedSet

variable {α : Type*} {a x : α} {as : List α}

instance : Membership α (CachedSet α) := ⟨fun s a => a ∈ s.members⟩

/-- A set nothing was added to yet. -/
def ofMembers (members : Finset α) : CachedSet α := ⟨members, ∅, Finset.empty_subset _⟩

/-- The set under a new owner. -/
def forget (s : CachedSet α) : CachedSet α := ofMembers s.members

@[simp] theorem mem_forget (s : CachedSet α) : x ∈ s.forget ↔ x ∈ s := Iff.rfl

variable [DecidableEq α]

instance (s : CachedSet α) (a : α) : Decidable (a ∈ s) :=
  inferInstanceAs (Decidable (a ∈ s.members))

/-- Nothing is done for a remembered element. -/
def add (s : CachedSet α) (a : α) : CachedSet α :=
  if a ∈ s.remembered then s
  else ⟨insert a s.members, insert a s.remembered, Finset.insert_subset_insert a s.sound⟩

def remove (s : CachedSet α) (a : α) : CachedSet α :=
  ⟨s.members.erase a, s.remembered.erase a, Finset.erase_subset_erase a s.sound⟩

variable (s : CachedSet α)

@[simp] theorem mem_add : x ∈ s.add a ↔ x ∈ s ∨ x = a := by
  unfold add
  split
  · rename_i hr
    constructor
    · exact .inl
    · rintro (h | rfl)
      · exact h
      · exact s.sound hr
  · exact Finset.mem_insert.trans or_comm

@[simp] theorem mem_remove : x ∈ s.remove a ↔ x ∈ s ∧ x ≠ a :=
  Finset.mem_erase.trans and_comm

theorem mem_addAll (f : α → Bool) :
    x ∈ as.foldl (fun s a => if f a then s.add a else s) s ↔ x ∈ s ∨ x ∈ as ∧ f x = true := by
  induction as generalizing s with
  | nil => simp
  | cons a rest ih =>
    rw [List.foldl_cons, ih, List.mem_cons]
    by_cases ha : f a = true
    · rw [if_pos ha, mem_add]
      constructor
      · rintro ((h | rfl) | h)
        · exact .inl h
        · exact .inr ⟨.inl rfl, ha⟩
        · exact .inr ⟨.inr h.1, h.2⟩
      · rintro (h | ⟨rfl | h, hf⟩)
        · exact .inl (.inl h)
        · exact .inl (.inr rfl)
        · exact .inr ⟨h, hf⟩
    · rw [if_neg ha]
      constructor
      · rintro (h | h)
        · exact .inl h
        · exact .inr ⟨.inr h.1, h.2⟩
      · rintro (h | ⟨rfl | h, hf⟩)
        · exact .inl h
        · exact absurd hf ha
        · exact .inr ⟨h, hf⟩

theorem mem_removeAll (f : α → Bool) :
    x ∈ as.foldl (fun s a => if f a then s.remove a else s) s ↔
      x ∈ s ∧ ¬(x ∈ as ∧ f x = true) := by
  induction as generalizing s with
  | nil => simp
  | cons a rest ih =>
    rw [List.foldl_cons, ih, List.mem_cons]
    by_cases ha : f a = true
    · rw [if_pos ha, mem_remove]
      constructor
      · rintro ⟨⟨h, hne⟩, hn⟩
        exact ⟨h, fun hc => hn ⟨hc.1.resolve_left hne, hc.2⟩⟩
      · rintro ⟨h, hn⟩
        exact ⟨⟨h, fun he => hn ⟨.inl he, he ▸ ha⟩⟩, fun hc => hn ⟨.inr hc.1, hc.2⟩⟩
    · rw [if_neg ha]
      constructor
      · rintro ⟨h, hn⟩
        refine ⟨h, ?_⟩
        rintro ⟨rfl | hc, hf⟩
        · exact ha hf
        · exact hn ⟨hc, hf⟩
      · rintro ⟨h, hn⟩
        exact ⟨h, fun hc => hn ⟨.inr hc.1, hc.2⟩⟩

/-- Elements taken out one after the other, each once, but for those in `still`. -/
def removeOnce (f : α → Bool) : CachedSet α → List α → List α → CachedSet α
  | s, _, [] => s
  | s, still, a :: rest =>
    if a ∈ still then removeOnce f s still rest
    else removeOnce f (if f a then s.remove a else s) (a :: still) rest

theorem mem_removeOnce (f : α → Bool) (still : List α) :
    x ∈ removeOnce f s still as ↔ x ∈ s ∧ ¬(x ∈ as ∧ x ∉ still ∧ f x = true) := by
  induction as generalizing s still with
  | nil => simp [removeOnce]
  | cons a rest ih =>
    unfold removeOnce
    by_cases hs : a ∈ still
    · rw [if_pos hs, ih, List.mem_cons]
      constructor
      · rintro ⟨h, hn⟩
        refine ⟨h, ?_⟩
        rintro ⟨rfl | hc, hns, hf⟩
        · exact hns hs
        · exact hn ⟨hc, hns, hf⟩
      · rintro ⟨h, hn⟩
        exact ⟨h, fun hc => hn ⟨.inr hc.1, hc.2⟩⟩
    · rw [if_neg hs, ih, List.mem_cons, List.mem_cons]
      by_cases hxa : x = a
      · subst hxa
        by_cases hf : f x = true <;> simp [hf, hs]
      · have hmem : x ∈ (if f a then s.remove a else s) ↔ x ∈ s := by
          split
          · simp [hxa]
          · exact Iff.rfl
        rw [hmem]
        simp [hxa]

end CachedSet
