import Mathlib.Data.List.Dedup

/-!
# Insertion-ordered maps

The map a program gets when keys are remembered in the order they were first written: a list of
entries whose keys are pairwise distinct (the invariant is a field).

* `alter` — the one update: rewrite the value under a key in place, or append it.
* `collect` — a loop that alters one key per element.  `get?_collect`: the value under `k` is
  the loop run over the elements of key `k` alone, so a grouping loop is read off per key.
* `groupBy` — the special case that gathers the elements themselves (`get?_groupBy`).
* `List.nodup_eraseDups` — a set spread back into a list repeats nothing.
-/

set_option autoImplicit false

/-! ## Sets in insertion order -/

theorem List.nodup_eraseDups {α : Type*} [BEq α] [LawfulBEq α] (l : List α) :
    l.eraseDups.Nodup := by
  induction h : l.length using Nat.strongRecOn generalizing l with
  | _ n ih =>
    cases l with
    | nil => simp
    | cons a l =>
      rw [List.eraseDups_cons, List.nodup_cons]
      refine ⟨fun hm => ?_, ih _ ?_ _ rfl⟩
      · have := List.mem_filter.mp (List.mem_eraseDups.mp hm)
        simp at this
      · have := List.length_filter_le (fun b => !b == a) l
        simp only [List.length_cons] at h
        omega

/-- A map that remembers the order its keys were first written in. -/
structure OrderedMap (κ ν : Type*) where
  entries : List (κ × ν)
  nodup : (entries.map Prod.fst).Nodup

namespace OrderedMap

variable {κ ν α : Type*}

def keys (m : OrderedMap κ ν) : List κ := m.entries.map Prod.fst

def values (m : OrderedMap κ ν) : List ν := m.entries.map Prod.snd

def size (m : OrderedMap κ ν) : Nat := m.entries.length

def empty : OrderedMap κ ν := ⟨[], by simp⟩

theorem nodup_keys (m : OrderedMap κ ν) : m.keys.Nodup := m.nodup

@[simp] theorem keys_empty : (empty : OrderedMap κ ν).keys = [] := rfl

variable [DecidableEq κ] {m : OrderedMap κ ν} {k : κ}

def get? (m : OrderedMap κ ν) (k : κ) : Option ν :=
  (m.entries.find? (fun e => decide (e.1 = k))).map Prod.snd

def has (m : OrderedMap κ ν) (k : κ) : Bool := (m.get? k).isSome

/-! ## Reading -/

@[simp] theorem get?_empty (k : κ) : (empty : OrderedMap κ ν).get? k = none := rfl

theorem get?_eq_some_iff (m : OrderedMap κ ν) (k : κ) (v : ν) :
    m.get? k = some v ↔ (k, v) ∈ m.entries := by
  obtain ⟨es, hnd⟩ := m
  simp only [get?]
  induction es with
  | nil => simp
  | cons e es ih =>
    obtain ⟨k', v'⟩ := e
    simp only [List.map_cons, List.nodup_cons] at hnd
    by_cases hk : k' = k
    · subst hk
      have hnot : (k', v) ∉ es := fun hm => hnd.1 (List.mem_map_of_mem (f := Prod.fst) hm)
      simp [hnot, eq_comm]
    · simp only [List.find?_cons, hk, decide_false, List.mem_cons, Prod.mk.injEq]
      rw [ih hnd.2]
      constructor
      · exact Or.inr
      · rintro (⟨h, _⟩ | h)
        · exact absurd h.symm hk
        · exact h

theorem get?_eq_none_iff (m : OrderedMap κ ν) (k : κ) : m.get? k = none ↔ k ∉ m.keys := by
  simp only [get?, keys, Option.map_eq_none_iff, List.find?_eq_none, decide_eq_true_eq,
    List.mem_map, not_exists, not_and]

theorem has_iff (m : OrderedMap κ ν) (k : κ) : m.has k = true ↔ k ∈ m.keys := by
  rw [has, Option.isSome_iff_ne_none, ne_eq, get?_eq_none_iff, not_not]

theorem exists_get?_of_mem_keys (h : k ∈ m.keys) : ∃ v, m.get? k = some v := by
  obtain ⟨⟨_, v⟩, he, rfl⟩ := List.mem_map.mp h
  exact ⟨v, (get?_eq_some_iff m _ v).mpr he⟩

theorem mem_keys_of_get? {v : ν} (h : m.get? k = some v) : k ∈ m.keys :=
  List.mem_map_of_mem (f := Prod.fst) ((get?_eq_some_iff m k v).mp h)

/-! ## The one update -/

/-- Rewrite the value under `k` where it stands, or append one. -/
def alterEntries (k : κ) (f : Option ν → ν) : List (κ × ν) → List (κ × ν)
  | [] => [(k, f none)]
  | (k', v) :: es => if k' = k then (k', f (some v)) :: es else (k', v) :: alterEntries k f es

theorem map_fst_alterEntries (k : κ) (f : Option ν → ν) (es : List (κ × ν)) :
    (alterEntries k f es).map Prod.fst
      = if k ∈ es.map Prod.fst then es.map Prod.fst else es.map Prod.fst ++ [k] := by
  induction es with
  | nil => simp [alterEntries]
  | cons e es ih =>
    obtain ⟨k', v⟩ := e
    by_cases hk : k' = k
    · simp [alterEntries, hk]
    · have hk' : ¬ k = k' := fun h => hk h.symm
      simp only [alterEntries, hk, if_false, List.map_cons, ih, List.mem_cons, hk', false_or]
      split <;> simp

def alter (m : OrderedMap κ ν) (k : κ) (f : Option ν → ν) : OrderedMap κ ν where
  entries := alterEntries k f m.entries
  nodup := by
    rw [map_fst_alterEntries]
    split
    · exact m.nodup
    · rename_i h
      exact List.Nodup.append m.nodup (by simp) (by simpa using h)

def set (m : OrderedMap κ ν) (k : κ) (v : ν) : OrderedMap κ ν := m.alter k (fun _ => v)

theorem flatten_alter_perm {β : Type*} (m : OrderedMap κ (List β)) (k : κ) (b : β) :
    ((m.alter k fun l => l.getD [] ++ [b]).entries.flatMap Prod.snd).Perm
      (b :: m.entries.flatMap Prod.snd) := by
  obtain ⟨es, hnd⟩ := m
  simp only [alter]
  clear hnd
  induction es with
  | nil => simp [alterEntries]
  | cons e es ih =>
    obtain ⟨k', l⟩ := e
    by_cases hk : k' = k
    · simp only [alterEntries, hk, if_true, List.flatMap_cons, Option.getD_some, List.append_assoc]
      exact List.perm_middle
    · simp only [alterEntries, hk, if_false, List.flatMap_cons]
      exact (ih.append_left l).trans List.perm_middle

theorem keys_alter (m : OrderedMap κ ν) (k : κ) (f : Option ν → ν) :
    (m.alter k f).keys = if k ∈ m.keys then m.keys else m.keys ++ [k] :=
  map_fst_alterEntries k f m.entries

theorem get?_alter (m : OrderedMap κ ν) (k k' : κ) (f : Option ν → ν) :
    (m.alter k f).get? k' = if k' = k then some (f (m.get? k)) else m.get? k' := by
  obtain ⟨es, hnd⟩ := m
  simp only [get?, alter]
  induction es with
  | nil => by_cases h : k' = k <;> simp [alterEntries, h, eq_comm]
  | cons e es ih =>
    obtain ⟨k₀, v⟩ := e
    simp only [List.map_cons, List.nodup_cons] at hnd
    have ih := ih hnd.2
    by_cases h₀ : k₀ = k
    · subst h₀
      by_cases h : k' = k₀
      · simp [alterEntries, h]
      · have h' : ¬ k₀ = k' := fun e => h e.symm
        simp [alterEntries, h, h']
    · by_cases h : k' = k
      · subst h
        simpa [alterEntries, h₀] using ih
      · by_cases h₁ : k₀ = k'
        · simp [alterEntries, h, h₁]
        · simpa [alterEntries, h₀, h, h₁] using ih

theorem get?_set (m : OrderedMap κ ν) (k k' : κ) (v : ν) :
    (m.set k v).get? k' = if k' = k then some v else m.get? k' :=
  get?_alter m k k' _

omit [DecidableEq κ] in
theorem ext_entries {m m' : OrderedMap κ ν} (h : m.entries = m'.entries) : m = m' := by
  cases m
  cases m'
  cases h
  rfl

theorem set_set (m : OrderedMap κ ν) (k : κ) (v w : ν) : (m.set k v).set k w = m.set k w := by
  obtain ⟨es, hnd⟩ := m
  refine ext_entries ?_
  simp only [set, alter]
  clear hnd
  induction es with
  | nil => simp [alterEntries]
  | cons e es ih =>
    by_cases hk : e.1 = k
    · simp [alterEntries, hk]
    · simp [alterEntries, hk, ih]

theorem set_of_get? {v : ν} (h : m.get? k = some v) : m.set k v = m := by
  obtain ⟨es, hnd⟩ := m
  refine ext_entries ?_
  simp only [get?] at h
  simp only [set, alter]
  clear hnd
  induction es with
  | nil => cases h
  | cons e es ih =>
    by_cases hk : e.1 = k
    · simp only [List.find?_cons, hk, decide_true, Option.map_some, Option.some.injEq] at h
      simp [alterEntries, ← h, ← hk]
    · simp only [List.find?_cons, hk, decide_false] at h
      simp [alterEntries, hk, ih h]

theorem filter_entries_key (m : OrderedMap κ ν) (k : κ) :
    m.entries.filter (fun e => decide (e.1 = k)) = (m.get? k).toList.map (fun v => (k, v)) := by
  obtain ⟨es, hnd⟩ := m
  simp only [get?]
  induction es with
  | nil => rfl
  | cons e es ih =>
    obtain ⟨k', v⟩ := e
    simp only [List.map_cons, List.nodup_cons] at hnd
    by_cases hk : k' = k
    · subst hk
      have hrest : es.filter (fun e => decide (e.1 = k')) = [] := by
        rw [List.filter_eq_nil_iff]
        intro e he heq
        exact hnd.1 (List.mem_map.mpr ⟨e, he, by simpa using heq⟩)
      simp [hrest]
    · simpa [hk] using ih hnd.2

/-- Drop the entries whose key does not pass. -/
def filter (p : κ → Bool) (m : OrderedMap κ ν) : OrderedMap κ ν where
  entries := m.entries.filter (fun e => p e.1)
  nodup := m.nodup.sublist (List.filter_sublist.map Prod.fst)

theorem get?_filter (p : κ → Bool) (m : OrderedMap κ ν) (k : κ) :
    (m.filter p).get? k = if p k then m.get? k else none := by
  ext v
  rw [get?_eq_some_iff]
  simp only [filter, List.mem_filter]
  by_cases hp : p k = true
  · rw [if_pos hp, get?_eq_some_iff]
    simp [hp]
  · simp [hp]

theorem entries_set_of_none (v : ν) (h : m.get? k = none) :
    (m.set k v).entries = m.entries ++ [(k, v)] := by
  obtain ⟨es, hnd⟩ := m
  simp only [get?, Option.map_eq_none_iff] at h
  simp only [set, alter]
  clear hnd
  induction es with
  | nil => rfl
  | cons e es ih =>
    by_cases hk : e.1 = k
    · simp [hk] at h
    · simp only [List.find?_cons, hk, decide_false] at h
      simp [alterEntries, hk, ih h]

theorem filter_set (v : ν) (h : m.get? k = none) :
    (m.set k v).filter (fun k' => decide (k' ≠ k)) = m := by
  refine ext_entries ?_
  have hkept : m.entries.filter (fun e => decide (e.1 ≠ k)) = m.entries := by
    refine List.filter_eq_self.mpr fun e he => decide_eq_true ?_
    rintro rfl
    exact (get?_eq_none_iff m _).mp h (List.mem_map_of_mem (f := Prod.fst) he)
  simp only [filter, entries_set_of_none v h, List.filter_append, hkept]
  simp

/-- Back to what was under `k` before. -/
def restore (m : OrderedMap κ ν) (k : κ) : Option ν → OrderedMap κ ν
  | some v => m.set k v
  | none => m.filter fun k' => decide (k' ≠ k)

theorem restore_set (m : OrderedMap κ ν) (k : κ) (v : ν) :
    (m.set k v).restore k (m.get? k) = m := by
  cases hprev : m.get? k with
  | none => exact filter_set v hprev
  | some prev =>
    show (m.set k v).set k prev = m
    rw [set_set, set_of_get? hprev]

theorem entries_ne_nil_of_get? {v : ν} (h : m.get? k = some v) : m.entries ≠ [] := by
  intro hnil
  rw [get?_eq_some_iff, hnil] at h
  cases h

/-! ## Loops that alter one key per element -/

section Collect

variable (key : α → κ) (step : Option ν → α → ν)

/-- `for (const a of l) m.set(key(a), step(m.get(key(a)), a))`, from a given map. -/
def collectFrom (m : OrderedMap κ ν) (l : List α) : OrderedMap κ ν :=
  l.foldl (fun m a => m.alter (key a) (fun o => step o a)) m

def collect (l : List α) : OrderedMap κ ν := collectFrom key step empty l

theorem get?_collectFrom (m : OrderedMap κ ν) (l : List α) (k : κ) :
    (collectFrom key step m l).get? k
      = (l.filter (fun a => decide (key a = k))).foldl (fun o a => some (step o a)) (m.get? k) := by
  induction l generalizing m with
  | nil => simp [collectFrom]
  | cons a l ih =>
    have hrun : collectFrom key step m (a :: l)
        = collectFrom key step (m.alter (key a) (fun o => step o a)) l := rfl
    rw [hrun, ih, get?_alter]
    by_cases h : key a = k
    · simp [h]
    · have h' : ¬ k = key a := fun e => h e.symm
      simp [h, h']

/-- **The value under a key is the loop run over the elements of that key.** -/
theorem get?_collect (l : List α) (k : κ) :
    (collect key step l).get? k
      = (l.filter (fun a => decide (key a = k))).foldl (fun o a => some (step o a)) none :=
  get?_collectFrom key step empty l k

theorem mem_keys_collectFrom (m : OrderedMap κ ν) (l : List α) (k : κ) :
    k ∈ (collectFrom key step m l).keys ↔ k ∈ m.keys ∨ ∃ a ∈ l, key a = k := by
  induction l generalizing m with
  | nil => simp [collectFrom]
  | cons a l ih =>
    have hrun : collectFrom key step m (a :: l)
        = collectFrom key step (m.alter (key a) (fun o => step o a)) l := rfl
    rw [hrun, ih, keys_alter]
    by_cases hm : key a ∈ m.keys
    · simp only [hm, if_true, List.mem_cons, exists_eq_or_imp]
      constructor
      · rintro (h | h)
        · exact Or.inl h
        · exact Or.inr (Or.inr h)
      · rintro (h | rfl | h)
        · exact Or.inl h
        · exact Or.inl hm
        · exact Or.inr h
    · simp only [hm, if_false, List.mem_append, List.mem_cons, exists_eq_or_imp, or_assoc,
        List.not_mem_nil, false_or, @eq_comm _ k]

theorem mem_keys_collect (l : List α) (k : κ) :
    k ∈ (collect key step l).keys ↔ ∃ a ∈ l, key a = k := by
  simp [collect, mem_keys_collectFrom]

theorem mem_values_iff (m : OrderedMap κ ν) (v : ν) : v ∈ m.values ↔ ∃ k, m.get? k = some v := by
  simp only [values, List.mem_map, get?_eq_some_iff]
  constructor
  · rintro ⟨⟨k, _⟩, he, rfl⟩
    exact ⟨k, he⟩
  · rintro ⟨k, he⟩
    exact ⟨(k, v), he, rfl⟩

theorem get?_collect_eq_none (l : List α) (k : κ) :
    (collect key step l).get? k = none ↔ ∀ a ∈ l, key a ≠ k := by
  rw [get?_eq_none_iff, mem_keys_collect]
  simp

omit [DecidableEq κ] in
theorem getD_foldl_some (d : ν) (step : ν → α → ν) (l : List α) (o : Option ν) :
    (l.foldl (fun o a => some (step (o.getD d) a)) o).getD d = l.foldl step (o.getD d) := by
  induction l generalizing o with
  | nil => rfl
  | cons a l ih => exact ih _

/-- A loop that starts each key from a value of its own. -/
theorem getD_get?_collect (d : ν) (step : ν → α → ν) (l : List α) (k : κ) :
    ((collect key (fun o a => step (o.getD d) a) l).get? k).getD d
      = (l.filter (fun a => decide (key a = k))).foldl step d := by
  rw [get?_collect, getD_foldl_some]
  rfl

/-- Where every element has its own key, the elements of a key are one. -/
theorem filter_key_of_nodup {l : List α} (h : (l.map key).Nodup) {a : α}
    (ha : a ∈ l) : l.filter (fun b => decide (key b = key a)) = [a] := by
  induction l with
  | nil => cases ha
  | cons b l ih =>
    simp only [List.map_cons, List.nodup_cons] at h
    rcases List.mem_cons.mp ha with rfl | ha
    · have hrest : l.filter (fun b => decide (key b = key a)) = [] := by
        rw [List.filter_eq_nil_iff]
        intro c hc he
        exact h.1 (List.mem_map.mpr ⟨c, hc, by simpa using he⟩)
      simp [hrest]
    · have hne : ¬ key b = key a := fun he => h.1 (he ▸ List.mem_map_of_mem ha)
      rw [List.filter_cons, if_neg (by simpa using hne), ih h.2 ha]

/-- Where every element has its own key, the value is what the loop makes of that element. -/
theorem get?_collect_of_nodup {l : List α} (h : (l.map key).Nodup) {a : α} (ha : a ∈ l) :
    (collect key step l).get? (key a) = some (step none a) := by
  rw [get?_collect, filter_key_of_nodup key h ha]
  rfl

theorem foldl_keep (v : α → ν) (l : List α) (b : ν) :
    l.foldl (fun (o : Option ν) a => some (o.getD (v a))) (some b) = some b := by
  induction l with
  | nil => rfl
  | cons a l ih => simpa using ih

/-- A loop that keeps what it finds: the first element of the key decides. -/
theorem get?_collect_keep (v : α → ν) (l : List α) (k : κ) :
    (collect key (fun o a => o.getD (v a)) l).get? k
      = (l.find? (fun a => decide (key a = k))).map v := by
  rw [get?_collect]
  induction l with
  | nil => rfl
  | cons a l ih =>
    by_cases h : key a = k
    · simp [h, foldl_keep]
    · simpa [h] using ih

/-- The kept elements carry the keys they are kept under. -/
theorem map_values_collect_keep (key : α → κ) (l : List α) :
    (collect key (fun o a => o.getD a) l).values.map key
      = (collect key (fun o a => o.getD a) l).keys := by
  rw [values, keys, List.map_map]
  refine List.map_congr_left fun e he => ?_
  have hget := (get?_eq_some_iff _ e.1 e.2).mpr he
  have hkeep := get?_collect_keep key (fun a => a) l e.1
  rw [hget, Option.map_id'] at hkeep
  simpa using List.find?_some hkeep.symm

end Collect

/-- Gather the elements by key, both orders kept. -/
def groupBy (key : α → κ) (l : List α) : OrderedMap κ (List α) :=
  collect key (fun o a => o.getD [] ++ [a]) l

theorem foldl_gather (l acc : List α) :
    l.foldl (fun (o : Option (List α)) a => some (o.getD [] ++ [a])) (some acc)
      = some (acc ++ l) := by
  induction l generalizing acc with
  | nil => simp
  | cons a l ih => simp [ih]

theorem get?_groupBy (key : α → κ) (l : List α) (k : κ) :
    (groupBy key l).get? k
      = if ∃ a ∈ l, key a = k then some (l.filter (fun a => decide (key a = k))) else none := by
  rw [groupBy, get?_collect]
  cases h : l.filter (fun a => decide (key a = k)) with
  | nil =>
    have : ¬ ∃ a ∈ l, key a = k := by
      rintro ⟨a, ha, hk⟩
      have := List.filter_eq_nil_iff.mp h a ha
      simp [hk] at this
    simp [this]
  | cons a as =>
    have ha : a ∈ l.filter (fun a => decide (key a = k)) := by rw [h]; exact List.mem_cons_self
    have : ∃ a ∈ l, key a = k := ⟨a, (List.mem_filter.mp ha).1, by simpa using (List.mem_filter.mp ha).2⟩
    rw [if_pos this, List.foldl_cons]
    exact foldl_gather as [a]

theorem mem_entries_groupBy (key : α → κ) (l : List α) (k : κ) (as : List α) :
    (k, as) ∈ (groupBy key l).entries
      ↔ (∃ a ∈ l, key a = k) ∧ as = l.filter (fun a => decide (key a = k)) := by
  rw [← get?_eq_some_iff, get?_groupBy]
  split
  · rename_i h
    simp only [Option.some.injEq, h, true_and]
    exact eq_comm
  · rename_i h
    simp [h]

theorem mem_keys_groupBy (key : α → κ) (l : List α) (k : κ) :
    k ∈ (groupBy key l).keys ↔ ∃ a ∈ l, key a = k :=
  mem_keys_collect key _ l k

end OrderedMap
