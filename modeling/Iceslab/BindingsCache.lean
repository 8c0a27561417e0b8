import Iceslab.Lib.Machine
import Iceslab.Lib.OrderedMap

/-!
# The bindings cache of subscriptions

`subscription.bindings-cache.ts`: rows by squad set, with the version of the configuration they were
loaded under, and the loads under way.  A load is asynchronous: between its start and its end other
calls, busts and loads run.  Loads are numbered in the order they start.

* `State.call`, `State.finish`, `State.fail`, `State.bust` — what the cache does.
* `Inv` — what every reachable state keeps.
* `bindings_cache_current` — no call is served rows of before the last bust, over whole runs.
-/

set_option autoImplicit false

namespace Iceslab.BindingsCache

def ttlMs : Nat := 60000

def maxEntries : Nat := 500

/-- A load, as its closure captures it. -/
structure Load (κ : Type) where
  key : κ
  version : Nat
  nowMs : Nat

structure Entry (ν : Type) where
  version : Nat
  expiresAt : Nat
  value : ν
  /-- the load the value is of -/
  load : Nat

/-- A load under way, with the version it started under. -/
structure Flight where
  version : Nat
  load : Nat
deriving DecidableEq

/-- The cache, the clock of its callers and the loaders that have not ended; beside them every load
ever started, how many were before the last bust, the ones that failed, and the rows the others have
returned. -/
structure State (κ ν : Type) where
  version : Nat
  clock : Nat
  store : OrderedMap κ (Entry ν)
  inflight : OrderedMap κ Flight
  running : List Nat
  history : List (Load κ)
  busted : Nat
  failed : List Nat
  returned : Nat → Option ν

inductive Answer (ν : Type)
  | hit (e : Entry ν)
  | joined (f : Flight)
  | started (load : Nat)

/-- The load whose rows the call is answered with. -/
def Answer.load {ν : Type} : Answer ν → Nat
  | .hit e => e.load
  | .joined f => f.load
  | .started load => load

inductive Event (κ ν : Type)
  | call (key : κ)
  | finish (load : Nat) (value : ν)
  | fail (load : Nat)
  | bust
  | advance (ms : Nat)

section Cache

variable {κ ν : Type} [DecidableEq κ]

def State.empty : State κ ν := ⟨0, 0, .empty, .empty, [], [], 0, [], fun _ => none⟩

/-- The entry a call is served from. -/
def State.hit (s : State κ ν) (key : κ) : Option (Entry ν) :=
  (s.store.get? key).filter fun e => decide (e.version = s.version ∧ s.clock < e.expiresAt)

/-- The load a call shares. -/
def State.pending (s : State κ ν) (key : κ) : Option Flight :=
  (s.inflight.get? key).filter fun f => decide (f.version = s.version)

/-- A loader started, and its flight written down. -/
def State.startLoad (s : State κ ν) (key : κ) : State κ ν :=
  { s with
    inflight := s.inflight.set key ⟨s.version, s.history.length⟩
    running := s.history.length :: s.running
    history := s.history ++ [⟨key, s.version, s.clock⟩] }

/-- `getCachedBindings` up to its first await. -/
def State.call (s : State κ ν) (key : κ) : State κ ν × Answer ν :=
  match s.hit key with
  | some e => (s, .hit e)
  | none =>
    match s.pending key with
    | some f => (s, .joined f)
    | none => (s.startLoad key, .started s.history.length)

/-- Room for a new key: the oldest one goes. -/
def evict (store : OrderedMap κ (Entry ν)) (key : κ) : OrderedMap κ (Entry ν) :=
  if maxEntries ≤ store.size ∧ store.has key = false then
    match store.keys.head? with
    | some oldest => store.filter fun k => decide (k ≠ oldest)
    | none => store
  else store

/-- An older load does not overwrite a newer entry. -/
def insertEntry (store : OrderedMap κ (Entry ν)) (key : κ) (e : Entry ν) : OrderedMap κ (Entry ν) :=
  match store.get? key with
  | none => store.set key e
  | some current => if current.version ≤ e.version then store.set key e else store

/-- `finally`: only the load's own flight is taken away. -/
def State.land (s : State κ ν) (load : Nat) (l : Load κ) : State κ ν :=
  { s with
    running := s.running.filter (· ≠ load)
    inflight :=
      if s.inflight.get? l.key = some ⟨l.version, load⟩ then
        s.inflight.filter fun k => decide (k ≠ l.key)
      else s.inflight }

/-- The loader of a load, where it has not ended. -/
def State.runningLoad (s : State κ ν) (load : Nat) : Option (Load κ) :=
  if load ∈ s.running then s.history[load]? else none

/-- What follows the loader's await, where it returned. -/
def State.finish (s : State κ ν) (load : Nat) (value : ν) : State κ ν :=
  match s.runningLoad load with
  | none => s
  | some l =>
    let e : Entry ν := ⟨l.version, l.nowMs + ttlMs, value, load⟩
    { s with
      store := insertEntry (evict s.store l.key) l.key e
      returned := Function.update s.returned load (some value) }.land load l

/-- What follows the loader's await, where it threw. -/
def State.fail (s : State κ ν) (load : Nat) : State κ ν :=
  match s.runningLoad load with
  | none => s
  | some l => { s with failed := load :: s.failed }.land load l

/-- `bustBindingsCache` -/
def State.bust (s : State κ ν) : State κ ν :=
  { s with version := s.version + 1, busted := s.history.length }

def State.step (s : State κ ν) : Event κ ν → State κ ν
  | .call key => (s.call key).1
  | .finish load value => s.finish load value
  | .fail load => s.fail load
  | .bust => s.bust
  | .advance ms => { s with clock := s.clock + ms }

def cache : Machine (State κ ν) (Event κ ν) := Machine.ofFun (· = .empty) State.step

end Cache

/-! ## What a call is promised -/

section Promise

variable {κ ν : Type} [DecidableEq κ]

/-- What a call made now is answered with: rows of a load for its key that started after the last
bust and has not failed; from the store, the rows this load returned, and no later than the TTL
after it started. -/
structure CallSound (s : State κ ν) (key : κ) : Prop where
  current : s.busted ≤ (s.call key).2.load
  loaded : ∃ l, (s.call key).1.history[(s.call key).2.load]? = some l ∧ l.key = key
  young : ∀ e, (s.call key).2 = .hit e → ∃ l, s.history[e.load]? = some l ∧
    s.clock < l.nowMs + ttlMs
  served : ∀ e, (s.call key).2 = .hit e → s.returned e.load = some e.value
  unfailed : (s.call key).2.load ∉ s.failed
  joined : ∀ f, (s.call key).2 = .joined f → f.load ∈ s.running

/-- What is promised of a state, and of every step out of it. -/
structure Current (s : State κ ν) : Prop where
  calls : ∀ key, CallSound s key
  singleFlight : ∀ i ∈ s.running, ∀ j ∈ s.running, ∀ l l', s.history[i]? = some l →
    s.history[j]? = some l' → l.key = l'.key → l.version = s.version → l'.version = s.version →
    i = j
  uncached : ∀ key e, s.store.get? key = some e → e.load ∉ s.failed
  newest : ∀ event key e e', s.store.get? key = some e → (s.step event).store.get? key = some e' →
    e.load ≤ e'.load
  bounded : s.store.size ≤ maxEntries

/-! ## The invariant -/

/-- An entry holds what an ended load for its key returned. -/
structure EntryOf (s : State κ ν) (key : κ) (e : Entry ν) : Prop where
  load : ∃ l, s.history[e.load]? = some l ∧ l.key = key ∧ l.version = e.version ∧
    e.expiresAt = l.nowMs + ttlMs
  ended : e.load ∉ s.running
  unfailed : e.load ∉ s.failed
  value : s.returned e.load = some e.value

structure Inv (s : State κ ν) : Prop where
  entries : ∀ key e, s.store.get? key = some e → EntryOf s key e
  flights : ∀ key f, s.inflight.get? key = some f → f.load ∈ s.running ∧
    ∃ l, s.history[f.load]? = some l ∧ l.key = key ∧ l.version = f.version
  started : ∀ i ∈ s.running, i < s.history.length
  unfailed : ∀ i ∈ s.running, i ∉ s.failed
  failed : ∀ i ∈ s.failed, i < s.history.length
  /-- a load of the current version is newer than the last bust -/
  version : ∀ (i : Nat) (l : Load κ), s.history[i]? = some l → l.version ≤ s.version ∧
    (l.version = s.version → s.busted ≤ i)
  /-- a load of the current version that runs is the one calls share -/
  shared : ∀ i ∈ s.running, ∀ l, s.history[i]? = some l → l.version = s.version →
    s.inflight.get? l.key = some ⟨l.version, i⟩
  /-- a load started beside a running one for its key is of a newer version -/
  later : ∀ i ∈ s.running, ∀ (j : Nat) (l l' : Load κ), i < j → s.history[i]? = some l →
    s.history[j]? = some l' → l.key = l'.key → l.version < l'.version
  busted : s.busted ≤ s.history.length
  bounded : s.store.size ≤ maxEntries

variable {s : State κ ν} {store : OrderedMap κ (Entry ν)} {key : κ} {e : Entry ν} {l new : Load κ}
  {i load : Nat}

theorem hit_eq_some (h : s.hit key = some e) :
    s.store.get? key = some e ∧ e.version = s.version ∧ s.clock < e.expiresAt := by
  simpa [State.hit, Option.filter_eq_some_iff] using h

theorem pending_eq_some {f : Flight} (h : s.pending key = some f) :
    s.inflight.get? key = some f ∧ f.version = s.version := by
  simpa [State.pending, Option.filter_eq_some_iff] using h

theorem pending_eq_none {f : Flight} (h : s.pending key = none)
    (hf : s.inflight.get? key = some f) : f.version ≠ s.version := by
  simpa [State.pending, hf, Option.filter_eq_none_iff] using h

omit [DecidableEq κ] in
theorem runningLoad_eq_some (h : s.runningLoad load = some l) :
    load ∈ s.running ∧ s.history[load]? = some l := by
  unfold State.runningLoad at h
  split at h
  · exact ⟨‹_›, h⟩
  · cases h

/-! ### The store -/

theorem size_filter_head {oldest : κ} (h : store.keys.head? = some oldest) :
    (store.filter fun k => decide (k ≠ oldest)).size + 1 ≤ store.size := by
  obtain ⟨es, hnd⟩ := store
  cases es with
  | nil => cases h
  | cons e es =>
    have he : e.1 = oldest := Option.some.inj h
    have hle := List.length_filter_le (fun e : κ × Entry ν => decide (e.1 ≠ oldest)) es
    simp only [OrderedMap.size, OrderedMap.filter, List.filter_cons, he, ne_eq, not_true_eq_false,
      decide_false, Bool.false_eq_true, if_false, List.length_cons] at hle ⊢
    omega

theorem size_evict (h : store.size ≤ maxEntries) (key : κ) :
    (evict store key).size ≤ maxEntries ∧
      ((evict store key).has key = false → (evict store key).size < maxEntries) := by
  unfold evict
  split
  · rename_i hfull
    split
    · rename_i oldest hold
      have hsize := size_filter_head hold
      constructor
      · omega
      · intro _
        omega
    · rename_i hnone
      have hnil : store.size = 0 := by
        have : store.keys = [] := List.head?_eq_none_iff.mp hnone
        simpa [OrderedMap.keys, OrderedMap.size] using this
      have hpos : 0 < maxEntries := by decide
      omega
  · rename_i hroom
    refine ⟨h, fun hnew => ?_⟩
    simp only [hnew, and_true, Nat.not_le] at hroom
    exact hroom

theorem evict_of_get? (h : store.get? key = some e) : evict store key = store := by
  unfold evict
  split
  · rename_i hfull
    have hhas := hfull.2
    simp [OrderedMap.has, h] at hhas
  · rfl

theorem get?_evict {key k : κ} (h : (evict store key).get? k = some e) : store.get? k = some e := by
  unfold evict at h
  split at h
  · split at h
    · rw [OrderedMap.get?_filter] at h
      split at h
      · exact h
      · cases h
    · exact h
  · exact h

theorem size_set :
    (store.set key e).size ≤ if store.has key then store.size else store.size + 1 := by
  have hkeys : (store.set key e).size = (store.set key e).keys.length := by
    simp [OrderedMap.keys, OrderedMap.size]
  rw [hkeys]
  have hlen : store.keys.length = store.size := by simp [OrderedMap.keys, OrderedMap.size]
  unfold OrderedMap.set
  rw [OrderedMap.keys_alter]
  by_cases hmem : key ∈ store.keys
  · rw [if_pos hmem, if_pos ((OrderedMap.has_iff store key).mpr hmem)]
    exact Nat.le_of_eq hlen
  · have hno : store.has key = false := by
      cases hh : store.has key with
      | false => rfl
      | true => exact absurd ((OrderedMap.has_iff store key).mp hh) hmem
    rw [if_neg hmem, hno]
    simp [hlen]

theorem size_insertEntry
    (h : store.size ≤ maxEntries) (hnew : store.has key = false → store.size < maxEntries) :
    (insertEntry store key e).size ≤ maxEntries := by
  have hset : (store.set key e).size ≤ maxEntries := by
    have hle : (store.set key e).size ≤ if store.has key then store.size else store.size + 1 :=
      size_set
    cases hhas : store.has key with
    | true =>
      rw [hhas] at hle
      simp only [if_true] at hle
      omega
    | false =>
      have hroom := hnew hhas
      rw [hhas] at hle
      simp only [Bool.false_eq_true, if_false] at hle
      omega
  unfold insertEntry
  split
  · exact hset
  · split
    · exact hset
    · exact h

theorem get?_insertEntry {key k : κ} {e e' : Entry ν}
    (h : (insertEntry store key e).get? k = some e') :
    (k = key ∧ e' = e ∧ ∀ current, store.get? key = some current → current.version ≤ e.version) ∨
      store.get? k = some e' := by
  unfold insertEntry at h
  split at h
  · rename_i hnone
    rw [OrderedMap.get?_set] at h
    split at h
    · rename_i hk
      exact Or.inl ⟨hk, (Option.some.inj h).symm, fun c hc => by rw [hnone] at hc; cases hc⟩
    · exact Or.inr h
  · rename_i current hcur
    split at h
    · rename_i hle
      rw [OrderedMap.get?_set] at h
      split at h
      · rename_i hk
        refine Or.inl ⟨hk, (Option.some.inj h).symm, fun c hc => ?_⟩
        rw [hcur] at hc
        cases hc
        exact hle
      · exact Or.inr h
    · exact Or.inr h

/-! ### Steps -/

theorem inv_empty : Inv (State.empty : State κ ν) where
  entries := nofun
  flights := nofun
  started := nofun
  unfailed := nofun
  failed := nofun
  version := nofun
  shared := nofun
  later := nofun
  busted := Nat.le_refl 0
  bounded := Nat.zero_le _

omit [DecidableEq κ] in
theorem getElem?_snoc {history : List (Load κ)} (h : (history ++ [new])[i]? = some l) :
    (i < history.length ∧ history[i]? = some l) ∨ (i = history.length ∧ l = new) := by
  rw [List.getElem?_append] at h
  split at h
  · exact Or.inl ⟨‹_›, h⟩
  · rename_i hge
    have hi : i - history.length = 0 := by
      by_contra hne
      rw [List.getElem?_eq_none (by simpa using by omega)] at h
      cases h
    rw [hi] at h
    exact Or.inr ⟨by omega, (Option.some.inj h).symm⟩

omit [DecidableEq κ] in
theorem getElem?_snoc_lt {history : List (Load κ)}
    (h : history[i]? = some l) : (history ++ [new])[i]? = some l := by
  obtain ⟨hi, -⟩ := List.getElem?_eq_some_iff.mp h
  rw [List.getElem?_append_left hi]
  exact h

theorem inv_startLoad (h : Inv s) (hpending : s.pending key = none) : Inv (s.startLoad key) := by
  have hfresh : ∀ i ∈ s.running, i ≠ s.history.length := fun i hi => Nat.ne_of_lt (h.started i hi)
  refine ⟨?_, ?_, ?_, ?_, ?_, ?_, ?_, ?_, ?_, h.bounded⟩
  · intro k e he
    obtain ⟨⟨l, hl, hk, hv, hx⟩, hended, hunfailed, hvalue⟩ := h.entries k e he
    refine ⟨⟨l, getElem?_snoc_lt hl, hk, hv, hx⟩, fun hmem => ?_, hunfailed, hvalue⟩
    rcases List.mem_cons.mp hmem with hnew | hold
    · have := (List.getElem?_eq_some_iff.mp hl).1
      omega
    · exact hended hold
  · intro k f hf
    have hf : (s.inflight.set key ⟨s.version, s.history.length⟩).get? k = some f := hf
    rw [OrderedMap.get?_set] at hf
    split at hf
    · rename_i hk
      cases hf
      exact ⟨List.mem_cons_self, _, List.getElem?_concat_length, hk.symm, rfl⟩
    · obtain ⟨hrun, l, hl, hk, hv⟩ := h.flights k f hf
      exact ⟨List.mem_cons_of_mem _ hrun, l, getElem?_snoc_lt hl, hk, hv⟩
  · intro i hi
    show i < (s.history ++ [_]).length
    rw [List.length_append, List.length_singleton]
    rcases List.mem_cons.mp hi with rfl | hi
    · omega
    · have := h.started i hi
      omega
  · intro i hi hfailed
    rcases List.mem_cons.mp hi with rfl | hi
    · exact absurd (h.failed _ hfailed) (Nat.lt_irrefl _)
    · exact h.unfailed i hi hfailed
  · intro i hi
    show i < (s.history ++ [_]).length
    rw [List.length_append, List.length_singleton]
    have := h.failed i hi
    omega
  · intro i l hl
    rcases getElem?_snoc hl with ⟨-, hl⟩ | ⟨rfl, rfl⟩
    · exact h.version i l hl
    · exact ⟨Nat.le_refl _, fun _ => h.busted⟩
  · intro i hi l hl hv
    show (s.inflight.set key ⟨s.version, s.history.length⟩).get? l.key = _
    rw [OrderedMap.get?_set]
    rcases List.mem_cons.mp hi with rfl | hi
    · rcases getElem?_snoc hl with ⟨hlt, -⟩ | ⟨-, rfl⟩
      · exact absurd hlt (Nat.lt_irrefl _)
      · exact if_pos rfl
    · rcases getElem?_snoc hl with ⟨-, hl⟩ | ⟨heq, -⟩
      · have hshared := h.shared i hi l hl hv
        by_cases hk : l.key = key
        · rw [hk] at hshared
          exact absurd hv (pending_eq_none hpending hshared)
        · rw [if_neg hk]
          exact hshared
      · exact absurd heq (hfresh i hi)
  · intro i hi j l l' hij hl hl' hk
    rcases getElem?_snoc hl with ⟨hlt, hl⟩ | ⟨rfl, -⟩
    · have hi : i ∈ s.running := by
        rcases List.mem_cons.mp hi with rfl | hi
        · exact absurd hlt (Nat.lt_irrefl _)
        · exact hi
      rcases getElem?_snoc hl' with ⟨-, hl'⟩ | ⟨rfl, rfl⟩
      · exact h.later i hi j l l' hij hl hl' hk
      · -- the running load for the key would have been shared
        show l.version < s.version
        refine Nat.lt_of_le_of_ne (h.version i l hl).1 fun hv => ?_
        have hshared := h.shared i hi l hl hv
        rw [hk] at hshared
        exact pending_eq_none hpending hshared hv
    · rcases getElem?_snoc hl' with ⟨hj, -⟩ | ⟨rfl, -⟩ <;> omega
  · show s.busted ≤ (s.history ++ [_]).length
    rw [List.length_append]
    have := h.busted
    omega

/-- A load that ends, whatever it leaves in the store and among the failed. -/
theorem inv_land (h : Inv s) (hload : load ∈ s.running)
    (hl : s.history[load]? = some l) {failed : List Nat}
    {returned : Nat → Option ν} (hreturned : ∀ i, i ≠ load → returned i = s.returned i)
    (hfailed : ∀ i ∈ failed, i = load ∨ i ∈ s.failed)
    (hstore : ∀ k e, store.get? k = some e → s.store.get? k = some e ∧ (e.load ∉ s.running) ∨
      load ∉ failed ∧ e.load = load ∧ l.key = k ∧ l.version = e.version ∧
        e.expiresAt = l.nowMs + ttlMs ∧ returned load = some e.value)
    (hsize : store.size ≤ maxEntries) : Inv ({ s with store, failed, returned }.land load l) := by
  have hrun : ∀ i, i ∈ s.running.filter (· ≠ load) → i ∈ s.running ∧ i ≠ load := by
    intro i hi
    simpa using List.mem_filter.mp hi
  have hflight : ∀ k f, ({ s with store, failed, returned }.land load l).inflight.get? k =
      some f → s.inflight.get? k = some f ∧ f.load ≠ load := by
    intro k f hf
    simp only [State.land] at hf
    split at hf
    · rename_i hown
      rw [OrderedMap.get?_filter] at hf
      split at hf
      · rename_i hk
        refine ⟨hf, fun heq => ?_⟩
        obtain ⟨-, l', hl', hk', -⟩ := h.flights k f hf
        rw [heq, hl] at hl'
        cases hl'
        simp [hk'] at hk
      · cases hf
    · rename_i hother
      refine ⟨hf, fun heq => hother ?_⟩
      obtain ⟨-, l', hl', hk', hv'⟩ := h.flights k f hf
      rw [heq, hl] at hl'
      cases hl'
      rw [hk', hf, hv', ← heq]
  refine ⟨?_, ?_, ?_, ?_, ?_, h.version, ?_, ?_, h.busted, hsize⟩
  · intro k e he
    rcases hstore k e he with ⟨hold, hended⟩ | ⟨hok, rfl, hk, hv, hx, hvalue⟩
    · obtain ⟨hof, -, hunfailed, hvalue⟩ := h.entries k e hold
      have hother : e.load ≠ load := fun heq => hended (heq ▸ hload)
      refine ⟨hof, fun hmem => hended (hrun _ hmem).1, fun hmem => ?_, ?_⟩
      · exact (hfailed _ hmem).elim hother hunfailed
      · exact (hreturned _ hother).trans hvalue
    · exact ⟨⟨l, hl, hk, hv, hx⟩, fun hmem => (hrun _ hmem).2 rfl, hok, hvalue⟩
  · intro k f hf
    obtain ⟨hf, hne⟩ := hflight k f hf
    obtain ⟨hmem, hof⟩ := h.flights k f hf
    exact ⟨List.mem_filter.mpr ⟨hmem, by simpa using hne⟩, hof⟩
  · intro i hi
    exact h.started i (hrun i hi).1
  · intro i hi hmem
    rcases hfailed i hmem with heq | hmem
    · exact (hrun i hi).2 heq
    · exact h.unfailed i (hrun i hi).1 hmem
  · intro i hi
    rcases hfailed i hi with rfl | hi
    · exact h.started _ hload
    · exact h.failed i hi
  · intro i hi l' hl' hv
    obtain ⟨hi, hne⟩ := hrun i hi
    have hshared := h.shared i hi l' hl' hv
    simp only [State.land]
    split
    · rename_i hown
      rw [OrderedMap.get?_filter]
      have hk : l'.key ≠ l.key := by
        intro hk
        rw [hk, hown] at hshared
        exact hne (congrArg Flight.load (Option.some.inj hshared)).symm
      simpa [hk] using hshared
    · exact hshared
  · intro i hi j l₁ l₂ hij hl₁ hl₂
    exact h.later i (hrun i hi).1 j l₁ l₂ hij hl₁ hl₂

theorem finish_eq {value : ν} (h : s.runningLoad load = some l) :
    s.finish load value = { s with
      store := insertEntry (evict s.store l.key) l.key
        ⟨l.version, l.nowMs + ttlMs, value, load⟩
      returned := Function.update s.returned load (some value) }.land load l := by
  unfold State.finish
  rw [h]

theorem inv_finish (h : Inv s) (load : Nat) (value : ν) : Inv (s.finish load value) := by
  cases hr : s.runningLoad load with
  | none =>
    unfold State.finish
    rw [hr]
    exact h
  | some l =>
    obtain ⟨hload, hl⟩ := runningLoad_eq_some hr
    rw [finish_eq hr]
    obtain ⟨hsize, hroom⟩ := size_evict h.bounded l.key
    refine inv_land h hload hl (fun i hi => Function.update_of_ne hi _ _) (fun i hi => Or.inr hi)
      ?_ (size_insertEntry hsize hroom)
    intro k e he
    rcases get?_insertEntry he with ⟨rfl, rfl, -⟩ | hold
    · exact Or.inr ⟨h.unfailed load hload, rfl, rfl, rfl, rfl, Function.update_self ..⟩
    · have hold := get?_evict hold
      exact Or.inl ⟨hold, (h.entries k e hold).ended⟩

theorem inv_fail (h : Inv s) (load : Nat) : Inv (s.fail load) := by
  unfold State.fail
  cases hr : s.runningLoad load with
  | none => exact h
  | some l =>
    obtain ⟨hload, hl⟩ := runningLoad_eq_some hr
    refine inv_land h hload hl (fun _ _ => rfl) (fun i hi => List.mem_cons.mp hi) ?_ h.bounded
    intro k e he
    exact Or.inl ⟨he, (h.entries k e he).ended⟩

theorem inv_bust (h : Inv s) : Inv s.bust := by
  have hold : ∀ (i : Nat) (l : Load κ), s.history[i]? = some l → l.version ≠ s.version + 1 := by
    intro i l hl
    have := (h.version i l hl).1
    omega
  refine ⟨?_, h.flights, h.started, h.unfailed, h.failed, ?_, ?_, h.later,
    Nat.le_refl _, h.bounded⟩
  · intro k e he
    exact ⟨(h.entries k e he).load, (h.entries k e he).ended, (h.entries k e he).unfailed,
      (h.entries k e he).value⟩
  · intro i l hl
    refine ⟨Nat.le_trans (h.version i l hl).1 (Nat.le_succ _), fun hv => absurd hv (hold i l hl)⟩
  · intro i _ l hl hv
    exact absurd hv (hold i l hl)

theorem inv_step (h : Inv s) (event : Event κ ν) : Inv (s.step event) := by
  cases event with
  | call key =>
    show Inv (s.call key).1
    unfold State.call
    split
    · exact h
    · split
      · exact h
      · exact inv_startLoad h ‹_›
  | finish load value => exact inv_finish h load value
  | fail load => exact inv_fail h load
  | bust => exact inv_bust h
  | advance ms =>
    exact ⟨fun k e he => ⟨(h.entries k e he).load, (h.entries k e he).ended,
      (h.entries k e he).unfailed, (h.entries k e he).value⟩, h.flights, h.started,
      h.unfailed, h.failed, h.version, h.shared, h.later, h.busted, h.bounded⟩

/-! ### What the invariant says of calls and steps -/

theorem callSound (h : Inv s) (key : κ) : CallSound s key := by
  cases hhit : s.hit key with
  | some e =>
    obtain ⟨hstore, hv, hclock⟩ := hit_eq_some hhit
    obtain ⟨⟨l, hl, hk, hlv, hx⟩, -, hunfailed, hvalue⟩ := h.entries key e hstore
    have hcall : s.call key = (s, .hit e) := by
      unfold State.call
      rw [hhit]
    have hcurrent : s.busted ≤ e.load := (h.version _ l hl).2 (hlv.trans hv)
    refine ⟨?_, ⟨l, ?_, hk⟩, ?_, ?_, ?_, ?_⟩ <;> rw [hcall]
    · exact hcurrent
    · exact hl
    · rintro e' ⟨⟩
      exact ⟨l, hl, hx ▸ hclock⟩
    · rintro e' ⟨⟩
      exact hvalue
    · exact hunfailed
    · exact nofun
  | none =>
    cases hpending : s.pending key with
    | some f =>
      obtain ⟨hf, hv⟩ := pending_eq_some hpending
      obtain ⟨hrun, l, hl, hk, hlv⟩ := h.flights key f hf
      have hcall : s.call key = (s, .joined f) := by
        unfold State.call
        rw [hhit, hpending]
      have hcurrent : s.busted ≤ f.load := (h.version _ l hl).2 (hlv.trans hv)
      refine ⟨?_, ⟨l, ?_, hk⟩, ?_, ?_, ?_, ?_⟩ <;> rw [hcall]
      · exact hcurrent
      · exact hl
      · exact nofun
      · exact nofun
      · exact h.unfailed _ hrun
      · rintro f' ⟨⟩
        exact hrun
    | none =>
      have hcall : s.call key = (s.startLoad key, .started s.history.length) := by
        unfold State.call
        rw [hhit, hpending]
      refine ⟨?_, ⟨⟨key, s.version, s.clock⟩, ?_, rfl⟩, ?_, ?_, ?_, ?_⟩ <;> rw [hcall]
      · exact h.busted
      · exact List.getElem?_concat_length
      · exact nofun
      · exact nofun
      · exact fun hmem => absurd (h.failed _ hmem) (Nat.lt_irrefl _)
      · exact nofun

theorem singleFlight (h : Inv s) {i j : Nat} (hi : i ∈ s.running) (hj : j ∈ s.running)
    {l l' : Load κ} (hl : s.history[i]? = some l) (hl' : s.history[j]? = some l')
    (hk : l.key = l'.key) (hv : l.version = s.version) (hv' : l'.version = s.version) : i = j := by
  have hi := h.shared i hi l hl hv
  have hj := h.shared j hj l' hl' hv'
  rw [hk, hj] at hi
  exact (congrArg Flight.load (Option.some.inj hi)).symm

/-- An entry is replaced by one of a later load only. -/
theorem newest (h : Inv s) (event : Event κ ν) {e e' : Entry ν}
    (he : s.store.get? key = some e) (he' : (s.step event).store.get? key = some e') :
    e.load ≤ e'.load := by
  have hkept : s.store.get? key = some e' → e.load ≤ e'.load := by
    intro hsame
    rw [he] at hsame
    cases hsame
    exact Nat.le_refl _
  cases event with
  | call k =>
    refine hkept ?_
    have hcall : (s.step (.call k : Event κ ν)).store = s.store := by
      show (s.call k).1.store = s.store
      unfold State.call
      split
      · rfl
      · split <;> rfl
    rwa [hcall] at he'
  | fail load =>
    refine hkept ?_
    have hfail : (s.step (.fail load : Event κ ν)).store = s.store := by
      show (s.fail load).store = s.store
      unfold State.fail
      split <;> rfl
    rwa [hfail] at he'
  | bust => exact hkept he'
  | advance ms => exact hkept he'
  | finish load value =>
    have he' : (s.finish load value).store.get? key = some e' := he'
    cases hr : s.runningLoad load with
    | none =>
      unfold State.finish at he'
      rw [hr] at he'
      exact hkept he'
    | some l =>
      obtain ⟨hload, hl⟩ := runningLoad_eq_some hr
      rw [finish_eq hr] at he'
      rcases get?_insertEntry he' with ⟨rfl, rfl, hle⟩ | hold
      · obtain ⟨⟨l₀, hl₀, hk₀, hv₀, -⟩, hended, -⟩ := h.entries l.key e he
        show e.load ≤ load
        by_contra hlt
        have hlater := h.later load hload e.load l l₀ (by omega) hl hl₀ hk₀.symm
        rw [evict_of_get? he] at hle
        have hle : e.version ≤ l.version := hle e he
        omega
      · exact hkept (get?_evict hold)

/-- **No call is served rows of before the last bust**: in every state of every run, with the other
promises of the cache. -/
theorem bindings_cache_current (h : (cache : Machine (State κ ν) (Event κ ν)).Reachable s) :
    Current s := by
  have hinv : Inv s := h.invariant (fun s hs => by rw [hs]; exact inv_empty)
    (fun s e s' _ hs hstep => by rw [hstep]; exact inv_step hs e)
  exact ⟨callSound hinv, fun i hi j hj l l' hl hl' => singleFlight hinv hi hj hl hl',
    fun key e he => (hinv.entries key e he).unfailed, fun event key e e' => newest hinv event,
    hinv.bounded⟩

/-- A bust between the start of a load and its end: the next call starts a load of its own, and is
not answered with the rows of the first. -/
theorem bindings_cache_current_bust : Current
    (([.call 7, .bust, .call 7, .finish 0 1] : List (Event Nat Nat)).foldl State.step .empty) := by
  have hstart : (cache : Machine (State Nat Nat) (Event Nat Nat)).Reachable .empty := .start rfl
  exact bindings_cache_current (Machine.reachable_foldl hstart _)

end Promise

end Iceslab.BindingsCache
