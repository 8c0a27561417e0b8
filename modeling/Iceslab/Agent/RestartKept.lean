import Iceslab.Agent.AgentPush
import Iceslab.Lib.Machine

/-!
# A restarted agent comes back on what it was running

The store against the cores over whole runs of pushes and restarts.

* `KeptIn` — what every recoverable push keeps: restoring the store gives each core its inbounds,
  policy, resolver and hand-off, and the chain manager its block.
* `Recoverable` — the pushes for which it does.
* `restart_restores` — **in every run of recoverable pushes a restart changes nothing**.
* `push_without_inbounds_lost` — a push that names a chain block and no inbound is not restored.
-/

set_option autoImplicit false

namespace Iceslab.Agent

/-! ## Looking an inbound up -/

def inboundOf (inbounds : List InboundDto) (id : String) : Option InboundDto :=
  inbounds.find? fun ib => decide (ib.id = id)

variable {ib : InboundDto} {id : String}

theorem inboundOf_id {inbounds : List InboundDto}
    (h : inboundOf inbounds id = some ib) : ib.id = id := by
  simpa using List.find?_some h

theorem inboundOf_mem {inbounds : List InboundDto}
    (h : inboundOf inbounds id = some ib) : ib ∈ inbounds :=
  List.mem_of_find?_eq_some h

theorem inboundOf_cons (x : InboundDto) (rest : List InboundDto) (id : String) :
    inboundOf (x :: rest) id = if x.id = id then some x else inboundOf rest id := by
  unfold inboundOf
  rw [List.find?_cons]
  by_cases h : x.id = id <;> simp [h]

theorem inboundOf_eq_none {inbounds : List InboundDto} :
    inboundOf inbounds id = none ↔ id ∉ inbounds.map (·.id) := by
  unfold inboundOf
  rw [List.find?_eq_none]
  simp only [List.mem_map, not_exists, not_and, decide_eq_true_eq]

theorem inboundOf_of_mem {inbounds : List InboundDto}
    (hn : (inbounds.map (·.id)).Nodup) (h : ib ∈ inbounds) : inboundOf inbounds ib.id = some ib := by
  induction inbounds with
  | nil => cases h
  | cons x rest ih =>
    rw [List.map_cons, List.nodup_cons] at hn
    rw [inboundOf_cons]
    rcases List.mem_cons.mp h with rfl | hmem
    · rw [if_pos rfl]
    · have hne : x.id ≠ ib.id := by
        intro he
        exact hn.1 (he ▸ List.mem_map_of_mem hmem)
      rw [if_neg hne, ih hn.2 hmem]

theorem storedInbound_eq {inbounds : List InboundDto}
    (hn : (inbounds.map (·.id)).Nodup) (hid : id ≠ "") :
    storedInbound inbounds id = inboundOf inbounds id := by
  unfold storedInbound
  rw [if_neg hid]
  induction inbounds with
  | nil => rfl
  | cons x rest ih =>
    rw [List.map_cons, List.nodup_cons] at hn
    rw [inboundOf_cons]
    by_cases hx : x.id = id
    · have hrest : rest.filter (fun ib => decide (ib.id = id)) = [] := by
        rw [List.filter_eq_nil_iff]
        intro y hy hyid
        refine hn.1 ?_
        rw [hx, ← of_decide_eq_true hyid]
        exact List.mem_map_of_mem hy
      simp [hx, hrest]
    · rw [List.filter_cons_of_neg (by simpa using hx), if_neg hx]
      exact ih hn.2

section Inbounds

variable (cfg : AgentConfig)

/-- What a core runs of a list of inbounds. -/
def heldBy (inbounds : List InboundDto) (a : Adapter) (id : String) : Option (Int × RawMessage) :=
  match inboundOf inbounds id with
  | none => none
  | some ib => if adapterFor cfg ib = some a then some (ib.port, ib.config) else none

theorem adapterFor_some {m : Adapter} (h : adapterFor cfg ib = some m) :
    m ∈ cfg.adapters ∧ m.absent = false ∧ m.name = ib.protocol ∧ m.engine = ib.resolvedEngine := by
  refine ⟨List.mem_of_find?_eq_some h, ?_⟩
  have := List.find?_some h
  simpa [and_assoc] using this

/-- Two registered cores have different keys. -/
theorem adapter_unique {a b : Adapter} (ha : a ∈ cfg.adapters) (hb : b ∈ cfg.adapters)
    (hk : a.key = b.key) : a = b :=
  List.inj_on_of_nodup_map cfg.keys ha hb hk

theorem mem_keepOf {inbounds : List InboundDto} {a : Adapter} :
    id ∈ keepOf inbounds a ↔
      ∃ ib ∈ inbounds, ib.id = id ∧ ib.protocol = a.name ∧ ib.resolvedEngine = a.engine := by
  unfold keepOf
  simp only [List.mem_map, List.mem_filter, Bool.and_eq_true, decide_eq_true_eq]
  constructor
  · rintro ⟨ib, ⟨hm, hp, he⟩, rfl⟩
    exact ⟨ib, hm, rfl, hp, he⟩
  · rintro ⟨ib, hm, rfl, hp, he⟩
    exact ⟨ib, ⟨hm, hp, he⟩, rfl⟩

/-! ## The inbounds of one push -/

variable (ans : PushAnswers)

theorem applyInbound_blocks (cores : Adapter → CoreState) (ib : InboundDto) (a : Adapter) :
    (applyInbound cfg ans cores ib a).policy = (cores a).policy ∧
      (applyInbound cfg ans cores ib a).dns = (cores a).dns ∧
      (applyInbound cfg ans cores ib a).cascade = (cores a).cascade := by
  unfold applyInbound
  cases adapterFor cfg ib with
  | none => exact ⟨rfl, rfl, rfl⟩
  | some m =>
    dsimp only
    by_cases hr : (ans.inbound ib.id).isSome = true
    · rw [if_pos hr]
      exact ⟨rfl, rfl, rfl⟩
    · rw [if_neg hr]
      by_cases ha : a = m <;> simp [ha, CoreState.setInbound]

theorem applyInbounds_blocks (cores : Adapter → CoreState) (inbounds : List InboundDto)
    (a : Adapter) :
    (applyInbounds cfg ans cores inbounds a).policy = (cores a).policy ∧
      (applyInbounds cfg ans cores inbounds a).dns = (cores a).dns ∧
      (applyInbounds cfg ans cores inbounds a).cascade = (cores a).cascade := by
  induction inbounds generalizing cores with
  | nil => exact ⟨rfl, rfl, rfl⟩
  | cons ib rest ih =>
    obtain ⟨hp, hd, hc⟩ := ih (applyInbound cfg ans cores ib)
    obtain ⟨hp', hd', hc'⟩ := applyInbound_blocks cfg ans cores ib a
    exact ⟨hp.trans hp', hd.trans hd', hc.trans hc'⟩

/-- The core an inbound goes to has taken it, unless it refused. -/
def Takes (a : Adapter) (ib : InboundDto) : Prop :=
  adapterFor cfg ib = some a ∧ ans.inbound ib.id = none

instance (a : Adapter) (ib : InboundDto) : Decidable (Takes cfg ans a ib) :=
  inferInstanceAs (Decidable (_ ∧ _))

theorem applyInbound_inbounds (cores : Adapter → CoreState) (ib : InboundDto) (a : Adapter)
    (id : String) :
    (applyInbound cfg ans cores ib a).inbounds id =
      if ib.id = id ∧ Takes cfg ans a ib then some (ib.port, ib.config)
      else (cores a).inbounds id := by
  unfold applyInbound
  cases hm : adapterFor cfg ib with
  | none => simp [Takes, hm]
  | some m =>
    cases ha : ans.inbound ib.id with
    | some err => simp [Takes, ha]
    | none =>
      by_cases ham : a = m
      · subst ham
        by_cases hid : ib.id = id
        · subst hid
          simp [Takes, hm, ha, CoreState.setInbound]
        · simp [Takes, hm, hid, CoreState.setInbound, Ne.symm hid]
      · have : m ≠ a := fun h => ham h.symm
        simp [Takes, hm, ham, this]

theorem applyInbounds_inbounds (cores : Adapter → CoreState) {inbounds : List InboundDto}
    (hn : (inbounds.map (·.id)).Nodup) (a : Adapter) (id : String) :
    (applyInbounds cfg ans cores inbounds a).inbounds id =
      match inboundOf inbounds id with
      | none => (cores a).inbounds id
      | some ib => if Takes cfg ans a ib then some (ib.port, ib.config)
        else (cores a).inbounds id := by
  induction inbounds generalizing cores with
  | nil => rfl
  | cons x rest ih =>
    rw [List.map_cons, List.nodup_cons] at hn
    rw [applyInbounds, ih _ hn.2, applyInbound_inbounds, inboundOf_cons]
    by_cases hx : x.id = id
    · have hrest : inboundOf rest id = none := by
        rw [inboundOf_eq_none, ← hx]
        exact hn.1
      simp [hx, hrest]
    · simp [hx]

end Inbounds

/-- What the store keeps of one inbound of a push. -/
def keptInbound (prev : List InboundDto) (refused : String → Bool) (ib : InboundDto) :
    Option InboundDto :=
  if refused ib.id then storedInbound prev ib.id else some ib

theorem acceptedInbounds_cons (prev : List InboundDto) (refused : String → Bool) (x : InboundDto)
    (rest : List InboundDto) :
    acceptedInbounds prev refused (x :: rest) =
      (keptInbound prev refused x).toList ++ acceptedInbounds prev refused rest := by
  unfold acceptedInbounds keptInbound
  rw [List.filterMap_cons]
  cases hr : refused x.id with
  | true => cases storedInbound prev x.id <;> simp
  | false => simp

theorem keptInbound_id {prev : List InboundDto} {refused : String → Bool} {x kept : InboundDto}
    (h : keptInbound prev refused x = some kept) : kept.id = x.id := by
  unfold keptInbound at h
  split at h
  · unfold storedInbound at h
    split at h
    · cases h
    · have := List.mem_of_getLast? h
      simpa using (List.mem_filter.mp this).2
  · cases h
    rfl

theorem inboundOf_kept_append {o : Option InboundDto} {i : String}
    (ho : ∀ ib, o = some ib → ib.id = i) (rest : List InboundDto) (id : String) :
    inboundOf (o.toList ++ rest) id =
      if i = id then o.or (inboundOf rest id) else inboundOf rest id := by
  cases o with
  | none => simp
  | some ib =>
    have hi := ho ib rfl
    rw [Option.toList_some, List.singleton_append, inboundOf_cons, hi]
    split <;> rfl

/-- What the store keeps of one push, looked up. -/
theorem inboundOf_acceptedInbounds {prev inbounds : List InboundDto} {refused : String → Bool}
    (hn : (inbounds.map (·.id)).Nodup) (id : String) :
    inboundOf (acceptedInbounds prev refused inbounds) id =
      (inboundOf inbounds id).bind (keptInbound prev refused) := by
  induction inbounds with
  | nil => rfl
  | cons x rest ih =>
    rw [List.map_cons, List.nodup_cons] at hn
    rw [acceptedInbounds_cons, inboundOf_kept_append (fun kept hk => keptInbound_id hk),
      inboundOf_cons, ih hn.2]
    by_cases hid : x.id = id
    · have hrest : inboundOf rest id = none := by
        rw [inboundOf_eq_none, ← hid]
        exact hn.1
      simp [hid, hrest]
    · simp [hid]

theorem acceptedInbounds_ids (prev : List InboundDto) (refused : String → Bool)
    (inbounds : List InboundDto) :
    ((acceptedInbounds prev refused inbounds).map (·.id)).Sublist (inbounds.map (·.id)) := by
  induction inbounds with
  | nil => exact .refl _
  | cons x rest ih =>
    rw [acceptedInbounds_cons, List.map_append, List.map_cons]
    cases hk : keptInbound prev refused x with
    | none => exact ih.cons _
    | some kept =>
      have hid := keptInbound_id hk
      simp only [Option.toList_some, List.map_cons, List.map_nil, List.singleton_append, hid]
      exact ih.cons_cons _

/-! ## A push against the store -/

/-- The outcome of a push names the refused inbounds by their ids. -/
theorem refused_of_mem {cfg : AgentConfig} {ans : PushAnswers} {inbounds : List InboundDto}
    (hn : (inbounds.map (·.id)).Nodup) (hib : ib ∈ inbounds) :
    (inbounds.any fun x => decide (x.id = ib.id) && inboundRefused cfg ans x)
      = inboundRefused cfg ans ib := by
  rw [Bool.eq_iff_iff, List.any_eq_true]
  constructor
  · rintro ⟨x, hx, h⟩
    rw [Bool.and_eq_true, decide_eq_true_eq] at h
    have hxi : x = ib := by
      have h₁ := inboundOf_of_mem hn hx
      rw [h.1, inboundOf_of_mem hn hib] at h₁
      exact (Option.some.inj h₁).symm
    exact hxi ▸ h.2
  · intro h
    exact ⟨ib, hib, by simp [h]⟩

/-- The stored version of a refused inbound is its own core's, or no core's. -/
def OwnStored (cfg : AgentConfig) (ans : PushAnswers) (prev inbounds : List InboundDto) : Prop :=
  ∀ ib ∈ inbounds, inboundRefused cfg ans ib = true → ∀ old, storedInbound prev ib.id = some old →
    adapterFor cfg old = adapterFor cfg ib ∨ adapterFor cfg old = none

theorem retain_inbounds (c : CoreState) (keep : List String) (id : String) :
    (c.retain keep).inbounds id = if id ∈ keep then c.inbounds id else none := rfl

theorem heldBy_absent {cfg : AgentConfig} {a : Adapter} (h : a.absent = true)
    (inbounds : List InboundDto) (id : String) : heldBy cfg inbounds a id = none := by
  unfold heldBy
  split
  · rfl
  · split
    · rename_i hm
      have := (adapterFor_some cfg hm).2.1
      simp [h] at this
    · rfl

section OnePush

variable {cfg : AgentConfig} {inbounds : List InboundDto}

theorem mem_keepOf_of_inbound (hn : (inbounds.map (·.id)).Nodup)
    (hib : ib ∈ inbounds) {a : Adapter} :
    ib.id ∈ keepOf inbounds a ↔ ib.protocol = a.name ∧ ib.resolvedEngine = a.engine := by
  rw [mem_keepOf]
  constructor
  · rintro ⟨x, hx, hxid, hpr, hen⟩
    have h₁ := inboundOf_of_mem hn hx
    rw [hxid, inboundOf_of_mem hn hib] at h₁
    cases h₁
    exact ⟨hpr, hen⟩
  · rintro ⟨hpr, hen⟩
    exact ⟨ib, hib, rfl, hpr, hen⟩

theorem adapterFor_eq_of_keep {a m : Adapter} (ha : a ∈ cfg.adapters)
    (hm : adapterFor cfg ib = some m) :
    (ib.protocol = a.name ∧ ib.resolvedEngine = a.engine) ↔ a = m := by
  obtain ⟨hmm, -, hname, heng⟩ := adapterFor_some cfg hm
  constructor
  · rintro ⟨hpr, hen⟩
    exact adapter_unique cfg ha hmm (by simp [Adapter.key, hname, heng, hpr, hen])
  · rintro rfl
    exact ⟨hname.symm, heng.symm⟩

theorem absent_of_unmatched {a : Adapter} (ha : a ∈ cfg.adapters)
    (hm : adapterFor cfg ib = none) (hk : ib.protocol = a.name ∧ ib.resolvedEngine = a.engine) :
    a.absent = true := by
  have := List.find?_eq_none.mp hm a ha
  simpa [hk.1, hk.2] using this

/-- **The inbounds.**  What a core runs after the push is what the store keeps for it. -/
theorem heldBy_acceptedInbounds {ans : PushAnswers} {prev : List InboundDto}
    {cores : Adapter → CoreState} {a : Adapter} (ha : a ∈ cfg.adapters)
    (hn : (inbounds.map (·.id)).Nodup) (hnamed : ∀ ib ∈ inbounds, ib.id ≠ "")
    (hp : (prev.map (·.id)).Nodup) (hown : OwnStored cfg ans prev inbounds)
    (hcores : ∀ id, (cores a).inbounds id = heldBy cfg prev a id) (id : String) :
    ((applyInbounds cfg ans cores inbounds a).retain (keepOf inbounds a)).inbounds id =
      heldBy cfg (acceptedInbounds prev
        (fun id => inbounds.any fun ib => decide (ib.id = id) && inboundRefused cfg ans ib)
          inbounds) a id := by
  rw [retain_inbounds, applyInbounds_inbounds cfg ans cores hn, heldBy,
    inboundOf_acceptedInbounds hn]
  cases hib : inboundOf inbounds id with
  | none =>
    have hkeep : id ∉ keepOf inbounds a := by
      rw [mem_keepOf]
      rintro ⟨ib, hm, hid, -⟩
      rw [inboundOf_eq_none] at hib
      exact hib (hid ▸ List.mem_map_of_mem hm)
    simp [hkeep]
  | some ib =>
    have hmem := inboundOf_mem hib
    have hid := inboundOf_id hib
    subst hid
    simp only [Option.bind_some, keptInbound, refused_of_mem hn hmem,
      mem_keepOf_of_inbound hn hmem, hcores]
    cases hm : adapterFor cfg ib with
    | none =>
      -- no core takes it: it is stored, and a stand-in of its name runs nothing
      have hr : inboundRefused cfg ans ib = false := by simp [inboundRefused, hm]
      simp only [Takes, hr, hm]
      split
      · rename_i hk
        simp [heldBy_absent (absent_of_unmatched ha hm hk), hm]
      · simp [hm]
    | some m =>
      simp only [Takes, adapterFor_eq_of_keep ha hm, hm]
      cases hans : ans.inbound ib.id with
      | none =>
        have hr : inboundRefused cfg ans ib = false := by simp [inboundRefused, hans]
        by_cases ham : a = m
        · simp [hr, ham, hm]
        · simp [hr, hm, ham, Ne.symm ham]
      | some err =>
        have hr : inboundRefused cfg ans ib = true := by simp [inboundRefused, hans, hm]
        have hst := storedInbound_eq hp (hnamed ib hmem)
        simp only [hr, if_true, hst]
        by_cases ham : a = m
        · subst ham
          simp [heldBy]
        · rw [if_neg ham]
          cases hold : inboundOf prev ib.id with
          | none => rfl
          | some old =>
            have hne : adapterFor cfg old ≠ some a := by
              rcases hown ib hmem hr old (hst.trans hold) with h | h
              · rw [h, hm]
                intro he
                exact ham (Option.some.inj he).symm
              · rw [h]
                intro he
                cases he
            simp [hne]

end OnePush

/-! ## The node-level blocks of one push -/

theorem RawMessage.orNone_orNone (b : RawMessage) : b.orNone.orNone = b.orNone := by
  unfold RawMessage.orNone
  by_cases h : b.carries = true
  · simp [h]
  · rw [if_neg h]
    rfl

section Blocks

variable {cfg : AgentConfig} {receives : Adapter → Bool} {err : Adapter → Option String}
  {a : Adapter}

theorem mem_refusedBy (ha : a ∈ cfg.adapters) (hr : receives a = true) :
    a.key ∈ (blockOutcome cfg receives err).refusedBy ↔ (err a).isSome = true := by
  simp only [blockOutcome, List.mem_map, List.mem_filter]
  constructor
  · rintro ⟨b, ⟨⟨hb, -⟩, hbe⟩, hk⟩
    rw [adapter_unique cfg hb ha hk] at hbe
    exact hbe
  · intro h
    exact ⟨a, ⟨⟨ha, hr⟩, h⟩, rfl⟩

theorem refuses_of_none_taken (ha : a ∈ cfg.adapters) (hr : receives a = true)
    (h : (blockOutcome cfg receives err).taken = false) : (err a).isSome = true := by
  simp only [blockOutcome, List.any_eq_false, List.mem_filter] at h
  have := h a ⟨ha, hr⟩
  simpa [Option.isSome_iff_ne_none] using this

/-- What the store makes a core run of a node-level block. -/
def blockHeld (receives : Adapter → Bool) (a : Adapter) (stored : RawMessage)
    (byCore : String × String → Option RawMessage) : RawMessage :=
  if receives a then (blockFor a.key stored byCore).orNone else .empty

/-- **A node-level block.**  What a core runs after the push is what the store keeps for it. -/
theorem afterBlock_eq_blockHeld (ha : a ∈ cfg.adapters) (prev pushed : RawMessage)
    (prevBy : String × String → Option RawMessage) :
    afterBlock (receives a) (err a) pushed (blockHeld receives a prev prevBy) =
      blockHeld receives a (acceptedBlock prev prevBy pushed (blockOutcome cfg receives err)).1
        (acceptedBlock prev prevBy pushed (blockOutcome cfg receives err)).2 := by
  unfold blockHeld
  cases hr : receives a with
  | false => simp [afterBlock]
  | true =>
    have hmem : a.key ∈ (blockOutcome cfg receives err).refusedBy ↔ (err a).isSome = true :=
      mem_refusedBy ha hr
    have htaken : (blockOutcome cfg receives err).taken = false → (err a).isSome = true :=
      refuses_of_none_taken ha hr
    unfold acceptedBlock afterBlock
    by_cases hnone : (blockOutcome cfg receives err).refusedBy = []
    · -- nobody refused
      rw [hnone] at hmem
      have herr : err a = none := by simpa using hmem
      simp [hnone, herr, blockFor]
    · by_cases htk : (blockOutcome cfg receives err).taken = true
      · cases herr : err a with
        | none =>
          have hk : a.key ∉ (blockOutcome cfg receives err).refusedBy := by simp [hmem, herr]
          simp [hnone, htk, blockFor, hk]
        | some e =>
          have hk : a.key ∈ (blockOutcome cfg receives err).refusedBy := by simp [hmem, herr]
          cases hb : prevBy a.key <;>
            simp [hnone, htk, blockFor, hk, hb, RawMessage.orNone_orNone]
      · -- nobody took it
        have herr := htaken (by simpa using htk)
        obtain ⟨e, he⟩ := Option.isSome_iff_exists.mp herr
        simp [hnone, htk, he]

end Blocks

/-! ## What the store holds of the agent -/

/-- The hand-off of a stored push. -/
def storedHandoff (cfg : AgentConfig) (req : ApplyInboundsRequest) :
    Except PayloadError (Option (String × Option Handoff)) :=
  handoffOf (cfg.chainManager && req.chain.isSome) req.chain req.cascade

/-- The same block for the chain process; a `userCore` that could be handed to nobody may have been
replaced by the one the cores run. -/
structure SameChain (c a : NodeChain) : Prop where
  runs : { c with userCore := none } = { a with userCore := none }
  same : c = a ∨ ∃ u e, a.userCore = some u ∧ u.payload = .error e

structure KeptIn (cfg : AgentConfig) (s : AgentState) (f : StoreFile) : Prop where
  ids : (f.req.inbounds.map (·.id)).Nodup
  inbounds : ∀ a ∈ cfg.adapters, ∀ id, (s.cores a).inbounds id = heldBy cfg f.req.inbounds a id
  policy : ∀ a ∈ cfg.adapters,
    (s.cores a).policy = blockHeld (·.policyReceiver) a f.req.policy f.policyByCore
  dns : ∀ a ∈ cfg.adapters, (s.cores a).dns = blockHeld (·.dnsReceiver) a f.req.dns f.dnsByCore
  cascade : ∀ a ∈ cfg.adapters, (s.cores a).cascade = none ∨
    a.cascadeReceiver = true ∧
      ∃ d, storedHandoff cfg f.req = .ok d ∧ (s.cores a).cascade = mineOf d a
  chain : ∀ b, s.accepted = some b → ∃ c, f.req.chain = some c ∧ SameChain c b
  manager : cfg.chainManager = false → s.accepted = none
  bare : f.req.inbounds = [] → s.accepted = none ∧ ∀ a ∈ cfg.adapters, s.cores a = .idle

/-- Nothing told and nothing taken. -/
structure Untold (cfg : AgentConfig) (s : AgentState) : Prop where
  cores : ∀ a ∈ cfg.adapters, s.cores a = .idle
  accepted : s.accepted = none

/-- The store of an agent, or the blank one. -/
def AgentState.stored (s : AgentState) : StoreFile := s.store.getD .blank

/-- A restart of the agent as it is brings it back. -/
def Kept (cfg : AgentConfig) (s : AgentState) : Prop := KeptIn cfg s s.stored

theorem keptIn_blank {cfg : AgentConfig} {s : AgentState} (h : Untold cfg s) :
    KeptIn cfg s .blank where
  ids := List.nodup_nil
  inbounds a ha id := by rw [h.cores a ha]; rfl
  policy a ha := by
    rw [h.cores a ha]
    unfold blockHeld
    split <;> rfl
  dns a ha := by
    rw [h.cores a ha]
    unfold blockHeld
    split <;> rfl
  cascade a ha := .inl (by rw [h.cores a ha]; rfl)
  chain b hb := by
    rw [h.accepted] at hb
    cases hb
  manager _ := h.accepted
  bare _ := ⟨h.accepted, h.cores⟩

/-! ## The pushes a restart keeps -/

section Recoverable

variable (cfg : AgentConfig) (ans : PushAnswers) (s : AgentState) (req : ApplyInboundsRequest)

/-- The hand-off of a push. -/
def pushedHandoff : Except PayloadError (Option (String × Option Handoff)) :=
  handoffOf (cfg.chainManager && (chainStep cfg ans s req.chain).held)
    (chainStep cfg ans s req.chain).handoffBlock req.cascade

/-- The push leaves no block, no hand-off and no chain in force anywhere. -/
structure LeavesNothing : Prop where
  policy : ∀ a ∈ cfg.adapters, a.policyReceiver = true →
    if (ans.policy a).isSome then (s.cores a).policy = .empty else req.policy.carries = false
  dns : ∀ a ∈ cfg.adapters, a.dnsReceiver = true →
    if (ans.dns a).isSome then (s.cores a).dns = .empty else req.dns.carries = false
  cascade : ∀ a ∈ cfg.adapters,
    afterHandoff ans (pushedHandoff cfg ans s req) a (s.cores a).cascade = none
  chain : (chainStep cfg ans s req.chain).accepted = none

/-- **The condition on a push.** -/
structure Recoverable : Prop where
  /-- the store is written -/
  written : ans.store = none
  /-- an inbound is left in the store, or nothing else is in force either -/
  inbound : (∃ ib ∈ req.inbounds, inboundRefused cfg ans ib = false ∨
    ∃ old, storedInbound s.stored.req.inbounds ib.id = some old) ∨ LeavesNothing cfg ans s req
  /-- a refused inbound has not changed its core since it was stored -/
  own : OwnStored cfg ans s.stored.req.inbounds req.inbounds
  /-- no core refuses a hand-off while it draws another -/
  handoff : ∀ d, pushedHandoff cfg ans s req = .ok d → ∀ a ∈ cfg.adapters,
    a.cascadeReceiver = true → (ans.cascade a).isSome = true →
      (s.cores a).cascade = none ∨ (s.cores a).cascade = mineOf d a
  /-- a malformed `userCore` comes in a block the chain applied whole, over a stored block, or no
  core draws a hand-off -/
  userCore : ∀ e, pushedHandoff cfg ans s req = .error e →
    (chainStep cfg ans s req.chain).refusal = none ∧ s.stored.req.chain ≠ none ∨
      ∀ a ∈ cfg.adapters, (s.cores a).cascade = none

end Recoverable

/-! ## One push -/

section Step

variable {cfg : AgentConfig} {ans : PushAnswers} {s : AgentState} {p : PanelPush} {e : PayloadError}

/-- The push and its outcome as the store is written from them. -/
def pushed (cfg : AgentConfig) (ans : PushAnswers) (s : AgentState) (p : PanelPush) :
    AgentState × PushOutcome :=
  applyPushKept cfg ans s p.req (fun _ => p.req.policy) (fun _ => p.req.dns)

def persisted (cfg : AgentConfig) (ans : PushAnswers) (s : AgentState) (p : PanelPush) : StoreFile :=
  persistAccepted s.stored p.req (pushed cfg ans s p).2

/-- The block a push leaves in the store. -/
theorem persisted_chain_of_refusal {r : PushReason}
    (hr : (chainStep cfg ans s p.req.chain).refusal = some r) :
    (persisted cfg ans s p).req.chain = (chainStep cfg ans s p.req.chain).handoffBlock := by
  simp [persisted, persistAccepted, acceptedPush, pushed, applyPushKept, hr]

theorem persisted_chain_of_ok {d : Option (String × Option Handoff)}
    (hr : (chainStep cfg ans s p.req.chain).refusal = none)
    (hd : pushedHandoff cfg ans s p.req = .ok d) :
    (persisted cfg ans s p).req.chain = p.req.chain := by
  unfold pushedHandoff at hd
  simp [persisted, persistAccepted, acceptedPush, pushed, applyPushKept, hr, hd]

theorem persisted_chain_of_error (hr : (chainStep cfg ans s p.req.chain).refusal = none)
    (hd : pushedHandoff cfg ans s p.req = .error e) :
    (persisted cfg ans s p).req.chain =
      p.req.chain.map fun c => { c with userCore := s.stored.req.chain.bind (·.userCore) } := by
  unfold pushedHandoff at hd
  simp [persisted, persistAccepted, acceptedPush, pushed, applyPushKept, hr, hd]

theorem persisted_cascade : (persisted cfg ans s p).req.cascade = p.req.cascade := rfl

theorem pushed_cascade (a : Adapter) :
    ((pushed cfg ans s p).1.cores a).cascade =
      afterHandoff ans (pushedHandoff cfg ans s p.req) a (s.cores a).cascade := by
  exact (applyInbounds_blocks cfg ans _ p.req.inbounds a).2.2

/-! ### The chain piece -/

theorem chainStep_held (hm : cfg.chainManager = true) (block : Option NodeChain) :
    (chainStep cfg ans s block).held = block.isSome := by
  unfold chainStep
  rw [if_pos hm]
  cases block with
  | none => rfl
  | some b =>
    cases ans.chain with
    | takes => rfl
    | takesWith err => rfl
    | refuses err => cases s.accepted <;> rfl

theorem chainStep_handoffBlock_isSome (block : Option NodeChain) :
    (chainStep cfg ans s block).handoffBlock.isSome = block.isSome := by
  unfold chainStep
  split
  · cases block with
    | none => rfl
    | some b =>
      cases ans.chain with
      | takes => rfl
      | takesWith err => rfl
      | refuses err => cases s.accepted <;> rfl
  · rfl

theorem chainStep_handoffBlock (block : Option NodeChain)
    (h : (chainStep cfg ans s block).refusal = none) :
    (chainStep cfg ans s block).handoffBlock = block := by
  unfold chainStep at h ⊢
  split
  · rename_i hm
    rw [if_pos hm] at h
    cases block with
    | none => rfl
    | some b =>
      cases hc : ans.chain with
      | takes => rfl
      | takesWith err => simp [hc] at h
      | refuses err =>
        simp only [hc] at h
        split at h <;> cases h
  · rfl

/-- The hand-off of the push is the stored one, unless it was malformed in a block that applied. -/
theorem storedHandoff_persisted
    (h : (chainStep cfg ans s p.req.chain).refusal ≠ none ∨
      ∃ d, pushedHandoff cfg ans s p.req = .ok d) :
    storedHandoff cfg (persisted cfg ans s p).req = pushedHandoff cfg ans s p.req := by
  have hchain : (persisted cfg ans s p).req.chain =
      (chainStep cfg ans s p.req.chain).handoffBlock := by
    cases hr : (chainStep cfg ans s p.req.chain).refusal with
    | some r => exact persisted_chain_of_refusal hr
    | none =>
      obtain ⟨d, hd⟩ := h.resolve_left (by simp [hr])
      rw [persisted_chain_of_ok hr hd, chainStep_handoffBlock _ hr]
  unfold storedHandoff
  rw [persisted_cascade, hchain, chainStep_handoffBlock_isSome]
  unfold pushedHandoff
  cases hm : cfg.chainManager with
  | false => rfl
  | true => rw [chainStep_held hm]

theorem handoffOf_error {inForce : Bool} {block : Option NodeChain} {cascade : Option NodeCascade}
    (h : handoffOf inForce block cascade = .error e) :
    inForce = true ∧ ∃ b u, block = some b ∧ b.userCore = some u ∧ u.payload = .error e := by
  unfold handoffOf at h
  split at h
  · rename_i hf
    refine ⟨hf, ?_⟩
    split at h
    · cases h
    · rename_i u hu
      obtain ⟨b, hb, hbu⟩ := Option.bind_eq_some_iff.mp hu
      split at h
      · cases h
      · rename_i e' he
        cases h
        exact ⟨b, u, hb, hbu, he⟩
  · split at h <;> cases h

/-- The block the manager runs on is the one the store gets. -/
theorem persisted_chain_accepted (hm : cfg.chainManager = false → s.accepted = none) {b : NodeChain}
    (hb : (chainStep cfg ans s p.req.chain).accepted = some b) :
    ∃ c, (persisted cfg ans s p).req.chain = some c ∧ SameChain c b := by
  cases hmgr : cfg.chainManager with
  | false =>
    have : s.accepted = some b := by simpa [chainStep, hmgr] using hb
    rw [hm hmgr] at this
    cases this
  | true =>
    cases hblock : p.req.chain with
    | none => simp [chainStep, hmgr, hblock] at hb
    | some b₀ =>
      cases hc : ans.chain with
      | takes =>
        have hb₀ : b₀ = b := by simpa [chainStep, hmgr, hblock, hc] using hb
        subst hb₀
        have hr : (chainStep cfg ans s p.req.chain).refusal = none := by
          simp [chainStep, hmgr, hblock, hc]
        cases hd : pushedHandoff cfg ans s p.req with
        | ok d => exact ⟨b₀, by rw [persisted_chain_of_ok hr hd, hblock], rfl, .inl rfl⟩
        | error e =>
          obtain ⟨-, b₁, u, hb₁, hu, he⟩ := handoffOf_error hd
          rw [chainStep_handoffBlock _ hr, hblock] at hb₁
          cases hb₁
          have hst := persisted_chain_of_error hr hd
          rw [hblock] at hst
          exact ⟨_, hst, rfl, .inr ⟨u, e, hu, he⟩⟩
      | takesWith err =>
        have hb₀ : b₀ = b := by simpa [chainStep, hmgr, hblock, hc] using hb
        subst hb₀
        refine ⟨b₀, ?_, rfl, .inl rfl⟩
        rw [persisted_chain_of_refusal (r := .chain err) (by simp [chainStep, hmgr, hblock, hc])]
        simp [chainStep, hmgr, hblock, hc]
      | refuses err =>
        cases ha : s.accepted with
        | none => simp [chainStep, hmgr, hblock, hc, ha] at hb
        | some a =>
          have hab : a = b := by simpa [chainStep, hmgr, hblock, hc, ha] using hb
          subst hab
          refine ⟨a, ?_, rfl, .inl rfl⟩
          rw [persisted_chain_of_refusal (r := .chain err)
            (by simp [chainStep, hmgr, hblock, hc, ha])]
          simp [chainStep, hmgr, hblock, hc, ha]

theorem storedHandoff_of_error (hr : (chainStep cfg ans s p.req.chain).refusal = none)
    (hd : pushedHandoff cfg ans s p.req = .error e) (hprev : s.stored.req.chain ≠ none) :
    storedHandoff cfg (persisted cfg ans s p).req = storedHandoff cfg s.stored.req := by
  obtain ⟨hf, b, u, hb, -, -⟩ := handoffOf_error hd
  rw [chainStep_handoffBlock _ hr] at hb
  obtain ⟨c, hc⟩ := Option.ne_none_iff_exists'.mp hprev
  have hm : cfg.chainManager = true := by
    rw [Bool.and_eq_true] at hf
    exact hf.1
  unfold storedHandoff
  rw [persisted_chain_of_error hr hd, hb, hc, hm]
  rfl

/-- **The hand-off.**  What a core draws after the push is what the store hands it. -/
theorem kept_cascade (h : Kept cfg s) (hrec : Recoverable cfg ans s p.req) (a : Adapter)
    (ha : a ∈ cfg.adapters) :
    ((pushed cfg ans s p).1.cores a).cascade = none ∨
      a.cascadeReceiver = true ∧ ∃ d, storedHandoff cfg (persisted cfg ans s p).req = .ok d ∧
        ((pushed cfg ans s p).1.cores a).cascade = mineOf d a := by
  rw [pushed_cascade]
  cases hd : pushedHandoff cfg ans s p.req with
  | ok d =>
    have hst := storedHandoff_persisted (.inr ⟨d, hd⟩)
    rw [hd] at hst
    unfold afterHandoff
    by_cases hrc : a.cascadeReceiver = true
    · cases herr : ans.cascade a with
      | none =>
        right
        exact ⟨hrc, d, hst, by simp [hrc]⟩
      | some err =>
        simp only [reduceCtorEq, and_false, if_false]
        rcases hrec.handoff d hd a ha hrc (by simp [herr]) with hold | hold
        · exact .inl hold
        · exact .inr ⟨hrc, d, hst, hold⟩
    · have hne : ¬(a.cascadeReceiver = true ∧ ans.cascade a = none) := fun hc => hrc hc.1
      simp only [if_neg hne]
      left
      rcases h.cascade a ha with hold | ⟨hrc', -⟩
      · exact hold
      · exact absurd hrc' hrc
  | error e =>
    simp only [afterHandoff]
    rcases hrec.userCore e hd with ⟨hr, hprev⟩ | hnone
    · rw [storedHandoff_of_error hr hd hprev]
      exact h.cascade a ha
    · exact .inl (hnone a ha)

theorem kept_inbounds (h : Kept cfg s) (hrec : Recoverable cfg ans s p.req) (a : Adapter)
    (ha : a ∈ cfg.adapters) (id : String) :
    ((pushed cfg ans s p).1.cores a).inbounds id =
      heldBy cfg (persisted cfg ans s p).req.inbounds a id := by
  refine heldBy_acceptedInbounds ha p.ids p.named h.ids hrec.own ?_ id
  exact h.inbounds a ha

theorem pushed_policy (a : Adapter) :
    ((pushed cfg ans s p).1.cores a).policy =
      afterBlock a.policyReceiver (ans.policy a) p.req.policy (s.cores a).policy :=
  (applyInbounds_blocks cfg ans _ p.req.inbounds a).1

theorem pushed_dns (a : Adapter) :
    ((pushed cfg ans s p).1.cores a).dns =
      afterBlock a.dnsReceiver (ans.dns a) p.req.dns (s.cores a).dns :=
  (applyInbounds_blocks cfg ans _ p.req.inbounds a).2.1

theorem afterBlock_empty {receives : Bool} {err : Option String} {given old : RawMessage}
    (h : receives = true → if err.isSome then old = .empty else given.carries = false)
    (hold : receives = false → old = .empty) : afterBlock receives err given old = .empty := by
  unfold afterBlock
  cases receives with
  | false => simpa using hold rfl
  | true =>
    cases err with
    | none =>
      have hg : given.carries = false := by simpa using h rfl
      simp [RawMessage.orNone, hg]
    | some e => simpa using h rfl

theorem kept_bare (h : Kept cfg s) (hrec : Recoverable cfg ans s p.req)
    (hnil : (persisted cfg ans s p).req.inbounds = []) :
    (pushed cfg ans s p).1.accepted = none ∧
      ∀ a ∈ cfg.adapters, (pushed cfg ans s p).1.cores a = .idle := by
  rcases hrec.inbound with ⟨ib, hib, hleft⟩ | hnothing
  · have hin : inboundOf (acceptedInbounds s.stored.req.inbounds (pushed cfg ans s p).2.refused
        p.req.inbounds) ib.id = (inboundOf p.req.inbounds ib.id).bind
          (keptInbound s.stored.req.inbounds (pushed cfg ans s p).2.refused) :=
      inboundOf_acceptedInbounds p.ids ib.id
    rw [inboundOf_of_mem p.ids hib] at hin
    have hacc : acceptedInbounds s.stored.req.inbounds (pushed cfg ans s p).2.refused
        p.req.inbounds = [] := hnil
    have href : (pushed cfg ans s p).2.refused ib.id = inboundRefused cfg ans ib :=
      refused_of_mem p.ids hib
    rw [hacc, Option.bind_some, keptInbound, href] at hin
    rcases hleft with hr | ⟨old, hold⟩
    · rw [if_neg (by simp [hr])] at hin
      cases hin
    · split at hin
      · rw [hold] at hin
        cases hin
      · cases hin
  · refine ⟨hnothing.chain, ?_⟩
    intro a ha
    apply CoreState.ext
    · funext id
      rw [kept_inbounds h hrec a ha id, hnil]
      rfl
    · rw [pushed_policy]
      refine afterBlock_empty (hnothing.policy a ha) ?_
      intro hr
      rw [h.policy a ha, blockHeld, hr]
      rfl
    · rw [pushed_dns]
      refine afterBlock_empty (hnothing.dns a ha) ?_
      intro hr
      rw [h.dns a ha, blockHeld, hr]
      rfl
    · rw [pushed_cascade]
      exact hnothing.cascade a ha

/-- **One recoverable push.** -/
theorem kept_push (h : Kept cfg s) (hrec : Recoverable cfg ans s p.req) :
    Kept cfg (handleApplyInbounds cfg ans s p) := by
  have hs : handleApplyInbounds cfg ans s p =
      { (pushed cfg ans s p).1 with store := some (persisted cfg ans s p) } := by
    simp [handleApplyInbounds, hrec.written, persisted, pushed, AgentState.stored]
  rw [hs]
  refine ⟨?_, kept_inbounds h hrec, ?_, ?_, kept_cascade h hrec,
    fun b hb => persisted_chain_accepted h.manager hb, ?_, kept_bare h hrec⟩
  · exact p.ids.sublist (acceptedInbounds_ids _ _ _)
  · intro a ha
    have hpushed : ((pushed cfg ans s p).1.cores a).policy =
        afterBlock a.policyReceiver (ans.policy a) p.req.policy (s.cores a).policy :=
      pushed_policy a
    rw [h.policy a ha] at hpushed
    exact hpushed.trans (afterBlock_eq_blockHeld ha _ _ _)
  · intro a ha
    have hpushed : ((pushed cfg ans s p).1.cores a).dns =
        afterBlock a.dnsReceiver (ans.dns a) p.req.dns (s.cores a).dns :=
      pushed_dns a
    rw [h.dns a ha] at hpushed
    exact hpushed.trans (afterBlock_eq_blockHeld ha _ _ _)
  · intro hm
    have : (chainStep cfg ans s p.req.chain).accepted = s.accepted := by simp [chainStep, hm]
    exact this.trans (h.manager hm)

end Step

/-! ## The restart -/

/-- The new cores answer as the old ones did: what a core was running it takes, and what it had
refused it refuses again. -/
structure AnswersAgain (cfg : AgentConfig) (ans : PushAnswers) (s : AgentState) (f : StoreFile) :
    Prop where
  inbound : ∀ ib ∈ f.req.inbounds, ∀ a ∈ cfg.adapters, adapterFor cfg ib = some a →
    (s.cores a).inbounds ib.id = some (ib.port, ib.config) → ans.inbound ib.id = none
  policy : ∀ a ∈ cfg.adapters, a.policyReceiver = true →
    (blockFor a.key f.req.policy f.policyByCore).orNone = (s.cores a).policy → ans.policy a = none
  dns : ∀ a ∈ cfg.adapters, a.dnsReceiver = true →
    (blockFor a.key f.req.dns f.dnsByCore).orNone = (s.cores a).dns → ans.dns a = none
  cascade : ∀ d, storedHandoff cfg f.req = .ok d → ∀ a ∈ cfg.adapters, a.cascadeReceiver = true →
    (ans.cascade a = none ↔ mineOf d a = (s.cores a).cascade)
  chain : (∃ err, ans.chain = .refuses err) ↔ s.accepted = none

/-- The block in force, if any, hands the cores something or nothing, but nothing malformed. -/
def HandedOver (s : AgentState) : Prop :=
  ∀ b u, s.accepted = some b → b.userCore = some u → ∃ h, u.payload = .ok h

/-- What a restart gives back. -/
structure Restored (cfg : AgentConfig) (s s' : AgentState) : Prop where
  cores : ∀ a ∈ cfg.adapters, s'.cores a = s.cores a
  block : HandedOver s → s'.accepted = s.accepted
  runs : s'.accepted.map (fun b => { b with userCore := none }) =
    s.accepted.map fun b => { b with userCore := none }

section Restore

variable {cfg : AgentConfig} {ans : PushAnswers} {s : AgentState} {f : StoreFile}

/-- A new agent that restores is drawn to the stored block. -/
theorem chainStep_fresh (store : Option StoreFile) (block : Option NodeChain) :
    (chainStep cfg ans (.fresh store) block).handoffBlock = block := by
  unfold chainStep
  split
  · cases block with
    | none => rfl
    | some b => cases ans.chain <;> rfl
  · rfl

/-- A new agent runs on no block but the stored one. -/
theorem chainStep_fresh_accepted {store : Option StoreFile} {block : Option NodeChain}
    {c : NodeChain} (h : (chainStep cfg ans (.fresh store) block).accepted = some c) :
    block = some c := by
  unfold chainStep at h
  split at h
  · cases block with
    | none => cases h
    | some b =>
      cases hc : ans.chain with
      | takes => simpa [hc] using h
      | takesWith err => simpa [hc] using h
      | refuses err => simp [hc, AgentState.fresh] at h
  · cases h

theorem restoreFromStore_accepted {c : NodeChain}
    (h : (restoreFromStore cfg ans (some f)).accepted = some c) : f.req.chain = some c := by
  unfold restoreFromStore at h
  dsimp only at h
  split at h
  · cases h
  · exact chainStep_fresh_accepted h

theorem pushedHandoff_fresh (store : Option StoreFile) (req : ApplyInboundsRequest) :
    pushedHandoff cfg ans (.fresh store) req = storedHandoff cfg req := by
  unfold pushedHandoff storedHandoff
  rw [chainStep_fresh]
  cases hm : cfg.chainManager with
  | false => rfl
  | true => rw [chainStep_held hm]

theorem restored_inbounds (h : KeptIn cfg s f) (hans : AnswersAgain cfg ans s f) {a : Adapter}
    (ha : a ∈ cfg.adapters) {cores : Adapter → CoreState}
    (hidle : ∀ id, (cores a).inbounds id = none) (id : String) :
    ((applyInbounds cfg ans cores f.req.inbounds a).retain (keepOf f.req.inbounds a)).inbounds id =
      (s.cores a).inbounds id := by
  rw [retain_inbounds, applyInbounds_inbounds cfg ans cores h.ids, h.inbounds a ha, heldBy]
  cases hib : inboundOf f.req.inbounds id with
  | none => simp [hidle]
  | some ib =>
    have hmem := inboundOf_mem hib
    have hid := inboundOf_id hib
    subst hid
    simp only [hidle]
    by_cases hm : adapterFor cfg ib = some a
    · have hrun : (s.cores a).inbounds ib.id = some (ib.port, ib.config) := by
        rw [h.inbounds a ha, heldBy, hib]
        simp [hm]
      have htakes : Takes cfg ans a ib := ⟨hm, hans.inbound ib hmem a ha hm hrun⟩
      have hkeep : ib.id ∈ keepOf f.req.inbounds a :=
        (mem_keepOf_of_inbound h.ids hmem).mpr ((adapterFor_eq_of_keep ha hm).mpr rfl)
      rw [if_pos hkeep, if_pos htakes, if_pos hm]
    · have hne : ¬ Takes cfg ans a ib := fun ht => hm ht.1
      rw [if_neg hne, if_neg hm]
      split <;> rfl

theorem restored_block {receives : Adapter → Bool} {a : Adapter} {err : Option String}
    {stored running : RawMessage} {byCore : String × String → Option RawMessage}
    (h : running = blockHeld receives a stored byCore)
    (hans : receives a = true → (blockFor a.key stored byCore).orNone = running → err = none) :
    afterBlock (receives a) err (blockFor a.key stored byCore) .empty = running := by
  unfold blockHeld at h
  unfold afterBlock
  cases hr : receives a with
  | false => simp [h, hr]
  | true =>
    rw [hr, if_pos rfl] at h
    have herr := hans hr h.symm
    simp [herr, h]

theorem restored_cascade (h : KeptIn cfg s f) (hans : AnswersAgain cfg ans s f) {a : Adapter}
    (ha : a ∈ cfg.adapters) :
    afterHandoff ans (storedHandoff cfg f.req) a none = (s.cores a).cascade := by
  cases hd : storedHandoff cfg f.req with
  | error e =>
    rcases h.cascade a ha with hnone | ⟨-, d, hok, -⟩
    · exact hnone.symm
    · rw [hd] at hok
      cases hok
  | ok d =>
    simp only [afterHandoff]
    split
    · rename_i ht
      exact (hans.cascade d hd a ha ht.1).mp ht.2
    · rename_i hnt
      rcases h.cascade a ha with hnone | ⟨hrc, d', hok, hmine⟩
      · exact hnone.symm
      · rw [hd] at hok
        cases hok
        exact absurd ⟨hrc, (hans.cascade d hd a ha hrc).mpr hmine.symm⟩ hnt

theorem restored_accepted (h : KeptIn cfg s f) (hans : AnswersAgain cfg ans s f)
    (store : Option StoreFile) :
    (s.accepted = none ∧ (chainStep cfg ans (.fresh store) f.req.chain).accepted = none) ∨
      ∃ b c, s.accepted = some b ∧ SameChain c b ∧
        (chainStep cfg ans (.fresh store) f.req.chain).accepted = some c := by
  cases hb : s.accepted with
  | none =>
    left
    obtain ⟨err, hc⟩ := hans.chain.mpr hb
    refine ⟨rfl, ?_⟩
    unfold chainStep
    split
    · cases f.req.chain with
      | none => rfl
      | some c => rw [hc]; rfl
    · rfl
  | some b =>
    right
    obtain ⟨c, hc, hsame⟩ := h.chain b hb
    refine ⟨b, c, rfl, hsame, ?_⟩
    have hm : cfg.chainManager = true := by
      cases hm : cfg.chainManager with
      | false =>
        rw [h.manager hm] at hb
        cases hb
      | true => rfl
    have hne : ¬ ∃ err, ans.chain = .refuses err := by
      rw [hans.chain, hb]
      intro hf
      cases hf
    rw [hc]
    cases hch : ans.chain with
    | takes => simp [chainStep, hm, hch]
    | takesWith err => simp [chainStep, hm, hch]
    | refuses err => exact absurd ⟨err, hch⟩ hne

theorem restored_of_kept (h : KeptIn cfg s f) (hans : AnswersAgain cfg ans s f) :
    Restored cfg s (restoreFromStore cfg ans (some f)) := by
  unfold restoreFromStore
  dsimp only
  split
  · rename_i hnil
    obtain ⟨hacc, hcores⟩ := h.bare hnil
    exact ⟨fun a ha => (hcores a ha).symm, fun _ => hacc.symm, by rw [hacc]; rfl⟩
  · refine ⟨?_, ?_, ?_⟩
    · intro a ha
      obtain ⟨hp, hd, hc⟩ := applyInbounds_blocks cfg ans
        (fun a =>
          { (AgentState.fresh (some f)).cores a with
            policy := afterBlock a.policyReceiver (ans.policy a)
              (blockFor a.key f.req.policy f.policyByCore) .empty
            dns := afterBlock a.dnsReceiver (ans.dns a)
              (blockFor a.key f.req.dns f.dnsByCore) .empty
            cascade := afterHandoff ans (pushedHandoff cfg ans (.fresh (some f)) f.req) a none })
        f.req.inbounds a
      apply CoreState.ext
      · funext id
        exact restored_inbounds h hans ha (fun _ => rfl) id
      · exact hp.trans (restored_block (h.policy a ha) (hans.policy a ha))
      · exact hd.trans (restored_block (h.dns a ha) (hans.dns a ha))
      · refine hc.trans ?_
        dsimp only
        rw [pushedHandoff_fresh]
        exact restored_cascade h hans ha
    · intro hover
      rcases restored_accepted h hans (some f) with ⟨hs, hr⟩ | ⟨b, c, hs, hsame, hr⟩
      · exact hr.trans hs.symm
      · rcases hsame.same with rfl | ⟨u, e, hu, he⟩
        · exact hr.trans hs.symm
        · obtain ⟨x, hx⟩ := hover b u hs hu
          rw [hx] at he
          cases he
    · rcases restored_accepted h hans (some f) with ⟨hs, hr⟩ | ⟨b, c, hs, hsame, hr⟩
      · exact (congrArg _ hr).trans (congrArg _ hs.symm)
      · refine (congrArg _ hr).trans (Eq.trans ?_ (congrArg _ hs.symm))
        exact congrArg some hsame.runs

end Restore

/-! ## Whole runs -/

inductive AgentEvent where
  | push (ans : PushAnswers) (p : PanelPush)
  | restart (ans : PushAnswers)

/-- Recoverable pushes, and restarts whose cores answer as the old ones did. -/
def agentMachine (cfg : AgentConfig) : Machine AgentState AgentEvent where
  start s := s = .fresh none
  step s e s' :=
    match e with
    | .push ans p => Recoverable cfg ans s p.req ∧ s' = handleApplyInbounds cfg ans s p
    | .restart ans => AnswersAgain cfg ans s s.stored ∧ s' = restoreFromStore cfg ans s.store

section Run

variable {cfg : AgentConfig} {ans : PushAnswers} {s : AgentState}

theorem restored_of_stored (h : Kept cfg s) (hans : AnswersAgain cfg ans s s.stored) :
    Restored cfg s (restoreFromStore cfg ans s.store) := by
  cases hst : s.store with
  | none =>
    have hs : s.stored = .blank := by simp [AgentState.stored, hst]
    unfold Kept at h
    rw [hs] at h
    obtain ⟨hacc, hcores⟩ := h.bare rfl
    exact ⟨fun a ha => (hcores a ha).symm, fun _ => hacc.symm, by rw [hacc]; rfl⟩
  | some f =>
    have hs : s.stored = f := by simp [AgentState.stored, hst]
    unfold Kept at h
    rw [hs] at h hans
    exact restored_of_kept h hans

theorem restoreFromStore_store (store : Option StoreFile) :
    (restoreFromStore cfg ans store).store = store := by
  unfold restoreFromStore
  cases store with
  | none => rfl
  | some f =>
    dsimp only
    split <;> rfl

/-- After a restart the store holds the agent again. -/
theorem kept_restart (h : Kept cfg s) (hans : AnswersAgain cfg ans s s.stored) :
    Kept cfg (restoreFromStore cfg ans s.store) := by
  have hr := restored_of_stored h hans
  have hst : (restoreFromStore cfg ans s.store).stored = s.stored := by
    simp [AgentState.stored, restoreFromStore_store]
  have hnone : s.accepted = none → (restoreFromStore cfg ans s.store).accepted = none := by
    intro hacc
    have := hr.runs
    rw [hacc] at this
    simpa using this
  unfold Kept
  rw [hst]
  refine ⟨h.ids, ?_, ?_, ?_, ?_, ?_, fun hm => hnone (h.manager hm), ?_⟩
  · intro a ha id
    rw [hr.cores a ha]
    exact h.inbounds a ha id
  · intro a ha
    rw [hr.cores a ha]
    exact h.policy a ha
  · intro a ha
    rw [hr.cores a ha]
    exact h.dns a ha
  · intro a ha
    rw [hr.cores a ha]
    exact h.cascade a ha
  · intro c hc
    cases hstore : s.store with
    | none =>
      rw [hstore] at hc
      cases hc
    | some f =>
      rw [hstore] at hc
      have hf : s.stored = f := by simp [AgentState.stored, hstore]
      exact ⟨c, by rw [hf, restoreFromStore_accepted hc], rfl, .inl rfl⟩
  · intro hnil
    obtain ⟨hacc, hcores⟩ := h.bare hnil
    refine ⟨hnone hacc, ?_⟩
    intro a ha
    rw [hr.cores a ha]
    exact hcores a ha

theorem kept_reachable (h : (agentMachine cfg).Reachable s) : Kept cfg s := by
  refine h.invariant ?_ ?_
  · rintro s rfl
    exact keptIn_blank ⟨fun _ _ => rfl, rfl⟩
  · intro s e s' _ hk hstep
    cases e with
    | push ans p =>
      obtain ⟨hrec, rfl⟩ := hstep
      exact kept_push hk hrec
    | restart ans =>
      obtain ⟨hans, rfl⟩ := hstep
      exact kept_restart hk hans

end Run

/-- **A restart changes nothing.**  After any run of recoverable pushes, with any parts of them
refused and restarts in between, a new agent with the same cores comes back from the store on what
the old one was running. -/
theorem restart_restores (cfg : AgentConfig) (s : AgentState) (h : (agentMachine cfg).Reachable s)
    (ans : PushAnswers) (hans : AnswersAgain cfg ans s s.stored) :
    Restored cfg s (restoreFromStore cfg ans s.store) :=
  restored_of_stored (kept_reachable h) hans

/-! ## A push without inbounds -/

section Example

def xrayCore : Adapter where
  name := "xray"
  engine := "xray"
  absent := false
  policyReceiver := true
  dnsReceiver := true
  cascadeReceiver := true

/-- A node with one core and a chain manager. -/
def chainNode : AgentConfig := ⟨[xrayCore], by decide, true⟩

/-- Everything is taken. -/
def takesAll : PushAnswers :=
  ⟨fun _ => none, fun _ => none, .takes, fun _ => none, fun _ => none, none⟩

/-- The block of a hop that serves no users of its own. -/
def transitChain : NodeChain :=
  ⟨"singbox", ⟨"[1]", .inr (by decide)⟩, some [], "", none, none, none⟩

def somePolicy : RawMessage := ⟨"[3]", .inr (by decide)⟩

/-- A push with the chain block and a policy; `inbounds` is what it serves. -/
def transitPush (inbounds : List InboundDto) : ApplyInboundsRequest :=
  ⟨inbounds, somePolicy, .empty, none, some transitChain⟩

def vlessInbound : InboundDto := ⟨"b1", "vless", "xray", "", 443, ⟨"[2]", .inr (by decide)⟩⟩

def servingPush : PanelPush := ⟨transitPush [vlessInbound], by decide, by decide⟩

def barePush : PanelPush := ⟨transitPush [], by decide, by decide⟩

def servingAgent : AgentState := handleApplyInbounds chainNode takesAll (.fresh none) servingPush

def bareAgent : AgentState := handleApplyInbounds chainNode takesAll (.fresh none) barePush

theorem recoverable_servingPush :
    Recoverable chainNode takesAll (.fresh none) servingPush.req where
  written := rfl
  inbound := .inl ⟨vlessInbound, List.mem_cons_self, .inl rfl⟩
  own := by
    intro ib _ hr
    simp [inboundRefused, takesAll] at hr
  handoff := by
    intro d _ a _ _ hr
    cases hr
  userCore := by
    intro e he
    cases he

/-- The same cores take everything again. -/
theorem answersAgain_takesAll {s : AgentState} (hacc : s.accepted ≠ none)
    (hd : storedHandoff chainNode s.stored.req = .ok none)
    (hc : (s.cores xrayCore).cascade = none) :
    AnswersAgain chainNode takesAll s s.stored where
  inbound _ _ _ _ _ _ := rfl
  policy _ _ _ _ := rfl
  dns _ _ _ _ := rfl
  cascade d hd' a ha _ := by
    rw [hd] at hd'
    cases hd'
    rw [List.mem_singleton.mp ha, hc]
    exact ⟨fun _ => rfl, fun _ => rfl⟩
  chain := by
    constructor
    · rintro ⟨err, he⟩
      cases he
    · intro h
      exact absurd h hacc

theorem answersAgain_serving : AnswersAgain chainNode takesAll servingAgent servingAgent.stored :=
  answersAgain_takesAll (by intro h; cases h) rfl rfl

theorem servingAgent_reachable : (agentMachine chainNode).Reachable servingAgent :=
  .step (e := .push takesAll servingPush) (.start rfl) ⟨recoverable_servingPush, rfl⟩

/-- One inbound, a policy and the chain block come back. -/
theorem restart_restores_serving :
    Restored chainNode servingAgent (restoreFromStore chainNode takesAll servingAgent.store)
      ∧ servingAgent.accepted = some transitChain
      ∧ (servingAgent.cores xrayCore).inbounds "b1" = some (443, vlessInbound.config) :=
  ⟨restart_restores chainNode servingAgent servingAgent_reachable takesAll answersAgain_serving,
    rfl, rfl⟩

/-- The same push without the inbound: the chain ran and the core had its policy, the store names
both, and the restarted agent has neither. -/
theorem push_without_inbounds_lost :
    AnswersAgain chainNode takesAll bareAgent bareAgent.stored
      ∧ bareAgent.accepted = some transitChain
      ∧ (bareAgent.cores xrayCore).policy = somePolicy
      ∧ bareAgent.stored.req.chain = some transitChain
      ∧ (restoreFromStore chainNode takesAll bareAgent.store).accepted = none
      ∧ ¬ Restored chainNode bareAgent (restoreFromStore chainNode takesAll bareAgent.store) := by
  refine ⟨answersAgain_takesAll (by intro h; cases h) rfl rfl, rfl, ?_, rfl, rfl, ?_⟩
  · decide
  · intro h
    have hover : HandedOver bareAgent := by
      intro b u hb hu
      cases hb
      cases hu
    have hblock : (none : Option NodeChain) = some transitChain := h.block hover
    cases hblock

end Example

end Iceslab.Agent
