import Iceslab.CascadeExclusive
import Iceslab.Lib.JsText

/-!
# What a user is handed, and where the nodes hold them

The binding query of `subscription.service.ts` with its host narrowing and its cut of switched-off
entries, against `user-reach.ts`.  Both walk the grants of the user's squads; rows come without
their order, and the liveness of nodes is left out on both sides.

* `subscriptionBindings` — the bindings a subscription is built from, each with its hosts.
* `bindingsReachedBySquads`, `reachOfUsers` — where the nodes hold a user.
* `reach_handed_out` — a node holds nobody on an inbound no link of theirs names.
* `handed_out_iff` — every link points at an inbound that holds the user exactly when the squads
  that open a binding are squads that grant its profile.
* `open_by_another_squad` — a squad that grants something else opens what it does not grant.
-/

set_option autoImplicit false

namespace Iceslab.UserReach

/-! ## The tables -/

structure UserRow where
  id : String
  deleted : Bool
  /-- `status === 'active'` -/
  active : Bool
  deriving DecidableEq, Repr

structure Membership where
  userId : String
  groupId : String
  deriving DecidableEq, Repr

/-- `GroupProfile` -/
structure ProfileGrant where
  groupId : String
  profileId : String
  deriving DecidableEq, Repr

/-- `GroupHost` -/
structure HostGrant where
  groupId : String
  hostId : String
  deriving DecidableEq, Repr

/-- `GroupCascadeOff` -/
structure CascadeOff where
  groupId : String
  cascadeId : String
  deriving DecidableEq, Repr

structure ProfileRow where
  id : String
  enabled : Bool
  protocol : String
  deriving DecidableEq, Repr

structure NodeRow where
  id : String
  deleted : Bool
  /-- `status === 'disabled'` -/
  disabled : Bool
  deriving DecidableEq, Repr

structure BindingRow where
  id : String
  nodeId : String
  profileId : String
  enabled : Bool
  deriving DecidableEq, Repr

structure HostRow where
  id : String
  bindingId : String
  enabled : Bool
  deriving DecidableEq, Repr

structure PositionRow where
  position : Nat
  entryProtocol : Option String
  nodes : List String
  deriving DecidableEq, Repr

structure CascadeRow where
  id : String
  name : String
  createdAt : Nat
  enabled : Bool
  hops : List String
  positions : List PositionRow
  directions : List (List String)
  deriving DecidableEq, Repr

def CascadeRow.stored (c : CascadeRow) : StoredCascade :=
  { id := c.id, name := c.name, createdAt := c.createdAt, enabled := c.enabled, hops := c.hops
    positions := c.positions.map (·.nodes), directions := c.directions }

/-- A state of the database; the ids are keys. -/
structure ReachDb where
  users : List UserRow
  memberships : List Membership
  profileGrants : List ProfileGrant
  hostGrants : List HostGrant
  cascadesOff : List CascadeOff
  profiles : List ProfileRow
  nodes : List NodeRow
  bindings : List BindingRow
  hosts : List HostRow
  cascades : List CascadeRow
  userIds : (users.map (·.id)).Nodup
  bindingIds : (bindings.map (·.id)).Nodup
  cascadeIds : (cascades.map (·.id)).Nodup

namespace ReachDb

variable (db : ReachDb)

def cascadeTable : CascadeTable where
  rows := db.cascades.map CascadeRow.stored
  ids := by
    rw [List.map_map]
    exact db.cascadeIds

/-- `groupMember.findMany({ where: { userId } })` -/
def groupIdsOf (userId : String) : List String :=
  (db.memberships.filter fun m => decide (m.userId = userId)).map (·.groupId)

/-- The squad grants the profile. -/
def grants (groupId profileId : String) : Bool :=
  decide (⟨groupId, profileId⟩ ∈ db.profileGrants)

/-- The squad has host rows. -/
def narrowed (groupId : String) : Bool :=
  db.hostGrants.any fun h => decide (h.groupId = groupId)

/-- One of the squad's host rows names the host. -/
def names (groupId : String) (h : HostRow) : Bool := decide (⟨groupId, h.id⟩ ∈ db.hostGrants)

/-! ## `entriesSwitchedOff` -/

/-- The inbounds a cascade is entered through where its entry cannot keep the switch. -/
def entryKeys (c : CascadeRow) : List String :=
  (c.positions.filter fun p => decide (p.position = 0)).flatMap fun p =>
    p.nodes.map fun n => n ++ "|" ++ p.entryProtocol.getD "null"

/-- The cascade is enabled, not dead, and entered through hysteria or AmneziaWG. -/
def switchable (c : CascadeRow) : Bool :=
  c.enabled && decide (c.id ∉ db.cascadeTable.deadCascadeIds)
    && c.positions.any fun p => decide (p.position = 0) &&
      decide (p.entryProtocol = some "hysteria" ∨ p.entryProtocol = some "amneziawg")

/-- What a squad switched off: `switchedOff.get(groupId)`. -/
def entriesSwitchedOff (groupIds : List String) (groupId : String) : List String :=
  if groupId ∈ groupIds then
    (db.cascades.filter fun c =>
      decide (⟨groupId, c.id⟩ ∈ db.cascadesOff) && db.switchable c).flatMap entryKeys
  else []

/-! ## The subscription -/

/-- A binding with what the query reads along. -/
structure BindingRead where
  id : String
  nodeId : String
  profileId : String
  protocol : String
  hosts : List HostRow
  deriving DecidableEq, Repr

def BindingRead.key (b : BindingRead) : String := b.nodeId ++ "|" ++ b.protocol

def enabledHosts (b : BindingRow) : List HostRow :=
  db.hosts.filter fun h => decide (h.bindingId = b.id) && h.enabled

/-- The enabled bindings of enabled profiles that a squad grants, on nodes in service. -/
def bindingQuery (groupIds : List String) : List BindingRead :=
  db.bindings.filterMap fun b =>
    match db.profiles.find? fun p => decide (p.id = b.profileId),
      db.nodes.find? fun n => decide (n.id = b.nodeId) with
    | some p, some n =>
      if b.enabled && p.enabled && groupIds.any (fun g => db.grants g p.id)
          && !n.deleted && !n.disabled then
        some ⟨b.id, b.nodeId, p.id, p.protocol, db.enabledHosts b⟩
      else none
    | _, _ => none

/-- `narrowedSquads`, and the hosts they leave. -/
def narrowHosts (groupIds : List String) (bindings : List BindingRead) : List BindingRead :=
  if groupIds.any db.narrowed ∧ ¬ groupIds.any fun g => !db.narrowed g then
    bindings.map fun b =>
      { b with hosts := b.hosts.filter fun h => groupIds.any fun g => db.names g h }
  else bindings

/-- A squad that did not switch the entry off, grants the profile and reaches one of the hosts. -/
def keepsEntry (groupIds : List String) (b : BindingRead) (g : String) : Bool :=
  decide (b.key ∉ db.entriesSwitchedOff groupIds g) && db.grants g b.profileId
    && (!db.narrowed g || b.hosts.any (db.names g))

def cutSwitchedOff (groupIds : List String) (bindings : List BindingRead) : List BindingRead :=
  bindings.filter fun b =>
    !(groupIds.any fun g => decide (b.key ∈ db.entriesSwitchedOff groupIds g))
      || groupIds.any (db.keepsEntry groupIds b)

/-- What the subscription of a member of these squads is built from. -/
def subscriptionBindings (groupIds : List String) : List BindingRead :=
  db.cutSwitchedOff groupIds (db.narrowHosts groupIds (db.bindingQuery groupIds))

/-- The user is handed lines of the binding: one with no host left makes none. -/
def HandedOut (userId id nodeId : String) : Prop :=
  ∃ b ∈ db.subscriptionBindings (db.groupIdsOf userId),
    b.id = id ∧ b.nodeId = nodeId ∧ b.hosts ≠ []

/-! ## `user-reach.ts` -/

/-- `reachedBy.get(g)`: the bindings a squad reaches, on one node or all. -/
def bindingsReachedBySquads (groupIds : List String) (nodeId : Option String) (g : String) :
    List (String × String) :=
  if g ∈ groupIds then
    ((db.bindingQuery groupIds).filter fun b =>
      decide (∀ n ∈ nodeId, b.nodeId = n) && db.grants g b.profileId && decide (b.hosts ≠ [])
        && (!db.narrowed g || b.hosts.any (db.names g))
        && decide (b.key ∉ db.entriesSwitchedOff groupIds g)).map fun b => (b.id, b.nodeId)
  else []

/-- The memberships a call reads: of every active user, or of the users asked for. -/
def membershipsOf (userIds : Option (List String)) : List Membership :=
  db.memberships.filter fun m =>
    match userIds with
    | none => db.users.any fun u => decide (u.id = m.userId) && !u.deleted && u.active
    | some ids => decide (m.userId ∈ ids)

/-- `out.get(userId)?.get(nodeId)` -/
def reachOfUsers (userIds : Option (List String)) (onNode : Option String)
    (userId nodeId : String) : List String :=
  let memberships := db.membershipsOf userIds
  let reachedBy := db.bindingsReachedBySquads (memberships.map (·.groupId)).eraseDups onNode
  JsText.sortTexts
    ((((memberships.filter fun m => decide (m.userId = userId)).flatMap fun m =>
        reachedBy m.groupId).filter fun b => decide (b.2 = nodeId)).map Prod.fst
      |>.foldl JsText.setAdd [])

/-! ## One binding -/

/-- The squad reaches a host of the binding: it has no host rows, or one of them names it. -/
def opens (g : String) (b : BindingRead) : Bool := !db.narrowed g || b.hosts.any (db.names g)

/-- The binding as the query reads it, whoever asks. -/
def InService (b : BindingRead) : Prop :=
  ∃ row ∈ db.bindings, ∃ p n,
    db.profiles.find? (fun p => decide (p.id = row.profileId)) = some p ∧
    db.nodes.find? (fun n => decide (n.id = row.nodeId)) = some n ∧
    row.enabled = true ∧ p.enabled = true ∧ n.deleted = false ∧ n.disabled = false ∧
    b = ⟨row.id, row.nodeId, p.id, p.protocol, db.enabledHosts row⟩

/-- The squad grants the binding, opens it and did not switch its entry off. -/
structure Reaches (g : String) (b : BindingRead) : Prop where
  grants : db.grants g b.profileId = true
  opens : db.opens g b = true
  on : b.key ∉ db.entriesSwitchedOff [g] g

section Reading

variable {db : ReachDb} {groupIds : List String} {b : BindingRead} {g : String}
  {id nodeId userId : String}

theorem mem_bindingQuery : b ∈ db.bindingQuery groupIds ↔
    db.InService b ∧ ∃ g ∈ groupIds, db.grants g b.profileId = true := by
  rw [bindingQuery, List.mem_filterMap]
  constructor
  · rintro ⟨row, hrow, hread⟩
    split at hread
    · rename_i p n hp hn
      split at hread
      · rename_i hwhere
        simp only [Bool.and_eq_true, Bool.not_eq_true', List.any_eq_true] at hwhere
        obtain ⟨⟨⟨⟨hrowOn, hpOn⟩, hgrant⟩, hdeleted⟩, hdisabled⟩ := hwhere
        cases hread
        exact ⟨⟨row, hrow, p, n, hp, hn, hrowOn, hpOn, hdeleted, hdisabled, rfl⟩, hgrant⟩
      · cases hread
    · cases hread
  · rintro ⟨⟨row, hrow, p, n, hp, hn, hrowOn, hpOn, hdeleted, hdisabled, rfl⟩, hgrant⟩
    refine ⟨row, hrow, ?_⟩
    rw [hp, hn]
    dsimp only
    rw [if_pos]
    simpa only [hrowOn, hpOn, hdeleted, hdisabled, Bool.and_eq_true, Bool.not_false, and_true,
      true_and, List.any_eq_true] using hgrant

/-- What a squad switched off does not depend on who asks. -/
theorem entriesSwitchedOff_of_mem (h : g ∈ groupIds) :
    db.entriesSwitchedOff groupIds g = db.entriesSwitchedOff [g] g := by
  rw [entriesSwitchedOff, if_pos h, entriesSwitchedOff, if_pos (List.mem_singleton.mpr rfl)]

theorem mem_bindingsReachedBySquads {x : String × String} :
    x ∈ db.bindingsReachedBySquads groupIds none g ↔
      g ∈ groupIds ∧ ∃ b, db.InService b ∧ x = (b.id, b.nodeId) ∧ b.hosts ≠ [] ∧
        db.Reaches g b := by
  unfold bindingsReachedBySquads
  split
  · rename_i hg
    simp only [List.mem_map, List.mem_filter, mem_bindingQuery, Bool.and_eq_true,
      decide_eq_true_eq, hg, true_and, entriesSwitchedOff_of_mem hg]
    constructor
    · rintro ⟨b, ⟨⟨hb, -⟩, ⟨⟨⟨-, hgrant⟩, hhosts⟩, hopen⟩, hon⟩, rfl⟩
      exact ⟨b, hb, rfl, hhosts, hgrant, hopen, hon⟩
    · rintro ⟨b, hb, rfl, hhosts, hreach⟩
      exact ⟨b, ⟨⟨hb, g, hg, hreach.grants⟩, ⟨⟨⟨nofun, hreach.grants⟩, hhosts⟩, hreach.opens⟩,
        hreach.on⟩, rfl⟩
  · rename_i hg
    simp [hg]

/-! ## A user -/

/-- The call reads the memberships of the user. -/
def Covers (db : ReachDb) (userIds : Option (List String)) (userId : String) : Prop :=
  match userIds with
  | none => ∃ u ∈ db.users, u.id = userId ∧ u.deleted = false ∧ u.active = true
  | some ids => userId ∈ ids

theorem mem_membershipsOf {userIds : Option (List String)}
    (h : db.Covers userIds userId) (g : String) :
    ⟨userId, g⟩ ∈ db.membershipsOf userIds ↔ g ∈ db.groupIdsOf userId := by
  have hread : ⟨userId, g⟩ ∈ db.membershipsOf userIds ↔
      (⟨userId, g⟩ : Membership) ∈ db.memberships := by
    rw [membershipsOf, List.mem_filter, and_iff_left_iff_imp]
    intro _
    cases userIds with
    | none =>
      obtain ⟨u, hu, hid, hdeleted, hactive⟩ := h
      exact List.any_eq_true.mpr ⟨u, hu, by simp [hid, hdeleted, hactive]⟩
    | some ids => exact decide_eq_true h
  rw [hread, groupIdsOf, List.mem_map]
  constructor
  · exact fun hm => ⟨_, List.mem_filter.mpr ⟨hm, decide_eq_true rfl⟩, rfl⟩
  · rintro ⟨m, hm, rfl⟩
    obtain ⟨hmem, hu⟩ := List.mem_filter.mp hm
    obtain rfl := of_decide_eq_true hu
    exact hmem

/-- **Where the nodes hold a user**: on every binding in service that a squad of theirs reaches. -/
theorem mem_reachOfUsers {userIds : Option (List String)}
    (h : db.Covers userIds userId) (id nodeId : String) :
    id ∈ db.reachOfUsers userIds none userId nodeId ↔
      ∃ b, db.InService b ∧ b.id = id ∧ b.nodeId = nodeId ∧ b.hosts ≠ [] ∧
        ∃ g ∈ db.groupIdsOf userId, db.Reaches g b := by
  have hgroups {g : String} (hg : g ∈ db.groupIdsOf userId) :
      g ∈ ((db.membershipsOf userIds).map (·.groupId)).eraseDups :=
    List.mem_eraseDups.mpr (List.mem_map_of_mem ((mem_membershipsOf h g).mpr hg))
  simp only [reachOfUsers, JsText.mem_sortTexts, JsText.mem_foldl_setAdd, List.not_mem_nil,
    false_or, List.mem_map, List.mem_filter, List.mem_flatMap, decide_eq_true_eq,
    mem_bindingsReachedBySquads]
  constructor
  · rintro ⟨x, ⟨⟨m, ⟨hm, rfl⟩, -, b, hb, rfl, hhosts, hreach⟩, rfl⟩, rfl⟩
    exact ⟨b, hb, rfl, rfl, hhosts, m.groupId, (mem_membershipsOf h _).mp hm, hreach⟩
  · rintro ⟨b, hb, rfl, rfl, hhosts, g, hg, hreach⟩
    exact ⟨(b.id, b.nodeId), ⟨⟨⟨userId, g⟩, ⟨(mem_membershipsOf h g).mpr hg, rfl⟩, hgroups hg, b,
      hb, rfl, hhosts, hreach⟩, rfl⟩, rfl⟩

/-! ## A subscription -/

/-- Some squad opens the binding, whether it grants it or not. -/
def Opened (db : ReachDb) (groupIds : List String) (b : BindingRead) : Prop :=
  ∃ g ∈ groupIds, db.opens g b = true

/-- No squad switched the entry off. -/
def On (db : ReachDb) (groupIds : List String) (b : BindingRead) : Prop :=
  ∀ g ∈ groupIds, b.key ∉ db.entriesSwitchedOff groupIds g

/-- What narrowing leaves of a binding. -/
structure LeftOf (db : ReachDb) (groupIds : List String) (b left : BindingRead) : Prop where
  id : left.id = b.id
  nodeId : left.nodeId = b.nodeId
  profileId : left.profileId = b.profileId
  key : left.key = b.key
  /-- a host is left where a squad opens the binding -/
  hosts : left.hosts ≠ [] ↔ b.hosts ≠ [] ∧ Opened db groupIds b
  /-- what a squad names stays -/
  named : ∀ g ∈ groupIds, left.hosts.any (db.names g) = b.hosts.any (db.names g)

theorem leftOf_narrowed (hall : ∀ g ∈ groupIds, db.narrowed g = true) (b : BindingRead) :
    LeftOf db groupIds b
      { b with hosts := b.hosts.filter fun h => groupIds.any fun g => db.names g h } where
  id := rfl
  nodeId := rfl
  profileId := rfl
  key := rfl
  hosts := by
    constructor
    · intro hleft
      obtain ⟨h, hh⟩ := List.exists_mem_of_ne_nil _ hleft
      obtain ⟨hmem, hnamed⟩ := List.mem_filter.mp hh
      obtain ⟨g, hg, hname⟩ := List.any_eq_true.mp hnamed
      refine ⟨List.ne_nil_of_mem hmem, g, hg, ?_⟩
      rw [opens, Bool.or_eq_true]
      exact .inr (List.any_eq_true.mpr ⟨h, hmem, hname⟩)
    · rintro ⟨-, g, hg, hopen⟩
      rw [opens, hall g hg, Bool.not_true, Bool.false_or] at hopen
      obtain ⟨h, hmem, hname⟩ := List.any_eq_true.mp hopen
      exact List.ne_nil_of_mem
        (List.mem_filter.mpr ⟨hmem, List.any_eq_true.mpr ⟨g, hg, hname⟩⟩)
  named := by
    intro g hg
    rw [Bool.eq_iff_iff, List.any_eq_true, List.any_eq_true]
    constructor
    · rintro ⟨h, hh, hname⟩
      exact ⟨h, (List.mem_filter.mp hh).1, hname⟩
    · rintro ⟨h, hh, hname⟩
      exact ⟨h, List.mem_filter.mpr ⟨hh, List.any_eq_true.mpr ⟨g, hg, hname⟩⟩, hname⟩

theorem leftOf_self (hg : g ∈ groupIds) (hfree : db.narrowed g = false)
    (b : BindingRead) : LeftOf db groupIds b b where
  id := rfl
  nodeId := rfl
  profileId := rfl
  key := rfl
  hosts := by
    refine ⟨fun h => ⟨h, g, hg, ?_⟩, And.left⟩
    rw [opens, hfree]
    rfl
  named _ _ := rfl

/-- Narrowing maps every binding to what is left of it. -/
theorem exists_narrow (db : ReachDb) (groupIds : List String) (hgroups : groupIds ≠ []) :
    ∃ f : BindingRead → BindingRead, (∀ bs, db.narrowHosts groupIds bs = bs.map f) ∧
      ∀ b, LeftOf db groupIds b (f b) := by
  by_cases hall : ∀ g ∈ groupIds, db.narrowed g = true
  · refine ⟨fun b =>
      { b with hosts := b.hosts.filter fun h => groupIds.any fun g => db.names g h },
      fun bs => if_pos ⟨?_, ?_⟩, leftOf_narrowed hall⟩
    · obtain ⟨g, hg⟩ := List.exists_mem_of_ne_nil _ hgroups
      exact List.any_eq_true.mpr ⟨g, hg, hall g hg⟩
    · rw [List.any_eq_true]
      rintro ⟨g, hg, hfree⟩
      rw [hall g hg] at hfree
      cases hfree
  · obtain ⟨g, hg, hfree⟩ : ∃ g ∈ groupIds, db.narrowed g = false := by simpa using hall
    refine ⟨id, fun bs => ?_, leftOf_self hg hfree⟩
    rw [narrowHosts, if_neg, List.map_id]
    exact fun h => h.2 (List.any_eq_true.mpr ⟨g, hg, by rw [hfree]; rfl⟩)

theorem keepsEntry_of_left {left : BindingRead} (h : LeftOf db groupIds b left)
    (hg : g ∈ groupIds) : db.keepsEntry groupIds left g = true ↔ db.Reaches g b := by
  rw [keepsEntry, h.key, h.profileId, h.named g hg, entriesSwitchedOff_of_mem hg]
  simp only [Bool.and_eq_true, decide_eq_true_eq]
  exact ⟨fun ⟨⟨hon, hgrant⟩, hopen⟩ => ⟨hgrant, hopen, hon⟩,
    fun hr => ⟨⟨hr.on, hr.grants⟩, hr.opens⟩⟩

/-- **What a subscription hands out**: a granted binding that some squad opens, and where its entry
is switched off, that a squad reaches for itself. -/
theorem handedOut_iff : db.HandedOut userId id nodeId ↔
    ∃ b, db.InService b ∧ b.id = id ∧ b.nodeId = nodeId ∧ b.hosts ≠ [] ∧
      (∃ g ∈ db.groupIdsOf userId, db.grants g b.profileId = true) ∧
      Opened db (db.groupIdsOf userId) b ∧
      (On db (db.groupIdsOf userId) b ∨ ∃ g ∈ db.groupIdsOf userId, db.Reaches g b) := by
  generalize hG : db.groupIdsOf userId = G
  rw [HandedOut, hG]
  have hkept {b left : BindingRead} (hleft : LeftOf db G b left) :
      left ∈ db.subscriptionBindings G ↔ left ∈ db.narrowHosts G (db.bindingQuery G) ∧
        (On db G b ∨ ∃ g ∈ G, db.Reaches g b) := by
    have hany : G.any (db.keepsEntry G left) = true ↔ ∃ g ∈ G, db.Reaches g b := by
      rw [List.any_eq_true]
      constructor
      · exact fun ⟨g, hg, hk⟩ => ⟨g, hg, (keepsEntry_of_left hleft hg).mp hk⟩
      · exact fun ⟨g, hg, hr⟩ => ⟨g, hg, (keepsEntry_of_left hleft hg).mpr hr⟩
    have hon : (!(G.any fun g => decide (left.key ∈ db.entriesSwitchedOff G g))) = true ↔
        On db G b := by
      rw [Bool.not_eq_true', List.any_eq_false, hleft.key]
      simp only [decide_eq_true_eq]
      exact Iff.rfl
    rw [subscriptionBindings, cutSwitchedOff, List.mem_filter, Bool.or_eq_true, hany, hon]
  constructor
  · rintro ⟨left, hmem, rfl, rfl, hhosts⟩
    have hnarrow := (List.mem_filter.mp hmem).1
    have hne : G ≠ [] := by
      rintro rfl
      obtain ⟨-, g, hg, -⟩ := mem_bindingQuery.mp (show left ∈ db.bindingQuery [] from hnarrow)
      cases hg
    obtain ⟨f, hf, hleft⟩ := exists_narrow db G hne
    rw [hf] at hnarrow
    obtain ⟨b, hb, rfl⟩ := List.mem_map.mp hnarrow
    obtain ⟨hservice, hgrant⟩ := mem_bindingQuery.mp hb
    obtain ⟨hbhosts, hopen⟩ := (hleft b).hosts.mp hhosts
    exact ⟨b, hservice, (hleft b).id.symm, (hleft b).nodeId.symm, hbhosts, hgrant, hopen,
      ((hkept (hleft b)).mp hmem).2⟩
  · rintro ⟨b, hservice, rfl, rfl, hhosts, hgrant, hopen, hon⟩
    have hne : G ≠ [] := by
      obtain ⟨g, hg, -⟩ := hgrant
      exact List.ne_nil_of_mem hg
    obtain ⟨f, hf, hleft⟩ := exists_narrow db G hne
    have hmem : f b ∈ db.narrowHosts G (db.bindingQuery G) := by
      rw [hf]
      exact List.mem_map_of_mem (mem_bindingQuery.mpr ⟨hservice, hgrant⟩)
    exact ⟨f b, (hkept (hleft b)).mpr ⟨hmem, hon⟩, (hleft b).id, (hleft b).nodeId,
      (hleft b).hosts.mpr ⟨hhosts, hopen⟩⟩

/-! ## The two walks -/

/-- Whichever squad opens a binding that none of them switched off, one that grants it does. -/
def OpenedByGrants (db : ReachDb) (groupIds : List String) : Prop :=
  ∀ b ∈ db.bindingQuery groupIds, b.hosts ≠ [] →
    (∀ g ∈ groupIds, b.key ∉ db.entriesSwitchedOff groupIds g) →
    (∃ g ∈ groupIds, db.opens g b = true) →
    ∃ g ∈ groupIds, db.grants g b.profileId = true ∧ db.opens g b = true

variable {userIds : Option (List String)}

/-- **No node holds a user on an inbound that no link of theirs names.** -/
theorem reach_handed_out (h : db.Covers userIds userId)
    (hreach : id ∈ db.reachOfUsers userIds none userId nodeId) : db.HandedOut userId id nodeId := by
  obtain ⟨b, hb, hid, hnode, hhosts, g, hg, hr⟩ := (mem_reachOfUsers h id nodeId).mp hreach
  exact handedOut_iff.mpr ⟨b, hb, hid, hnode, hhosts, ⟨g, hg, hr.grants⟩, ⟨g, hg, hr.opens⟩,
    .inr ⟨g, hg, hr⟩⟩

theorem inService_unique {b b' : BindingRead} (h : db.InService b) (h' : db.InService b')
    (hid : b.id = b'.id) : b = b' := by
  obtain ⟨row, hrow, p, n, hp, hn, -, -, -, -, rfl⟩ := h
  obtain ⟨row', hrow', p', n', hp', hn', -, -, -, -, rfl⟩ := h'
  obtain rfl : row = row' := List.inj_on_of_nodup_map db.bindingIds hrow hrow' hid
  obtain rfl : p = p' := Option.some.inj (hp.symm.trans hp')
  rfl

/-- **A user is handed what the nodes hold for them** exactly when the squads that open a binding
are among those that grant it. -/
theorem handed_out_iff (hcall : db.Covers userIds userId) :
    (∀ id nodeId, db.HandedOut userId id nodeId ↔
        id ∈ db.reachOfUsers userIds none userId nodeId) ↔
      OpenedByGrants db (db.groupIdsOf userId) := by
  constructor
  · intro hsame b hb hhosts hon hopen
    obtain ⟨hservice, hgrant⟩ := mem_bindingQuery.mp hb
    have hhanded : db.HandedOut userId b.id b.nodeId :=
      handedOut_iff.mpr ⟨b, hservice, rfl, rfl, hhosts, hgrant, hopen, .inl hon⟩
    obtain ⟨b', hservice', hid, -, -, g, hg, hr⟩ :=
      (mem_reachOfUsers hcall _ _).mp ((hsame _ _).mp hhanded)
    rw [inService_unique hservice' hservice hid] at hr
    exact ⟨g, hg, hr.grants, hr.opens⟩
  · intro h id nodeId
    refine ⟨fun hhanded => ?_, reach_handed_out hcall⟩
    obtain ⟨b, hservice, hid, hnode, hhosts, hgrant, hopen, hon⟩ := handedOut_iff.mp hhanded
    refine (mem_reachOfUsers hcall id nodeId).mpr ⟨b, hservice, hid, hnode, hhosts, ?_⟩
    rcases hon with hon | hr
    · obtain ⟨g, hg, hgrant, hopen⟩ :=
        h b (mem_bindingQuery.mpr ⟨hservice, hgrant⟩) hhosts hon hopen
      exact ⟨g, hg, hgrant, hopen, entriesSwitchedOff_of_mem hg ▸ hon g hg⟩
    · exact hr

end Reading

/-! ## Two squads -/

/-- Squad `basic` grants a profile on two nodes and is narrowed to its host on the first; squad
`wide` has no host rows and grants what `wideGrants` says. -/
def twoSquads (wideGrants : List ProfileGrant) : ReachDb where
  users := [⟨"u", false, true⟩]
  memberships := [⟨"u", "basic"⟩, ⟨"u", "wide"⟩]
  profileGrants := ⟨"basic", "p"⟩ :: wideGrants
  hostGrants := [⟨"basic", "h1"⟩]
  cascadesOff := []
  profiles := [⟨"p", true, "xray"⟩, ⟨"q", true, "xray"⟩]
  nodes := [⟨"n1", false, false⟩, ⟨"n2", false, false⟩]
  bindings := [⟨"b1", "n1", "p", true⟩, ⟨"b2", "n2", "p", true⟩]
  hosts := [⟨"h1", "b1", true⟩, ⟨"h2", "b2", true⟩]
  cascades := []
  userIds := by decide
  bindingIds := by decide
  cascadeIds := by decide

theorem handed_out_iff_twoSquads :
    (twoSquads [⟨"wide", "p"⟩]).HandedOut "u" "b2" "n2" ↔
      "b2" ∈ (twoSquads [⟨"wide", "p"⟩]).reachOfUsers none none "u" "n2" := by
  have hcall : (twoSquads [⟨"wide", "p"⟩]).Covers none "u" :=
    ⟨⟨"u", false, true⟩, by decide, rfl, rfl, rfl⟩
  refine (handed_out_iff hcall).mpr ?_ "b2" "n2"
  unfold OpenedByGrants
  decide

/-- **A squad that grants another profile opens this one**: the link to the second node is handed
out, and the node does not hold the user. -/
theorem open_by_another_squad :
    (twoSquads [⟨"wide", "q"⟩]).HandedOut "u" "b2" "n2" ∧
      (twoSquads [⟨"wide", "q"⟩]).reachOfUsers none none "u" "n2" = [] ∧
      ¬ ∀ id nodeId, (twoSquads [⟨"wide", "q"⟩]).HandedOut "u" id nodeId ↔
        id ∈ (twoSquads [⟨"wide", "q"⟩]).reachOfUsers none none "u" nodeId := by
  have hhanded : (twoSquads [⟨"wide", "q"⟩]).HandedOut "u" "b2" "n2" :=
    ⟨⟨"b2", "n2", "p", "xray", [⟨"h2", "b2", true⟩]⟩, by decide, rfl, rfl, by decide⟩
  have hheld : (twoSquads [⟨"wide", "q"⟩]).reachOfUsers none none "u" "n2" = [] := by
    decide
  refine ⟨hhanded, hheld, fun h => ?_⟩
  have := (h "b2" "n2").mp hhanded
  rw [hheld] at this
  cases this

end ReachDb

end Iceslab.UserReach
