import Iceslab.Lib.Grants
import Iceslab.Lib.OrderedMap

/-!
# The route profiles of a cascade

`getRouteProfilesByEntryNode` of `cascade.service.ts`: what a user may choose at an entry of a
cascade.  A choice is a way out, or none for Auto, and a policy, or none for the plain profile.

* `RouteDb` — what the squads were given: exits, policies, switches.
* `policiesForEntry`, `cascadeIsOffAt`, `exitAllowAt` — what the squads of a user come to at an
  entry.  A map is read through its `get`.
* `offersAt`, `getRouteProfilesByEntryNode` — the choices, and the profiles they go out as.
* `profiles_of_offers` — every list of profiles is that of one cascade at one of its entries.
-/

set_option autoImplicit false

namespace Iceslab.RouteProfiles

open Grants JsText

/-! ## The rows -/

structure RoutePolicyRef where
  ordinal : Nat
  name : String
  deriving DecidableEq, Repr

/-- A node or a named outbound, as a line names it. -/
structure Place where
  name : String
  countryCode : Option String
  deriving DecidableEq, Repr

structure RouteDirection where
  id : String
  tag : Nat
  countryCode : Option String
  nodes : List Place
  outbound : Option Place
  deriving DecidableEq, Repr

structure RoutePosition where
  position : Nat
  entryProtocol : Option String
  nodes : List String
  deriving DecidableEq, Repr

structure RouteHop where
  position : Nat
  nodeId : String
  node : Place
  deriving DecidableEq, Repr

/-- A cascade as the query reads it: directions by tag, positions and hops by position. -/
structure RouteCascade where
  id : String
  name : String
  mode : String
  autoProfile : Bool
  hops : List RouteHop
  positions : List RoutePosition
  directions : List RouteDirection
  deriving DecidableEq, Repr

structure GroupCascadeExit where
  groupId : String
  cascadeId : String
  directionId : Option String
  exitNodeId : Option String
  deriving DecidableEq, Repr

structure GroupRoutePolicy where
  groupId : String
  policy : RoutePolicyRef
  deriving DecidableEq, Repr

structure GroupCascadeOff where
  groupId : String
  cascadeId : String
  deriving DecidableEq, Repr

structure RouteDb where
  exitRows : List GroupCascadeExit
  grants : List GroupRoutePolicy
  offRows : List GroupCascadeOff
  deriving DecidableEq, Repr

/-- `aclKey` -/
def aclKey (r : GroupCascadeExit) : Option String := r.directionId.or r.exitNodeId

/-- `if (key) s.add(key)`: a row without a key still puts the squad in the map. -/
def addAclKey (s : List String) (r : GroupCascadeExit) : List String :=
  match (aclKey r).filter (· ≠ "") with
  | some key => setAdd s key
  | none => s

/-! ## What the squads come to at an entry -/

section AtEntry

variable (groupIds : List String) (entryNodeId : String)
variable (entryReach : Option (String → Option (List String))) (offGroups : Option (List String))

/-- `!entryReach || reach?.has(g)` -/
def handsOut (g : String) : Bool :=
  match entryReach with
  | none => true
  | some reach => decide (g ∈ (reach entryNodeId).getD [])

/-- `offGroups?.has(g)` -/
def switchedOff (g : String) : Bool := decide (g ∈ offGroups.getD [])

/-- `!(directionIds && allows && !directionIds.some((id) => allows.has(id)))` -/
def opensOne (directionIds allows : Option (List String)) : Bool :=
  match directionIds, allows with
  | some ids, some allows => ids.any fun id => decide (id ∈ allows)
  | _, _ => true

def policiesForEntry (policiesByGroup : String → Option (List RoutePolicyRef))
    (directionIds : Option (List String)) (exitAllowByGroup : String → Option (List String)) :
    List RoutePolicyRef :=
  let speaking := groupIds.filter fun g =>
    handsOut entryNodeId entryReach g && !switchedOff offGroups g
      && opensOne directionIds (exitAllowByGroup g)
  (speaking.flatMap fun g => (policiesByGroup g).getD []).foldl (pushUnseen (·.ordinal)) []

def cascadeIsOffAt : Bool :=
  if (offGroups.getD []).isEmpty then false
  else
    let speaking := groupIds.filter (handsOut entryNodeId entryReach)
    !speaking.isEmpty && speaking.all (switchedOff offGroups)

/-- The exits a user may take: no list is every exit. -/
def exitAllowAt (allowByGroup : String → Option (List String)) : Option (List String) :=
  let speaking := groupIds.filter fun g =>
    handsOut entryNodeId entryReach g && !switchedOff offGroups g
  if speaking.isEmpty then none else unionAllow [] (speaking.map allowByGroup)

end AtEntry

/-! ## What the squads of a user were given -/

namespace RouteDb

variable (db : RouteDb) (groupIds : List String)

/-- `offByCascade`; the rows of cascades nobody asks about are read by nobody. -/
def offByCascade : OrderedMap String (List String) :=
  OrderedMap.collect (·.cascadeId) (fun s r => setAdd (s.getD []) r.groupId)
    (db.offRows.filter fun r => decide (r.groupId ∈ groupIds))

/-- `exitRows`: a squad that switched a cascade off grants none of its exits. -/
def exitRowsOn : List GroupCascadeExit :=
  (db.exitRows.filter fun r => decide (r.groupId ∈ groupIds)).filter fun r =>
    !switchedOff ((db.offByCascade groupIds).get? r.cascadeId) r.groupId

/-- `allowByGroupCascade`, under the two ids its key joins: they are uuids. -/
def allowByGroupCascade : OrderedMap (String × String) (List String) :=
  OrderedMap.collect (fun r => (r.groupId, r.cascadeId)) (fun s r => addAclKey (s.getD []) r)
    (db.exitRowsOn groupIds)

def policiesByGroup : OrderedMap String (List RoutePolicyRef) :=
  OrderedMap.collect (·.groupId) (fun list g => pushUnseen (·.ordinal) (list.getD []) g.policy)
    (db.grants.filter fun g => decide (g.groupId ∈ groupIds))

/-- `allowByGroupOf(cascadeId).get(groupId)` -/
def allowByGroupOf (cascadeId groupId : String) : Option (List String) :=
  if groupId ∈ groupIds then (db.allowByGroupCascade groupIds).get? (groupId, cascadeId) else none

end RouteDb

/-! ## The labels -/

section Labels

variable (toUpperCase : String → String)

/-- The regional indicator of a capital letter. -/
def regionalIndicator (c : Char) : Char := Char.ofNat (0x1f1e6 + (c.toNat - 'A'.toNat))

def countryFlag (code : Option String) : String :=
  match code.filter (· ≠ "") with
  | none => ""
  | some code =>
    match (toUpperCase (trim code)).toList with
    | [a, b] =>
      if 'A' ≤ a ∧ a ≤ 'Z' ∧ 'A' ≤ b ∧ b ≤ 'Z' then
        String.ofList [regionalIndicator a, regionalIndicator b]
      else ""
    | _ => ""

def cascadeAutoProfileLabel (cascadeName : String) : String := "⚡ " ++ cascadeName ++ " → Auto"

def cascadeProfileLabel (cascadeName : String) (exitCountryCode : Option String)
    (exitNodeName : String) : String :=
  if countryFlag toUpperCase exitCountryCode = "" then cascadeName ++ " → " ++ exitNodeName
  else
    countryFlag toUpperCase exitCountryCode ++ " " ++ cascadeName ++ " → "
      ++ toUpperCase (exitCountryCode.getD "")

def directionServes (d : RouteDirection) : Bool := !d.nodes.isEmpty || d.outbound.isSome

/-- `directionProfileLabel`, with `exit` the first node of the direction or its outbound. -/
def directionProfileLabel (cascadeName : String) (d : RouteDirection) (exit : Place) : String :=
  cascadeProfileLabel toUpperCase cascadeName (d.countryCode.or exit.countryCode) exit.name

/-- A way out of a cascade: a direction, or an exit of the legacy hop shape. -/
structure WayOut where
  /-- what an allow row names -/
  key : String
  name : String
  index : Int
  deriving DecidableEq, Repr

/-- The way a direction is offered as; `none` for one that serves nobody. -/
def wayOf (c : RouteCascade) (d : RouteDirection) : Option WayOut :=
  (d.nodes.head?.or d.outbound).map fun exit =>
    ⟨d.id, directionProfileLabel toUpperCase c.name d exit, (d.tag : Int) - 1⟩

end Labels

def routeTag (policyOrdinal : Nat) (exitIndex : Int) : Int := policyOrdinal * 256 + exitIndex + 1

def autoRouteTag (policyOrdinal : Nat) : Int := 0xffff - policyOrdinal

/-! ## The choices -/

/-- A choice: the way out, `none` for Auto, and the policy, `none` for the plain profile. -/
structure RouteOffer where
  way : Option WayOut
  policy : Option RoutePolicyRef
  deriving DecidableEq, Repr

structure CascadeRouteProfile where
  label : String
  tag : Int
  cascadeId : String
  deriving DecidableEq, Repr

/-- The profile a choice goes out as. -/
def RouteOffer.profile (c : RouteCascade) (o : RouteOffer) : CascadeRouteProfile where
  label :=
    let plain := (o.way.map (·.name)).getD (cascadeAutoProfileLabel c.name)
    match o.policy with
    | none => plain
    | some p => plain ++ " · " ++ p.name
  tag :=
    let ordinal := (o.policy.map (·.ordinal)).getD 0
    match o.way with
    | none => autoRouteTag ordinal
    | some way => routeTag ordinal way.index
  cascadeId := c.id

/-- The plain profile of a way, and one for each policy. -/
def variants (way : Option WayOut) (policies : List RoutePolicyRef) : List RouteOffer :=
  ⟨way, none⟩ :: policies.map fun p => ⟨way, some p⟩

/-- `applyExitAcl` -/
def applyExitAcl (fullExits : List WayOut) (allowed : Option (List String)) : List WayOut :=
  fullExits.filter fun e => permits allowed e.key

section Offers

variable (toUpperCase : String → String) (db : RouteDb) (groupIds : List String)
variable (entryReach : Option (String → Option (List String)))

/-- The choices a cascade with directions makes at one of its entries. -/
def directionOffers (c : RouteCascade) (entryNodeId : String) : List RouteOffer :=
  let offGroups := (db.offByCascade groupIds).get? c.id
  let exitAllowByGroup := db.allowByGroupOf groupIds c.id
  if cascadeIsOffAt groupIds entryNodeId entryReach offGroups then []
  else
    let allowed := exitAllowAt groupIds entryNodeId entryReach offGroups exitAllowByGroup
    let policiesForDirection (directionIds : List String) :=
      policiesForEntry groupIds entryNodeId entryReach offGroups (db.policiesByGroup groupIds).get?
        (some directionIds) exitAllowByGroup
    let usable := c.directions.filter directionServes
    (if c.autoProfile && allowed.isNone && decide (1 < usable.length) then
      variants none (policiesForDirection (usable.map (·.id)))
    else [])
      ++ c.directions.flatMap fun d =>
        match wayOf toUpperCase c d with
        | none => []
        | some way =>
          if permits allowed d.id then variants (some way) (policiesForDirection [d.id]) else []

/-- The exits of the legacy hop shape, each with its place in the full list. -/
def fullExits (c : RouteCascade) : List WayOut :=
  let exitHops := if c.mode = "balancer" then c.hops.filter fun h => decide (h.position ≠ 0)
    else c.hops.drop (c.hops.length - 1)
  exitHops.zipIdx.map fun h =>
    ⟨h.1.nodeId, cascadeProfileLabel toUpperCase c.name h.1.node.countryCode h.1.node.name, h.2⟩

/-- The choices a cascade of the legacy hop shape makes at its entry. -/
def hopOffers (c : RouteCascade) (entryNodeId : String) : List RouteOffer :=
  let offGroups := (db.offByCascade groupIds).get? c.id
  let isBalancer := decide (c.mode = "balancer")
  if cascadeIsOffAt groupIds entryNodeId entryReach offGroups then []
  else
    let grantedPolicies := policiesForEntry groupIds entryNodeId entryReach offGroups
      (db.policiesByGroup groupIds).get? none fun _ => none
    if !isBalancer && grantedPolicies.isEmpty then []
    else
      let allowed := exitAllowAt groupIds entryNodeId entryReach offGroups
        (db.allowByGroupOf groupIds c.id)
      let exits := applyExitAcl (fullExits toUpperCase c) allowed
      if exits.isEmpty then []
      else
        (if c.autoProfile && isBalancer && allowed.isNone
            && decide (1 < (fullExits toUpperCase c).length) then
          variants none grantedPolicies
        else [])
          ++ exits.flatMap fun ex => variants (some ex) grantedPolicies

/-- What a user may choose at an entry of a cascade. -/
def offersAt (c : RouteCascade) (entryNodeId : String) : List RouteOffer :=
  if c.directions.isEmpty then hopOffers toUpperCase db groupIds entryReach c entryNodeId
  else directionOffers toUpperCase db groupIds entryReach c entryNodeId

end Offers

/-! ## `getRouteProfilesByEntryNode` -/

def ENTRIES_ONLY_THROUGH_CHAIN : List String := ["hysteria", "amneziawg"]

def entryReachesCascadeOnlyThroughChain (protocol : Option String) : Bool :=
  protocol.any fun p => decide (p ∈ ENTRIES_ONLY_THROUGH_CHAIN)

/-- The asked nodes at which a cascade offers its profiles: every entry of the pool, the first hop
of the legacy shape. -/
def entryNodeIds (c : RouteCascade) (nodeIds : List String) : List String :=
  if c.directions.isEmpty then
    ((c.hops.find? fun h => decide (h.position = 0)).toList.map (·.nodeId)).filter (· ∈ nodeIds)
  else
    let entryPos := c.positions.find? fun p => decide (p.position = 0)
    if entryReachesCascadeOnlyThroughChain (entryPos.bind (·.entryProtocol)) then []
    else ((entryPos.map (·.nodes)).getD []).filter (· ∈ nodeIds)

section Run

variable (toUpperCase : String → String) (db : RouteDb) (groupIds : List String)
variable (entryReach : Option (String → Option (List String)))

/-- The profiles of a cascade at an entry. -/
def profilesAt (c : RouteCascade) (entryNodeId : String) : List CascadeRouteProfile :=
  (offersAt toUpperCase db groupIds entryReach c entryNodeId).map (·.profile c)

/-- `if (profiles.length > 0) out.set(entryNodeId, profiles)` -/
def setProfiles (c : RouteCascade) (out : OrderedMap String (List CascadeRouteProfile))
    (entryNodeId : String) : OrderedMap String (List CascadeRouteProfile) :=
  let profiles := profilesAt toUpperCase db groupIds entryReach c entryNodeId
  if profiles.isEmpty then out else out.set entryNodeId profiles

/-- `cascades` is what the query found. -/
def getRouteProfilesByEntryNode (cascades : List RouteCascade) (nodeIds : List String) :
    OrderedMap String (List CascadeRouteProfile) :=
  cascades.foldl
    (fun out c =>
      (entryNodeIds c nodeIds).foldl (setProfiles toUpperCase db groupIds entryReach c) out)
    OrderedMap.empty

variable {toUpperCase : String → String} {db : RouteDb} {groupIds : List String}
variable {entryReach : Option (String → Option (List String))} {nodeIds : List String}
variable {out : OrderedMap String (List CascadeRouteProfile)}

/-- Each list is that of one of the cascades, at one of its entries. -/
def OfCascades (toUpperCase : String → String) (db : RouteDb) (groupIds : List String)
    (entryReach : Option (String → Option (List String))) (cascades : List RouteCascade)
    (nodeIds : List String) (out : OrderedMap String (List CascadeRouteProfile)) : Prop :=
  ∀ entry profiles, out.get? entry = some profiles →
    ∃ c ∈ cascades, entry ∈ entryNodeIds c nodeIds
      ∧ profiles = profilesAt toUpperCase db groupIds entryReach c entry

theorem ofCascades_setProfiles {cascades : List RouteCascade} {c : RouteCascade} {entry : String}
    (hc : c ∈ cascades) (hentry : entry ∈ entryNodeIds c nodeIds)
    (h : OfCascades toUpperCase db groupIds entryReach cascades nodeIds out) :
    OfCascades toUpperCase db groupIds entryReach cascades nodeIds
      (setProfiles toUpperCase db groupIds entryReach c out entry) := by
  intro e profiles hget
  simp only [setProfiles] at hget
  split at hget
  · exact h e profiles hget
  · rw [OrderedMap.get?_set] at hget
    split at hget
    · rename_i hsame
      obtain rfl := hsame
      exact ⟨c, hc, hentry, (Option.some.inj hget).symm⟩
    · exact h e profiles hget

theorem ofCascades_entries {cascades : List RouteCascade} {c : RouteCascade} (hc : c ∈ cascades)
    (entries : List String) (hentries : ∀ e ∈ entries, e ∈ entryNodeIds c nodeIds)
    (h : OfCascades toUpperCase db groupIds entryReach cascades nodeIds out) :
    OfCascades toUpperCase db groupIds entryReach cascades nodeIds
      (entries.foldl (setProfiles toUpperCase db groupIds entryReach c) out) := by
  induction entries generalizing out with
  | nil => exact h
  | cons e entries ih =>
    apply ih
    · intro e' he'
      exact hentries e' (List.mem_cons_of_mem e he')
    · exact ofCascades_setProfiles hc (hentries e List.mem_cons_self) h

/-- **What goes out at an entry are the profiles of one cascade there.** -/
theorem profiles_of_offers (cascades : List RouteCascade) :
    OfCascades toUpperCase db groupIds entryReach cascades nodeIds
      (getRouteProfilesByEntryNode toUpperCase db groupIds entryReach cascades nodeIds) := by
  -- the cascades still to come are all in the list, so each run over their entries keeps it
  have hrun : ∀ (rest : List RouteCascade) (out : OrderedMap String (List CascadeRouteProfile)),
      (∀ c ∈ rest, c ∈ cascades) →
      OfCascades toUpperCase db groupIds entryReach cascades nodeIds out →
      OfCascades toUpperCase db groupIds entryReach cascades nodeIds
        (rest.foldl (fun out c => (entryNodeIds c nodeIds).foldl
          (setProfiles toUpperCase db groupIds entryReach c) out) out) := by
    intro rest
    induction rest with
    | nil => exact fun out _ h => h
    | cons c rest ih =>
      intro out hrest h
      apply ih
      · intro c' hc'
        exact hrest c' (List.mem_cons_of_mem c hc')
      · exact ofCascades_entries (hrest c List.mem_cons_self) _ (fun e he => he) h
  apply hrun cascades OrderedMap.empty (fun c hc => hc)
  intro entry profiles hget
  rw [OrderedMap.get?_empty] at hget
  cases hget

end Run

end Iceslab.RouteProfiles
