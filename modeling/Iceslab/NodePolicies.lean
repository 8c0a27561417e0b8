import Mathlib.Data.List.Sort

/-!
# Saving a node policy

`node-policies.service.ts`: the tables a policy stands in, what a rule asks of a node, and
`updatePolicy` with what others may write while it is under way.

* `PolicyDb` — policies, their rules, the nodes they are attached to, directions and legs.
* `assertPolicyFitsNode` — what the save checks of each attached node.
* `updatePolicy` — the whole save: read, look up, write in one transaction, check, announce.
-/

set_option autoImplicit false

namespace Iceslab.NodePolicies

/-! ## The tables -/

/-- What a rule of a policy fires on, and where that traffic goes. -/
structure PolicyRule where
  enabled : Bool := true
  matchDomain : List String := []
  matchIp : List String := []
  matchPort : Option String := none
  matchProtocol : List String := []
  matchNetwork : Option String := none
  actionKind : String
  actionDirectionId : Option String := none
  deriving DecidableEq, Repr

structure RuleRow where
  policyId : String
  position : Nat
  rule : PolicyRule
  deriving DecidableEq, Repr

structure PolicyRow where
  id : String
  name : String
  description : Option String
  deriving DecidableEq, Repr

structure NodeRow where
  id : String
  name : String
  deleted : Bool
  warpEnabled : Bool
  policyId : Option String
  deriving DecidableEq, Repr

structure DirectionRow where
  id : String
  tag : Nat
  cascadeId : String
  deriving DecidableEq, Repr

/-- One leg a node dials. -/
structure LinkRow where
  cascadeId : String
  fromNodeId : String
  directionTag : Nat
  deriving DecidableEq, Repr

structure PolicyDb where
  policies : List PolicyRow
  rules : List RuleRow
  nodes : List NodeRow
  directions : List DirectionRow
  links : List LinkRow
  unique_nodes : (nodes.map (·.id)).Nodup
  deriving DecidableEq, Repr

/-- A policy as a reader gets it: the rules in the order of their positions. -/
structure StoredPolicy where
  name : String
  description : Option String
  rules : List PolicyRule
  deriving DecidableEq, Repr

namespace PolicyDb

variable (db : PolicyDb)

def policy? (id : String) : Option PolicyRow := db.policies.find? fun p => decide (p.id = id)

/-- `rules: { orderBy: { position: 'asc' } }` -/
def rulesOf (id : String) : List PolicyRule :=
  ((db.rules.filter fun r => decide (r.policyId = id)).insertionSort
    fun a b => a.position ≤ b.position).map (·.rule)

def stored (id : String) : Option StoredPolicy :=
  (db.policy? id).map fun p => ⟨p.name, p.description, db.rulesOf id⟩

/-- `nodes: { select: { id: true } }` -/
def attached (id : String) : List String :=
  (db.nodes.filter fun n => decide (n.policyId = some id)).map (·.id)

/-- `findFirst({ where: { id: nodeId, deletedAt: null } })` -/
def liveNode? (nodeId : String) : Option NodeRow :=
  db.nodes.find? fun n => decide (n.id = nodeId) && !n.deleted

def direction? (id : String) : Option DirectionRow :=
  db.directions.find? fun d => decide (d.id = id)

def legs (nodeId : String) (d : DirectionRow) : Nat :=
  db.links.countP fun l =>
    decide (l.cascadeId = d.cascadeId ∧ l.fromNodeId = nodeId ∧ l.directionTag = d.tag)

end PolicyDb

/-! ## What is sent -/

inductive PolicyActionKind where
  | direct
  | block
  | warp
  | cascade
  deriving DecidableEq, Repr

def PolicyActionKind.text : PolicyActionKind → String
  | .direct => "direct"
  | .block => "block"
  | .warp => "warp"
  | .cascade => "cascade"

structure MatchInput where
  domain : List String := []
  ip : List String := []
  port : Option String := none
  protocol : List String := []
  network : Option String := none
  deriving DecidableEq, Repr

structure PolicyRuleInput where
  enabled : Bool := true
  matches_ : MatchInput := {}
  kind : PolicyActionKind
  directionId : Option String := none
  deriving DecidableEq, Repr

/-- An absent field is left alone; `some none` clears the description. -/
structure UpdateNodePolicyInput where
  name : Option String := none
  description : Option (Option String) := none
  rules : Option (List PolicyRuleInput) := none
  deriving DecidableEq, Repr

def toRuleRow (rule : PolicyRuleInput) : PolicyRule where
  enabled := rule.enabled
  matchDomain := rule.matches_.domain
  matchIp := rule.matches_.ip
  matchPort := rule.matches_.port
  matchProtocol := rule.matches_.protocol
  matchNetwork := rule.matches_.network
  actionKind := rule.kind.text
  actionDirectionId := rule.directionId

inductive PolicyError where
  | notFound (id : String)
  | nameTaken (name : String)
  | directionNotFound (directionId : String)
  | doesNotFitNode (nodeName reason : String)
  /-- the database's own refusal, by its code -/
  | prisma (code : String)
  deriving DecidableEq, Repr

def PolicyError.message : PolicyError → String
  | .notFound id => "Node policy " ++ id ++ " not found"
  | .nameTaken name => "A node policy named \"" ++ name ++ "\" already exists"
  | .directionNotFound directionId => "Cascade direction " ++ directionId ++ " not found"
  | .doesNotFitNode nodeName reason =>
    "Node \"" ++ nodeName ++ "\" cannot run this policy: " ++ reason
  | .prisma code => code

/-! ## What a save checks -/

/-- The directions the rules name, each once. -/
def directionIds (rules : List PolicyRuleInput) : List String :=
  (rules.filterMap fun r => r.directionId.filter fun v => decide (v ≠ "")).eraseDups

def assertDirectionsExist (db : PolicyDb) (rules : List PolicyRuleInput) :
    Except PolicyError Unit :=
  match (directionIds rules).find? fun id => (db.direction? id).isNone with
  | some missing => .error (.directionNotFound missing)
  | none => .ok ()

def noWarpReason : String :=
  "it has a rule routing into WARP, and WARP egress is not enabled on this node"

def noLegReason : String :=
  "it has a rule going out through a cascade direction this node does not dial"

def pooledReason (legs : Nat) : String :=
  "it has a rule going out through a cascade direction this node reaches by " ++ toString legs
    ++ " links; a policy rule names one outbound, so pooled directions are not supported yet"

/-- The direction a rule of kind `cascade` goes out through. -/
def PolicyRule.way (db : PolicyDb) (rule : PolicyRule) : Option DirectionRow :=
  if rule.actionKind = "cascade" then rule.actionDirectionId.bind db.direction? else none

def assertRuleFitsNode (db : PolicyDb) (node : NodeRow) (rule : PolicyRule) :
    Except PolicyError Unit :=
  if rule.enabled = false then .ok ()
  else if rule.actionKind = "warp" ∧ node.warpEnabled = false then
    .error (.doesNotFitNode node.name noWarpReason)
  else
    match rule.way db with
    | none => .ok ()
    | some d =>
      let legs := db.legs node.id d
      if legs = 0 then .error (.doesNotFitNode node.name noLegReason)
      else if legs > 1 then .error (.doesNotFitNode node.name (pooledReason legs))
      else .ok ()

def assertPolicyFitsNode (db : PolicyDb) (policyId nodeId : String) : Except PolicyError Unit :=
  match db.policy? policyId, db.liveNode? nodeId with
  | some _, some node => (db.rulesOf policyId).forM (assertRuleFitsNode db node)
  | _, _ => .ok ()

/-! ## The save -/

/-- `tx.nodePolicy.update` -/
def updateRow (id : String) (input : UpdateNodePolicyInput) (p : PolicyRow) : PolicyRow :=
  if p.id = id then
    { p with
      name := input.name.getD p.name
      description := input.description.getD p.description }
  else p

/-- Another policy has the name. -/
def nameTaken (db : PolicyDb) (id name : String) : Bool :=
  db.policies.any fun p => decide (p.id ≠ id ∧ p.name = name)

/-- The rules of the policy replaced by the given ones, each with its place. -/
def replaceRules (id : String) (given : List PolicyRuleInput) (rows : List RuleRow) :
    List RuleRow :=
  rows.filter (fun r => decide (r.policyId ≠ id))
    ++ given.zipIdx.map fun e => ⟨id, e.2, toRuleRow e.1⟩

/-- A rule names a direction that is not there: the foreign key refuses it. -/
def danglingRule (db : PolicyDb) (rule : PolicyRuleInput) : Bool :=
  match rule.directionId with
  | none => false
  | some d => (db.direction? d).isNone

/-- `prisma.$transaction`: all of it is written, or nothing. -/
def saveTransaction (id : String) (input : UpdateNodePolicyInput) (db : PolicyDb) :
    Except PolicyError PolicyDb :=
  if (db.policy? id).isNone then .error (.prisma "P2025")
  else if (input.name.map (nameTaken db id)).getD false then
    .error (.nameTaken (input.name.getD ""))
  else
    let policies := db.policies.map (updateRow id input)
    match input.rules with
    | none => .ok { db with policies := policies }
    | some given =>
      if given.any (danglingRule db) then .error (.prisma "P2003")
      else .ok { db with policies := policies, rules := replaceRules id given db.rules }

/-- What others write while a save of the policy is under way, none of them the policy itself. -/
structure Meanwhile (id : String) where
  /-- between the read of the attached nodes and the look-up of the directions -/
  lookup : PolicyDb → PolicyDb
  /-- between the look-up and the transaction -/
  save : PolicyDb → PolicyDb
  lookup_stored : ∀ db, (lookup db).stored id = db.stored id
  save_stored : ∀ db, (save db).stored id = db.stored id

def Meanwhile.nothing (id : String) : Meanwhile id := ⟨fun db => db, fun db => db, fun _ => rfl, fun _ => rfl⟩

/-- `policy.changed` -/
structure PolicyChanged where
  policyId : String
  nodeIds : List String
  deriving DecidableEq, Repr

/-- A policy as it is answered, with how many nodes run it. -/
structure PolicyDto extends StoredPolicy where
  nodeCount : Nat
  deriving DecidableEq, Repr

/-- What a save answers, the tables it leaves, and what it announced. -/
structure SaveOutcome where
  result : Except PolicyError PolicyDto
  db : PolicyDb
  emitted : List PolicyChanged

def getPolicy (db : PolicyDb) (id : String) : Except PolicyError PolicyDto :=
  match db.stored id with
  | none => .error (.notFound id)
  | some p => .ok { p with nodeCount := (db.attached id).length }

/-- The checks and the announcement that follow the commit. -/
def announceSave (id : String) (nodeIds : List String) (db : PolicyDb) : SaveOutcome :=
  match nodeIds.forM (assertPolicyFitsNode db id) with
  | .error e => ⟨.error e, db, []⟩
  | .ok () => ⟨getPolicy db id, db, if nodeIds.length > 0 then [⟨id, nodeIds⟩] else []⟩

def updatePolicy (id : String) (m : Meanwhile id) (input : UpdateNodePolicyInput)
    (db : PolicyDb) : SaveOutcome :=
  if (db.policy? id).isNone then ⟨.error (.notFound id), db, []⟩
  else
    let nodeIds := db.attached id
    let looked := m.lookup db
    match assertDirectionsExist looked (input.rules.getD []) with
    | .error e => ⟨.error e, looked, []⟩
    | .ok () =>
      let found := m.save looked
      match saveTransaction id input found with
      | .error e => ⟨.error e, found, []⟩
      | .ok saved => announceSave id nodeIds saved

end Iceslab.NodePolicies
