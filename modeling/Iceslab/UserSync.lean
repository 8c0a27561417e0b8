import Iceslab.UserStatus
import Iceslab.Lib.JsText

/-!
# The jobs that put users on nodes

`syncAddUser` and `syncRemoveUser` of `users.queue.ts`, the handlers of `users.events.ts` that
enqueue them and the reads of `user-reach.ts`, as one machine.  A job reads the user's row once and
then calls every node; the rows change meanwhile, other jobs of the user run, and a call arrives
late, or fails and is made again by a new attempt of the whole job.

* `State.step` — one commit, one handler, one read, one call arriving.
* `Outstanding` — a job that is owed, queued or running.
* `InOrder` — the steps under which the nodes end with the users the database has.
-/

set_option autoImplicit false

namespace Iceslab.UserSync

/-! ## What the database and the queue hold -/

inductive JobKind
  | addUser
  | removeUser
deriving DecidableEq, Repr

structure Job (υ : Type) where
  kind : JobKind
  user : υ
deriving DecidableEq, Repr

/-- A user's row and the squads they are a member of. -/
structure Row (γ : Type) where
  status : UserStatus
  deleted : Bool
  squads : List γ

/-- The users that are served at all. -/
def Row.served {γ : Type} (row : Row γ) : Bool :=
  decide (row.status = .active) && !row.deleted

/-- An event on the bus whose handler has not run. -/
inductive Owed (υ γ : Type)
  | statusChanged (user : υ) (old new : UserStatus)
  | deleted (user : υ)
  | updated (user : υ)
  | squadChanged (squad : γ)

/-- A call on its way to a node: the inbounds to put the user on, or none to take them off.
`version` is the version of the user the attempt read. -/
structure Call (υ ν : Type) where
  attempt : Nat
  user : υ
  node : ν
  put : Option (List String)
  version : Nat

inductive Phase (ν : Type)
  | reading
  | calling (waiting : List ν)

/-- A job under way, since it read the user's row. -/
structure Attempt (υ ν : Type) where
  id : Nat
  job : Job υ
  version : Nat
  phase : Phase ν

/-- The users and nodes of the panel; `synced`: the node has taken a push. -/
structure Fleet (υ ν : Type) where
  roster : List υ
  nodes : List ν
  synced : ν → Bool

/-- `version` counts the changes to what a user is served, and `newest` the latest of them a node
was told of; neither is part of the program. -/
structure State (υ ν γ : Type) where
  rows : υ → Row γ
  grants : γ → ν → List String
  held : ν → υ → Option (List String)
  owed : List (Owed υ γ)
  queue : List (Job υ)
  running : List (Attempt υ ν)
  lost : List (Job υ)
  net : List (Call υ ν)
  nextId : Nat
  version : υ → Nat
  newest : ν → υ → Nat

inductive Event (υ ν γ : Type)
  /-- an edit or a cron; `old` is the status it read -/
  | setStatus (user : υ) (old new : UserStatus)
  | delete (user : υ)
  | setSquads (user : υ) (squads : List γ)
  | reissue (user : υ)
  | setGrants (squad : γ) (grants : ν → List String)
  /-- `deleteSquad`; users left without a squad go to `all` -/
  | deleteSquad (squad all : γ)
  | handle (i : Nat)
  | take (i : Nat)
  /-- what a read of the grants gives that was overtaken is anything -/
  | readReach (i : Nat) (torn : ν → List String)
  | deliver (k : Nat)
  | drop (k : Nat)
  | finish (i : Nat)
  | retry (i : Nat)
  | giveUp (i : Nat)

section Machine

variable {υ ν γ : Type} [DecidableEq υ] [DecidableEq ν] [DecidableEq γ] (F : Fleet υ ν)

/-- `reachOfUsers` of one user. -/
def State.reach (s : State υ ν γ) (user : υ) (node : ν) : List String :=
  JsText.sortTexts
    (((s.rows user).squads.flatMap fun g => s.grants g node).foldl JsText.setAdd [])

/-- What a node is to hold of a user. -/
def State.want (s : State υ ν γ) (user : υ) (node : ν) : Option (List String) :=
  if (s.rows user).served ∧ s.reach user node ≠ [] then some (s.reach user node) else none

/-- What the handler of an event enqueues. -/
def State.jobsOf (s : State υ ν γ) : Owed υ γ → List (Job υ)
  | .statusChanged user old new =>
    if new = .active then (if old ≠ .active then [⟨.addUser, user⟩] else [])
    else [⟨.removeUser, user⟩]
  | .deleted user => [⟨.removeUser, user⟩]
  | .updated user => [⟨.addUser, user⟩]
  | .squadChanged squad =>
    (F.roster.filter fun u => decide (squad ∈ (s.rows u).squads) && (s.rows u).served).map
      fun u => ⟨.addUser, u⟩

def bump (version : υ → Nat) (moved : υ → Bool) : υ → Nat :=
  fun u => if moved u then version u + 1 else version u

/-- `updateUser` and the crons: the write, and the event where the status read was another. -/
def State.setStatus (s : State υ ν γ) (user : υ) (old new : UserStatus) : State υ ν γ :=
  let row := { s.rows user with status := new }
  { s with
    rows := Function.update s.rows user row
    owed := if new ≠ old then s.owed ++ [.statusChanged user old new] else s.owed
    version := bump s.version fun u =>
      decide (u = user) && decide (row.served ≠ (s.rows user).served) }

def State.delete (s : State υ ν γ) (user : υ) : State υ ν γ :=
  { s with
    rows := Function.update s.rows user { s.rows user with deleted := true }
    owed := s.owed ++ [.deleted user]
    version := bump s.version fun u => decide (u = user) && (s.rows user).served }

def State.setSquads (s : State υ ν γ) (user : υ) (squads : List γ) : State υ ν γ :=
  { s with
    rows := Function.update s.rows user { s.rows user with squads := squads }
    owed := s.owed ++ [.updated user]
    version := bump s.version fun u => decide (u = user) && (s.rows user).served }

def State.setGrants (s : State υ ν γ) (squad : γ) (grants : ν → List String) : State υ ν γ :=
  { s with
    grants := Function.update s.grants squad grants
    owed := s.owed ++ [.squadChanged squad]
    version := bump s.version fun u => decide (squad ∈ (s.rows u).squads) && (s.rows u).served }

def withoutSquad (squads : List γ) (squad all : γ) : List γ :=
  if squad ∈ squads then
    let rest := squads.filter fun g => decide (g ≠ squad)
    if rest = [] then [all] else rest
  else squads

/-- No event. -/
def State.deleteSquad (s : State υ ν γ) (squad all : γ) : State υ ν γ :=
  { s with
    rows := fun u => { s.rows u with squads := withoutSquad (s.rows u).squads squad all }
    grants := Function.update s.grants squad fun _ => [] }

def State.handle (s : State υ ν γ) (i : Nat) : State υ ν γ :=
  match s.owed[i]? with
  | none => s
  | some o => { s with owed := s.owed.eraseIdx i, queue := s.queue ++ s.jobsOf F o }

/-- A worker takes a job and reads the user's row: the gate on the status, and for a removal the
calls to every node. -/
def State.take (s : State υ ν γ) (i : Nat) : State υ ν γ :=
  match s.queue[i]? with
  | none => s
  | some job =>
    let rest := { s with queue := s.queue.eraseIdx i }
    match job.kind with
    | .addUser =>
      if (s.rows job.user).served then
        { rest with
          running := s.running ++ [⟨s.nextId, job, s.version job.user, .reading⟩]
          nextId := s.nextId + 1 }
      else rest
    | .removeUser =>
      if (s.rows job.user).served then rest
      else
        { rest with
          running := s.running ++ [⟨s.nextId, job, s.version job.user, .calling F.nodes⟩]
          net := s.net ++ F.nodes.map fun n => ⟨s.nextId, job.user, n, none, s.version job.user⟩
          nextId := s.nextId + 1 }

/-- The call an add makes to a node: none where the node has not taken a push. -/
def addCall (a : Attempt υ ν) (reach : ν → List String) (n : ν) : Option (Call υ ν) :=
  if reach n = [] then some ⟨a.id, a.job.user, n, none, a.version⟩
  else if F.synced n then some ⟨a.id, a.job.user, n, some (reach n), a.version⟩
  else none

/-- An add reads where the user's squads reach, and calls the nodes. -/
def State.readReach (s : State υ ν γ) (i : Nat) (torn : ν → List String) : State υ ν γ :=
  match s.running[i]? with
  | none => s
  | some a =>
    match a.phase with
    | .calling _ => s
    | .reading =>
      let reach := if s.version a.job.user = a.version then s.reach a.job.user else torn
      let calls := F.nodes.filterMap (addCall F a reach)
      { s with
        running := s.running.set i { a with phase := .calling (calls.map Call.node) }
        net := s.net ++ calls }

/-- The attempt hears that a call arrived. -/
def Attempt.arrived (a : Attempt υ ν) (c : Call υ ν) : Attempt υ ν :=
  match a.phase with
  | .reading => a
  | .calling waiting =>
    if a.id = c.attempt then { a with phase := .calling (waiting.filter fun n => decide (n ≠ c.node)) }
    else a

def State.deliver (s : State υ ν γ) (k : Nat) : State υ ν γ :=
  match s.net[k]? with
  | none => s
  | some c =>
    { s with
      held := Function.update s.held c.node (Function.update (s.held c.node) c.user c.put)
      newest := Function.update s.newest c.node
        (Function.update (s.newest c.node) c.user (max (s.newest c.node c.user) c.version))
      net := s.net.eraseIdx k
      running := s.running.map fun a => a.arrived c }

/-- Every call arrived: the job has ended. -/
def State.finish (s : State υ ν γ) (i : Nat) : State υ ν γ :=
  match s.running[i]? with
  | some ⟨_, _, _, .calling []⟩ => { s with running := s.running.eraseIdx i }
  | _ => s

/-- A call failed, or its answer did: the whole job again. -/
def State.retry (s : State υ ν γ) (i : Nat) : State υ ν γ :=
  match s.running[i]? with
  | none => s
  | some a => { s with running := s.running.eraseIdx i, queue := s.queue ++ [a.job] }

/-- The last attempt failed. -/
def State.giveUp (s : State υ ν γ) (i : Nat) : State υ ν γ :=
  match s.running[i]? with
  | none => s
  | some a => { s with running := s.running.eraseIdx i, lost := s.lost ++ [a.job] }

def State.step (s : State υ ν γ) : Event υ ν γ → State υ ν γ
  | .setStatus user old new => s.setStatus user old new
  | .delete user => s.delete user
  | .setSquads user squads => s.setSquads user squads
  | .reissue user => { s with owed := s.owed ++ [.updated user] }
  | .setGrants squad grants => s.setGrants squad grants
  | .deleteSquad squad all => s.deleteSquad squad all
  | .handle i => s.handle F i
  | .take i => s.take F i
  | .readReach i torn => s.readReach F i torn
  | .deliver k => s.deliver k
  | .drop k => { s with net := s.net.eraseIdx k }
  | .finish i => s.finish i
  | .retry i => s.retry i
  | .giveUp i => s.giveUp i

/-- Nothing under way, and every node that has taken a push holds the users it is to hold. -/
structure Start (s : State υ ν γ) : Prop where
  owed : s.owed = []
  queue : s.queue = []
  running : s.running = []
  lost : s.lost = []
  net : s.net = []
  version : ∀ u, s.version u = 0
  newest : ∀ n u, s.newest n u = 0
  held : ∀ u, ∀ n, F.synced n = true → s.held n u = s.want u n

def sync : Machine (State υ ν γ) (Event υ ν γ) := Machine.ofFun (Start F) (State.step F)

/-! ## What is promised -/

/-- The job that brings a user to what the database says of them. -/
def State.rightJob (s : State υ ν γ) (user : υ) : Job υ :=
  ⟨if (s.rows user).served then .addUser else .removeUser, user⟩

/-- No call changes what a later one made of a user; an edit that changes whether a user is served
had read the status it replaces; and no squad goes whose members' reach goes with it. -/
def InOrder (s : State υ ν γ) : Event υ ν γ → Prop
  | .deliver k => ∀ c, s.net[k]? = some c → c.version < s.newest c.node c.user →
    s.held c.node c.user = c.put
  | .setStatus user old new =>
    { s.rows user with status := new }.served ≠ (s.rows user).served → old ≠ new
  | .deleteSquad squad all => ∀ u ∈ F.roster, (s.rows u).served = true →
    squad ∈ (s.rows u).squads → (∀ n, (s.deleteSquad squad all).want u n = s.want u n) ∧
      ∀ o ∈ s.owed, o ≠ .squadChanged squad
  | _ => True

end Machine

end Iceslab.UserSync
