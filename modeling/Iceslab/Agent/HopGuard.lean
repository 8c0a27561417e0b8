import Iceslab.Lib.GoText
import Iceslab.Lib.Machine
import Iceslab.Lib.Names
import Mathlib.Data.List.Dedup
import Mathlib.Data.List.Sort

/-!
# The guard of the node's own UDP ports

`Guard.Sync` of `hopguard.go`, on the nat tables of a host: the chain the guard owns, the jump to it
in PREROUTING, and the conntrack entries it drops.

* `Rules`, `restored` — the text of the chain, and what `iptables-restore` makes of it.
* `ensureJump` — the jump at the top, or where it is when nothing that redirects stands above it.
* `World.sync` — one call, with a failure for every command; `hopGuard` — runs of calls, with rules
  of others put in between them.
-/

set_option autoImplicit false

namespace Iceslab.Agent.HopGuard

open GoText

/-! ## The host -/

def Chain : String := "ICESLAB-HOPKEEP"

/-- `strings.Join(jumpArgs, " ")` -/
def jumpArgs : String := "-p udp -j " ++ Chain

def jumpLine : String := "-A PREROUTING " ++ jumpArgs

/-- A rule of nat PREROUTING, as `-S` prints it. -/
structure NatRule where
  line : String
  oneLine : '\n' ∉ line.toList
  trimmed : trimSpace line = line
  deriving DecidableEq

def NatRule.jump : NatRule := ⟨jumpLine, by decide, by decide⟩

def NatRule.isJump (r : NatRule) : Bool := decide (r.line = jumpLine)

def NatRule.isRedirect (r : NatRule) : Bool :=
  hasPrefix r.line "-A PREROUTING " && contains r.line " -j REDIRECT"

inductive Family where
  | v4
  | v6
  deriving DecidableEq

/-- What the guard touches of one family. -/
structure NatTable where
  /-- the rules of the guard's chain -/
  chain : List String
  prerouting : List NatRule

/-- The rule that keeps a port. -/
def portRule (p : Nat) : String := "-p udp --dport " ++ toString p ++ " -j ACCEPT"

/-- What an awg interface carries to someone else's address. -/
def foreignRule : String := "-i awg+ -m addrtype ! --dst-type LOCAL -j ACCEPT"

/-- What a chain does with the packets of a port. -/
def accepts (chain : List String) (p : Nat) : Bool := decide (portRule p ∈ chain)

/-- `-t nat -S PREROUTING` -/
def listing (rules : List NatRule) : String :=
  unlines ("-P PREROUTING ACCEPT" :: rules.map NatRule.line)

/-- The rule a line appends to the guard's chain. -/
def appended (l : String) : Option String :=
  if hasPrefix l ("-A " ++ Chain ++ " ") then some (trimPrefix l ("-A " ++ Chain ++ " ")) else none

/-- The chain after `iptables-restore --noflush`, of a text that declares this chain alone. -/
def restored (text : String) : List String := (split text "\n").filterMap appended

/-! ## Sets of ports -/

def sortedUnique (ports : List Nat) : List Nat := ports.dedup.insertionSort (· ≤ ·)

/-- The keys of `want`, in order. -/
def wantOf (ports : List Int) : List Nat :=
  sortedUnique ((ports.filter fun p => decide (0 < p ∧ p ≤ 65535)).map Int.toNat)

def mapsEqual (a b : List Nat) : Bool := decide (a.length = b.length) && a.all (decide <| · ∈ b)

def symmetricDiff (a b : List Nat) (all : Bool) : List Nat :=
  sortedUnique (b.filter (fun p => all || decide (p ∉ a)) ++ a.filter fun p => decide (p ∉ b))

def Rules (ports : List Nat) : String :=
  unlines
    (["*nat", ":" ++ Chain ++ " - [0:0]", "-F " ++ Chain, "-A " ++ Chain ++ " " ++ foreignRule] ++
      (sortedUnique ports).map (fun p => "-A " ++ Chain ++ " " ++ portRule p) ++ ["COMMIT"])

/-! ## The answers of the commands -/

structure FamilyAnswers where
  /-- both tools are on the host -/
  present : Bool
  restoreFails : Bool
  listFails : Bool
  deleteFails : Nat → Bool
  insertFails : Bool

structure Answers where
  family : Family → FamilyAnswers
  conntrackFound : Bool
  /-- an error other than that the port had no entries -/
  conntrackFails : Nat → Bool

/-! ## The jump -/

structure JumpScan where
  firstJump : Int
  firstRedirect : Int
  jumps : Nat
  deriving DecidableEq, Repr

def scanLine (s : JumpScan) (e : String × Nat) : JumpScan :=
  let l := trimSpace e.1
  if l = jumpLine then
    { s with
      jumps := s.jumps + 1
      firstJump := if s.firstJump < 0 then e.2 else s.firstJump }
  else if hasPrefix l "-A PREROUTING " && contains l " -j REDIRECT" && decide (s.firstRedirect < 0)
  then { s with firstRedirect := e.2 }
  else s

def scanListing (out : String) : JumpScan := (split out "\n").zipIdx.foldl scanLine ⟨-1, -1, 0⟩

/-- `-D PREROUTING` once for each jump: the first that matches goes.  True where one failed. -/
def dropJumps (fails : Nat → Bool) : Nat → Nat → List NatRule → List NatRule × Bool
  | 0, _, rules => (rules, false)
  | n + 1, i, rules =>
    if fails i || !rules.any NatRule.isJump then (rules, true)
    else dropJumps fails n (i + 1) (rules.eraseP NatRule.isJump)

/-- True where it returns an error. -/
def ensureJump (a : FamilyAnswers) (rules : List NatRule) : List NatRule × Bool :=
  if a.listFails then (rules, true)
  else
    let scan := scanListing (listing rules)
    if scan.jumps = 1 ∧ (scan.firstRedirect < 0 ∨ scan.firstJump < scan.firstRedirect) then
      (rules, false)
    else
      let dropped := dropJumps a.deleteFails scan.jumps 0 rules
      if dropped.2 then dropped
      else if a.insertFails then (dropped.1, true)
      else (.jump :: dropped.1, false)

/-! ## `Sync` -/

structure Guard where
  /-- the keys of the set that went through last -/
  last : List Nat
  synced : Bool
  warnedNoTrack : Bool

structure World where
  guard : Guard
  nat : Family → NatTable
  /-- what each chain did with a port when the port's conntrack entries were last dropped -/
  flushed : Family → Nat → Bool

/-- One family of a call.  True where a command failed. -/
def syncFamily (changed : Bool) (want : List Nat) (a : FamilyAnswers) (t : NatTable) :
    NatTable × Bool :=
  if !a.present then (t, false)
  else if changed && a.restoreFails then (t, true)
  else
    let chain := if changed then restored (Rules want) else t.chain
    let jump := ensureJump a t.prerouting
    (⟨chain, jump.1⟩, jump.2)

/-- True where an entry that was to go is still there. -/
def World.flush (s : World) (ports : List Nat) (ans : Answers) : World × Bool :=
  if ports = [] then (s, false)
  else if !ans.conntrackFound then
    ({ s with guard := { s.guard with warnedNoTrack := true } }, true)
  else
    ({ s with
        flushed := fun f p =>
          if p ∈ ports ∧ ans.conntrackFails p = false then accepts (s.nat f).chain p
          else s.flushed f p },
      ports.any ans.conntrackFails)

/-- The call rewrites the chains. -/
def World.changed (s : World) (want : List Nat) : Bool :=
  !s.guard.synced || !mapsEqual want s.guard.last

/-- One call.  True where some command failed. -/
def World.sync (s : World) (ports : List Int) (ans : Answers) : World × Bool :=
  let want := wantOf ports
  if !(ans.family .v4).present && !(ans.family .v6).present then (s, false)
  else
    let changed := s.changed want
    let after := fun f => syncFamily changed want (ans.family f) (s.nat f)
    let failed := (after .v4).2 || (after .v6).2
    let written := { s with nat := fun f => (after f).1 }
    if !changed then (written, failed)
    else
      let flushed := written.flush (symmetricDiff s.guard.last want (!s.guard.synced)) ans
      if failed then (flushed.1, true)
      else
        ({ flushed.1 with guard := { flushed.1.guard with last := want, synced := true } },
          flushed.2)

/-! ## Runs -/

inductive HopEvent where
  | sync (ports : List Int) (ans : Answers)
  /-- somebody else's rule -/
  | insert (f : Family) (place : Nat) (r : NatRule)

def World.insertRule (s : World) (f : Family) (place : Nat) (r : NatRule) : World :=
  let t := s.nat f
  let t' : NatTable := ⟨t.chain, t.prerouting.insertIdx place r⟩
  { s with nat := Function.update s.nat f t' }

def World.step (s : World) : HopEvent → World
  | .sync ports ans => (s.sync ports ans).1
  | .insert f place r => s.insertRule f place r

/-- A new guard, on a host whose flows are under the chains that stand there. -/
def World.Fresh (s : World) : Prop :=
  s.guard = ⟨[], false, false⟩ ∧ ∀ f p, s.flushed f p = accepts (s.nat f).chain p

def hopGuard : Machine World HopEvent := .ofFun World.Fresh World.step

end Iceslab.Agent.HopGuard
