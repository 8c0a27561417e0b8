import Iceslab.Lib.Machine

/-!
# Refused sign-ins in the audit log

`login-cap.ts`, within one window: a refusal is written up to a cap for its network and a cap in
all, past them it is counted into the one summary row of its key.

* `Call.over` — what a call carries past a cap.
* `turn` — the next statement of a call: an increment, or the upsert of a summary.
* `signIns` — any number of calls, in any order of their statements.
-/

set_option autoImplicit false

namespace Iceslab.LoginCap

structure LoginCapLimits where
  perNetwork : Nat
  all : Nat
  deriving DecidableEq, Repr

/-- What an address is cut to (`203.0.113.0/24`, `[redacted]`): never the key of the rest. -/
abbrev Network := { network : String // network ≠ "all" }

/-- The summary of one key in the window. -/
structure SummaryRow where
  targetLabel : String
  sourceNetwork : Option String
  suppressed : Nat
  deriving DecidableEq, Repr

structure Over where
  key : String
  n : Nat
  network : Option String
  deriving DecidableEq, Repr

/-- A call of `admitRefusedSignIn`: the numbers its increments answered, and what it returned. -/
structure Call where
  network : Network
  perNetwork : Option Nat := none
  all : Option Nat := none
  returned : Option Bool := none
  deriving DecidableEq

structure State where
  networks : Network → Nat
  all : Nat
  summaries : List SummaryRow
  calls : List Call

section Statements

variable (limits : LoginCapLimits)

def Call.over (c : Call) : Option Over :=
  match c.perNetwork with
  | none => none
  | some n =>
    if limits.perNetwork < n then some ⟨c.network, n - limits.perNetwork, some c.network⟩
    else
      match c.all with
      | none => none
      | some m => if limits.all < m then some ⟨"all", m - limits.all, none⟩ else none

/-- `ON CONFLICT DO UPDATE`: only `suppressed` moves, to the larger count. -/
def summarise (summaries : List SummaryRow) (past : Over) : List SummaryRow :=
  if summaries.any fun r => decide (r.targetLabel = past.key) then
    summaries.map fun r =>
      if r.targetLabel = past.key then { r with suppressed := max r.suppressed past.n } else r
  else summaries ++ [⟨past.key, past.network, past.n⟩]

/-- The next statement of a call that has not returned. -/
def statement (s : State) (i : Nat) (c : Call) : State :=
  match c.perNetwork with
  | none =>
    let n := s.networks c.network + 1
    { s with
      networks := Function.update s.networks c.network n
      calls := s.calls.set i { c with perNetwork := some n } }
  | some _ =>
    match c.over limits with
    | some past =>
      { s with
        summaries := summarise s.summaries past
        calls := s.calls.set i { c with returned := some false } }
    | none =>
      let m := s.all + 1
      { s with
        all := m
        calls := s.calls.set i
          { c with all := some m, returned := if m ≤ limits.all then some true else none } }

/-- What a call does whose counter, or whose upsert, is not there. -/
def awayStatement (s : State) (i : Nat) (c : Call) : State :=
  { s with calls := s.calls.set i { c with returned := some (c.over limits).isNone } }

end Statements

/-! ## Any number of calls -/

inductive Event where
  | refused (network : Network)
  | turn (i : Nat)
  | away (i : Nat)

/-- Counters and table answer. -/
def Event.Available : Event → Prop
  | .away _ => False
  | _ => True

/-- The call a turn belongs to, if it has not returned. -/
def State.running (s : State) (i : Nat) : Option Call :=
  s.calls[i]?.filter fun c => c.returned.isNone

def step (limits : LoginCapLimits) (s : State) : Event → Option State
  | .refused network => some { s with calls := s.calls ++ [{ network }] }
  | .turn i => (s.running i).map (statement limits s i)
  | .away i => (s.running i).map (awayStatement limits s i)

def emptyWindow : State := ⟨fun _ => 0, 0, [], []⟩

/-- The window's run, every counter and the table available. -/
def signIns (limits : LoginCapLimits) : Machine State Event where
  start s := s = emptyWindow
  step s e s' := e.Available ∧ step limits s e = some s'

end Iceslab.LoginCap
