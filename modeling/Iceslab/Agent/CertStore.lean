import Iceslab.Agent.AtomicFile
import Iceslab.Lib.Machine

/-!
# The certificate store of the agent

The pair the agent serves, its rotation and the files it is kept in (`internal/certstore`).  A
Rotate, a Confirm and a rollback hold the lock over several file operations, so each is a job that
goes on by one file operation at a time: between two of them the clock moves, timers fire and the
agent can crash.  Every file operation has an outcome of its own.

* `load`, `missingNames` — what a pair is checked for.
* `openStore`, `rotate`, `confirm`, `armLocked`, `rollbackLocked` — what the store does.
* `fileOp` — the next file operation of the call that holds the lock.
* `certStore` — the store over whole runs, with the rotations it took remembered beside it.
-/

set_option autoImplicit false

namespace Iceslab.Agent.CertStore

/-! ## Pairs -/

/-- A parsed leaf certificate, as far as the store reads it.  Times are nanoseconds. -/
structure Leaf where
  raw : String
  notBefore : Nat
  dnsNames : List String
  ipAddresses : List (List UInt8)
deriving DecidableEq

structure Pair where
  certPEM : String
  keyPEM : String
  leaf : Leaf
deriving DecidableEq

/-- The crypto libraries under the store: the first certificate of a PEM text, whether a key is
that certificate's, verification against this node's CA for server auth at a time, the hex SHA-256
of a text and the text of an address. -/
structure Libs where
  parseCertificate : String → Option Leaf
  keyMatches : String → String → Bool
  verify : Leaf → Nat → Bool
  sha256 : String → String
  ipString : List UInt8 → String

inductive Check
  | pairOnly
  | chained
  | strict
deriving DecidableEq

inductive StoreError
  | pending
  | notPending
  | notAPair
  | notChained
  | missingName (name : String)
  | write (file : String)
  | remove (file : String)
deriving DecidableEq

/-- `time.Second` in nanoseconds. -/
def second : Nat := 1000000000

def v4InV6Prefix : List UInt8 := [0, 0, 0, 0, 0, 0, 0, 0, 0, 0, 255, 255]

/-- `net.IP.Equal`: an IPv4 address equals its form inside IPv6. -/
def ipEqual (ip x : List UInt8) : Bool :=
  if ip.length = x.length then ip = x
  else if ip.length = 4 ∧ x.length = 16 then x.take 12 = v4InV6Prefix ∧ ip = x.drop 12
  else if ip.length = 16 ∧ x.length = 4 then ip.take 12 = v4InV6Prefix ∧ ip.drop 12 = x
  else false

section Checks

variable (libs : Libs)

/-- `load` -/
def load (now : Nat) (certPEM keyPEM : String) (c : Check) : Except StoreError Pair :=
  match libs.parseCertificate certPEM with
  | none => .error .notAPair
  | some leaf =>
    if libs.keyMatches certPEM keyPEM = false then .error .notAPair
    else
      match c with
      | .pairOnly => .ok ⟨certPEM, keyPEM, leaf⟩
      | .chained =>
        if libs.verify leaf (leaf.notBefore + second) then .ok ⟨certPEM, keyPEM, leaf⟩
        else .error .notChained
      | .strict =>
        if libs.verify leaf now then .ok ⟨certPEM, keyPEM, leaf⟩ else .error .notChained

/-- `missingNames`: empty when `next` carries every name and address of `old`. -/
def missingNames (old next : Leaf) : String :=
  match old.dnsNames.find? fun n => !next.dnsNames.contains n with
  | some n => n
  | none =>
    match old.ipAddresses.find? fun ip => !next.ipAddresses.any fun nip => ipEqual nip ip with
    | some ip => libs.ipString ip
    | none => ""

def fingerprint (leaf : Leaf) : String := libs.sha256 leaf.raw

end Checks

/-! ## The files and the process -/

structure PendingFile where
  fingerprint : String
  confirmBy : Nat
deriving DecidableEq

/-- The five files of the directory. -/
structure Disk where
  crt : Option String
  key : Option String
  crtPrev : Option String
  keyPrev : Option String
  pending : Option PendingFile
deriving DecidableEq

/-- What `Open` was given, with a CA that parses and a payload pair that loads: with any other the
agent does not start. -/
structure Config where
  libs : Libs
  payload : Pair
  hasDir : Bool
  window : Nat
  payloadLoads : load libs 0 payload.certPEM payload.keyPEM .pairOnly = .ok payload

/-- The file a Rotate writes next.  `entry` is the disk as the call found it. -/
inductive RotateStage
  | keyPrev
  | crtPrev
  | key
  | crt
  | record (pf : PendingFile)
deriving DecidableEq

inductive RollbackStage
  | key
  | crt
  | remove
deriving DecidableEq

/-- The call that holds the lock. -/
inductive Job
  | idle
  | rotate (next : Pair) (entry : Disk) (stage : RotateStage)
  | confirm
  | rollback (stage : RollbackStage)
  /-- `Open` removes a `pending.json` that names another pair -/
  | forget
deriving DecidableEq

/-- The store of a running agent.  `running` are the timers that have not fired, by the number they
were armed under, and `waiting` is how many fired timers have a goroutine before the lock. -/
structure Store where
  current : Pair
  prev : Option Pair
  pending : Option PendingFile
  timer : Option Nat
  running : List (Nat × Nat)
  armed : Nat
  waiting : Nat
  job : Job
deriving DecidableEq

/-- A rotation the store accepted. -/
structure Rotation where
  certPEM : String
  file : PendingFile
  confirmed : Bool
deriving DecidableEq

structure RolledBack where
  file : PendingFile
  time : Nat
  wasConfirmed : Bool
deriving DecidableEq

/-- What the store has answered: the last rotation it accepted, the certificates confirmed and the
rotations rolled back. -/
structure Answered where
  last : Option Rotation
  confirmed : List String
  rolledBack : List RolledBack
deriving DecidableEq

/-- The disk, the clock and the process.  `refused` is set by a Rotate that answers an error, to the
pair and the disk it found. -/
structure State where
  disk : Disk
  now : Nat
  store : Option Store
  past : Answered
  refused : Option (Pair × Disk)
deriving DecidableEq

section Operations

variable (cfg : Config)

/-- `loadFiles` -/
def loadFiles (crt key : Option String) : Option Pair :=
  match crt, key with
  | some c, some k => (load cfg.libs 0 c k .chained).toOption
  | _, _ => none

/-- The pair `Open` serves before it looks at `pending.json`. -/
def onDisk (d : Disk) : Pair :=
  if cfg.hasDir then (loadFiles cfg d.crt d.key).getD cfg.payload else cfg.payload

/-- `armLocked`.  The timer in the field is stopped: one that has fired already is not. -/
def armLocked (now after : Nat) (st : Store) : Store :=
  { st with
    timer := some st.armed
    running := st.running.filter (fun t => st.timer ≠ some t.1) ++ [(st.armed, now + after)]
    armed := st.armed + 1 }

/-- The rotation this file was written for has been confirmed. -/
def Answered.wasConfirmed (past : Answered) (pf : PendingFile) : Bool :=
  match past.last with
  | some r => decide (r.file = pf) && r.confirmed
  | none => false

/-- The end of `rollbackLocked`: the previous pair is in force. -/
def endRollback (s : State) (st : Store) (prev : Pair) (pf : PendingFile) : State :=
  { s with
    store := some { st with current := prev, pending := none, timer := none, job := .idle }
    past := { s.past with
      rolledBack := ⟨pf, s.now, s.past.wasConfirmed pf⟩ :: s.past.rolledBack } }

/-- `rollbackLocked`, up to its first file operation. -/
def rollbackLocked (s : State) (st : Store) : State :=
  match st.prev, st.pending with
  | some prev, some pf =>
    if cfg.hasDir then { s with store := some { st with job := .rollback .key } }
    else endRollback s st prev pf
  | _, _ => { s with store := some { st with pending := none, job := .idle } }

/-- `Open`, up to its first file operation. -/
def openStore (s : State) : State :=
  let fresh : Store := ⟨onDisk cfg s.disk, none, none, none, [], 0, 0, .idle⟩
  if cfg.hasDir = false then { s with store := some fresh }
  else
    let st := { fresh with prev := loadFiles cfg s.disk.crtPrev s.disk.keyPrev }
    match s.disk.pending with
    | none => { s with store := some st }
    | some pf =>
      if pf.fingerprint = fingerprint cfg.libs st.current.leaf then
        let st := { st with pending := some pf }
        if pf.confirmBy ≤ s.now then rollbackLocked cfg s st
        else { s with store := some (armLocked s.now (pf.confirmBy - s.now) st) }
      else { s with store := some { st with job := .forget } }

/-- The record of a rotation made now: the time is cut to the second. -/
def pendingOf (now : Nat) (next : Pair) : PendingFile :=
  ⟨fingerprint cfg.libs next.leaf, (now + cfg.window) / second * second⟩

/-- The end of `Rotate`: the new pair is in force. -/
def acceptRotate (s : State) (st : Store) (next : Pair) (pf : PendingFile) : State :=
  { s with
    store := some (armLocked s.now cfg.window
      { st with prev := some st.current, current := next, pending := some pf, job := .idle })
    past := { s.past with last := some ⟨next.certPEM, pf, false⟩ } }

/-- `Rotate` answers an error: nothing in the process has changed. -/
def refuseRotate (s : State) (st : Store) (entry : Disk) : State :=
  { s with store := some { st with job := .idle }, refused := some (st.current, entry) }

/-- The checks of `Rotate`. -/
def rotateChecks (now : Nat) (st : Store) (certPEM keyPEM : String) : Except StoreError Pair :=
  if st.pending.isSome then .error .pending
  else
    match load cfg.libs now certPEM keyPEM .strict with
    | .error e => .error e
    | .ok next =>
      let missing := missingNames cfg.libs st.current.leaf next.leaf
      if missing ≠ "" then .error (.missingName missing) else .ok next

/-- `Rotate`, up to its first file operation. -/
def rotate (s : State) (st : Store) (certPEM keyPEM : String) : State :=
  match rotateChecks cfg s.now st certPEM keyPEM with
  | .error _ => refuseRotate s st s.disk
  | .ok next =>
    if cfg.hasDir then { s with store := some { st with job := .rotate next s.disk .keyPrev } }
    else acceptRotate cfg s st next (pendingOf cfg s.now next)

/-- The end of `Confirm`. -/
def endConfirm (s : State) (st : Store) : State :=
  { s with
    store := some { st with job := .idle }
    past := { s.past with
      last := s.past.last.map fun r => { r with confirmed := true }
      confirmed := (s.past.last.map (·.certPEM)).toList ++ s.past.confirmed } }

/-- `Confirm`, up to its file operation. -/
def confirm (s : State) (st : Store) (fp : String) : State :=
  match st.pending with
  | none => s
  | some pf =>
    if pf.fingerprint ≠ fp then s
    else
      let st := { st with
        running := st.running.filter fun t => st.timer ≠ some t.1
        timer := none
        pending := none }
      if cfg.hasDir then { s with store := some { st with job := .confirm } }
      else endConfirm s st

/-! ## File operations -/

def Disk.writeKey (d : Disk) (o : Outcome) (text : String) : Disk :=
  if o.lands then { d with key := some text } else d

def Disk.writeCrt (d : Disk) (o : Outcome) (text : String) : Disk :=
  if o.lands then { d with crt := some text } else d

def Disk.writeKeyPrev (d : Disk) (o : Outcome) (text : String) : Disk :=
  if o.lands then { d with keyPrev := some text } else d

def Disk.writeCrtPrev (d : Disk) (o : Outcome) (text : String) : Disk :=
  if o.lands then { d with crtPrev := some text } else d

def Disk.writePending (d : Disk) (o : Outcome) (pf : PendingFile) : Disk :=
  if o.lands then { d with pending := some pf } else d

def Disk.removePending (d : Disk) (o : Outcome) : Disk :=
  if o.lands then { d with pending := none } else d

/-- One file operation of `Rotate`.  A file written before an error stays as it was written. -/
def rotateOp (s : State) (st : Store) (next : Pair) (entry : Disk) (o : Outcome) :
    RotateStage → State
  | .keyPrev =>
    let s := { s with disk := s.disk.writeKeyPrev o st.current.keyPEM }
    if o = .done then { s with store := some { st with job := .rotate next entry .crtPrev } }
    else refuseRotate s st entry
  | .crtPrev =>
    let s := { s with disk := s.disk.writeCrtPrev o st.current.certPEM }
    if o = .done then { s with store := some { st with job := .rotate next entry .key } }
    else refuseRotate s st entry
  | .key =>
    let s := { s with disk := s.disk.writeKey o next.keyPEM }
    if o = .done then { s with store := some { st with job := .rotate next entry .crt } }
    else refuseRotate s st entry
  | .crt =>
    let s := { s with disk := s.disk.writeCrt o next.certPEM }
    if o = .done then
      { s with store := some { st with job := .rotate next entry (.record (pendingOf cfg s.now next)) } }
    else refuseRotate s st entry
  | .record pf =>
    let s := { s with disk := s.disk.writePending o pf }
    if o = .done then acceptRotate cfg s st next pf else refuseRotate s st entry

/-- One file operation of `rollbackLocked`: a write that fails is logged, and the record goes
whether or not the pair is back in place. -/
def rollbackOp (s : State) (st : Store) (prev : Pair) (pf : PendingFile) (o : Outcome) :
    RollbackStage → State
  | .key =>
    { s with
      disk := s.disk.writeKey o prev.keyPEM
      store := some { st with job := .rollback (if o = .done then .crt else .remove) } }
  | .crt =>
    { s with
      disk := s.disk.writeCrt o prev.certPEM
      store := some { st with job := .rollback .remove } }
  | .remove => endRollback { s with disk := s.disk.removePending o } st prev pf

/-- The next file operation of the call that holds the lock.  A `MkdirAll` that fails is the
failure of the write after it. -/
def fileOp (s : State) (st : Store) (o : Outcome) : State :=
  match st.job with
  | .idle => s
  | .rotate next entry stage => rotateOp cfg s st next entry o stage
  | .confirm =>
    -- a file that is not there is as good as removed
    if o = .failed ∧ s.disk.pending.isSome then { s with store := some { st with job := .idle } }
    else endConfirm { s with disk := s.disk.removePending o } st
  | .rollback stage =>
    match st.prev, st.pending with
    | some prev, some pf => rollbackOp s st prev pf o stage
    | _, _ => s
  | .forget =>
    { s with disk := s.disk.removePending o, store := some { st with job := .idle } }

/-! ## Runs -/

inductive Event
  | start
  | crash
  | advance (d : Nat)
  /-- a timer runs out: its goroutine is before the lock -/
  | fire (timer : Nat)
  /-- the goroutine of a timer gets the lock -/
  | callback
  | rotate (certPEM keyPEM : String)
  | confirm (fp : String)
  | file (o : Outcome)
deriving DecidableEq

/-- A timer that is due fires. -/
def fire (s : State) (st : Store) (id : Nat) : State :=
  if (st.running.any fun t => t.1 = id && decide (t.2 ≤ s.now)) then
    { s with store := some { st with
      running := st.running.filter fun t => t.1 ≠ id
      waiting := st.waiting + 1 } }
  else s

/-- The goroutine of a timer, under the lock. -/
def callback (s : State) (st : Store) : State :=
  if st.waiting = 0 then s
  else
    let st := { st with waiting := st.waiting - 1 }
    if st.pending.isSome then rollbackLocked cfg s st else { s with store := some st }

/-- A call needs the lock: while another holds it, it waits. -/
def storeStep (s : State) (st : Store) : Event → State
  | .start => s
  | .crash => { s with store := none }
  | .advance d => { s with now := s.now + d }
  | .fire id => fire s st id
  | .file o => fileOp cfg s st o
  | .callback => if st.job = .idle then callback cfg s st else s
  | .rotate certPEM keyPEM => if st.job = .idle then rotate cfg s st certPEM keyPEM else s
  | .confirm fp => if st.job = .idle then confirm cfg s st fp else s

def step (s : State) (e : Event) : State :=
  let s := { s with refused := none }
  match s.store with
  | some st => storeStep cfg s st e
  | none =>
    match e with
    | .start => openStore cfg s
    | .advance d => { s with now := s.now + d }
    | _ => s

/-- A node that has never rotated. -/
def freshNode (now : Nat) : State :=
  ⟨⟨none, none, none, none, none⟩, now, none, ⟨none, [], []⟩, none⟩

def certStore : Machine State Event := .ofFun (fun s => ∃ now, s = freshNode now) (step cfg)

/-! ## What a handshake and a restart are given -/

/-- The pair of a handshake made now.  `GetCertificate` takes the lock too, and there is no server
before `Open` has returned. -/
def State.served (s : State) : Option Pair :=
  match s.store with
  | some st => if st.job = .idle then some st.current else none
  | none => none

/-- The pair a restart at time `t` serves, its file operations done. -/
def openServes (d : Disk) (t : Nat) : Pair :=
  let current := onDisk cfg d
  if cfg.hasDir = false then current
  else
    match d.pending with
    | none => current
    | some pf =>
      if pf.fingerprint = fingerprint cfg.libs current.leaf ∧ pf.confirmBy ≤ t then
        (loadFiles cfg d.crtPrev d.keyPrev).getD current
      else current

end Operations

end Iceslab.Agent.CertStore
