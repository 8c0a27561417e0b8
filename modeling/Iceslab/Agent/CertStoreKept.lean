import Iceslab.Agent.CertStore

/-!
# No unconfirmed certificate stays

* `Kept` — what is asked of the store at every moment.
* `Orderly` — the steps for which the store keeps it.
* `JobInv` — what holds while a call is between two file operations.
* `rotations_kept` — **in every run of orderly steps every state is as asked**.
* `refused_rotation_stays` — a Rotate that cannot write its record answers an error and leaves the
  new pair for the next start.
-/

set_option autoImplicit false

namespace Iceslab.Agent.CertStore

/-! ## What is asked -/

section Asked

variable (cfg : Config)

/-- The pair loads, and chains to the CA or is the payload's. -/
def Loads (p : Pair) : Prop :=
  load cfg.libs 0 p.certPEM p.keyPEM .pairOnly = .ok p ∧
    (p = cfg.payload ∨ ∃ t, cfg.libs.verify p.leaf t = true)

structure Kept (s : State) : Prop where
  loads : ∀ p, s.served = some p → Loads cfg p
  /-- a Rotate that answers an error changes neither the pair served nor what a restart serves -/
  refused : ∀ p d, s.refused = some (p, d) →
    s.served = some p ∧ ∀ t, openServes cfg s.disk t = openServes cfg d t
  /-- nothing is served but the payload's certificate, a confirmed one, and the last one accepted
  until its ConfirmBy -/
  unconfirmed : ∀ p, s.served = some p → p.certPEM = cfg.payload.certPEM ∨
    p.certPEM ∈ s.past.confirmed ∨
    ∃ r, s.past.last = some r ∧ r.certPEM = p.certPEM ∧ s.now ≤ r.file.confirmBy
  rolledBack : ∀ b ∈ s.past.rolledBack, b.wasConfirmed = false ∧ b.file.confirmBy ≤ b.time
  /-- with no rotation waiting a restart serves the same pair, whenever it comes -/
  restart : ∀ st, s.store = some st → st.job = .idle → st.pending = none →
    ∀ t, openServes cfg s.disk t = st.current

/-- The clock does not pass the timer of a rotation that waits, nor its ConfirmBy where the timer is
armed for later than that, and no goroutine of a timer is left waiting for a free lock. -/
def InTime (s : State) (st : Store) (d : Nat) : Prop :=
  match st.job, st.pending with
  | .idle, some pf => st.waiting = 0 ∧
      ∀ t ∈ st.running, s.now + d ≤ t.2 ∧ (t.2 ≤ pf.confirmBy ∨ s.now + d ≤ pf.confirmBy)
  | _, _ => True

/-- A pair that Rotate accepts is also one that `Open` loads, there is a directory to keep it in,
and no goroutine of an earlier timer is still before the lock. -/
def Accepted (s : State) (st : Store) (certPEM keyPEM : String) : Prop :=
  match rotateChecks cfg s.now st certPEM keyPEM with
  | .ok next => cfg.hasDir = true ∧ st.waiting = 0 ∧
      load cfg.libs 0 certPEM keyPEM .chained = .ok next
  | .error _ => True

/-- The file operations that may not fail: in Rotate those after the new key is in place, in Confirm
the remove, in a rollback the writes. -/
def Written (s : State) (st : Store) (o : Outcome) : Prop :=
  match st.job with
  | .rotate _ _ .key => o ≠ .landed
  | .rotate _ _ .crt => o = .done
  | .rotate _ _ (.record pf) => o = .done ∧ s.now ≤ pf.confirmBy
  | .confirm => o ≠ .failed
  | .rollback .key => o = .done
  | .rollback .crt => o = .done
  | _ => True

/-- The moments a crash may come: not between the new certificate and the record that says it is
provisional, and between the new key and its certificate only where the key does not fit a
certificate left in `node.crt` by an earlier rotation. -/
def Crashable (s : State) (st : Store) : Prop :=
  match st.job with
  | .rotate _ _ (.record _) => False
  | .rotate _ _ .crt => s.disk.pending = none → s.disk.crt ≠ some st.current.certPEM →
      loadFiles cfg s.disk.crt s.disk.key = none
  | _ => True

/-- **When the store keeps what is asked of it.** -/
def Orderly (s : State) (e : Event) : Prop :=
  match s.store, e with
  | none, .start => ∀ pf, cfg.hasDir = true → s.disk.pending = some pf →
      pf.fingerprint = fingerprint cfg.libs (onDisk cfg s.disk).leaf →
      (loadFiles cfg s.disk.crtPrev s.disk.keyPrev).isSome = true
  | some st, .crash => Crashable cfg s st
  | some st, .advance d => InTime s st d
  | some st, .rotate certPEM keyPEM => st.job = .idle → Accepted cfg s st certPEM keyPEM
  | some st, .file o => Written s st o
  | _, _ => True

instance (s : State) (st : Store) (d : Nat) : Decidable (InTime s st d) := by
  unfold InTime
  split <;> infer_instance

instance (s : State) (st : Store) (c k : String) : Decidable (Accepted cfg s st c k) := by
  unfold Accepted
  split <;> infer_instance

instance (s : State) (st : Store) (o : Outcome) : Decidable (Written s st o) := by
  unfold Written
  split <;> infer_instance

instance (s : State) (st : Store) : Decidable (Crashable cfg s st) := by
  unfold Crashable
  split <;> infer_instance

instance (s : State) (e : Event) : Decidable (Orderly cfg s e) := by
  unfold Orderly
  split
  · exact decidable_of_iff (∀ pf ∈ s.disk.pending, cfg.hasDir = true →
      pf.fingerprint = fingerprint cfg.libs (onDisk cfg s.disk).leaf →
      (loadFiles cfg s.disk.crtPrev s.disk.keyPrev).isSome = true)
      ⟨fun h pf hd hp => h pf hp hd, fun h pf hp hd => h pf hd hp⟩
  all_goals infer_instance

end Asked

/-! ## Pairs that load -/

section Pairs

variable {cfg : Config} {libs : Libs} {now : Nat} {c k : String} {p q : Pair} {d : Disk}
  {chk : Check}

theorem load_ok (h : load libs now c k chk = .ok p) :
    libs.parseCertificate c = some p.leaf ∧ libs.keyMatches c k = true ∧ p.certPEM = c ∧
      p.keyPEM = k := by
  unfold load at h
  cases hparse : libs.parseCertificate c with
  | none => simp [hparse] at h
  | some leaf =>
    cases hmatch : libs.keyMatches c k with
    | false => simp [hparse, hmatch] at h
    | true =>
      have hp : p = ⟨c, k, leaf⟩ := by
        cases chk <;> simp only [hparse, hmatch, Bool.true_eq_false, if_false] at h
        · exact (Except.ok.inj h).symm
        all_goals
          split at h
          · exact (Except.ok.inj h).symm
          · cases h
      subst hp
      exact ⟨rfl, rfl, rfl, rfl⟩

theorem load_pairOnly (h : load libs now c k chk = .ok p) :
    load libs 0 p.certPEM p.keyPEM .pairOnly = .ok p := by
  obtain ⟨hparse, hmatch, rfl, rfl⟩ := load_ok h
  simp [load, hparse, hmatch]

theorem load_verify (h : load libs now c k chk = .ok p) (hc : chk ≠ .pairOnly) :
    ∃ t, libs.verify p.leaf t = true := by
  obtain ⟨hparse, hmatch, -, -⟩ := load_ok h
  cases chk with
  | pairOnly => exact absurd rfl hc
  | chained =>
    by_cases hv : libs.verify p.leaf (p.leaf.notBefore + second) = true
    · exact ⟨_, hv⟩
    · simp [load, hparse, hmatch, hv] at h
  | strict =>
    by_cases hv : libs.verify p.leaf now = true
    · exact ⟨_, hv⟩
    · simp [load, hparse, hmatch, hv] at h

theorem Loads.of_load (h : load cfg.libs now c k chk = .ok p)
    (hc : chk ≠ .pairOnly) : Loads cfg p :=
  ⟨load_pairOnly h, .inr (load_verify h hc)⟩

theorem Loads.payload : Loads cfg cfg.payload :=
  ⟨cfg.payloadLoads, .inl rfl⟩

theorem Loads.eq (hp : Loads cfg p) (hq : Loads cfg q) (hc : p.certPEM = q.certPEM)
    (hk : p.keyPEM = q.keyPEM) : p = q := by
  have h := hp.1
  rw [hc, hk, hq.1] at h
  exact (Except.ok.inj h).symm

theorem loadFiles_some {crt key : Option String} (h : loadFiles cfg crt key = some p) :
    crt = some p.certPEM ∧ key = some p.keyPEM ∧
      load cfg.libs 0 p.certPEM p.keyPEM .chained = .ok p := by
  unfold loadFiles at h
  split at h
  · rename_i c k
    cases hl : load cfg.libs 0 c k .chained with
    | error e => simp [hl, Except.toOption] at h
    | ok q =>
      simp only [hl, Except.toOption, Option.some.injEq] at h
      subst h
      obtain ⟨-, -, hc, hk⟩ := load_ok hl
      simp [hc, hk, hl]
  · cases h

theorem loads_of_loadFiles {crt key : Option String} (h : loadFiles cfg crt key = some p) :
    Loads cfg p :=
  Loads.of_load (loadFiles_some h).2.2 (by simp)

/-- The pair a start finds again once it is in `node.crt` and `node.key`: one that chains, or the
payload's. -/
def Stable (cfg : Config) (p : Pair) : Prop :=
  p = cfg.payload ∨ load cfg.libs 0 p.certPEM p.keyPEM .chained = .ok p

theorem Stable.loads (h : Stable cfg p) : Loads cfg p := by
  rcases h with rfl | h
  · exact .payload
  · exact .of_load h (by simp)

theorem stable_onDisk (d : Disk) : Stable cfg (onDisk cfg d) := by
  unfold onDisk
  split
  · cases h : loadFiles cfg d.crt d.key with
    | none => exact .inl rfl
    | some p => exact .inr (loadFiles_some h).2.2
  · exact .inl rfl

theorem onDisk_of_files (hp : Stable cfg p) (hdir : cfg.hasDir = true)
    (hc : d.crt = some p.certPEM) (hk : d.key = some p.keyPEM) : onDisk cfg d = p := by
  simp only [onDisk, hdir, hc, hk, loadFiles, if_true]
  cases hl : load cfg.libs 0 p.certPEM p.keyPEM .chained with
  | ok q =>
    obtain ⟨-, -, hqc, hqk⟩ := load_ok hl
    exact Loads.eq (.of_load hl (by simp)) hp.loads hqc hqk
  | error e =>
    rcases hp with rfl | h
    · rfl
    · rw [hl] at h
      cases h

theorem onDisk_eq_or (d : Disk) : onDisk cfg d = cfg.payload ∨
    (loadFiles cfg d.crt d.key).isSome = true ∧ d.crt = some (onDisk cfg d).certPEM := by
  unfold onDisk
  split
  · cases h : loadFiles cfg d.crt d.key with
    | none => exact .inl rfl
    | some p => exact .inr ⟨rfl, (loadFiles_some h).1⟩
  · exact .inl rfl

end Pairs

/-! ## The invariant -/

section Invariant

variable (cfg : Config)

/-- A certificate that is not provisional. -/
def Good (past : Answered) (c : String) : Prop :=
  c = cfg.payload.certPEM ∨ c ∈ past.confirmed

/-- What every disk holds. -/
structure Recorded (past : Answered) (d : Disk) : Prop where
  pending : ∀ pf, d.pending = some pf →
    ∃ r, past.last = some r ∧ r.file = pf ∧ r.confirmed = false
  crtPrev : ∀ c, d.crtPrev = some c → Good cfg past c
  named : ∀ r, past.last = some r → ∃ leaf, cfg.libs.parseCertificate r.certPEM = some leaf ∧
    r.file.fingerprint = fingerprint cfg.libs leaf
  rolledBack : ∀ b ∈ past.rolledBack, b.wasConfirmed = false ∧ b.file.confirmBy ≤ b.time

/-- A provisional `node.crt` has its record beside it, or does not load. -/
def Provisional (past : Answered) (d : Disk) : Prop :=
  ∀ c, d.crt = some c → Good cfg past c ∨
    (∃ r, past.last = some r ∧ c = r.certPEM ∧ d.pending = some r.file) ∨
    (d.pending = none ∧ loadFiles cfg d.crt d.key = none)

def BackedUp (d : Disk) (p : Pair) : Prop :=
  d.crtPrev = some p.certPEM ∧ d.keyPrev = some p.keyPEM

/-- A record that is left over and names the pair in force would restore that very pair. -/
def Harmless (d : Disk) (p : Pair) : Prop :=
  ∀ pf, cfg.hasDir = true → d.pending = some pf →
    pf.fingerprint = fingerprint cfg.libs p.leaf → BackedUp d p

/-- No rotation waits. -/
structure Settled (past : Answered) (d : Disk) (st : Store) : Prop where
  provisional : Provisional cfg past d
  placed : onDisk cfg d = st.current
  stable : Stable cfg st.current
  good : Good cfg past st.current.certPEM
  harmless : Harmless cfg d st.current
  pending : st.pending = none
  running : st.running = []

/-- A rotation waits, and the pair to go back to is at hand. -/
structure Waits (past : Answered) (d : Disk) (st : Store) (prev : Pair) (r : Rotation) : Prop where
  provisional : Provisional cfg past d
  dir : cfg.hasDir = true
  last : past.last = some r
  unconfirmed : r.confirmed = false
  record : d.pending = some r.file
  pending : st.pending = some r.file
  current : Good cfg past st.current.certPEM ∨ st.current.certPEM = r.certPEM
  back : st.prev = some prev
  good : Good cfg past prev.certPEM
  stable : Stable cfg prev
  backedUp : BackedUp d prev

/-- The timer of a rotation that waits is running, or its goroutine is before the lock. -/
def Armed (st : Store) (pf : PendingFile) (now : Nat) : Prop :=
  (st.running = [] ∧ st.waiting ≠ 0 ∧ pf.confirmBy ≤ now) ∨
    ∃ id due, st.running = [(id, due)] ∧ st.timer = some id ∧ st.waiting = 0 ∧ pf.confirmBy ≤ due

/-- What a Rotate has done by each of its stages. -/
def RotateInv (past : Answered) (d : Disk) (now : Nat) (st : Store) (next : Pair) :
    RotateStage → Prop
  | .keyPrev => Settled cfg past d st
  | .crtPrev => Settled cfg past d st ∧ d.keyPrev = some st.current.keyPEM
  | .key => Settled cfg past d st ∧ BackedUp d st.current
  | .crt => (∃ k, Provisional cfg past { d with key := k }) ∧ BackedUp d st.current ∧
      d.key = some next.keyPEM
  | .record pf => BackedUp d st.current ∧ d.key = some next.keyPEM ∧
      d.crt = some next.certPEM ∧ pf.fingerprint = fingerprint cfg.libs next.leaf ∧
      pf.confirmBy ≤ now + cfg.window

/-- A Rotate under way. -/
structure Rotating (past : Answered) (st : Store) (next : Pair) (entry : Disk) : Prop where
  dir : cfg.hasDir = true
  next : Stable cfg next
  entry : ∀ t, openServes cfg entry t = st.current
  stable : Stable cfg st.current
  good : Good cfg past st.current.certPEM
  pending : st.pending = none
  running : st.running = []
  waiting : st.waiting = 0

/-- A Confirm that has to remove the record. -/
structure Confirming (past : Answered) (d : Disk) (st : Store) (r : Rotation) : Prop where
  provisional : Provisional cfg past d
  last : past.last = some r
  placed : onDisk cfg d = st.current
  stable : Stable cfg st.current
  current : Good cfg past st.current.certPEM ∨ st.current.certPEM = r.certPEM
  pending : st.pending = none
  running : st.running = []

/-- What a rollback has put back by each of its stages. -/
def RollbackInv (d : Disk) (prev : Pair) : RollbackStage → Prop
  | .key => True
  | .crt => d.key = some prev.keyPEM
  | .remove => d.key = some prev.keyPEM ∧ d.crt = some prev.certPEM

def JobInv (past : Answered) (d : Disk) (now : Nat) (st : Store) : Prop :=
  match st.job with
  | .idle => Settled cfg past d st ∨ ∃ prev r, Waits cfg past d st prev r ∧ Stable cfg st.current ∧
      onDisk cfg d = st.current ∧ now ≤ r.file.confirmBy ∧ Armed st r.file now
  | .rotate next entry stage => Rotating cfg past st next entry ∧
      RotateInv cfg past d now st next stage
  | .confirm => ∃ r, Confirming cfg past d st r
  | .rollback stage => ∃ prev r, Waits cfg past d st prev r ∧ st.running = [] ∧
      r.file.confirmBy ≤ now ∧ RollbackInv d prev stage
  | .forget => cfg.hasDir = true ∧ Settled cfg past d st

structure Inv (s : State) : Prop where
  recorded : Recorded cfg s.past s.disk
  down : s.store = none → Provisional cfg s.past s.disk
  up : ∀ st, s.store = some st → JobInv cfg s.past s.disk s.now st
  refused : ∀ p d, s.refused = some (p, d) →
    s.served = some p ∧ ∀ t, openServes cfg s.disk t = openServes cfg d t

end Invariant

section Steps

variable {cfg : Config} {past : Answered} {d d' : Disk} {now : Nat} {st : Store}
  {next prev p : Pair} {r : Rotation} {entry : Disk} {c k : String} {o : Outcome} {e : Event}

/-! ## What a start serves -/

theorem openServes_eq (hp : Stable cfg p) (hd : onDisk cfg d = p) (hh : Harmless cfg d p) (t : Nat) :
    openServes cfg d t = p := by
  unfold openServes
  simp only [hd]
  split
  · rfl
  · rename_i hdir
    split
    · rfl
    · rename_i pf hpf
      split
      · rename_i hnames
        obtain ⟨hc, hk⟩ := hh pf (by simpa using hdir) hpf hnames.1
        cases hl : loadFiles cfg d.crtPrev d.keyPrev with
        | none => rfl
        | some q =>
          -- the pair kept beside it is the pair in force
          obtain ⟨hqc, hqk, -⟩ := loadFiles_some hl
          rw [hc, Option.some.injEq] at hqc
          rw [hk, Option.some.injEq] at hqk
          exact Loads.eq (loads_of_loadFiles hl) hp.loads hqc.symm hqk.symm
      · rfl

theorem Settled.openServes (h : Settled cfg past d st) (t : Nat) :
    openServes cfg d t = st.current :=
  openServes_eq h.stable h.placed h.harmless t

/-- The certificate of a start is provisional only where the record says so. -/
theorem Provisional.found (h : Provisional cfg past d) : Good cfg past (onDisk cfg d).certPEM ∨
    ∃ r, past.last = some r ∧ (onDisk cfg d).certPEM = r.certPEM ∧ d.pending = some r.file := by
  rcases onDisk_eq_or d with hp | ⟨hl, hc⟩
  · left
    rw [hp]
    exact .inl rfl
  · rcases h _ hc with hg | hr | ⟨-, hnone⟩
    · exact .inl hg
    · exact .inr hr
    · simp [hnone] at hl

theorem Recorded.fingerprint_eq (h : Recorded cfg past d) (hl : past.last = some r)
    (hp : Stable cfg p) (hc : p.certPEM = r.certPEM) :
    r.file.fingerprint = fingerprint cfg.libs p.leaf := by
  obtain ⟨leaf, hparse, hfp⟩ := h.named r hl
  obtain ⟨hparse', -⟩ := load_ok hp.loads.1
  rw [hc, hparse, Option.some.injEq] at hparse'
  rw [hfp, hparse']

theorem Inv.of (hrec : Recorded cfg past d) (hjob : JobInv cfg past d now st) :
    Inv cfg ⟨d, now, some st, past, none⟩ := by
  refine ⟨hrec, by simp, ?_, by simp⟩
  rintro st' ⟨⟩
  exact hjob

/-! ## Open -/

theorem inv_start (hrec : Recorded cfg past d) (hprov : Provisional cfg past d)
    (ho : Orderly cfg ⟨d, now, none, past, none⟩ .start) :
    Inv cfg (openStore cfg ⟨d, now, none, past, none⟩) := by
  simp only [Orderly] at ho
  have hstable : Stable cfg (onDisk cfg d) := stable_onDisk d
  unfold openStore
  dsimp only
  split
  · rename_i hdir
    refine .of hrec (.inl ⟨hprov, rfl, hstable, ?_, ?_, rfl, rfl⟩)
    · have hpay : onDisk cfg d = cfg.payload := by simp [onDisk, hdir]
      exact .inl (by rw [hpay])
    · intro pf hd
      rw [hdir] at hd
      cases hd
  rename_i hdir
  have hdir : cfg.hasDir = true := by simpa using hdir
  split
  · rename_i hpend
    refine .of hrec (.inl ⟨hprov, rfl, hstable, ?_, ?_, rfl, rfl⟩)
    · rcases hprov.found with hg | ⟨r, -, -, hr⟩
      · exact hg
      · rw [hpend] at hr
        cases hr
    · intro pf _ hpf
      rw [hpend] at hpf
      cases hpf
  rename_i pf hpend
  obtain ⟨r, hlast, rfl, hunc⟩ := hrec.pending pf hpend
  have hcur : Good cfg past (onDisk cfg d).certPEM ∨ (onDisk cfg d).certPEM = r.certPEM := by
    rcases hprov.found with hg | ⟨r', hr', hc, -⟩
    · exact .inl hg
    · rw [hlast, Option.some.injEq] at hr'
      exact .inr (hr' ▸ hc)
  split
  · -- the record names the pair on disk: the rotation is picked up
    rename_i hname
    obtain ⟨prev, hprev⟩ := Option.isSome_iff_exists.mp (ho _ hdir hpend hname)
    obtain ⟨hpc, hpk, hpl⟩ := loadFiles_some hprev
    have hback := hrec.crtPrev _ hpc
    rw [hprev]
    split
    · rename_i hpast
      simp only [rollbackLocked, hdir, if_true]
      exact .of hrec ⟨prev, r, ⟨hprov, hdir, hlast, hunc, hpend, rfl, hcur, rfl, hback, .inr hpl,
        hpc, hpk⟩, rfl, hpast, trivial⟩
    · rename_i hpast
      have hpast : now ≤ r.file.confirmBy := Nat.le_of_not_le hpast
      refine .of hrec (.inr ⟨prev, r, ⟨hprov, hdir, hlast, hunc, hpend, rfl, hcur, rfl, hback,
        .inr hpl, hpc, hpk⟩, hstable, rfl, hpast, .inr ?_⟩)
      exact ⟨0, now + (r.file.confirmBy - now), by simp [armLocked], rfl, rfl, by omega⟩
  · -- it names another: it goes
    rename_i hname
    refine .of hrec ⟨hdir, hprov, rfl, hstable, ?_, ?_, rfl, rfl⟩
    · rcases hcur with hg | hc
      · exact hg
      · exact absurd (hrec.fingerprint_eq hlast hstable hc) hname
    · intro pf _ hpf hfp
      rw [hpend, Option.some.injEq] at hpf
      exact absurd (hpf ▸ hfp) hname

/-! ## Rotate -/

theorem rotateChecks_ok (h : rotateChecks cfg now st c k = .ok next) :
    st.pending = none ∧ load cfg.libs now c k .strict = .ok next := by
  unfold rotateChecks at h
  split at h
  · cases h
  rename_i hpend
  split at h
  · cases h
  · rename_i q hq
    dsimp only at h
    split at h
    · cases h
    · cases h
      exact ⟨by simpa using hpend, hq⟩

/-- Before a Rotate, and after one that was refused with the pair in force still in its place. -/
theorem inv_refused (hrec : Recorded cfg past d) (hjob : JobInv cfg past d now
    { st with job := .idle }) (he : ∀ t, openServes cfg d t = openServes cfg entry t) :
    Inv cfg (refuseRotate ⟨d, now, some st, past, none⟩ st entry) := by
  refine ⟨hrec, by simp [refuseRotate], ?_, ?_⟩
  · rintro st' ⟨⟩
    exact hjob
  · rintro p d ⟨⟩
    exact ⟨rfl, he⟩

theorem Settled.withJob (h : Settled cfg past d st) (job : Job) :
    Settled cfg past d { st with job := job } :=
  ⟨h.provisional, h.placed, h.stable, h.good, h.harmless, h.pending, h.running⟩

theorem inv_rotate (hrec : Recorded cfg past d) (hjob : JobInv cfg past d now st)
    (hidle : st.job = .idle) (ho : Accepted cfg ⟨d, now, some st, past, none⟩ st c k) :
    Inv cfg (rotate cfg ⟨d, now, some st, past, none⟩ st c k) := by
  unfold rotate
  unfold Accepted at ho
  dsimp only at ho ⊢
  split
  · refine inv_refused hrec ?_ fun t => rfl
    cases st
    cases hidle
    exact hjob
  · rename_i next hnext
    simp only [hnext] at ho
    obtain ⟨hdir, hwait, hload⟩ := ho
    obtain ⟨hpend, -⟩ := rotateChecks_ok hnext
    simp only [hdir, if_true]
    simp only [JobInv, hidle] at hjob
    rcases hjob with hset | ⟨prev, r, hw, -⟩
    · obtain ⟨-, -, hc, hk⟩ := load_ok hload
      rw [← hc, ← hk] at hload
      refine .of hrec ⟨⟨hdir, .inr hload, hset.openServes, hset.stable, hset.good, hpend,
        hset.running, hwait⟩, hset.withJob _⟩
    · rw [hw.pending] at hpend
      cases hpend

theorem onDisk_congr (hc : d'.crt = d.crt) (hk : d'.key = d.key) : onDisk cfg d' = onDisk cfg d := by
  simp [onDisk, hc, hk]

theorem Settled.writeKeyPrev (h : Settled cfg past d st) (o : Outcome) :
    Settled cfg past (d.writeKeyPrev o st.current.keyPEM) st := by
  unfold Disk.writeKeyPrev
  split
  · refine ⟨h.provisional, (onDisk_congr rfl rfl).trans h.placed, h.stable, h.good, ?_, h.pending,
      h.running⟩
    intro pf hdir hpf hfp
    exact ⟨(h.harmless pf hdir hpf hfp).1, rfl⟩
  · exact h

theorem Settled.writeCrtPrev (h : Settled cfg past d st) (o : Outcome) :
    Settled cfg past (d.writeCrtPrev o st.current.certPEM) st := by
  unfold Disk.writeCrtPrev
  split
  · refine ⟨h.provisional, (onDisk_congr rfl rfl).trans h.placed, h.stable, h.good, ?_, h.pending,
      h.running⟩
    intro pf hdir hpf hfp
    exact ⟨rfl, (h.harmless pf hdir hpf hfp).2⟩
  · exact h

theorem Recorded.writeKeyPrev (h : Recorded cfg past d) (o : Outcome) (text : String) :
    Recorded cfg past (d.writeKeyPrev o text) := by
  unfold Disk.writeKeyPrev
  split
  · exact ⟨h.pending, h.crtPrev, h.named, h.rolledBack⟩
  · exact h

theorem Recorded.writeCrtPrev (h : Recorded cfg past d) (o : Outcome) {text : String}
    (hg : Good cfg past text) : Recorded cfg past (d.writeCrtPrev o text) := by
  unfold Disk.writeCrtPrev
  split
  · refine ⟨h.pending, ?_, h.named, h.rolledBack⟩
    rintro c ⟨⟩
    exact hg
  · exact h

theorem inv_accept {pf : PendingFile} (hrec : Recorded cfg past d)
    (hrot : Rotating cfg past st next entry) (hinv : RotateInv cfg past d now st next (.record pf))
    (hnow : now ≤ pf.confirmBy) :
    Inv cfg (acceptRotate cfg ⟨{ d with pending := some pf }, now, some st, past, none⟩ st next
      pf) := by
  obtain ⟨hback, hkey, hcrt, hfp, hby⟩ := hinv
  have hrec' : Recorded cfg { past with last := some ⟨next.certPEM, pf, false⟩ }
      { d with pending := some pf } := by
    refine ⟨?_, hrec.crtPrev, ?_, hrec.rolledBack⟩
    · rintro pf' ⟨⟩
      exact ⟨_, rfl, rfl, rfl⟩
    · rintro r ⟨⟩
      exact ⟨_, (load_ok hrot.next.loads.1).1, hfp⟩
  refine .of hrec' (.inr ⟨st.current, ⟨next.certPEM, pf, false⟩, ?_, hrot.next,
    onDisk_of_files hrot.next hrot.dir hcrt hkey, hnow, .inr ?_⟩)
  · refine ⟨?_, hrot.dir, rfl, rfl, rfl, rfl, .inr rfl, rfl, hrot.good, hrot.stable, hback⟩
    intro c hc
    rw [hcrt, Option.some.injEq] at hc
    exact .inr (.inl ⟨_, rfl, hc.symm, rfl⟩)
  · exact ⟨st.armed, now + cfg.window, by simp [armLocked, hrot.running], rfl, hrot.waiting, hby⟩

theorem inv_rotateOp {stage : RotateStage}
    (hrec : Recorded cfg past d) (hrot : Rotating cfg past st next entry)
    (hinv : RotateInv cfg past d now st next stage) (hjob : st.job = .rotate next entry stage)
    (ho : Written ⟨d, now, some st, past, none⟩ st o) :
    Inv cfg (rotateOp cfg ⟨d, now, some st, past, none⟩ st next entry o stage) := by
  have hgo (job : Job) : Rotating cfg past { st with job := job } next entry :=
    ⟨hrot.dir, hrot.next, hrot.entry, hrot.stable, hrot.good, hrot.pending, hrot.running,
      hrot.waiting⟩
  have hrefuse {d : Disk} (hrec : Recorded cfg past d) (h : Settled cfg past d st) :
      Inv cfg (refuseRotate ⟨d, now, some st, past, none⟩ st entry) := by
    refine inv_refused hrec (.inl (h.withJob _)) fun t => ?_
    rw [h.openServes, hrot.entry]
  simp only [Written, hjob] at ho
  cases stage with
  | keyPrev =>
    have hset := Settled.writeKeyPrev hinv o
    have hrec' := hrec.writeKeyPrev o st.current.keyPEM
    simp only [rotateOp]
    split
    · rename_i hdone
      subst hdone
      exact .of hrec' ⟨hgo _, hset.withJob _, rfl⟩
    · exact hrefuse hrec' hset
  | crtPrev =>
    have hset := hinv.1.writeCrtPrev o
    have hrec' := hrec.writeCrtPrev o hrot.good
    simp only [rotateOp]
    split
    · rename_i hdone
      subst hdone
      exact .of hrec' ⟨hgo _, hset.withJob _, rfl, hinv.2⟩
    · exact hrefuse hrec' hset
  | key =>
    obtain ⟨hset, hback⟩ := hinv
    simp only [rotateOp]
    split
    · rename_i hdone
      subst hdone
      exact .of ⟨hrec.pending, hrec.crtPrev, hrec.named, hrec.rolledBack⟩
        ⟨hgo _, ⟨d.key, hset.provisional⟩, hback, rfl⟩
    · have hfailed : o = .failed := by cases o <;> simp_all
      subst hfailed
      exact hrefuse hrec hset
  | crt =>
    subst ho
    obtain ⟨hprov, hback, hkey⟩ := hinv
    refine .of ⟨hrec.pending, hrec.crtPrev, hrec.named, hrec.rolledBack⟩
      ⟨hgo _, hback, hkey, rfl, rfl, ?_⟩
    exact Nat.div_mul_le_self _ _
  | record pf =>
    obtain ⟨rfl, hnow⟩ := ho
    exact inv_accept hrec hrot hinv hnow

/-! ## Confirm -/

theorem Good.mono {past past' : Answered} (h : Good cfg past c)
    (hm : ∀ c ∈ past.confirmed, c ∈ past'.confirmed) : Good cfg past' c := by
  rcases h with h | h
  · exact .inl h
  · exact .inr (hm c h)

theorem inv_endConfirm (hrec : Recorded cfg past d) (h : Confirming cfg past d st r) :
    Inv cfg (endConfirm ⟨{ d with pending := none }, now, some st, past, none⟩ st) := by
  have hlast := h.last
  obtain ⟨last, confirmed, rolledBack⟩ := past
  dsimp only at hlast
  subst hlast
  have hgood {c : String} (hc : Good cfg ⟨some r, confirmed, rolledBack⟩ c ∨ c = r.certPEM) :
      Good cfg ⟨some { r with confirmed := true }, [r.certPEM] ++ confirmed, rolledBack⟩ c := by
    rcases hc with hc | rfl
    · exact hc.mono fun c hc => by simp [hc]
    · exact .inr (by simp)
  refine .of ⟨by simp, fun c hc => hgood (.inl (hrec.crtPrev c hc)), ?_, hrec.rolledBack⟩
    (.inl ⟨?_, (onDisk_congr rfl rfl).trans h.placed, h.stable, hgood h.current, ?_, h.pending,
      h.running⟩)
  · rintro r' ⟨⟩
    exact hrec.named r rfl
  · intro c hc
    rcases h.provisional c hc with hg | ⟨r', hr', hc', -⟩ | ⟨-, hnone⟩
    · exact .inl (hgood (.inl hg))
    · cases hr'
      exact .inl (hgood (.inr hc'))
    · exact .inr (.inr ⟨rfl, hnone⟩)
  · rintro pf _ ⟨⟩

theorem inv_confirm (hrec : Recorded cfg past d) (hjob : JobInv cfg past d now st)
    (hidle : st.job = .idle) (fp : String) :
    Inv cfg (confirm cfg ⟨d, now, some st, past, none⟩ st fp) := by
  unfold confirm
  split
  · exact .of hrec hjob
  rename_i pf hpend
  split
  · exact .of hrec hjob
  simp only [JobInv, hidle] at hjob
  rcases hjob with hset | ⟨prev, r, hw, hstable, hplaced, -, harm⟩
  · rw [hset.pending] at hpend
    cases hpend
  · simp only [hw.dir, if_true]
    refine .of hrec ⟨r, hw.provisional, hw.last, hplaced, hstable, hw.current, rfl, ?_⟩
    rcases harm with ⟨hrun, -⟩ | ⟨id, due, hrun, htimer, -⟩ <;> simp [*]

/-! ## Rollbacks -/

theorem Waits.withStore {st' : Store} (h : Waits cfg past d st prev r)
    (hc : st'.current = st.current) (hb : st'.prev = st.prev) (hp : st'.pending = st.pending) :
    Waits cfg past d st' prev r :=
  ⟨h.provisional, h.dir, h.last, h.unconfirmed, h.record, hp ▸ h.pending, hc ▸ h.current,
    hb ▸ h.back, h.good, h.stable, h.backedUp⟩

theorem inv_callback (hrec : Recorded cfg past d) (hjob : JobInv cfg past d now st)
    (hidle : st.job = .idle) : Inv cfg (callback cfg ⟨d, now, some st, past, none⟩ st) := by
  unfold callback
  dsimp only
  split
  · exact .of hrec hjob
  rename_i hwait
  simp only [JobInv, hidle] at hjob
  rcases hjob with hset | ⟨prev, r, hw, -, -, -, harm⟩
  · simp only [hset.pending, Option.isSome_none, Bool.false_eq_true, if_false]
    refine .of hrec ?_
    simp only [JobInv, hidle]
    exact .inl ⟨hset.provisional, hset.placed, hset.stable, hset.good, hset.harmless, rfl,
      hset.running⟩
  · simp only [hw.pending, Option.isSome_some, if_true, rollbackLocked, hw.back, hw.dir]
    rcases harm with ⟨hrun, -, hby⟩ | ⟨-, -, -, -, hzero, -⟩
    · exact .of hrec ⟨prev, r, hw.withStore rfl hw.back.symm hw.pending.symm, hrun, hby, trivial⟩
    · exact absurd hzero hwait

theorem Recorded.frame (h : Recorded cfg past d) (hp : d'.pending = d.pending)
    (hc : d'.crtPrev = d.crtPrev) : Recorded cfg past d' :=
  ⟨hp ▸ h.pending, hc ▸ h.crtPrev, h.named, h.rolledBack⟩

/-- The record of a rotation that is not confirmed says so. -/
theorem wasConfirmed_eq_false (hl : past.last = some r) (hu : r.confirmed = false)
    (pf : PendingFile) : past.wasConfirmed pf = false := by
  simp [Answered.wasConfirmed, hl, hu]

/-- The previous pair is in force again; its record may have stayed. -/
theorem inv_endRollback (hrec : Recorded cfg past d) (hw : Waits cfg past d st prev r)
    (hrun : st.running = []) (hby : r.file.confirmBy ≤ now) (hkey : d.key = some prev.keyPEM)
    (hcrt : d.crt = some prev.certPEM) (o : Outcome) :
    Inv cfg (endRollback ⟨d.removePending o, now, some st, past, none⟩ st prev r.file) := by
  have hsub : ∀ pf, (d.removePending o).pending = some pf → d.pending = some pf := by
    intro pf hpf
    unfold Disk.removePending at hpf
    split at hpf
    · cases hpf
    · exact hpf
  have hfiles : (d.removePending o).crt = d.crt ∧ (d.removePending o).key = d.key ∧
      (d.removePending o).crtPrev = d.crtPrev ∧ (d.removePending o).keyPrev = d.keyPrev := by
    unfold Disk.removePending
    split <;> exact ⟨rfl, rfl, rfl, rfl⟩
  obtain ⟨hc, hk, hcp, hkp⟩ := hfiles
  refine .of ⟨fun pf hpf => hrec.pending pf (hsub pf hpf), hcp ▸ hrec.crtPrev, hrec.named, ?_⟩
    (.inl ⟨?_, ?_, hw.stable, hw.good, ?_, rfl, hrun⟩)
  · intro b hb
    rcases List.mem_cons.mp hb with rfl | hb
    · exact ⟨wasConfirmed_eq_false hw.last hw.unconfirmed _, hby⟩
    · exact hrec.rolledBack b hb
  · intro c hc'
    rw [hc, hcrt, Option.some.injEq] at hc'
    exact .inl (hc' ▸ hw.good)
  · exact onDisk_of_files hw.stable hw.dir (hc.trans hcrt) (hk.trans hkey)
  · intro pf _ _ _
    exact ⟨hcp ▸ hw.backedUp.1, hkp ▸ hw.backedUp.2⟩

theorem inv_rollbackOp {stage : RollbackStage} (hrec : Recorded cfg past d)
    (hw : Waits cfg past d st prev r) (hrun : st.running = []) (hby : r.file.confirmBy ≤ now)
    (hinv : RollbackInv d prev stage) (hjob : st.job = .rollback stage)
    (ho : Written ⟨d, now, some st, past, none⟩ st o) :
    Inv cfg (rollbackOp ⟨d, now, some st, past, none⟩ st prev r.file o stage) := by
  simp only [Written, hjob] at ho
  cases stage with
  | key =>
    subst ho
    refine .of (hrec.frame rfl rfl) ⟨prev, r, ⟨?_, hw.dir, hw.last, hw.unconfirmed,
      hw.record, hw.pending, hw.current, hw.back, hw.good, hw.stable, hw.backedUp⟩, hrun, hby, rfl⟩
    intro c hc
    rcases hw.provisional c hc with hg | hr | ⟨hnone, -⟩
    · exact .inl hg
    · exact .inr (.inl hr)
    · rw [hw.record] at hnone
      cases hnone
  | crt =>
    subst ho
    refine .of (hrec.frame rfl rfl) ⟨prev, r, ⟨?_, hw.dir, hw.last, hw.unconfirmed,
      hw.record, hw.pending, hw.current, hw.back, hw.good, hw.stable, hw.backedUp⟩, hrun, hby,
      hinv, rfl⟩
    rintro c ⟨⟩
    exact .inl hw.good
  | remove => exact inv_endRollback hrec hw hrun hby hinv.1 hinv.2 o

/-! ## Steps and runs -/

theorem inv_forget (hrec : Recorded cfg past d) (hdir : cfg.hasDir = true)
    (hset : Settled cfg past d st) (o : Outcome) :
    Inv cfg ⟨d.removePending o, now, some { st with job := .idle }, past, none⟩ := by
  unfold Disk.removePending
  split
  · refine .of ⟨by simp, hrec.crtPrev, hrec.named, hrec.rolledBack⟩ (.inl ⟨?_,
      (onDisk_congr rfl rfl).trans hset.placed, hset.stable, hset.good, by simp [Harmless],
      hset.pending, hset.running⟩)
    intro c hc
    cases hl : loadFiles cfg d.crt d.key with
    | none => exact .inr (.inr ⟨rfl, rfl⟩)
    | some p =>
      -- what loads is in force, and that is not provisional
      have hp : st.current = p := by simp [← hset.placed, onDisk, hdir, hl]
      have hcp := (loadFiles_some hl).1
      dsimp only at hc
      rw [hc, Option.some.injEq] at hcp
      exact .inl (by rw [hcp, ← hp]; exact hset.good)
  · exact .of hrec (.inl (hset.withJob _))

theorem inv_fileOp (hrec : Recorded cfg past d) (hjob : JobInv cfg past d now st)
    (ho : Written ⟨d, now, some st, past, none⟩ st o) :
    Inv cfg (fileOp cfg ⟨d, now, some st, past, none⟩ st o) := by
  have hsame := Inv.of hrec hjob
  unfold fileOp
  unfold JobInv at hjob
  split
  · exact hsame
  · rename_i next entry stage hj
    simp only [hj] at hjob
    exact inv_rotateOp hrec hjob.1 hjob.2 hj ho
  · rename_i hj
    simp only [hj] at hjob
    simp only [Written, hj] at ho
    obtain ⟨r, hc⟩ := hjob
    have hrm : d.removePending o = { d with pending := none } := by
      cases o <;> simp_all [Disk.removePending, Outcome.lands]
    simp only [ho, false_and, if_false, hrm]
    exact inv_endConfirm hrec hc
  · rename_i stage hj
    simp only [hj] at hjob
    obtain ⟨prev, r, hw, hrun, hby, hinv⟩ := hjob
    simp only [hw.back, hw.pending]
    exact inv_rollbackOp hrec hw hrun hby hinv hj ho
  · rename_i hj
    simp only [hj] at hjob
    exact inv_forget hrec hjob.1 hjob.2 o

/-- Whatever a crash interrupts, a provisional certificate on disk has its record. -/
theorem provisional_of_crash (hjob : JobInv cfg past d now st)
    (ho : Crashable cfg ⟨d, now, some st, past, none⟩ st) : Provisional cfg past d := by
  unfold JobInv at hjob
  unfold Crashable at ho
  split at hjob
  · rcases hjob with hset | ⟨prev, r, hw, -⟩
    · exact hset.provisional
    · exact hw.provisional
  · rename_i next entry stage hj
    obtain ⟨hrot, hinv⟩ := hjob
    cases stage with
    | keyPrev => exact Settled.provisional hinv
    | crtPrev => exact hinv.1.provisional
    | key => exact hinv.1.provisional
    | crt =>
      simp only [hj] at ho
      obtain ⟨⟨k, hprov⟩, -⟩ := hinv
      intro c hc
      rcases hprov c hc with hg | hr | ⟨hnone, -⟩
      · exact .inl hg
      · exact .inr (.inl hr)
      · by_cases hcur : d.crt = some st.current.certPEM
        · rw [hc, Option.some.injEq] at hcur
          exact .inl (hcur ▸ hrot.good)
        · exact .inr (.inr ⟨hnone, ho hnone hcur⟩)
    | record pf => simp [hj] at ho
  · exact hjob.choose_spec.provisional
  · obtain ⟨prev, r, hw, -⟩ := hjob
    exact hw.provisional
  · exact hjob.2.provisional

theorem inv_advance (hrec : Recorded cfg past d) (hjob : JobInv cfg past d now st) {δ : Nat}
    (ho : InTime ⟨d, now, some st, past, none⟩ st δ) :
    Inv cfg ⟨d, now + δ, some st, past, none⟩ := by
  refine .of hrec ?_
  unfold JobInv at hjob ⊢
  unfold InTime at ho
  split at hjob
  · rename_i hj
    rcases hjob with hset | ⟨prev, r, hw, hstable, hplaced, hnow, harm⟩
    · exact .inl hset
    · simp only [hj, hw.pending] at ho
      obtain ⟨hwait, hdue⟩ := ho
      rcases harm with ⟨-, hw', -⟩ | ⟨id, due, hrun, htimer, -, hby⟩
      · exact absurd hwait hw'
      · have := hdue (id, due) (by simp [hrun])
        refine .inr ⟨prev, r, hw, hstable, hplaced, by omega, .inr ⟨id, due, hrun, htimer, hwait,
          hby⟩⟩
  · rename_i next entry stage hj
    obtain ⟨hrot, hinv⟩ := hjob
    refine ⟨hrot, ?_⟩
    cases stage with
    | record pf =>
      obtain ⟨hback, hkey, hcrt, hfp, hby⟩ := hinv
      exact ⟨hback, hkey, hcrt, hfp, by omega⟩
    | _ => exact hinv
  · exact hjob
  · obtain ⟨prev, r, hw, hrun, hby, hinv⟩ := hjob
    exact ⟨prev, r, hw, hrun, by omega, hinv⟩
  · exact hjob

/-- Only a rotation that waits has a timer to fire. -/
theorem inv_fire (hrec : Recorded cfg past d) (hjob : JobInv cfg past d now st) (id : Nat) :
    Inv cfg (fire ⟨d, now, some st, past, none⟩ st id) := by
  unfold fire
  split
  swap
  · exact .of hrec hjob
  rename_i hany
  simp only [List.any_eq_true, Bool.and_eq_true, decide_eq_true_eq] at hany
  obtain ⟨t, ht, hid, hdue⟩ := hany
  have hsome : st.running ≠ [] := List.ne_nil_of_mem ht
  unfold JobInv at hjob
  split at hjob
  · rename_i hj
    rcases hjob with hset | ⟨prev, r, hw, hstable, hplaced, hnow, harm⟩
    · exact absurd hset.running hsome
    · rcases harm with ⟨hnil, -⟩ | ⟨id', due, hrun, -, -, hby⟩
      · exact absurd hnil hsome
      · rw [hrun, List.mem_singleton] at ht
        subst ht
        refine .of hrec ?_
        simp only [JobInv, hj]
        refine .inr ⟨prev, r, hw.withStore rfl rfl rfl, hstable, hplaced, hnow, .inl ⟨?_, ?_, ?_⟩⟩
        · simpa [hrun] using hid
        · exact Nat.succ_ne_zero _
        · exact Nat.le_trans hby hdue
  · exact absurd hjob.1.running hsome
  · exact absurd hjob.choose_spec.running hsome
  · obtain ⟨-, -, -, hnil, -⟩ := hjob
    exact absurd hnil hsome
  · exact absurd hjob.2.running hsome

theorem inv_storeStep (hrec : Recorded cfg past d) (hjob : JobInv cfg past d now st)
    (ho : Orderly cfg ⟨d, now, some st, past, none⟩ e) :
    Inv cfg (storeStep cfg ⟨d, now, some st, past, none⟩ st e) := by
  have hsame := Inv.of hrec hjob
  cases e with
  | start => exact hsame
  | crash => exact ⟨hrec, fun _ => provisional_of_crash hjob ho, by simp [storeStep],
      by simp [storeStep]⟩
  | advance δ => exact inv_advance hrec hjob ho
  | fire id => exact inv_fire hrec hjob id
  | file o => exact inv_fileOp hrec hjob ho
  | callback =>
    simp only [storeStep]
    split
    · exact inv_callback hrec hjob ‹_›
    · exact hsame
  | rotate c k =>
    simp only [storeStep]
    split
    · exact inv_rotate hrec hjob ‹_› (ho ‹_›)
    · exact hsame
  | confirm fp =>
    simp only [storeStep]
    split
    · exact inv_confirm hrec hjob ‹_› fp
    · exact hsame

variable {s : State}

theorem orderly_refused (ho : Orderly cfg s e) : Orderly cfg { s with refused := none } e := by
  obtain ⟨d, now, store, past, refused⟩ := s
  cases store <;> cases e <;> exact ho

/-- **An orderly step keeps the invariant.** -/
theorem inv_step (h : Inv cfg s) (ho : Orderly cfg s e) : Inv cfg (step cfg s e) := by
  obtain ⟨d, now, store, past, refused⟩ := s
  replace ho := orderly_refused ho
  cases store with
  | some st => exact inv_storeStep h.recorded (h.up st rfl) ho
  | none =>
    have hsame (now : Nat) : Inv cfg ⟨d, now, none, past, none⟩ :=
      ⟨h.recorded, fun _ => h.down rfl, by simp, by simp⟩
    cases e with
    | start => exact inv_start h.recorded (h.down rfl) ho
    | advance δ => exact hsame _
    | _ => exact hsame now

theorem inv_fresh (now : Nat) : Inv cfg (freshNode now) := by
  refine ⟨⟨?_, ?_, ?_, ?_⟩, ?_, ?_, ?_⟩ <;> simp [freshNode, Provisional]

theorem served_eq (h : s.served = some p) :
    ∃ st, s.store = some st ∧ st.job = .idle ∧ st.current = p := by
  unfold State.served at h
  split at h
  · rename_i st hst
    split at h
    · rename_i hj
      cases h
      exact ⟨st, hst, hj, rfl⟩
    · cases h
  · cases h

theorem Inv.kept (h : Inv cfg s) : Kept cfg s := by
  refine ⟨?_, h.refused, ?_, h.recorded.rolledBack, ?_⟩
  · intro p hp
    obtain ⟨st, hst, hj, rfl⟩ := served_eq hp
    have hjob := h.up st hst
    simp only [JobInv, hj] at hjob
    rcases hjob with hset | ⟨-, -, -, hstable, -⟩
    · exact hset.stable.loads
    · exact hstable.loads
  · intro p hp
    obtain ⟨st, hst, hj, rfl⟩ := served_eq hp
    have hjob := h.up st hst
    simp only [JobInv, hj] at hjob
    rcases hjob with hset | ⟨prev, r, hw, -, -, hnow, -⟩
    · exact hset.good.imp_right .inl
    · rcases hw.current with hg | hc
      · exact hg.imp_right .inl
      · exact .inr (.inr ⟨r, hw.last, hc.symm, hnow⟩)
  · intro st hst hj hpend t
    have hjob := h.up st hst
    simp only [JobInv, hj] at hjob
    rcases hjob with hset | ⟨prev, r, hw, -⟩
    · exact hset.openServes t
    · rw [hw.pending] at hpend
      cases hpend

end Steps

/-- **No unconfirmed certificate stays.** -/
theorem rotations_kept (cfg : Config) {s₀ s : State} {steps : List (State × Event × State)}
    (h₀ : (certStore cfg).start s₀) (hrun : (certStore cfg).Run s₀ steps s)
    (h : ∀ st ∈ steps, Orderly cfg st.1 st.2.1) : Kept cfg s := by
  obtain ⟨now, rfl⟩ := h₀
  refine (hrun.keeps (P := Inv cfg) ?_ (inv_fresh now)).kept
  intro st hst hinv
  rw [hrun.step_of_mem st hst]
  exact inv_step hinv (h st hst)

/-! ## Two runs -/

/-- A CA whose certificates are letters and whose keys are the letter of their certificate. -/
def letterLibs : Libs where
  parseCertificate c := if c = "" then none else some ⟨c, 0, ["node"], []⟩
  keyMatches c k := decide (c = k)
  verify _ _ := true
  sha256 raw := raw
  ipString _ := ""

def letterNode : Config where
  libs := letterLibs
  payload := ⟨"A", "A", ⟨"A", 0, ["node"], []⟩⟩
  hasDir := true
  window := 600 * second
  payloadLoads := by decide

/-- A rotation that nobody confirms, one that is confirmed, and a restart. -/
def twoRotations : List Event :=
  [.start, .rotate "B" "B"] ++ List.replicate 5 (.file .done) ++
  [.advance (600 * second), .fire 0, .callback] ++ List.replicate 3 (.file .done) ++
  [.rotate "C" "C"] ++ List.replicate 5 (.file .done) ++
  [.confirm "C", .file .done, .crash, .start]

theorem rotations_kept_twoRotations :
    Kept letterNode (twoRotations.foldl (step letterNode) (freshNode 0)) :=
  rotations_kept letterNode ⟨0, rfl⟩ (Machine.run_trace _ _ _ twoRotations) (by decide)

/-- A Rotate whose `pending.json` is not written. -/
def unrecordedRotation : List Event :=
  [.start, .rotate "B" "B"] ++ List.replicate 4 (.file .done) ++ [.file .failed]

/-- **A Rotate that answers an error leaves the new pair for the next start.** -/
theorem refused_rotation_stays : ∃ s₀ steps s, (certStore letterNode).start s₀ ∧
    (certStore letterNode).Run s₀ steps s ∧
    ¬ ∀ p d, s.refused = some (p, d) →
      s.served = some p ∧ ∀ t, openServes letterNode s.disk t = openServes letterNode d t := by
  refine ⟨_, _, _, ⟨0, rfl⟩, Machine.run_trace _ _ _ unrecordedRotation, fun h => ?_⟩
  obtain ⟨-, hserves⟩ := h ⟨"A", "A", ⟨"A", 0, ["node"], []⟩⟩ ⟨none, none, none, none, none⟩
    (by decide)
  exact absurd (hserves 0) (by decide)

end Iceslab.Agent.CertStore
