import Iceslab.Lib.Async
import Iceslab.Lib.Expiring
import Iceslab.Totp

/-!
# Sign-in, second factor and sessions

`auth.service.ts`, `twofa.service.ts`, `revoked-tokens.ts`, the routes of `auth.routes.ts` and the
admin row of `admin.service.ts`, each function a program that awaits where the source does.  The
requests of one admin run together: a turn makes the one database, Redis, bcrypt or clock call a
request waits for, and any of them may fail.

* `loginRoute`, `logout`, `sessionCheck`, `changePassword`, `setupTotp`, `enableTotp`,
  `disableTotp` — the requests.
* `AuthState.exec` — what a call does to the row, to Redis and to the sessions signed.
-/

set_option autoImplicit false

namespace Iceslab.Auth

/-! ## What is stored -/

/-- The row of the admin.  `passwords` counts the passwords it has had; it is not part of the
program. -/
structure AdminRow where
  username : String
  passwordHash : String
  totpSecret : Option String
  totpEnabled : Bool
  totpLastUsedStep : Option Nat
  deleted : Bool
  passwords : Nat
deriving DecidableEq, Repr

/-- The fields an update gives. -/
structure AdminUpdate where
  passwordHash : Option String := none
  totpSecret : Option (Option String) := none
  totpEnabled : Option Bool := none
  totpLastUsedStep : Option Nat := none
deriving DecidableEq, Repr

def AdminUpdate.apply (data : AdminUpdate) (row : AdminRow) : AdminRow where
  username := row.username
  passwordHash := data.passwordHash.getD row.passwordHash
  totpSecret := data.totpSecret.getD row.totpSecret
  totpEnabled := data.totpEnabled.getD row.totpEnabled
  totpLastUsedStep := data.totpLastUsedStep.or row.totpLastUsedStep
  deleted := row.deleted
  passwords := row.passwords + if data.passwordHash.isSome then 1 else 0

/-- A session token.  `passwords` says which password its sign-in was verified against; the program
does not keep it. -/
structure Token where
  jti : String
  iatMs : Nat
  passwords : Nat
deriving DecidableEq, Repr

def Token.iat (t : Token) : Nat := t.iatMs / 1000

def Token.exp (expiresIn : Nat) (t : Token) : Nat := t.iat + expiresIn

structure AuthConfig where
  loginLockoutFailures : Nat
  loginLockoutDurationMin : Nat
  loginLockoutWindowMin : Nat
  /-- `JWT_EXPIRES_IN` in seconds -/
  jwtExpiresIn : Nat

/-- bcrypt and the HMAC of the platform. -/
structure Crypto where
  hmacSha1 : Totp.Hmac
  compare : String → String → Bool
  hash : String → String → String
  lower : String → String

/-! ## Calls -/

/-- A code that was taken: of which secret, and for which step. -/
structure Spent where
  secret : String
  step : Nat
deriving DecidableEq, Repr

/-- What a write of the row follows from; not part of the program. -/
inductive Why
  | setup
  | code (spent : Spent)
  /-- a password change whose mark is `mark` -/
  | change (mark : Nat) (newPassword : String)
deriving DecidableEq, Repr

inductive Outage
  | outage
deriving DecidableEq, Repr

/-- The answer of a call that may fail. -/
abbrev Answer := Except Outage

inductive AuthOp : Type → Type
  | dateNow : AuthOp Nat
  | get (key : String) : AuthOp (Answer (Option Nat))
  | ttl (key : String) : AuthOp (Answer Int)
  | incr (key : String) : AuthOp (Answer Nat)
  | expire (key : String) (seconds : Nat) : AuthOp (Answer Unit)
  | del (key : String) : AuthOp (Answer Unit)
  | setEx (key : String) (value seconds : Nat) : AuthOp (Answer Unit)
  | mget (key key' : String) : AuthOp (Answer (Option Nat × Option Nat))
  | findAdminByUsername (username : String) : AuthOp (Answer (Option AdminRow))
  | findAdmin : AuthOp (Answer (Option AdminRow))
  | compare (plaintext hash : String) : AuthOp (Answer Bool)
  | hash (plaintext : String) : AuthOp (Answer String)
  | generateSecret : AuthOp String
  | updateAdmin (data : AdminUpdate) (why : Why) : AuthOp (Answer Unit)
  | jwtSign (passwords : Nat) : AuthOp (Answer Token)
  | jwtVerify (token : Token) : AuthOp Bool

inductive AuthError
  | accountLocked (retryAfterSeconds : Int)
  | invalidCredentials (locked : Bool)
  | totpRequired
  | invalidTotp (locked : Bool)
  | invalidCurrentPassword (locked : Bool)
  | passwordUnchanged
  | totpNotSetup
  | totpAlreadyEnabled
  | totpBadCode
  | unauthorized (message : String)
  | rangeError
  | unavailable
deriving DecidableEq, Repr

abbrev Request := ExceptT AuthError (Async AuthOp)

/-- A call whose failure ends the request. -/
def call {α : Type} (op : AuthOp (Answer α)) : Request α := do
  match ← liftM (Async.await op) with
  | .ok a => pure a
  | .error _ => throw .unavailable

def ask {α : Type} (op : AuthOp α) : Request α := liftM (Async.await op)

/-! ## Failed attempts -/

section Requests

variable (cfg : AuthConfig) (crypto : Crypto)

/-- `FAIL_KEY` of `auth.service.ts` -/
def failKey (clientIp username : String) : String :=
  "auth:fail:" ++ (if clientIp = "" then "unknown" else clientIp) ++ ":" ++ crypto.lower username

/-- `FAIL_KEY` of `twofa.service.ts` -/
def twofaFailKey (adminId : String) : String := "auth:2fa-fail:" ++ adminId

def revokedKey (jti : String) : String := "auth:revoked:" ++ jti

def endedKey (adminId : String) : String := "auth:sessions-ended:" ++ adminId

def checkLocked (key : String) : Request Unit := do
  match ← call (.get key) with
  | none => pure ()
  | some count =>
    if count ≥ cfg.loginLockoutFailures then do
      let ttl ← call (.ttl key)
      throw (.accountLocked (if ttl > 0 then ttl else 60))
    else pure ()

/-- Count a failure; true when this one locked. -/
def recordFailure (key : String) : Request Bool := do
  let newCount ← call (.incr key)
  let _ ← (if newCount = 1 then call (.expire key (cfg.loginLockoutWindowMin * 60)) else pure ())
  let _ ← (if newCount ≥ cfg.loginLockoutFailures then
    call (.expire key (cfg.loginLockoutDurationMin * 60)) else pure ())
  pure (decide (newCount = cfg.loginLockoutFailures))

def clearFailures (key : String) : Request Unit := call (.del key)

/-! ## Sign-in -/

structure LoginInput where
  username : String
  password : String
  totpCode : Option String

structure ChangePasswordInput where
  currentPassword : String
  newPassword : String
  totpCode : Option String

def dummyHash : String := "$2b$12$C6UzMDM.H6dfI/f/IKcEeO3jKxHnL9Q8vLpJ9wq0r0aYzX1tVbW3K"

def recordTotpStep (spent : Spent) : Request Unit :=
  call (.updateAdmin { totpLastUsedStep := some spent.step } (.code spent))

/-- `verifyTotpStep` at the present time. -/
def verifyNow (secret code : String) : Request (Option Nat) := do
  let now ← ask .dateNow
  match Totp.verifyTotpStep crypto.hmacSha1 secret code (now / 1000) with
  | .ok step => pure step
  | .error _ => throw .rangeError

/-- The step is past the last one taken. -/
def Past (last : Option Nat) (step : Nat) : Prop := ∀ l ∈ last, l < step

instance (last : Option Nat) (step : Nat) : Decidable (Past last step) := by
  unfold Past
  infer_instance

/-- The second factor, as a sign-in and a password change ask for it. -/
def secondFactor (key : String) (admin : AdminRow) (totpCode : Option String) : Request Unit :=
  match admin.totpEnabled, admin.totpSecret.filter (· ≠ "") with
  | true, some secret =>
    match totpCode.filter (· ≠ "") with
    | none => throw .totpRequired
    | some code => do
      match ← verifyNow crypto secret code with
      | none => throw (.invalidTotp (← recordFailure cfg key))
      | some step =>
        if Past admin.totpLastUsedStep step then recordTotpStep ⟨secret, step⟩
        else throw (.invalidTotp (← recordFailure cfg key))
  | _, _ => pure ()

def login (input : LoginInput) (clientIp : String) : Request AdminRow := do
  let key := failKey crypto clientIp input.username
  checkLocked cfg key
  match ← call (.findAdminByUsername input.username) with
  | none =>
    let _ ← call (.compare input.password dummyHash)
    throw (.invalidCredentials (← recordFailure cfg key))
  | some admin =>
    let ok ← call (.compare input.password admin.passwordHash)
    if ok then do
      secondFactor cfg crypto key admin input.totpCode
      clearFailures key
      pure admin
    else throw (.invalidCredentials (← recordFailure cfg key))

def checkPasswordChange (admin : AdminRow) (input : ChangePasswordInput) (clientIp : String) :
    Request Unit := do
  let key := failKey crypto clientIp admin.username
  checkLocked cfg key
  let ok ← call (.compare input.currentPassword admin.passwordHash)
  if ok then do
    secondFactor cfg crypto key admin input.totpCode
    if input.newPassword = input.currentPassword then throw .passwordUnchanged
    else clearFailures key
  else throw (.invalidCurrentPassword (← recordFailure cfg key))

/-! ## Second factor -/

/-- What a setup writes. -/
def setupData (secret : String) : AdminUpdate :=
  { totpSecret := some (some secret), totpEnabled := some false }

def enableData (step : Nat) : AdminUpdate :=
  { totpEnabled := some true, totpLastUsedStep := some step }

def disableData (step : Nat) : AdminUpdate :=
  { totpSecret := some none, totpEnabled := some false, totpLastUsedStep := some step }

def setupTotp : Request String := do
  match ← call .findAdmin with
  | none => throw .totpNotSetup
  | some admin =>
    if admin.totpEnabled then throw .totpAlreadyEnabled
    else do
      let secret ← ask .generateSecret
      call (.updateAdmin (setupData secret) .setup)
      pure secret

/-- The accepted step of a code, or a counted failure. -/
def spendCode (adminId : String) (secret : String) (last : Option Nat) (code : String) :
    Request Spent := do
  checkLocked cfg (twofaFailKey adminId)
  match ← verifyNow crypto secret code with
  | none => do
    let _ ← recordFailure cfg (twofaFailKey adminId)
    throw .totpBadCode
  | some step =>
    if Past last step then do
      call (.del (twofaFailKey adminId))
      pure ⟨secret, step⟩
    else do
      let _ ← recordFailure cfg (twofaFailKey adminId)
      throw .totpBadCode

def enableTotp (adminId code : String) : Request Unit := do
  match ← call .findAdmin with
  | none => throw .totpNotSetup
  | some admin =>
    match admin.totpSecret.filter (· ≠ "") with
    | none => throw .totpNotSetup
    | some secret =>
      if admin.totpEnabled then throw .totpAlreadyEnabled
      else do
        let spent ← spendCode cfg crypto adminId secret admin.totpLastUsedStep code
        call (.updateAdmin (enableData spent.step) (.code spent))

def disableTotp (adminId code : String) : Request Unit := do
  match ← call .findAdmin with
  | none => throw .totpNotSetup
  | some admin =>
    match admin.totpEnabled, admin.totpSecret.filter (· ≠ "") with
    | true, some secret => do
      let spent ← spendCode cfg crypto adminId secret admin.totpLastUsedStep code
      call (.updateAdmin (disableData spent.step) (.code spent))
    | _, _ => throw .totpNotSetup

/-! ## Sessions -/

inductive SessionState
  | live
  | signedOut
  | ended
deriving DecidableEq, Repr

/-- What the two keys of a session say of it. -/
def stateOf (revoked endedAt : Option Nat) (issuedMs : Nat) : SessionState :=
  if revoked.isSome then .signedOut
  else if endedAt.any fun at' => decide (issuedMs ≤ at') then .ended
  else .live

def sessionState (adminId : String) (t : Token) : Request SessionState := do
  let (revoked, endedAt) ← call (.mget (revokedKey t.jti) (endedKey adminId))
  pure (stateOf revoked endedAt t.iatMs)

/-- Remember the token as signed out until it would have expired anyway. -/
def revokeToken (t : Token) : Request Unit := do
  let now ← ask .dateNow
  if t.exp cfg.jwtExpiresIn ≤ now / 1000 then pure ()
  else call (.setEx (revokedKey t.jti) 1 (t.exp cfg.jwtExpiresIn - now / 1000))

def endSessionsBefore (adminId : String) (atMs ttlSeconds : Nat) : Request Unit :=
  call (.setEx (endedKey adminId) atMs (max 1 ttlSeconds))

/-- `requireAuth` of a request that carries a session's token. -/
def requireAuth (adminId : String) (session : Token) : Request Unit := do
  if ← ask (.jwtVerify session) then do
    match ← sessionState adminId session with
    | .signedOut => throw (.unauthorized "Signed out")
    | .ended => throw (.unauthorized "Session ended by a password change")
    | .live =>
      match ← call .findAdmin with
      | none => throw (.unauthorized "Admin no longer exists")
      | some _ => pure ()
  else throw (.unauthorized "Missing or invalid token")

def loginRoute (input : LoginInput) (clientIp : String) : Request Token := do
  let admin ← login cfg crypto input clientIp
  call (.jwtSign admin.passwords)

/-- `POST /api/auth/logout`: the tokens it carried that were good. -/
def logout : List Token → Request (List Token)
  | [] => pure []
  | t :: tokens => do
    if ← ask (.jwtVerify t) then do
      revokeToken cfg t
      let revoked ← logout tokens
      pure (t :: revoked)
    else logout tokens

def setAdminPassword (newPassword : String) (mark : Nat) : Request Unit := do
  let passwordHash ← call (.hash newPassword)
  call (.updateAdmin { passwordHash := some passwordHash } (.change mark newPassword))

/-- `PUT /api/auth/password`; what is returned is the mark. -/
def changePassword (adminId : String) (session : Token) (input : ChangePasswordInput)
    (clientIp : String) : Request Nat := do
  requireAuth adminId session
  match ← call .findAdmin with
  | none => throw (.unauthorized "Admin no longer exists")
  | some admin =>
    checkPasswordChange cfg crypto admin input clientIp
    let atMs ← ask .dateNow
    endSessionsBefore adminId atMs (session.exp cfg.jwtExpiresIn - session.iat + 60)
    setAdminPassword input.newPassword atMs
    pure atMs

end Requests

/-! ## The panel -/

/-- `issued` are the tokens signed.  `marks` are the marks password changes have written, and
`changes` the changes that reached the row, each the number of the password it set and its mark;
neither is part of the program. -/
structure AuthState where
  now : Nat
  row : AdminRow
  redis : Expiring String Nat
  issued : List Token
  marks : List Nat
  changes : List (Nat × Nat)

/-- What a call has no say in: whether it fails, whether it took effect all the same, and the
random text it asks for. -/
structure Choice where
  fails : Bool := false
  lands : Bool := false
  fresh : String := ""

/-- The call takes effect. -/
def Choice.applies (c : Choice) : Bool := !c.fails || c.lands

def Choice.answer {α : Type} (c : Choice) (a : α) : Answer α :=
  if c.fails then .error .outage else .ok a

section Host

variable (cfg : AuthConfig) (crypto : Crypto)

/-- Something is written to Redis. -/
def AuthState.write (s : AuthState) (c : Choice) (redis : Expiring String Nat) : AuthState :=
  if c.applies then { s with redis := redis } else s

/-- A key is set; the key of the ended sessions takes a mark. -/
def AuthState.setEx (s : AuthState) (c : Choice) (adminId key : String) (value seconds : Nat) :
    AuthState :=
  if c.applies then
    { s with
      redis := s.redis.set key value (some (s.now + seconds * 1000))
      marks := if key = endedKey adminId then s.marks ++ [value] else s.marks }
  else s

/-- A password change that reaches the row. -/
def AuthState.changed (s : AuthState) (data : AdminUpdate) : Why → List (Nat × Nat)
  | .change mark _ => s.changes ++ [((data.apply s.row).passwords, mark)]
  | _ => s.changes

def AuthState.update (s : AuthState) (c : Choice) (data : AdminUpdate) (why : Why) : AuthState :=
  if c.applies then { s with row := data.apply s.row, changes := s.changed data why } else s

def AuthState.sign (s : AuthState) (c : Choice) (t : Token) : AuthState :=
  if c.applies then { s with issued := s.issued ++ [t] } else s

/-- `findFirst` and `findUnique` of the admin. -/
def AuthState.admin (s : AuthState) : Option AdminRow := if s.row.deleted then none else some s.row

def AuthState.ttl (s : AuthState) (key : String) : Int :=
  match s.redis.find s.now key with
  | none => -2
  | some ⟨_, none⟩ => -1
  | some ⟨_, some goesAt⟩ => ((goesAt - s.now) / 1000 : Nat)

/-- A call made on the state of the admin `adminId`.  A random id is one not given before. -/
def AuthState.exec (adminId : String) {β : Type} (op : AuthOp β) (c : Choice) (s : AuthState) :
    Option (β × AuthState) :=
  match op with
  | .dateNow => some (s.now, s)
  | .get key => some (c.answer (s.redis.get s.now key), s)
  | .ttl key => some (c.answer (s.ttl key), s)
  | .incr key =>
    let redis := s.redis.incr s.now key
    some (c.answer ((redis.get s.now key).getD 0), s.write c redis)
  | .expire key seconds =>
    some (c.answer (), s.write c (s.redis.expire s.now key (s.now + seconds * 1000)))
  | .del key => some (c.answer (), s.write c (s.redis.del key))
  | .setEx key value seconds => some (c.answer (), s.setEx c adminId key value seconds)
  | .mget key key' => some (c.answer (s.redis.get s.now key, s.redis.get s.now key'), s)
  | .findAdminByUsername username =>
    some (c.answer (s.admin.filter fun row => decide (row.username = username)), s)
  | .findAdmin => some (c.answer s.admin, s)
  | .compare plaintext hash => some (c.answer (crypto.compare plaintext hash), s)
  | .hash plaintext => some (c.answer (crypto.hash c.fresh plaintext), s)
  | .generateSecret => some (c.fresh, s)
  | .updateAdmin data why => some (c.answer (), s.update c data why)
  | .jwtSign passwords =>
    if c.fresh ∈ s.issued.map Token.jti then none
    else
      let t : Token := ⟨c.fresh, s.now, passwords⟩
      some (c.answer t, s.sign c t)
  | .jwtVerify t =>
    some (decide (t ∈ s.issued) && decide (s.now < t.exp cfg.jwtExpiresIn * 1000), s)

/-! ### What the parts of a call leave -/

section Left

variable {s : AuthState} {c : Choice}

@[simp] theorem write_row {redis : Expiring String Nat} : (s.write c redis).row = s.row := by
  unfold AuthState.write
  split <;> rfl

@[simp] theorem setEx_row {adminId key : String} {value seconds : Nat} :
    (s.setEx c adminId key value seconds).row = s.row := by
  unfold AuthState.setEx
  split <;> rfl

@[simp] theorem sign_row {t : Token} : (s.sign c t).row = s.row := by
  unfold AuthState.sign
  split <;> rfl

end Left

inductive AuthRequest
  | login (input : LoginInput) (clientIp : String)
  | logout (tokens : List Token)
  | session (token : Token)
  | changePassword (session : Token) (input : ChangePasswordInput) (clientIp : String)
  | setupTotp
  | enableTotp (code : String)
  | disableTotp (code : String)

inductive Reply
  | signedIn (token : Token)
  | signedOut (revoked : List Token)
  | letIn
  | passwordChanged (mark : Nat)
  | secret (secret : String)
  | enabled
  | disabled
deriving DecidableEq, Repr

/-- The program of a request of the admin `adminId`. -/
def AuthRequest.run (adminId : String) : AuthRequest → Request Reply
  | .login input clientIp => Reply.signedIn <$> loginRoute cfg crypto input clientIp
  | .logout tokens => Reply.signedOut <$> Auth.logout cfg tokens
  | .session token => (fun _ => .letIn) <$> requireAuth adminId token
  | .changePassword t input clientIp =>
    Reply.passwordChanged <$> Auth.changePassword cfg crypto adminId t input clientIp
  | .setupTotp => Reply.secret <$> Auth.setupTotp
  | .enableTotp code => (fun _ => .enabled) <$> Auth.enableTotp cfg crypto adminId code
  | .disableTotp code => (fun _ => .disabled) <$> Auth.disableTotp cfg crypto adminId code

abbrev AuthPool := Pool AuthState AuthOp (Except AuthError Reply)

/-- A request, a turn, or some milliseconds. -/
abbrev AuthEvent := PoolEvent AuthRequest Choice Nat

def authHost (adminId : String) :
    Host AuthState AuthOp (Except AuthError Reply) AuthRequest Choice Nat where
  spawn request _ := [(AuthRequest.run cfg crypto adminId request).run]
  exec _ op c s := s.exec cfg crypto adminId op c
  world ms s := { s with now := s.now + ms }

/-- Any row, any Redis, and no session signed yet. -/
def authMachine (adminId : String) : Machine AuthPool AuthEvent :=
  (authHost cfg crypto adminId).machine fun s => s.issued = [] ∧ s.marks = [] ∧ s.changes = []

end Host

/-! ## A panel to run -/

/-- An HMAC whose codes are all `000000`, and passwords kept as they are. -/
def zeroCrypto : Crypto where
  hmacSha1 _ _ := List.replicate 20 0
  compare plaintext hash := decide (plaintext = hash)
  hash _ plaintext := plaintext
  lower username := username

def plainConfig : AuthConfig := ⟨10, 5, 10, 86400⟩

/-- A call that succeeds. -/
def turnOf (i : Nat) : AuthEvent := .turn i {}

abbrev authTrace (pool : AuthPool) (es : List AuthEvent) : List (AuthPool × AuthEvent × AuthPool) :=
  Machine.trace (authHost plainConfig zeroCrypto "id").step pool es

end Iceslab.Auth
