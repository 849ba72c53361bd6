import Solovey.Accounts.Credentials
import Solovey.Data.Rows
import Solovey.Data.System

/-!
# Administrator accounts

The administrators, their second factors and their recovery codes, with the calls on them. A call is
split at its statements: what it reads outside a transaction is kept in the call, and a transaction
or a single statement is one action. An error return of a call is the action `abort`.

The state also remembers what the tables do not keep: the hash of every generation of a password,
the counters and recovery codes that were accepted, the secrets and codes generated so far, and the
codes that wait for their acknowledgement or were acknowledged last. A sealed secret is the secret
itself, an empty column is `none`.
-/

namespace Solovey.Accounts

open Solovey.Text Solovey.Data

/-! ## Tables -/

structure User where
  id : ℕ
  username : Str
  password : Str
  forcePasswordReset : Bool
  credentialGeneration : ℕ
  mfaGeneration : ℕ
  deriving DecidableEq

/-- The hash of a user with the generation that it belongs to. -/
def User.credential (user : User) : ℕ × ℕ × Str :=
  (user.id, user.credentialGeneration, user.password)

inductive MFAState
  | pending
  | pendingAcknowledgment
  | active
  | activePendingRotation
  | activeRotationAck
  | activeRecoveryAck
  deriving DecidableEq

def MFAState.isActive : MFAState → Bool
  | .active | .activePendingRotation | .activeRotationAck | .activeRecoveryAck => true
  | .pending | .pendingAcknowledgment => false

/-- The states in which recovery codes wait for their acknowledgement. -/
def MFAState.isAcknowledgment : MFAState → Bool
  | .pendingAcknowledgment | .activeRotationAck | .activeRecoveryAck => true
  | .pending | .active | .activePendingRotation => false

/-- The states in which a pending secret waits for its first code. -/
def MFAState.isConfirmation : MFAState → Bool
  | .pending | .activePendingRotation => true
  | _ => false

/-- The second factor of a user. -/
structure Factor where
  state : MFAState
  pendingSecret : Option Str
  pendingExpiresAt : ℤ
  pendingAcceptedCounter : ℤ
  pendingRecoveryGeneration : ℕ
  activeSecret : Option Str
  lastAcceptedCounter : ℤ
  recoveryGeneration : ℕ
  recoveryAcknowledged : Bool
  deriving DecidableEq

structure RecoveryCode where
  generation : ℕ
  verifier : Str
  usedAt : ℤ
  deriving DecidableEq

/-- The tables. Every statement on factors and recovery codes is about one user. -/
structure Database where
  users : List User
  factors : ℕ → Option Factor
  codes : ℕ → List RecoveryCode

def nonzeroGeneration (value : ℕ) : ℕ := if value = 0 then 1 else value

def mfaPendingTTL : ℤ := 600

def recoveryCodeCount : ℕ := 10

/-! ## Calls under way -/

inductive AuthState
  | authenticated
  | passwordReset
  | mfaPending
  deriving DecidableEq

structure AuthenticationResult where
  userID : ℕ
  username : Str
  credentialGeneration : ℕ
  mfaGeneration : ℕ
  authState : AuthState
  deriving DecidableEq

/-- What a call has read so far. -/
inductive Call
  /-- `Authenticate` has verified the password against the row that it read. -/
  | verified (plaintext : Str) (user : User) (needsMigration : Bool)
  /-- `Authenticate` has the row whose generations it will return. -/
  | identified (plaintext : Str) (user : User)
  | loggedIn (plaintext : Str) (user : User) (result : AuthenticationResult)
  | transition (user : User) (newUsername newPass : Str)
  | enrolling (userID : ℕ) (current : Option Factor) (now : ℤ)
  | confirming (userID : ℕ) (factor : Factor) (secret : Str) (counter now : ℤ)
  | verifying (userID : ℕ) (factor : Factor) (secret : Str) (counter : ℤ)
  | rotating (userID : ℕ) (factor : Factor) (now : ℤ)
  | done
  deriving DecidableEq

structure State where
  db : Database
  calls : ℕ → Option Call
  /-- The user, generation and hash of every row that the table of users has had. -/
  passwords : List (ℕ × ℕ × Str)
  /-- The secrets generated so far, with their users. -/
  secrets : List (Str × ℕ)
  /-- The verifiers of the recovery codes generated so far, with their users. -/
  verifiers : List (ℕ × Str)
  /-- The secrets and counters that were accepted, the last one first. -/
  accepted : List (Str × ℤ)
  /-- The users and verifiers of the recovery codes that were accepted. -/
  spent : List (ℕ × Str)
  /-- The codes that wait for their acknowledgement. -/
  offered : ℕ → List Str
  /-- The codes of the generation that was acknowledged last. -/
  acknowledged : ℕ → List Str

variable (crypto : Crypto) (s : State)

def State.setCall (call : ℕ) (next : Call) : State :=
  { s with calls := Function.update s.calls call (some next) }

def State.setUsers (users : List User) : State :=
  { s with
    db := { s.db with users }
    passwords := users.map User.credential ++ s.passwords }

def State.setFactor (userID : ℕ) (factor : Option Factor) : State :=
  { s with db := { s.db with factors := Function.update s.db.factors userID factor } }

def State.setCodes (userID : ℕ) (codes : List RecoveryCode) : State :=
  { s with db := { s.db with codes := Function.update s.db.codes userID codes } }

/-! ## Passwords -/

/-- `Authenticate` up to the verification. -/
def authenticate (call : ℕ) (username plaintext : Str) : Option State :=
  if (s.calls call).isSome then none
  else (s.db.users.find? (·.username = username)).bind fun user =>
    (verifyPassword crypto user.password plaintext).bind fun verification =>
      if verification.valid then
        some (s.setCall call (.verified plaintext user verification.needsRehash))
      else none

def User.upgrade (row : User) (upgraded : Str) : User :=
  { row with password := upgraded, credentialGeneration := row.credentialGeneration + 1 }

/-- The transaction that upgrades an old hash: the update is conditional on the hash that was
verified, and the row is read again after it. -/
def migrate (call : ℕ) (salt : Str) : Option State :=
  match s.calls call with
  | some (.verified plaintext user true) =>
    (hash crypto plaintext salt).bind fun upgraded =>
      let users := updateWhere (fun row => row.id = user.id && row.password = user.password)
        (·.upgrade upgraded) s.db.users
      (users.find? (·.id = user.id)).map fun row =>
        (s.setUsers users).setCall call (.identified plaintext row)
  | some (.verified plaintext user false) => some (s.setCall call (.identified plaintext user))
  | _ => none

/-- What a login returns: the factor of the user decides when no reset is forced. -/
def State.loginResult (user : User) : AuthenticationResult where
  userID := user.id
  username := user.username
  credentialGeneration := nonzeroGeneration user.credentialGeneration
  mfaGeneration := nonzeroGeneration user.mfaGeneration
  authState :=
    if user.forcePasswordReset then .passwordReset
    else if (s.db.factors user.id).any (·.state.isActive) then .mfaPending
    else .authenticated

/-- The rest of `Authenticate`. -/
def finishLogin (call : ℕ) : Option State :=
  match s.calls call with
  | some (.identified plaintext user) =>
    some (s.setCall call (.loggedIn plaintext user (s.loginResult user)))
  | _ => none

/-- Another user has the name. -/
def taken (users : List User) (username : Str) (id : ℕ) : Bool :=
  users.any fun other => other.username = username && other.id ≠ id

/-- A row with a new credential, by the row that was read. -/
def User.recredential (row read : User) (newUsername newHash : Str) : User :=
  { row with
    username := newUsername
    password := newHash
    forcePasswordReset := false
    credentialGeneration := nonzeroGeneration read.credentialGeneration + 1 }

def changePass (username oldPass newUser newPass salt : Str) : Option State :=
  let newUser := trimSpace newUser
  if newUser = [] || newPass = [] || !validateNew crypto newPass then none
  else (s.db.users.find? (·.username = username)).bind fun user =>
    if !passwordMatches crypto user.password oldPass then none
    else if newUser ≠ user.username && taken s.db.users newUser user.id then none
    else (hash crypto newPass salt).map fun passwordHash =>
      s.setUsers (updateWhere (·.id = user.id)
        (fun _ => user.recredential user newUser passwordHash) s.db.users)

/-- `CompletePasswordTransition` up to the verification. -/
def beginTransition (call userID : ℕ) (oldPass newUsername newPass : Str) :
    Option State :=
  let newUsername := trimSpace newUsername
  if (s.calls call).isSome || userID = 0 || newUsername = [] || !validateNew crypto newPass then none
  else (s.db.users.find? (·.id = userID)).bind fun user =>
    if !passwordMatches crypto user.password oldPass then none
    else some (s.setCall call (.transition user newUsername newPass))

/-- The conditional update of `CompletePasswordTransition`. -/
def completeTransition (call : ℕ) (salt : Str) : Option State :=
  match s.calls call with
  | some (.transition user newUsername newPass) =>
    let current : User → Bool := fun row => row.id = user.id && row.password = user.password &&
      row.credentialGeneration = user.credentialGeneration &&
      row.mfaGeneration = user.mfaGeneration && !taken s.db.users newUsername user.id
    if s.db.users.countP current ≠ 1 then none
    else (hash crypto newPass salt).map fun newHash =>
      (s.setUsers (updateWhere current (·.recredential user newUsername newHash)
        s.db.users)).setCall call .done
  | _ => none

def changeCredentialAfterStepUp (userID : ℕ) (newUsername newPass salt : Str) :
    Option State :=
  let newUsername := trimSpace newUsername
  if userID = 0 || newUsername = [] || !validateNew crypto newPass then none
  else (hash crypto newPass salt).bind fun newHash =>
    (s.db.users.find? (·.id = userID)).bind fun user =>
      if newUsername ≠ user.username && taken s.db.users newUsername user.id then none
      else some (s.setUsers (updateWhere
        (fun row => row.id = user.id && row.credentialGeneration = user.credentialGeneration)
        (·.recredential user newUsername newHash) s.db.users))

/-- The credential is replaced and the second factor removed in one transaction. -/
def completeRecoveryTransition (userID : ℕ) (newUsername newPass salt : Str) :
    Option State :=
  let newUsername := trimSpace newUsername
  if userID = 0 || newUsername = [] || !validateNew crypto newPass then none
  else (hash crypto newPass salt).bind fun newHash =>
    (s.db.users.find? (·.id = userID)).bind fun user =>
      if newUsername ≠ user.username && taken s.db.users newUsername user.id then none
      else some (((s.setUsers (updateWhere
        (fun row => row.id = user.id && row.credentialGeneration = user.credentialGeneration &&
          row.mfaGeneration = user.mfaGeneration)
        (fun row => { row.recredential user newUsername newHash with
          mfaGeneration := nonzeroGeneration user.mfaGeneration + 1 }) s.db.users)).setCodes
            user.id []).setFactor user.id none)

/-! ## Second factors -/

/-- The next generation of the sessions of a user that depend on the factor. -/
def State.advanceMFAGeneration (userID : ℕ) : State :=
  s.setUsers (updateWhere (·.id = userID)
    (fun row => { row with mfaGeneration := row.mfaGeneration + 1 }) s.db.users)

/-- `BeginEnrollment` up to the transaction: the factor of the user, if there is one. -/
def beginEnrollment (call userID : ℕ) (username : Str) (now : ℤ) : Option State :=
  if (s.calls call).isSome || userID = 0 || trimSpace username = [] then none
  else some (s.setCall call (.enrolling userID (s.db.factors userID) now))

/-- The columns that the insertion of a pending secret updates when the user has a factor. -/
def Factor.enroll (factor : Factor) (state : MFAState) (secret : Str) (now : ℤ) : Factor :=
  { factor with
    state
    pendingSecret := some secret
    pendingExpiresAt := now + mfaPendingTTL
    pendingAcceptedCounter := -1
    pendingRecoveryGeneration := 0 }

/-- The columns of a factor that only the insertion of the row sets. -/
def Factor.blank : Factor where
  state := .pending
  pendingSecret := none
  pendingExpiresAt := 0
  pendingAcceptedCounter := -1
  pendingRecoveryGeneration := 0
  activeSecret := none
  lastAcceptedCounter := -1
  recoveryGeneration := 0
  recoveryAcknowledged := false

/-- The state that a pending secret puts the factor in, by the factor that was read. -/
def enrollmentState (current : Option Factor) : MFAState :=
  if current.any (·.activeSecret.isSome) then .activePendingRotation else .pending

/-- The codes without those that waited for their acknowledgement when the factor was read. -/
def withoutOffered (current : Option Factor) (codes : List RecoveryCode) : List RecoveryCode :=
  match current with
  | none => codes
  | some factor =>
    if 0 < factor.pendingRecoveryGeneration then
      deleteWhere (·.generation = factor.pendingRecoveryGeneration) codes
    else codes

/-- The state after the transaction of `BeginEnrollment`. -/
def State.enrolled (userID : ℕ) (current : Option Factor) (now : ℤ) (secret : Str) :
    State :=
  ({ s with secrets := (secret, userID) :: s.secrets }.setCodes userID
    (withoutOffered current (s.db.codes userID))).setFactor userID
      (some (((s.db.factors userID).getD .blank).enroll (enrollmentState current) secret now))

/-- The transaction of `BeginEnrollment`, with the secret that was generated for it. -/
def storeEnrollment (call : ℕ) (secret : Str) : Option State :=
  match s.calls call with
  | some (.enrolling userID current now) =>
    if s.secrets.any (·.1 = secret) then none
    else some ((s.enrolled userID current now secret).setCall call .done)
  | _ => none

/-- `ConfirmEnrollment` up to the transaction. -/
def confirmEnrollment (call userID : ℕ) (code : Str) (now : ℤ) : Option State :=
  if (s.calls call).isSome then none
  else (s.db.factors userID).bind fun factor =>
    factor.pendingSecret.bind fun secret =>
      if factor.pendingExpiresAt ≤ now || !factor.state.isConfirmation then none
      else (verifyTOTP crypto secret code now (-1)).map fun counter =>
        s.setCall call (.confirming userID factor secret counter now)

/-- The generation of the codes that a confirmation issues. -/
def Factor.nextGeneration (factor : Factor) : ℕ :=
  if factor.recoveryGeneration + 1 ≤ factor.pendingRecoveryGeneration then
    factor.pendingRecoveryGeneration + 1
  else factor.recoveryGeneration + 1

/-- The verifiers of new codes: ten of them, all different, none of which there has been before. -/
def freshCodes (userID : ℕ) (verifiers : List Str) : Bool :=
  verifiers.length = recoveryCodeCount && verifiers.Nodup &&
    verifiers.all fun verifier => !s.verifiers.contains (userID, verifier)

/-- The rows of a generation are replaced by new codes. -/
def issueCodes (codes : List RecoveryCode) (generation : ℕ) (verifiers : List Str) :
    List RecoveryCode :=
  deleteWhere (·.generation = generation) codes ++
    verifiers.map fun verifier => { generation, verifier, usedAt := 0 }

def State.issue (userID generation : ℕ) (verifiers : List Str) : State :=
  { s.setCodes userID (issueCodes (s.db.codes userID) generation verifiers) with
    verifiers := verifiers.map (userID, ·) ++ s.verifiers
    offered := Function.update s.offered userID verifiers }

/-- The row that a confirmation leaves, by the factor that was read. -/
def Factor.confirm (row factor : Factor) (counter : ℤ) : Factor :=
  { row with
    state := if factor.activeSecret.isSome then .activeRotationAck else .pendingAcknowledgment
    pendingAcceptedCounter := counter
    pendingRecoveryGeneration := factor.nextGeneration
    recoveryAcknowledged := false }

/-- The transaction of `ConfirmEnrollment`: the code is accepted, and the recovery codes wait for
their acknowledgement. -/
def storeConfirmation (call : ℕ) (verifiers : List Str) : Option State :=
  match s.calls call with
  | some (.confirming userID factor secret counter now) =>
    (s.db.factors userID).bind fun row =>
      if row.state ≠ factor.state || row.pendingSecret ≠ some secret ||
          row.pendingExpiresAt ≤ now || !freshCodes s userID verifiers then none
      else some ((({ s with accepted := (secret, counter) :: s.accepted }.issue userID
        factor.nextGeneration verifiers).setFactor userID
          (some (row.confirm factor counter))).setCall call .done)
  | _ => none

/-- The factor after the acknowledgement of the codes that it waits for. -/
def Factor.acknowledge (factor : Factor) : Factor :=
  let acknowledged := { factor with
    state := .active
    recoveryGeneration := factor.pendingRecoveryGeneration
    pendingRecoveryGeneration := 0
    recoveryAcknowledged := true
    pendingExpiresAt := 0 }
  if factor.state = .activeRecoveryAck then acknowledged
  else { acknowledged with
    activeSecret := factor.pendingSecret
    pendingSecret := none
    lastAcceptedCounter := factor.pendingAcceptedCounter
    pendingAcceptedCounter := -1 }

def acknowledgeRecoveryCodes (userID : ℕ) (now : ℤ) : Option State :=
  (s.db.factors userID).bind fun factor =>
    if !factor.state.isAcknowledgment || factor.pendingRecoveryGeneration = 0 ||
        factor.pendingExpiresAt ≤ now then none
    else some ((({ s with
        acknowledged := Function.update s.acknowledged userID (s.offered userID) }.setFactor userID
          (some factor.acknowledge)).setCodes userID (deleteWhere
            (·.generation ≠ factor.pendingRecoveryGeneration)
              (s.db.codes userID))).advanceMFAGeneration userID)

/-- `VerifyTOTP` up to the update. -/
def verifyCode (call userID : ℕ) (code : Str) (now : ℤ) : Option State :=
  if (s.calls call).isSome then none
  else (s.db.factors userID).bind fun factor =>
    if !factor.state.isActive then none
    else factor.activeSecret.bind fun secret =>
      (verifyTOTP crypto secret code now factor.lastAcceptedCounter).map fun counter =>
        s.setCall call (.verifying userID factor secret counter)

/-- The conditional update of `VerifyTOTP`: the code is accepted. -/
def storeCounter (call : ℕ) : Option State :=
  match s.calls call with
  | some (.verifying userID _ secret counter) =>
    (s.db.factors userID).bind fun row =>
      if row.activeSecret ≠ some secret || !row.state.isActive ||
          counter ≤ row.lastAcceptedCounter then none
      else some (({ s with accepted := (secret, counter) :: s.accepted }.setFactor userID
        (some { row with lastAcceptedCounter := counter })).setCall call .done)
  | _ => none

/-- The row of a recovery code that has not been used. -/
def unused (generation : ℕ) (verifier : Str) (row : RecoveryCode) : Bool :=
  row.generation = generation && row.verifier = verifier && row.usedAt = 0

def consumeRecoveryCode (userID : ℕ) (code : Str) (now : ℤ) : Option State :=
  (crypto.recoveryVerifier userID code).bind fun verifier =>
    (s.db.factors userID).bind fun factor =>
      if !factor.state.isActive ||
          (s.db.codes userID).countP (unused factor.recoveryGeneration verifier) ≠ 1 then none
      else some ({ s with spent := (userID, verifier) :: s.spent }.setCodes userID
        (updateWhere (unused factor.recoveryGeneration verifier)
          (fun row => { row with usedAt := now }) (s.db.codes userID)))

/-- `RotateRecoveryCodes` up to the transaction. -/
def rotateRecoveryCodes (call userID : ℕ) (now : ℤ) : Option State :=
  if (s.calls call).isSome then none
  else (s.db.factors userID).bind fun factor =>
    if factor.state ≠ .active then none
    else some (s.setCall call (.rotating userID factor now))

/-- The row that a rotation of the recovery codes leaves. -/
def Factor.rotate (row : Factor) (generation : ℕ) (now : ℤ) : Factor :=
  { row with
    state := .activeRecoveryAck
    pendingRecoveryGeneration := generation
    pendingExpiresAt := now + mfaPendingTTL
    recoveryAcknowledged := false }

/-- The transaction of `RotateRecoveryCodes`. -/
def storeRotation (call : ℕ) (verifiers : List Str) : Option State :=
  match s.calls call with
  | some (.rotating userID factor now) =>
    (s.db.factors userID).bind fun row =>
      if row.recoveryGeneration ≠ factor.recoveryGeneration || !freshCodes s userID verifiers then
        none
      else some (((s.issue userID (factor.recoveryGeneration + 1) verifiers).setFactor userID
        (some (row.rotate (factor.recoveryGeneration + 1) now))).setCall call .done)
  | _ => none

def disable (userID : ℕ) : State :=
  ((s.setCodes userID []).setFactor userID none).advanceMFAGeneration userID

/-! ## Runs -/

inductive Action
  | authenticate (call : ℕ) (username plaintext : Str)
  | migrate (call : ℕ) (salt : Str)
  | finishLogin (call : ℕ)
  | changePass (username oldPass newUser newPass salt : Str)
  | beginTransition (call userID : ℕ) (oldPass newUsername newPass : Str)
  | completeTransition (call : ℕ) (salt : Str)
  | changeCredentialAfterStepUp (userID : ℕ) (newUsername newPass salt : Str)
  | completeRecoveryTransition (userID : ℕ) (newUsername newPass salt : Str)
  | beginEnrollment (call userID : ℕ) (username : Str) (now : ℤ)
  | storeEnrollment (call : ℕ) (secret : Str)
  | confirmEnrollment (call userID : ℕ) (code : Str) (now : ℤ)
  | storeConfirmation (call : ℕ) (verifiers : List Str)
  | acknowledgeRecoveryCodes (userID : ℕ) (now : ℤ)
  | verifyCode (call userID : ℕ) (code : Str) (now : ℤ)
  | storeCounter (call : ℕ)
  | consumeRecoveryCode (userID : ℕ) (code : Str) (now : ℤ)
  | rotateRecoveryCodes (call userID : ℕ) (now : ℤ)
  | storeRotation (call : ℕ) (verifiers : List Str)
  | disable (userID : ℕ)
  | abort (call : ℕ)
  deriving DecidableEq

def step : Action → Option State
  | .authenticate call username plaintext => authenticate crypto s call username plaintext
  | .migrate call salt => migrate crypto s call salt
  | .finishLogin call => finishLogin s call
  | .changePass username oldPass newUser newPass salt =>
    changePass crypto s username oldPass newUser newPass salt
  | .beginTransition call userID oldPass newUsername newPass =>
    beginTransition crypto s call userID oldPass newUsername newPass
  | .completeTransition call salt => completeTransition crypto s call salt
  | .changeCredentialAfterStepUp userID newUsername newPass salt =>
    changeCredentialAfterStepUp crypto s userID newUsername newPass salt
  | .completeRecoveryTransition userID newUsername newPass salt =>
    completeRecoveryTransition crypto s userID newUsername newPass salt
  | .beginEnrollment call userID username now => beginEnrollment s call userID username now
  | .storeEnrollment call secret => storeEnrollment s call secret
  | .confirmEnrollment call userID code now => confirmEnrollment crypto s call userID code now
  | .storeConfirmation call verifiers => storeConfirmation s call verifiers
  | .acknowledgeRecoveryCodes userID now => acknowledgeRecoveryCodes s userID now
  | .verifyCode call userID code now => verifyCode crypto s call userID code now
  | .storeCounter call => storeCounter s call
  | .consumeRecoveryCode userID code now => consumeRecoveryCode crypto s userID code now
  | .rotateRecoveryCodes call userID now => rotateRecoveryCodes s call userID now
  | .storeRotation call verifiers => storeRotation s call verifiers
  | .disable userID => some (disable s userID)
  | .abort call => some (s.setCall call .done)

/-- Administrators without a second factor and with generations from one on. -/
def Starts : Prop :=
  (s.db.users.map (·.id)).Nodup ∧ (∀ user ∈ s.db.users, 1 ≤ user.credentialGeneration) ∧
  (∀ id, s.db.factors id = none) ∧ (∀ id, s.db.codes id = []) ∧ (∀ call, s.calls call = none) ∧
  s.passwords = s.db.users.map User.credential ∧
  s.secrets = [] ∧ s.verifiers = [] ∧ s.accepted = [] ∧ s.spent = [] ∧
  (∀ id, s.offered id = []) ∧ ∀ id, s.acknowledged id = []

def accounts : System State Action where
  initial := Starts
  step s a t := step crypto s a = some t

end Solovey.Accounts
