import Solovey.Data.Program
import Solovey.Data.Rows
import Solovey.Text.Strings
import Solovey.Text.Utf8

/-!
# SSH policy candidates: data and environment

A policy change is a candidate that goes through staging, validation, reload and a reconnect proof.
This module has the data of the calls of its database and its provider, and the environment: which
reply each call can get in a state of the database, and the state after it. What the provider
answers is left open.

A database write is one transaction: it is stored whole or not at all. Writes that prune history
delete terminal rows that retention allows to delete; which ones is left open.
-/

namespace Solovey.Ssh

open Text (Str)

/-! ## Candidates -/

inductive CandidateState
  /-- The state of the zero value. -/
  | unset
  | draft
  | preflighted
  | staged
  | validated
  | reloadPending
  | reconnectRequired
  | committed
  | rollbackPending
  | rolledBack
  | manualRecoveryRequired
  deriving DecidableEq

/-- Nothing more is done for such a candidate. -/
def CandidateState.terminal (s : CandidateState) : Bool :=
  s = .committed || s = .rolledBack || s = .manualRecoveryRequired

/-- Only the zero value and the terminal states have no way on. -/
def transitionAllowed : CandidateState → CandidateState → Bool
  | .draft, s => s = .preflighted || s = .manualRecoveryRequired
  | .preflighted, s => s = .staged || s = .manualRecoveryRequired
  | .staged, s => s = .validated || s = .rollbackPending || s = .manualRecoveryRequired
  | .validated, s => s = .reloadPending || s = .rollbackPending || s = .manualRecoveryRequired
  | .reloadPending, s =>
    s = .reconnectRequired || s = .rollbackPending || s = .manualRecoveryRequired
  | .reconnectRequired, s => s = .committed || s = .rollbackPending || s = .manualRecoveryRequired
  | .rollbackPending, s => s = .rolledBack || s = .manualRecoveryRequired
  | _, _ => false

inductive ReasonCode
  | providerUnavailable
  | configurationMismatch
  | revisionMismatch
  | reconnectProofInvalid
  | rollbackVerification
  | restoredStateUntrusted
  | candidateAlreadyActive
  | idempotencyConflict
  | operationStateConflict
  | malformedProviderEvidence
  | other (text : Str)
  deriving DecidableEq

def ReasonCode.text : ReasonCode → Str
  | providerUnavailable => "provider_unavailable".toList
  | configurationMismatch => "configuration_mismatch".toList
  | revisionMismatch => "revision_mismatch".toList
  | reconnectProofInvalid => "reconnect_proof_invalid".toList
  | rollbackVerification => "rollback_verification_failed".toList
  | restoredStateUntrusted => "restored_state_untrusted".toList
  | candidateAlreadyActive => "candidate_already_active".toList
  | idempotencyConflict => "idempotency_conflict".toList
  | operationStateConflict => "operation_state_conflict".toList
  | malformedProviderEvidence => "malformed_provider_evidence".toList
  | other text => text

/-- The codes without repetition and empty ones, in the order of their texts. -/
def normalizedReasons (values : List ReasonCode) : List ReasonCode :=
  ((values.filter fun v => v.text ≠ []).dedup).insertionSort fun a b => a.text ≤ b.text

/-- What the manager reads of a preservation plan. -/
structure Preservation where
  safe : Bool
  earliestSafetyExpiry : ℤ
  revision : Str
  deriving DecidableEq

structure Candidate where
  operationID : Str
  idempotencyKey : Str
  endpointID : Str
  state : CandidateState
  revision : ℕ
  /-- The policy as its JSON text. -/
  policy : Str
  preservation : Preservation
  candidateDigest : Str
  bindingDigest : Str
  beforeArtifactDigest : Str
  afterArtifactDigest : Str
  postureRevision : Str
  endpointRevision : Str
  recoveryRevision : Str
  providerRevision : Str
  binaryRevision : Str
  serviceRevision : Str
  configurationRevision : Str
  earliestSafetyExpiry : ℤ
  reconnectExpiresAt : ℤ
  rollbackAttempts : ℕ
  brokerStageReleased : Bool
  restoredUntrusted : Bool
  reconciledAt : ℤ
  createdAt : ℤ
  updatedAt : ℤ
  reasonCodes : List ReasonCode
  deriving DecidableEq

/-- The zero value `CandidateV1{}`. -/
def Candidate.zero : Candidate where
  operationID := []
  idempotencyKey := []
  endpointID := []
  state := .unset
  revision := 0
  policy := []
  preservation := ⟨false, 0, []⟩
  candidateDigest := []
  bindingDigest := []
  beforeArtifactDigest := []
  afterArtifactDigest := []
  postureRevision := []
  endpointRevision := []
  recoveryRevision := []
  providerRevision := []
  binaryRevision := []
  serviceRevision := []
  configurationRevision := []
  earliestSafetyExpiry := 0
  reconnectExpiresAt := 0
  rollbackAttempts := 0
  brokerStageReleased := false
  restoredUntrusted := false
  reconciledAt := 0
  createdAt := 0
  updatedAt := 0
  reasonCodes := []

/-- The artifact that a staged policy replaces. -/
structure PriorArtifact where
  present : Bool
  content : Text.Bytes
  owner : Str
  group : Str
  modeClass : Str
  mode : ℕ
  digest : Str
  deriving DecidableEq

/-- What has to be restored, kept from before the stage. -/
structure Checkpoint where
  operationID : Str
  prior : PriorArtifact
  stagedArtifactDigest : Str
  stagedConfigurationRevision : Str
  deriving DecidableEq

/-- What a fresh session has to answer before the change is kept. -/
structure Challenge where
  operationID : Str
  candidateDigest : Str
  markerDigest : Str
  endpointID : Str
  principalID : Str
  authenticationClass : Str
  serviceRevision : Str
  binaryRevision : Str
  configurationRevision : Str
  verifierDigest : Str
  issuedAt : ℤ
  expiresAt : ℤ
  consumedAt : ℤ
  revision : ℕ
  deriving DecidableEq

/-- Evidence that the host can still be reached. -/
structure RecoveryPath where
  id : Str
  endpointID : Str
  principalID : Str
  evidenceProvider : Str
  targetOperation : Str
  verifiedAt : ℤ
  expiresAt : ℤ
  sourceRevision : Str
  configurationRevision : Str
  serviceRevision : Str
  binaryRevision : Str
  deriving DecidableEq

/-! ## Requests and results of the provider -/

/-- What the provider checks before it acts for an operation. -/
structure ProviderFence where
  operationID : Str
  endpointID : Str
  candidateRevision : ℕ
  fencingToken : Str
  candidateDigest : Str
  expectedProviderRevision : Str
  expectedBinaryRevision : Str
  expectedServiceRevision : Str
  expectedConfigurationRevision : Str

structure StageRequest where
  fence : ProviderFence
  endpointID : Str
  policy : Str
  expectedArtifactDigest : Str

structure StageResult where
  artifactDigest : Str
  endpointID : Str
  prior : PriorArtifact
  providerRevision : Str
  configurationRevision : Str

/-- The result of a stage and whether it came with an error. -/
structure StageReply where
  result : StageResult
  failed : Bool

/-- Of a completed stage: to recover it or to release it. -/
structure CompletedStageRequest where
  fence : ProviderFence
  endpointID : Str
  expectedArtifactDigest : Str

structure ValidationRequest where
  fence : ProviderFence
  endpointID : Str
  artifactDigest : Str

structure ValidationResult where
  syntaxValid : Bool
  effectiveValid : Bool
  providerRevision : Str
  reasonCodes : List ReasonCode

structure ReloadRequest where
  fence : ProviderFence
  endpointID : Str
  artifactDigest : Str
  recovery : Bool

structure ReloadResult where
  serviceRevision : Str
  configurationRevision : Str
  providerRevision : Str

structure ReconnectProof where
  fence : ProviderFence
  markerDigest : Str
  verifier : Str
  endpointID : Str
  principalID : Str
  authenticationClass : Str

/-- What the provider found out about the session that reconnected. -/
structure ReconnectResult where
  verified : Bool
  independent : Bool
  freshSession : Bool
  operationBound : Bool
  endpointID : Str
  principalID : Str
  authenticationClass : Str
  evidenceRevision : Str

structure RestoreRequest where
  fence : ProviderFence
  endpointID : Str
  expectedCurrentArtifactDigest : Str
  prior : PriorArtifact

structure RestoreResult where
  artifactDigest : Str
  configurationRevision : Str
  providerRevision : Str

structure InspectRequest where
  fence : ProviderFence
  endpointID : Str

structure InspectResult where
  present : Bool
  artifactDigest : Str
  owner : Str
  group : Str
  modeClass : Str
  mode : ℕ
  symlink : Bool
  configurationRevision : Str

/-- An observed posture; `valid` is whether it passes its own validation. -/
structure Posture where
  semanticRevision : Str
  binaryRevision : Str
  serviceRevision : Str
  configurationRevision : Str
  valid : Bool

structure Observation where
  posture : Posture
  providerRevision : Str

structure Preview where
  posture : Option Posture
  preservation : Preservation
  candidateDigest : Str
  providerRevision : Str
  endpointRevision : Str
  recoveryRevision : Str
  possible : Bool
  reasonCodes : List ReasonCode
  revision : Str

/-! ## Calls and replies -/

/-- What the manager asks of its clock, its repository and its provider. -/
inductive Effect
  | now
  | randomID
  | preview (policy : Str) (acknowledged : Bool)
  /-- The preservation plan over the current endpoints and evidence with a new path. -/
  | plan (c : Candidate) (path : RecoveryPath)
  | stageReleaseDebts
  | candidateByIdempotency (key : Str)
  | candidate (operationID : Str)
  | activeCandidate
  | checkpoint (operationID : Str)
  | challenge (operationID : Str)
  | savePosture
  | createCandidateWithJournal (c : Candidate)
  | updateCandidateCASWithJournal (c : Candidate) (expectedRevision : ℕ)
      (expectedState : CandidateState) (event : Str) (reason : Option ReasonCode)
  | commitCandidateCASWithJournalAndEvidence (c : Candidate) (expectedRevision : ℕ)
      (expectedState : CandidateState) (challengeRevision : ℕ) (path : RecoveryPath) (now : ℤ)
  | saveCheckpoint (k : Checkpoint)
  | saveChallenge (ch : Challenge)
  | pruneHistory
  | stageManagedPolicy (r : StageRequest)
  | validateManagedPolicy (r : ValidationRequest)
  | reloadSelectedService (r : ReloadRequest)
  | armReconnect (r : ReconnectProof) (expiresAt : ℤ)
  | verifyReconnect (r : ReconnectProof)
  | restoreManagedPolicy (r : RestoreRequest)
  | inspectManagedPolicy (r : InspectRequest)
  | observe
  | recoverCompletedStage (r : CompletedStageRequest)
  | releaseCompletedStage (r : CompletedStageRequest)

/-- The answer to a query for one row. -/
inductive Lookup (α : Type)
  | found (a : α)
  | missing
  | failed

/-- The answer to a write: stored, together with the operations pruned; refused by a condition of
the transaction; or failed. -/
inductive Written
  | ok (pruned : List Str)
  | conflict
  | failed
  deriving DecidableEq

@[reducible] def Reply : Effect → Type
  | .now => ℤ
  | .randomID => Option Str
  | .preview _ _ => Option Preview
  | .plan _ _ => Preservation
  | .stageReleaseDebts => Option (List Candidate)
  | .candidateByIdempotency _ => Lookup Candidate
  | .candidate _ => Lookup Candidate
  | .activeCandidate => Lookup Candidate
  | .checkpoint _ => Lookup Checkpoint
  | .challenge _ => Lookup Challenge
  | .savePosture => Written
  | .createCandidateWithJournal _ => Written
  | .updateCandidateCASWithJournal _ _ _ _ _ => Written
  | .commitCandidateCASWithJournalAndEvidence _ _ _ _ _ _ => Written
  | .saveCheckpoint _ => Written
  | .saveChallenge _ => Written
  | .pruneHistory => Written
  | .stageManagedPolicy _ => StageReply
  | .validateManagedPolicy _ => Option ValidationResult
  | .reloadSelectedService _ => Option ReloadResult
  | .armReconnect _ _ => Bool
  | .verifyReconnect _ => Option ReconnectResult
  | .restoreManagedPolicy _ => Option RestoreResult
  | .inspectManagedPolicy _ => Option InspectResult
  | .observe => Option Observation
  | .recoverCompletedStage _ => StageReply
  | .releaseCompletedStage _ => Bool

abbrev Event := (e : Effect) × Reply e

/-! ## The environment -/

/-- The database, the identifiers drawn so far, and what has been called, the last call first. -/
structure World where
  rows : List Candidate
  checkpoints : List Checkpoint
  challenges : List Challenge
  evidence : List RecoveryPath
  issued : List Str
  trace : List Event

/-- The hashes and names that the manager's records carry. -/
structure Digests where
  bindingDigest : Candidate → Str
  fencingToken : Str → ℕ → Str → Str
  markerDigest : Str → Str → Str
  digestString : Str → Str
  recoveryID : Str → Str → Str → Str

/-- `safeTerminalCandidate`, but for live evidence. -/
def Candidate.prunable (c : Candidate) : Bool :=
  (c.state = .committed || c.state = .rolledBack) && c.brokerStageReleased && !c.restoredUntrusted

/-- Retention deletes the operations, if it may delete each of them, and what belongs to none. -/
def World.prune (w : World) (pruned : List Str) : Option World :=
  if w.rows.all fun c => !pruned.contains c.operationID || c.prunable then
    let rows := Data.deleteWhere (fun c => pruned.contains c.operationID) w.rows
    let kept := fun operationID => rows.any fun c => c.operationID = operationID
    some { w with
      rows
      checkpoints := w.checkpoints.filter fun k => kept k.operationID
      challenges := w.challenges.filter fun ch => kept ch.operationID }
  else none

/-- A committed stage that the broker has not been told to release. -/
def Candidate.releaseDebt (c : Candidate) : Bool :=
  c.state = .committed && !c.brokerStageReleased && !c.restoredUntrusted

/-- The columns that an update writes. -/
def Candidate.updated (c old : Candidate) : Candidate :=
  { c with idempotencyKey := old.idempotencyKey, createdAt := old.createdAt }

/-- The condition of a compare-and-swap. -/
def Candidate.matches (operationID : Str) (revision : ℕ) (state : CandidateState)
    (c : Candidate) : Bool :=
  c.operationID = operationID && c.revision = revision && c.state = state

/-- The compare-and-swap of a candidate, lost unless it hits exactly one row. -/
def World.updateRow (w : World) (c : Candidate) (expectedRevision : ℕ)
    (expectedState : CandidateState) : Option World :=
  let hit := Candidate.matches c.operationID expectedRevision expectedState
  if w.rows.countP hit = 1 then some { w with rows := Data.updateWhere hit c.updated w.rows }
  else none

/-- Refused while another candidate is open, in manual recovery or owes a release. -/
def World.create (w : World) (c : Candidate) (pruned : List Str) : Option World :=
  (w.prune pruned).bind fun w =>
    if (w.rows.any fun d => d.operationID = c.operationID || d.idempotencyKey = c.idempotencyKey) ||
        w.rows.any Candidate.releaseDebt ||
        w.rows.any fun d => !(d.state = .committed || d.state = .rolledBack) then none
    else some { w with rows := w.rows ++ [c] }

def Challenge.consumable (operationID : Str) (revision : ℕ) (now : ℤ) (ch : Challenge) : Bool :=
  ch.operationID = operationID && ch.revision = revision && ch.consumedAt = 0 && ch.expiresAt > now

/-- A challenge is consumed once, before it expires. -/
def World.consume (w : World) (operationID : Str) (revision : ℕ) (now : ℤ) : Option World :=
  let hit := Challenge.consumable operationID revision now
  let consumed := fun ch : Challenge => { ch with consumedAt := now, revision := revision + 1 }
  if w.challenges.countP hit = 1 then
    some { w with challenges := Data.updateWhere hit consumed w.challenges }
  else none

/-- One transaction: the challenge, the candidate and the evidence. -/
def World.commit (w : World) (c : Candidate) (expectedRevision : ℕ)
    (expectedState : CandidateState) (challengeRevision : ℕ) (path : RecoveryPath) (now : ℤ) :
    Option World :=
  ((w.consume c.operationID challengeRevision now).bind fun w =>
    w.updateRow c expectedRevision expectedState).map fun w =>
      { w with evidence := Data.upsert (fun p => p.id = path.id) (fun _ => path) path w.evidence }

/-- A checkpoint is never changed. -/
def World.saveCheckpoint (w : World) (k : Checkpoint) : Option World :=
  match w.checkpoints.find? fun old => old.operationID = k.operationID with
  | some old => if old = k then some w else none
  | none => some { w with checkpoints := w.checkpoints ++ [k] }

/-- One challenge for an operation, each with its own marker. -/
def World.saveChallenge (w : World) (ch : Challenge) : Option World :=
  if w.challenges.any fun old =>
      old.operationID = ch.operationID || old.markerDigest = ch.markerDigest then none
  else some { w with challenges := w.challenges ++ [ch] }

/-- The reply to a query that finds at most one row: what is there, that nothing is there, or a
failure at any time. -/
def World.lookup {α : Type} [DecidableEq α] (w : World) (stored : Option α) :
    Lookup α → Option World
  | .found a => if stored = some a then some w else none
  | .missing => if stored.isNone then some w else none
  | .failed => some w

/-- A row is read as a candidate only if it carries its own binding digest. -/
def World.lookupCandidate (D : Digests) (w : World) (holds : Candidate → Bool) :
    Lookup Candidate → Option World
  | .found c => if c ∈ w.rows && holds c && c.bindingDigest = D.bindingDigest c then some w else none
  | .missing => if w.rows.any holds then none else some w
  | .failed => some w

/-- The first of the candidates that are not terminal, by the time of their creation. -/
def World.isActive (w : World) (c : Candidate) : Bool :=
  !c.state.terminal && w.rows.all fun d => d.state.terminal || c.createdAt ≤ d.createdAt

/-- The reply to a write whose conditions and outcome `stored` says. -/
def World.write (w : World) (stored : List Str → Option World) : Written → Option World
  | .ok pruned => stored pruned
  | .conflict => some w
  | .failed => some w

/-- The state after a call and its reply, if the call can get the reply. -/
def World.respond (D : Digests) (w : World) : (e : Effect) → Reply e → Option World
  | .randomID, some id =>
    if w.issued.contains id then none else some { w with issued := id :: w.issued }
  | .stageReleaseDebts, some debts =>
    if debts.isPerm (w.rows.filter Candidate.releaseDebt) then some w else none
  | .candidateByIdempotency key, r => w.lookupCandidate D (fun c => c.idempotencyKey = key) r
  | .candidate id, r => w.lookupCandidate D (fun c => c.operationID = id) r
  | .activeCandidate, r => w.lookupCandidate D w.isActive r
  | .checkpoint id, r => w.lookup (w.checkpoints.find? fun k => k.operationID = id) r
  | .challenge id, r => w.lookup (w.challenges.find? fun ch => ch.operationID = id) r
  | .createCandidateWithJournal c, r => w.write (w.create c) r
  | .updateCandidateCASWithJournal c revision state _ _, r =>
    w.write (fun pruned => (w.updateRow c revision state).bind fun w =>
      if c.state.terminal then w.prune pruned else some w) r
  | .commitCandidateCASWithJournalAndEvidence c revision state challengeRevision path now, r =>
    w.write (fun _ => w.commit c revision state challengeRevision path now) r
  | .saveCheckpoint k, r => w.write (fun _ => w.saveCheckpoint k) r
  | .saveChallenge ch, r => w.write (fun _ => w.saveChallenge ch) r
  | .pruneHistory, r => w.write w.prune r
  | _, _ => some w

/-- The world after a call and its reply; none if the call cannot have that reply. -/
def react (D : Digests) (w : World) (e : Effect) (r : Reply e) : Option World :=
  (w.respond D e r).map fun t => { t with trace := ⟨e, r⟩ :: w.trace }

end Solovey.Ssh
