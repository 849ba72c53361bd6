import Solovey.Ssh.Model

/-!
# The SSH policy manager

The methods of the manager as programs over its database and its provider. A method returns its
value together with its errors: no errors is success, and a failed step of a candidate returns the
zero candidate. Every method holds the manager's mutex to its end, so their calls do not interleave.
-/

namespace Solovey.Ssh

open Text (Str)

structure Manager where
  digests : Digests
  providerID : Str
  /-- The provider is a `CompletedStageLifecycle`. -/
  lifecycle : Bool
  /-- The provider is a `ReconnectArmer`. -/
  armer : Bool

abbrev Prog (α : Type) := Data.Program Effect Reply α

def ask (e : Effect) : Prog (Reply e) := Data.Program.perform e

inductive Err
  | code (area : String) (reason : ReasonCode)
  | database
  | provider
  | random

/-- Joined errors; none of them is `nil`. -/
abbrev Errors := List Err

def Written.errors : Written → Errors
  | .ok _ => []
  | .conflict => [.code "candidate" .operationStateConflict]
  | .failed => [.database]

def Digests.rebind (D : Digests) (c : Candidate) : Candidate :=
  { c with bindingDigest := D.bindingDigest c }

def isHexDigit (ch : Char) : Bool := ('0' ≤ ch && ch ≤ '9') || ('a' ≤ ch && ch ≤ 'f')

def validDigest (value : Str) : Bool := value.length = 64 && value.all isHexDigit

def safeIdentifier (value : Str) (limit : ℕ) : Bool :=
  let value := Text.trimSpace value
  value ≠ [] && Text.utf8Len value ≤ limit && value.all fun ch =>
    ('a' ≤ ch && ch ≤ 'z') || ('A' ≤ ch && ch ≤ 'Z') || ('0' ≤ ch && ch ≤ '9') ||
      ch ∈ "._:@+-".toList

def maxChallengeLifetime : ℤ := 600

def maxRecoveryLifetime : ℤ := 900

/-! ## Steps of a candidate -/

variable (M : Manager) (c : Candidate)

def withReason (reason : Option ReasonCode) : Candidate :=
  match reason with
  | some code => { c with reasonCodes := normalizedReasons (c.reasonCodes ++ [code]) }
  | none => c

/-- The candidate in its next state. -/
def Candidate.next (state : CandidateState) (now : ℤ)
    (reason : Option ReasonCode) : Candidate :=
  withReason { c with state, revision := c.revision + 1, updatedAt := now } reason

/-- The candidate that a write leaves the caller with. -/
def Written.leaving (w : Written) (next : Candidate) : Candidate × Errors :=
  match w.errors with
  | [] => (next, [])
  | errors => (.zero, errors)

def advance (state : CandidateState) (event : String)
    (reason : Option ReasonCode) : Prog (Candidate × Errors) :=
  if transitionAllowed c.state state then do
    let now : ℤ ← ask .now
    let next := c.next state now reason
    let w : Written ← ask
      (.updateCandidateCASWithJournal next c.revision c.state event.toList reason)
    pure (w.leaving next)
  else pure (.zero, [.code "transition" .operationStateConflict])

/-- `advance` to manual recovery after the given errors. -/
def requireManualRecovery (event : String) (reason : ReasonCode)
    (errors : Errors) : Prog Errors := do
  let out ← advance c .manualRecoveryRequired event reason
  pure (errors ++ out.2)

def Manager.providerFence : ProviderFence where
  operationID := c.operationID
  endpointID := c.endpointID
  candidateRevision := c.revision
  fencingToken := M.digests.fencingToken c.operationID c.revision c.bindingDigest
  candidateDigest := c.candidateDigest
  expectedProviderRevision := c.providerRevision
  expectedBinaryRevision := c.binaryRevision
  expectedServiceRevision := c.serviceRevision
  expectedConfigurationRevision := c.configurationRevision

/-! ## Rollback -/

/-- The inspected artifact is the prior one; a prior mode of 0 is one that was not recorded. -/
def PriorArtifact.reportedBy (prior : PriorArtifact) (i : InspectResult) : Bool :=
  i.artifactDigest = prior.digest && i.present = prior.present && i.owner = prior.owner &&
    i.group = prior.group && i.modeClass = prior.modeClass &&
    (prior.mode = 0 || i.mode = prior.mode) && !i.symlink

/-- The restored artifact is the prior one. -/
def restoreAccepted (prior : PriorArtifact) (r : RestoreResult) : Bool :=
  r.artifactDigest = prior.digest && r.providerRevision = c.providerRevision &&
    r.configurationRevision ≠ []

/-- The reload and the posture of a rollback in which every report is the expected one. -/
def exactRollback (prior : PriorArtifact) :
    Option RestoreResult → Option ReloadResult → Option InspectResult → Option Observation →
      Option (ReloadResult × Posture)
  | some restored, some reloaded, some inspected, some observed =>
    if observed.posture.valid && restoreAccepted c prior restored &&
        reloaded.providerRevision = c.providerRevision && reloaded.serviceRevision ≠ [] &&
        reloaded.configurationRevision = restored.configurationRevision &&
        prior.reportedBy inspected &&
        inspected.configurationRevision = reloaded.configurationRevision &&
        observed.providerRevision = c.providerRevision &&
        observed.posture.binaryRevision = c.binaryRevision &&
        observed.posture.serviceRevision = reloaded.serviceRevision &&
        observed.posture.configurationRevision = reloaded.configurationRevision
    then some (reloaded, observed.posture)
    else none
  | _, _, _, _ => none

/-- The reload after a restore that went as expected. -/
def Manager.reloadRestored (prior : PriorArtifact) :
    Option RestoreResult → Prog (Option ReloadResult)
  | some restored =>
    if restoreAccepted c prior restored then
      let recovery :=
        M.digests.rebind { c with configurationRevision := restored.configurationRevision }
      ask (.reloadSelectedService ⟨M.providerFence recovery, c.endpointID, prior.digest, true⟩)
    else pure none
  | none => pure none

/-- The candidate with what its rollback reported. -/
def Manager.withRollback (reloaded : ReloadResult)
    (posture : Posture) (now : ℤ) : Candidate :=
  { M.digests.rebind { c with
      serviceRevision := reloaded.serviceRevision
      configurationRevision := reloaded.configurationRevision
      postureRevision := posture.semanticRevision } with
    reconciledAt := now
    brokerStageReleased := true }

/-- `rollbackWithPrior` from the call of the provider on. -/
def Manager.restorePrior (prior : PriorArtifact)
    (reason : ReasonCode) : Prog Errors := do
  let restored : Option RestoreResult ← ask (.restoreManagedPolicy
    ⟨M.providerFence c, c.endpointID, c.afterArtifactDigest, prior⟩)
  let reloaded ← M.reloadRestored c prior restored
  let inspected : Option InspectResult ← ask
    (.inspectManagedPolicy ⟨M.providerFence c, c.endpointID⟩)
  let observed : Option Observation ← ask .observe
  match exactRollback c prior restored reloaded inspected observed with
  | none =>
    requireManualRecovery c "rollback_verification_failed" .rollbackVerification
      [.code "rollback" .rollbackVerification]
  | some (reloaded, posture) => do
    let now : ℤ ← ask .now
    let out ← advance (M.withRollback c reloaded posture now) .rolledBack "rollback_verified" reason
    pure out.2

/-- The candidate with its one attempt counted. -/
def Candidate.attempted (now : ℤ) : Candidate :=
  { c with rollbackAttempts := 1, revision := c.revision + 1, updatedAt := now }

/-- `rollbackWithPrior` of a candidate that is pending: the attempt is counted first. -/
def Manager.attemptRollback (prior : PriorArtifact)
    (reason : ReasonCode) : Prog Errors :=
  if c.rollbackAttempts = 0 then do
    let now : ℤ ← ask .now
    let next := c.attempted now
    let w : Written ← ask (.updateCandidateCASWithJournal next c.revision c.state
      "rollback_attempted".toList (some reason))
    match w.errors with
    | [] => M.restorePrior next prior reason
    | errors => pure errors
  else M.restorePrior c prior reason

def Manager.rollbackWithPrior (prior : PriorArtifact)
    (reason : ReasonCode) : Prog Errors :=
  if c.rollbackAttempts > 1 || (c.rollbackAttempts = 1 && c.state ≠ .rollbackPending) then
    pure [.code "rollback" .operationStateConflict]
  else if c.state ≠ .rollbackPending then do
    let out ← advance c .rollbackPending "rollback_pending" reason
    match out.2 with
    | [] => M.attemptRollback out.1 prior reason
    | errors => pure errors
  else M.attemptRollback c prior reason

def Manager.rollback (reason : ReasonCode) : Prog Errors := do
  let found : Lookup Checkpoint ← ask (.checkpoint c.operationID)
  match found with
  | .found k => M.rollbackWithPrior c k.prior reason
  | _ => requireManualRecovery c "rollback_checkpoint_missing" .rollbackVerification [.database]

/-- The failure of a step, with the rollback that it starts. -/
def Manager.failAndRollback (reason : ReasonCode) : Prog Errors := do
  let errors ← M.rollback c reason
  pure (.code "candidate" reason :: errors)

def checkpointOf (operationID : Str) (staged : StageResult) : Checkpoint where
  operationID := operationID
  prior := staged.prior
  stagedArtifactDigest := staged.artifactDigest
  stagedConfigurationRevision := staged.configurationRevision

/-- The candidate with what its stage reported. -/
def Manager.withStage (staged : StageResult) : Candidate :=
  M.digests.rebind { c with
    beforeArtifactDigest := staged.prior.digest
    afterArtifactDigest := staged.artifactDigest
    configurationRevision := staged.configurationRevision }

def Manager.rollbackAfterStage (staged : StageResult)
    (reason : ReasonCode) : Prog Errors :=
  let c := M.withStage c staged
  if c.state = .preflighted then do
    let w : Written ← ask (.saveCheckpoint (checkpointOf c.operationID staged))
    match w.errors with
    | [] => do
      let out ← advance c .staged "stage_recovery_required" reason
      let errors ← M.rollbackWithPrior (if out.2.isEmpty then out.1 else c) staged.prior reason
      pure (.code "candidate" reason :: errors)
    | errors => pure (.code "candidate" reason :: errors)
  else do
    let errors ← M.rollbackWithPrior c staged.prior reason
    pure (.code "candidate" reason :: errors)

/-! ## Release of completed stages -/

/-- The candidate with its stage released. -/
def Candidate.released (now : ℤ) : Candidate :=
  { c with brokerStageReleased := true, revision := c.revision + 1, updatedAt := now }

def Manager.releaseCompletedStage (M : Manager) (c : Candidate) : Prog (Candidate × Errors) :=
  if c.brokerStageReleased || c.restoredUntrusted || c.state ≠ .committed then pure (c, [])
  else if M.lifecycle then do
    let ok : Bool ← ask
      (.releaseCompletedStage ⟨M.providerFence c, c.endpointID, c.candidateDigest⟩)
    if ok then do
      let now : ℤ ← ask .now
      let next := c.released now
      let w : Written ← ask (.updateCandidateCASWithJournal next c.revision c.state
        "stage_authority_released".toList none)
      match w.errors with
      | [] => pure (next, [])
      | errors => pure (c, errors)
    else pure (c, [.provider])
  else pure (c, [.code "release_stage" .providerUnavailable])

def Manager.releaseAll (M : Manager) : List Candidate → Prog Errors
  | [] => pure []
  | c :: rest => do
    let out ← M.releaseCompletedStage c
    match out.2 with
    | [] => M.releaseAll rest
    | errors => pure errors

def Manager.reconcileCompletedStageReleases : Prog Errors := do
  let debts : Option (List Candidate) ← ask .stageReleaseDebts
  match debts with
  | none => pure [.database]
  | some debts => M.releaseAll debts

/-! ## Start -/

structure StartRequest where
  policy : Str
  idempotencyKey : Str
  expectedPreviewRevision : Str
  expectedPostureRevision : Str
  expectedEndpointRevision : Str
  expectedRecoveryRevision : Str
  expectedProviderRevision : Str
  endpointID : Str
  principalID : Str
  authenticationClass : Str
  acknowledged : Bool

/-- The candidate of a successful start; a replayed one comes without a verifier. -/
structure StartResult where
  candidate : Candidate
  verifier : Str

def StartResult.zero : StartResult := ⟨.zero, []⟩

def failed (p : Prog Errors) : Prog (StartResult × Errors) := do
  let errors ← p
  pure (.zero, errors)

def completedStageMatchesCandidate (staged : StageResult) (c : Candidate) : Bool :=
  staged.artifactDigest = c.candidateDigest && staged.endpointID = c.endpointID &&
    staged.providerRevision = c.providerRevision && validDigest staged.configurationRevision &&
    validDigest staged.prior.digest

/-- `Start` from the armed reconnect on. -/
def Manager.requireReconnect (verifier : Str) :
    Prog (StartResult × Errors) := do
  let out ← advance c .reconnectRequired "reconnect_required" none
  match out.2 with
  | [] => pure (⟨out.1, verifier⟩, [])
  | _ => failed (M.failAndRollback out.1 .operationStateConflict)

def Manager.challengeFor (request : StartRequest) (c : Candidate) (verifier : Str)
    (now : ℤ) : Challenge where
  operationID := c.operationID
  candidateDigest := c.candidateDigest
  markerDigest := M.digests.markerDigest c.operationID c.candidateDigest
  endpointID := request.endpointID
  principalID := request.principalID
  authenticationClass := request.authenticationClass
  serviceRevision := c.serviceRevision
  binaryRevision := c.binaryRevision
  configurationRevision := c.configurationRevision
  verifierDigest := M.digests.digestString verifier
  issuedAt := now
  expiresAt := c.reconnectExpiresAt
  consumedAt := 0
  revision := 1

/-- `Start` from the stored challenge on. -/
def Manager.armReconnect (M : Manager) (c : Candidate) (ch : Challenge) (verifier : Str) :
    Prog (StartResult × Errors) :=
  if M.armer then do
    let ok : Bool ← ask (.armReconnect ⟨M.providerFence c, ch.markerDigest, verifier, ch.endpointID,
      ch.principalID, ch.authenticationClass⟩ ch.expiresAt)
    if ok then M.requireReconnect c verifier
    else failed (M.failAndRollback c .reconnectProofInvalid)
  else M.requireReconnect c verifier

/-- `Start` from the reload on. -/
def Manager.issueChallenge (request : StartRequest) (c : Candidate) (now : ℤ) :
    Prog (StartResult × Errors) := do
  let id : Option Str ← ask .randomID
  match id with
  | none => failed (M.failAndRollback c .reconnectProofInvalid)
  | some id => do
    let verifier := "ssh-proof:".toList ++ id
    let ch := M.challengeFor request c verifier now
    let w : Written ← ask (.saveChallenge ch)
    match w.errors with
    | [] => M.armReconnect c ch verifier
    | _ => failed (M.failAndRollback c .operationStateConflict)

/-- Answered by the provider that was asked. -/
def reloadAccepted (providerRevision : Str) (r : ReloadResult) : Bool :=
  r.providerRevision = providerRevision && r.serviceRevision ≠ [] && r.configurationRevision ≠ []

/-- The candidate with what its reload reported and the end of its reconnect. -/
def Manager.withReload (r : ReloadResult) (now : ℤ) : Candidate :=
  M.digests.rebind { c with
    serviceRevision := r.serviceRevision
    configurationRevision := r.configurationRevision
    reconnectExpiresAt := min (now + maxChallengeLifetime) c.earliestSafetyExpiry }

/-- `Start` from the pending reload on. -/
def Manager.reloadService (request : StartRequest) (c : Candidate) (now : ℤ) :
    Prog (StartResult × Errors) := do
  let reloaded : Option ReloadResult ← ask (.reloadSelectedService
    ⟨M.providerFence c, c.endpointID, c.afterArtifactDigest, false⟩)
  match reloaded.filter (reloadAccepted c.providerRevision) with
  | none => failed (M.failAndRollback c .configurationMismatch)
  | some r => M.issueChallenge request (M.withReload c r now) now

def validationAccepted (providerRevision : Str) (v : ValidationResult) : Bool :=
  v.syntaxValid && v.effectiveValid && v.reasonCodes.isEmpty &&
    v.providerRevision = providerRevision

/-- `Start` from the validation on. -/
def Manager.pendReload (request : StartRequest) (c : Candidate) (now : ℤ) :
    Prog (StartResult × Errors) := do
  let out ← advance c .validated "candidate_validated" none
  match out.2 with
  | [] => do
    let out ← advance out.1 .reloadPending "reload_pending" none
    match out.2 with
    | [] => M.reloadService request out.1 now
    | _ => failed (M.failAndRollback out.1 .operationStateConflict)
  | _ => failed (M.failAndRollback out.1 .operationStateConflict)

/-- `Start` from the staged candidate on. -/
def Manager.validateStaged (request : StartRequest) (c : Candidate) (now : ℤ) :
    Prog (StartResult × Errors) := do
  let validated : Option ValidationResult ← ask (.validateManagedPolicy
    ⟨M.providerFence c, c.endpointID, c.afterArtifactDigest⟩)
  match validated.filter (validationAccepted c.providerRevision) with
  | none => failed (M.failAndRollback c .configurationMismatch)
  | some _ => M.pendReload request c now

/-- `Start` from the matching stage on. -/
def Manager.checkpointStage (request : StartRequest) (c : Candidate)
    (staged : StageResult) (now : ℤ) : Prog (StartResult × Errors) := do
  let w : Written ← ask (.saveCheckpoint (checkpointOf c.operationID staged))
  match w.errors with
  | [] => do
    let out ← advance (M.withStage c staged) .staged "dropin_staged" none
    match out.2 with
    | [] => M.validateStaged request out.1 now
    | _ => failed (M.rollbackAfterStage out.1 staged .operationStateConflict)
  | _ => failed (M.rollbackAfterStage c staged .operationStateConflict)

/-- `Start` from the preflighted candidate on. -/
def Manager.stage (M : Manager) (request : StartRequest) (c : Candidate) (now : ℤ) :
    Prog (StartResult × Errors) :=
  if M.lifecycle then do
    let reply : StageReply ← ask (.stageManagedPolicy
      ⟨M.providerFence c, c.endpointID, c.policy, c.candidateDigest⟩)
    if completedStageMatchesCandidate reply.result c then
      if reply.failed then
        failed do
          let errors ← M.rollbackAfterStage c reply.result .configurationMismatch
          pure (.provider :: errors)
      else M.checkpointStage request c reply.result now
    else
      failed (requireManualRecovery c "stage_outcome_requires_recovery"
        (if reply.failed then .configurationMismatch else .revisionMismatch)
        [if reply.failed then .provider else .code "stage" .revisionMismatch])
  else failed (requireManualRecovery c "stage_recovery_authority_unavailable" .providerUnavailable
    [.code "stage" .providerUnavailable])

def Manager.newCandidate (request : StartRequest) (preview : Preview)
    (posture : Posture) (operationID : Str) (now : ℤ) : Candidate :=
  M.digests.rebind { Candidate.zero with
    operationID
    idempotencyKey := request.idempotencyKey
    endpointID := request.endpointID
    state := .draft
    revision := 1
    policy := request.policy
    preservation := preview.preservation
    candidateDigest := preview.candidateDigest
    postureRevision := posture.semanticRevision
    endpointRevision := preview.endpointRevision
    recoveryRevision := preview.recoveryRevision
    providerRevision := preview.providerRevision
    binaryRevision := posture.binaryRevision
    serviceRevision := posture.serviceRevision
    configurationRevision := posture.configurationRevision
    earliestSafetyExpiry := preview.preservation.earliestSafetyExpiry
    createdAt := now
    updatedAt := now }

/-- `Start` from the accepted preview on. -/
def Manager.createDraft (request : StartRequest) (preview : Preview)
    (posture : Posture) : Prog (StartResult × Errors) := do
  let now : ℤ ← ask .now
  let id : Option Str ← ask .randomID
  match id with
  | none => pure (.zero, [.random])
  | some id => do
    let c := M.newCandidate request preview posture ("ssh-operation:".toList ++ id) now
    let saved : Written ← ask .savePosture
    match saved.errors with
    | [] => do
      let created : Written ← ask (.createCandidateWithJournal c)
      match created.errors with
      | [] => do
        let out ← advance c .preflighted "preflight_completed" none
        match out.2 with
        | [] => M.stage request out.1 now
        | errors => pure (.zero, errors)
      | errors => pure (.zero, errors)
    | errors => pure (.zero, errors)

/-- The posture of a preview that has the revisions the request expects. -/
def expectedPosture (request : StartRequest) (preview : Preview) : Option Posture :=
  preview.posture.filter fun posture =>
    request.expectedPreviewRevision = preview.revision &&
      request.expectedPostureRevision = posture.semanticRevision &&
      request.expectedEndpointRevision = preview.endpointRevision &&
      request.expectedRecoveryRevision = preview.recoveryRevision &&
      request.expectedProviderRevision = preview.providerRevision

def StartRequest.wellFormed (request : StartRequest) : Bool :=
  safeIdentifier request.idempotencyKey 96 && safeIdentifier request.endpointID 256 &&
    safeIdentifier request.principalID 256 &&
    ["publickey".toList, "certificate".toList].contains request.authenticationClass

def Manager.start (request : StartRequest) : Prog (StartResult × Errors) :=
  if request.wellFormed then do
    let errors ← M.reconcileCompletedStageReleases
    match errors with
    | [] => do
      let replay : Lookup Candidate ← ask (.candidateByIdempotency request.idempotencyKey)
      match replay with
      | .found c =>
        if c.policy = request.policy && c.endpointID = request.endpointID then pure (⟨c, []⟩, [])
        else pure (.zero, [.code "candidate" .idempotencyConflict])
      | .failed => pure (.zero, [.database])
      | .missing => do
        let preview : Option Preview ← ask (.preview request.policy request.acknowledged)
        match preview with
        | none => pure (.zero, [.provider])
        | some preview =>
          match expectedPosture request preview with
          | none => pure (.zero, [.code "candidate" .revisionMismatch])
          | some posture =>
            if preview.possible then M.createDraft request preview posture
            else pure (.zero,
              [.code "candidate" (preview.reasonCodes.headD .providerUnavailable)])
    | errors => pure (.zero, errors)
  else pure (.zero, [.code "candidate" .malformedProviderEvidence])

/-! ## Confirm -/

structure ConfirmRequest where
  operationID : Str
  expectedRevision : ℕ
  providerEvidenceRef : Str

/-- The challenge answers for the candidate: both have the same revisions. -/
def Challenge.binds (ch : Challenge) (c : Candidate) : Bool :=
  ch.candidateDigest = c.candidateDigest && ch.binaryRevision = c.binaryRevision &&
    ch.serviceRevision = c.serviceRevision && ch.configurationRevision = c.configurationRevision

/-- The stored challenge of a candidate, if the request proves it and it is still open. -/
def Manager.openChallenge (request : ConfirmRequest) (c : Candidate) (now : ℤ) :
    Lookup Challenge → Option Challenge
  | .found ch =>
    if !(ch.expiresAt ≤ now) && ch.consumedAt = 0 && ch.binds c &&
        M.digests.digestString request.providerEvidenceRef = ch.verifierDigest
    then some ch
    else none
  | _ => none

/-- A candidate of before endpoints were stored takes the one of its challenge. -/
def Manager.adoptEndpoint (ch : Challenge) : Candidate :=
  if c.endpointID = [] then M.digests.rebind { c with endpointID := ch.endpointID } else c

/-- The proof is fresh, independent and about this challenge. -/
def proofAccepted (ch : Challenge) (p : ReconnectResult) : Bool :=
  p.verified && p.independent && p.freshSession && p.operationBound &&
    p.endpointID = ch.endpointID && p.principalID = ch.principalID &&
    p.authenticationClass = ch.authenticationClass && p.evidenceRevision ≠ []

def Manager.recoveryPath (p : ReconnectResult) (now : ℤ) :
    RecoveryPath where
  id := "recovery:".toList ++ M.digests.recoveryID c.operationID p.endpointID p.principalID
  endpointID := p.endpointID
  principalID := p.principalID
  evidenceProvider := M.providerID
  targetOperation := c.operationID
  verifiedAt := now
  expiresAt := min (now + maxRecoveryLifetime) c.earliestSafetyExpiry
  sourceRevision := p.evidenceRevision
  configurationRevision := c.configurationRevision
  serviceRevision := c.serviceRevision
  binaryRevision := c.binaryRevision

/-- The host still has the candidate's artifact, service and binary, and access is preserved. -/
def stillApplied (preservation : Preservation) :
    Option InspectResult → Option Observation → Bool
  | some inspected, some observed =>
    !inspected.symlink && inspected.present && inspected.artifactDigest = c.afterArtifactDigest &&
      observed.posture.valid && observed.providerRevision = c.providerRevision &&
      observed.posture.binaryRevision = c.binaryRevision &&
      observed.posture.serviceRevision = c.serviceRevision &&
      observed.posture.configurationRevision = c.configurationRevision && preservation.safe
  | _, _ => false

def rejectConfirm (reason : ReasonCode) : Prog (Candidate × Errors) :=
  pure (.zero, [.code "confirm" reason])

/-- The candidate with the plan and the time of its commit. -/
def Manager.withPlan (preservation : Preservation) (now : ℤ) :
    Candidate :=
  M.digests.rebind { c with preservation, reconciledAt := now }

/-- `Confirm` of a candidate that is still applied. -/
def Manager.commit (previous : Candidate) (ch : Challenge) (path : RecoveryPath)
    (preservation : Preservation) (now : ℤ) : Prog (Candidate × Errors) := do
  let c := M.withPlan previous preservation now
  if transitionAllowed c.state .committed then do
    let c := c.next .committed now none
    let w : Written ← ask (.commitCandidateCASWithJournalAndEvidence c previous.revision
      previous.state ch.revision path now)
    match w.errors with
    | [] => do
      let out ← M.releaseCompletedStage c
      -- A release that fails stays a debt of the row.
      pure (if out.2.isEmpty then out.1 else c, [])
    | errors => do
      let rolled ← M.failAndRollback previous .operationStateConflict
      pure (.zero, errors ++ rolled)
  else do
    let rolled ← M.failAndRollback previous .operationStateConflict
    pure (.zero, rolled)

/-- `Confirm` from the accepted proof on. -/
def Manager.confirmProved (ch : Challenge) (path : RecoveryPath) :
    Prog (Candidate × Errors) := do
  let inspected : Option InspectResult ← ask
    (.inspectManagedPolicy ⟨M.providerFence c, c.endpointID⟩)
  let observed : Option Observation ← ask .observe
  let now : ℤ ← ask .now
  let preservation : Preservation ← ask (.plan c path)
  if stillApplied c preservation inspected observed then M.commit c ch path preservation now
  else do
    let rolled ← M.failAndRollback c .reconnectProofInvalid
    pure (.zero, rolled)

/-- `Confirm` from the open challenge on. -/
def Manager.confirmOpen (request : ConfirmRequest) (c : Candidate) (ch : Challenge)
    (now : ℤ) : Prog (Candidate × Errors) :=
  if c.endpointID = ch.endpointID && safeIdentifier c.endpointID 256 then do
    let proof : Option ReconnectResult ← ask (.verifyReconnect ⟨M.providerFence c, ch.markerDigest,
      request.providerEvidenceRef, ch.endpointID, ch.principalID, ch.authenticationClass⟩)
    match proof.filter (proofAccepted ch) with
    | none => rejectConfirm .reconnectProofInvalid
    | some p => M.confirmProved c ch (M.recoveryPath c p now)
  else rejectConfirm .reconnectProofInvalid

def Manager.confirm (request : ConfirmRequest) : Prog (Candidate × Errors) := do
  let found : Lookup Candidate ← ask (.candidate request.operationID)
  match found with
  | .found c =>
    if c.state = .reconnectRequired && c.revision = request.expectedRevision &&
        !c.restoredUntrusted then do
      let now : ℤ ← ask .now
      let stored : Lookup Challenge ← ask (.challenge c.operationID)
      match M.openChallenge request c now stored with
      | none => rejectConfirm .reconnectProofInvalid
      | some ch => M.confirmOpen request (M.adoptEndpoint c ch) ch now
    else rejectConfirm .operationStateConflict
  | _ => pure (.zero, [.database])

/-! ## Rollback and reconciliation -/

/-- The candidate with the endpoint that was stored with it or with its challenge. -/
def Manager.bindPersistedEndpoint : Prog (Candidate × Errors) :=
  if c.endpointID ≠ [] then
    if safeIdentifier c.endpointID 256 then pure (c, [])
    else pure (c, [.code "candidate_endpoint" .malformedProviderEvidence])
  else do
    let stored : Lookup Challenge ← ask (.challenge c.operationID)
    match stored with
    | .found ch =>
      if safeIdentifier ch.endpointID 256 && ch.binds c then
        pure (M.digests.rebind { c with endpointID := ch.endpointID }, [])
      else pure (c, [.code "candidate_endpoint" .rollbackVerification])
    | _ => pure (c, [.code "candidate_endpoint" .rollbackVerification])

/-- The end of `ReconcileExpired` and `ReconcileStartup`. -/
def Manager.bindAndRollback (reason : ReasonCode) : Prog Errors := do
  let bound ← M.bindPersistedEndpoint c
  match bound.2 with
  | [] => M.rollback bound.1 reason
  | errors => requireManualRecovery bound.1 "rollback_endpoint_unbound" .rollbackVerification errors

structure RollbackRequest where
  operationID : Str
  expectedRevision : ℕ

def Manager.rollbackOperation (request : RollbackRequest) :
    Prog (Candidate × Errors) := do
  let found : Lookup Candidate ← ask (.candidate request.operationID)
  match found with
  | .found c =>
    if c.revision ≠ request.expectedRevision || c.state.terminal || c.state = .draft ||
        c.state = .preflighted then
      pure (.zero, [.code "rollback" .operationStateConflict])
    else do
      let bound ← M.bindPersistedEndpoint c
      match bound.2 with
      | [] => do
        let errors ← M.rollback bound.1 .reconnectProofInvalid
        let current : Lookup Candidate ← ask (.candidate request.operationID)
        match current with
        | .found c => pure (c, errors)
        | _ => pure (.zero, if errors.isEmpty then [.database] else errors)
      | errors => do
        let errors ← requireManualRecovery bound.1 "rollback_endpoint_unbound"
          .rollbackVerification errors
        pure (.zero, errors)
  | _ => pure (.zero, [.database])

/-- Past the end of its reconnect or of its evidence. -/
def Candidate.expired (now : ℤ) : Bool :=
  (c.state = .reconnectRequired && c.reconnectExpiresAt > 0 && c.reconnectExpiresAt ≤ now) ||
    c.earliestSafetyExpiry ≤ now

/-- A candidate of a restored database is not touched on the host. -/
def refuseRestored : Prog Errors :=
  requireManualRecovery { c with reasonCodes := c.reasonCodes ++ [.restoredStateUntrusted] }
    "restored_state_requires_recovery" .restoredStateUntrusted []

def Manager.reconcileExpired : Prog Errors := do
  let errors ← M.reconcileCompletedStageReleases
  match errors with
  | [] => do
    let active : Lookup Candidate ← ask .activeCandidate
    match active with
    | .missing => pure []
    | .failed => pure [.database]
    | .found c => do
      let now : ℤ ← ask .now
      if c.restoredUntrusted then refuseRestored c
      else if c.expired now then M.bindAndRollback c .reconnectProofInvalid
      else pure []
  | errors => pure errors

/-- The candidate with what its checkpoint recorded. -/
def Manager.withCheckpoint (k : Checkpoint) : Candidate :=
  M.digests.rebind { c with
    beforeArtifactDigest := k.prior.digest
    afterArtifactDigest := k.stagedArtifactDigest
    configurationRevision := k.stagedConfigurationRevision }

/-- `ReconcileStartup` of a preflighted candidate, once the lookup of its checkpoint is final. -/
def Manager.rollbackStaged : Lookup Checkpoint → Prog Errors
  | .found k => do
    let out ← advance (M.withCheckpoint c k) .staged "startup_staged_checkpoint_recovered"
      (some .operationStateConflict)
    match out.2 with
    | [] => M.bindAndRollback out.1 .operationStateConflict
    | errors => pure errors
  | _ => pure [.database]

/-- `ReconcileStartup` of a preflighted candidate without a checkpoint. -/
def Manager.recoverStage : Prog Errors :=
  if M.lifecycle then do
    let reply : StageReply ← ask
      (.recoverCompletedStage ⟨M.providerFence c, c.endpointID, c.candidateDigest⟩)
    if !reply.failed && completedStageMatchesCandidate reply.result c then do
      let w : Written ← ask (.saveCheckpoint (checkpointOf c.operationID reply.result))
      match w.errors with
      | [] => do
        let found : Lookup Checkpoint ← ask (.checkpoint c.operationID)
        M.rollbackStaged c found
      -- The candidate stays retryable: the broker still owns the stage.
      | errors => pure errors
    else
      requireManualRecovery c "startup_stage_authority_unavailable" .rollbackVerification
        (if reply.failed then [.provider] else [])
  else requireManualRecovery c "startup_stage_authority_unavailable" .rollbackVerification []

def Manager.recoverPreflighted : Prog Errors := do
  let found : Lookup Checkpoint ← ask (.checkpoint c.operationID)
  match found with
  | .missing => M.recoverStage c
  | found => M.rollbackStaged c found

/-- What a new process does with the candidates of the last one. -/
def Manager.reconcileStartup : Prog Errors := do
  let errors ← M.reconcileCompletedStageReleases
  match errors with
  | [] => do
    let active : Lookup Candidate ← ask .activeCandidate
    match active with
    | .missing => do
      let w : Written ← ask .pruneHistory
      pure w.errors
    | .failed => pure [.database]
    | .found c =>
      if c.restoredUntrusted then refuseRestored c
      else if c.state = .draft then
        requireManualRecovery c "startup_state_requires_recovery" .operationStateConflict []
      else if c.state = .preflighted then M.recoverPreflighted c
      else M.bindAndRollback c .operationStateConflict
  | errors => pure errors

end Solovey.Ssh
