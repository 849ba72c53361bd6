import Solovey.Operations.Store

/-!
# The manager of operations

`service/operations/manager.go`. The methods of a manager are programs: a section under the
manager's mutex, a call on the store, a reading of the clock and an answer from outside (the probe
of a process, the recovery backend, a reconciler, the audit log) are one instruction each, and
`next` is the rest of the method, or of its caller.

The manager is taken between its start and its stop. What a reconciler does with the manager are
further calls of its methods.
-/

namespace Solovey.Operations

open Solovey.Text

/-! ## Managers -/

/-- The fixed part of a manager: its options, and for which kinds of operations backends are
registered. The process-wide gate is that of its process. -/
structure Config where
  process : ℕ
  instanceID : Str
  pid : ℤ
  lease : ℤ
  hasRecovery : Kind → Bool
  hasReconciler : Kind → Bool
  hasInspector : Kind → Bool

/-- The fields of a manager that its mutex guards. -/
structure Fields where
  active : Option Row
  ownsGate : Bool
  recoveredSuspect : List Str
  runtimeFailures : Str → ℕ

def Fields.new : Fields := ⟨none, false, [], fun _ => 0⟩

def Fields.isActive (fields : Fields) (operationID : Str) : Bool :=
  fields.active.any (·.operationID == operationID)

/-- An answer from outside of the manager. -/
inductive Answer
  | yes
  | no
  | failed
  /-- A `RuntimeRecoveryError`. -/
  | runtimeFailed
  /-- The state that a reconciler decides for. -/
  | decision (state : OpState)
  deriving DecidableEq

inductive Code
  | done
  | tryAcquireGate (next : Bool → Code)
  | releaseGate (next : Code)
  /-- `m.active = &item` -/
  | setActive (item : Row) (next : Code)
  /-- `m.active = nil` and `m.releaseGateLocked()` in one section -/
  | clearActive (next : Code)
  /-- The last section of `ForceUnlock`. -/
  | unlock (operationID : Str) (next : Code)
  /-- The last section of `Heartbeat`. -/
  | refresh (operationID : Str) (item : Row) (next : Code)
  /-- A section that only reads. -/
  | read (next : Fields → Code)
  | markSuspect (operationID : Str) (next : Code)
  /-- `m.runtimeFailures[operationID]++`, and what the section reads besides. -/
  | countFailure (operationID : Str) (next : Fields → Code)
  | store (call : Call) (next : Except StoreError call.Reply → Code)
  | clock (next : ℤ → Code)
  | newID (next : Str → Code)
  | ask (next : Answer → Code)

/-! ## States of an operation -/

def isTerminal : OpState → Bool
  | .applied | .rolledBack | .rollbackFailed | .reconcileRequired | .abandoned | .forceUnlocked
  | .forgotten | .cancelled => true
  | _ => false

def allowedFromStates : OpState → List OpState
  | .restoringRuntime => [.applied, .reconcileRequired]
  | .applying => [.prepared]
  | .health => [.applying]
  | .applied | .healthFailed => [.health, .applying]
  | .rollingBack => [.applying, .health, .healthFailed]
  | .rolledBack | .rollbackFailed => [.rollingBack, .healthFailed]
  | .reconcileRequired => [.prepared, .applying, .health, .healthFailed, .rollingBack, .applied]
  | .lockSuspect => [.prepared, .applying, .healthFailed, .rollingBack]
  | .abandoned => [.prepared, .applying, .healthFailed, .rollingBack, .lockSuspect]
  | .cancelled => [.prepared, .applying]
  | .prepared | .forceUnlocked | .forgotten => []

def reconcileTerminalState : OpState → Bool
  | .applied | .rolledBack | .rollbackFailed | .reconcileRequired | .cancelled | .forgotten => true
  | _ => false

/-! ## Acquire -/

def kindOf (kind : Str) : Option Kind :=
  if kind = "firewall".toList then some .firewall
  else if kind = "fronting".toList then some .fronting
  else if kind = "node".toList then some .node
  else if kind = "native_fallback".toList then some .nativeFallback
  else if kind = "local_proxy".toList then some .localProxy
  else none

/-- `initialState` is `none` for the default. -/
structure AcquireRequest where
  kind : Str
  idempotencyKey : Str
  helperRevision : Str
  actor : Str
  port : Option ℤ
  initialState : Option OpState

variable (self : Config) (item : Row)

/-- The part of `Acquire` behind the gate. -/
def acquireGated (request : AcquireRequest) (kind : Kind) : Code :=
  let state := request.initialState.getD .prepared
  if state ≠ .prepared ∧ state ≠ .applying ∧ state ≠ .rollingBack then .releaseGate .done
  else .clock fun now => .newID fun operationID =>
    .store (.acquireOperationLock
      { operationID := operationID
        kind := kind
        state := state
        idempotencyKey := trimSpace request.idempotencyKey
        helperRevision := trimSpace request.helperRevision
        lockedByPID := self.pid
        lockedByInstanceID := self.instanceID
        now := now
        expiresAt := now + self.lease }) fun reply =>
      match reply with
      | .error _ => .releaseGate .done
      | .ok (item, joined) => if joined then .releaseGate .done else .setActive item .done

def acquire (request : AcquireRequest) : Code :=
  match kindOf (trimSpace request.kind) with
  | none => .done
  | some kind =>
    if trimSpace request.idempotencyKey = [] ∨ trimSpace request.actor = [] ∨
        (request.port.any fun port => decide (port < 1 ∨ 65535 < port)) then .done
    else .store (.operationByIdempotencyKey (trimSpace request.idempotencyKey)) fun found =>
      match found with
      | .error .recordNotFound =>
        .tryAcquireGate fun entered => if entered then acquireGated self request kind else .done
      | _ => .done

/-! ## Transitions -/

/-- `transition`; `next` gets the row, or `none` for an error. -/
def transition (operationID : Str) (revision : ℤ) (toState : OpState)
    (binding : Option Str) (next : Option Row → Code) : Code :=
  .read fun fields =>
    match fields.active with
    | none => next none
    | some active =>
      if active.operationID ≠ operationID ∨
          toState = .restoringRuntime ∧ active.kind ≠ .firewall ∨
          allowedFromStates toState = [] then next none
      else .clock fun now =>
        .store (.updateOperationLockFenced
          { operationID := operationID
            revision := revision
            instanceID := self.instanceID
            pid := self.pid
            fromStates := allowedFromStates toState
            toState := toState
            helperRevision := binding
            now := now
            expiresAt := now + self.lease }) fun reply =>
          match reply with
          | .error _ => next none
          | .ok item =>
            if isTerminal toState then .clearActive (next (some item))
            else .setActive item (next (some item))

/-- `beginRollback`: `fromState` is applied, or for retained authority reconcile-required. -/
def beginRollback (operationID : Str) (revision : ℤ) (fromState : OpState)
    (binding : Option Str) : Code :=
  .tryAcquireGate fun entered =>
    if entered then
      .clock fun now =>
        .store (.reclaimOperationLock
          { operationID := operationID
            revision := revision
            instanceID := self.instanceID
            pid := self.pid
            fromState := fromState
            toState := .rollingBack
            helperRevision := binding
            now := now
            expiresAt := now + self.lease
            requireIdle := fromState == .reconcileRequired }) fun reply =>
          match reply with
          | .error _ => .releaseGate .done
          | .ok item => .setActive item .done
    else .done

/-- `Heartbeat` looks neither at the state of the operation nor at its lease. -/
def heartbeat (operationID : Str) (revision : ℤ) : Code :=
  .clock fun now =>
    .store (.heartbeatOperationLock operationID self.instanceID self.pid revision now
      (now + self.lease)) fun reply =>
      match reply with
      | .error _ => .done
      | .ok item => .refresh operationID item .done

/-- A tick of `run`: a heartbeat of the active operation, unless it is only prepared. -/
def tick : Code :=
  .read fun fields =>
    match fields.active with
    | none => .done
    | some active =>
      if active.state = .prepared then .done
      else heartbeat self active.operationID active.revision

def forgetState (operationID : Str) (revision : ℤ) : Code :=
  .ask fun audited =>
    if audited = .yes then
      .clock fun now => .store (.forgetOperationState operationID revision now) fun _ => .done
    else .done

def forceUnlock (operationID : Str) (revision : ℤ) : Code :=
  .read fun fields =>
    if fields.isActive operationID || fields.recoveredSuspect.contains operationID then
      .ask fun audited =>
        if audited = .yes then
          .clock fun now => .store (.forceUnlockOperation operationID revision now) fun reply =>
            match reply with
            | .error _ => .done
            | .ok item => .unlock item.operationID .done
        else .done
    else .done

/-! ## Recovery -/

def attemptRecoveryRollback (next : OpState → Code) : Code :=
  .clock fun now =>
    if self.hasRecovery item.kind then
      .ask fun rolledBack =>
        if rolledBack = .yes then
          .store (.markOperationRecovery item.operationID (item.recoveryAttempts + 1) now "") fun _ =>
            next .rolledBack
        else
          .store (.markOperationRecovery item.operationID (item.recoveryAttempts + 1) now
            "rollback_failed") fun _ =>
            .ask fun bundled => next (if bundled = .yes then .rollbackFailed else .lockSuspect)
    else
      .store (.markOperationRecovery item.operationID (item.recoveryAttempts + 1) now
        "rollback_capability_unavailable") fun _ => next .lockSuspect

/-- `recoverRollingBack`; `next` gets whether it succeeded. -/
def recoverRollingBack (next : Bool → Code) : Code :=
  .tryAcquireGate fun entered =>
    if entered then
      .clock fun now =>
        .store (.reclaimOperationLock
          { operationID := item.operationID
            revision := item.revision
            instanceID := self.instanceID
            pid := self.pid
            fromState := .rollingBack
            toState := .rollingBack
            helperRevision := none
            now := now
            expiresAt := now + self.lease
            requireIdle := false }) fun reply =>
          match reply with
          | .error _ => .releaseGate (next false)
          | .ok claimed => .setActive claimed <|
            attemptRecoveryRollback self claimed fun finalState =>
              transition self claimed.operationID claimed.revision finalState none fun final =>
                if final.isSome then next true else .releaseGate (next false)
    else next false

def recoveryTarget (next : OpState → Code) : Code :=
  if item.state = .prepared then
    next (if item.kind = .fronting then .cancelled else .abandoned)
  else if item.state = .lockSuspect then next .lockSuspect
  else if 0 < item.recoveryAttempts then
    if self.hasRecovery item.kind then
      .ask fun bundled => next (if bundled = .yes then .rollbackFailed else .lockSuspect)
    else next .rollbackFailed
  else if !self.hasRecovery item.kind then next .abandoned
  else
    .ask fun artifact =>
      match artifact with
      | .yes => next .rollingBack
      | .no => next (if item.kind = .fronting then .cancelled else .abandoned)
      | _ => .clock fun now =>
        .store (.markOperationRecovery item.operationID (item.recoveryAttempts + 1) now
          "artifact_integrity_failed") fun _ =>
          .ask fun bundled => next (if bundled = .yes then .rollbackFailed else .lockSuspect)

/-- `recordRuntimeExecutionFailure` of an error that is a `RuntimeRecoveryError`. -/
def recordRuntimeFailure (claimed : Row) (next : Code) : Code :=
  .countFailure claimed.operationID fun fields =>
    let claimed := if fields.isActive claimed.operationID then fields.active.getD claimed
      else claimed
    let attempts := max (fields.runtimeFailures claimed.operationID : ℤ)
      (claimed.recoveryAttempts + 1)
    .clock fun now =>
      .store (.recordRuntimeRecoveryFailure claimed attempts now) fun _ => next

/-- The end of a reconciliation that has been decided. -/
def finalizeReconcile (claimed : Row) (state : OpState) (next : Bool → Code) : Code :=
  .read fun fields =>
    let claimed := if fields.isActive claimed.operationID then fields.active.getD claimed
      else claimed
    .clock fun now =>
      .store (.recoverOperationLock claimed.operationID claimed.revision [claimed.state] state now)
        fun reply =>
          match reply with
          | .ok _ => .clearActive (next true)
          | .error _ =>
            if claimed.kind = .firewall ∧ claimed.state = .restoringRuntime then
              recordRuntimeFailure claimed (.clearActive (next false))
            else .clearActive (next false)

/-- The claim of a row by a reconciler; `inspected` says whether its inspection failed. -/
def claimReconcile (inspectionFailed : Bool) (next : Bool → Code) :
    Code :=
  .clock fun now =>
    .store (.reclaimOperationLock
      { operationID := item.operationID
        revision := item.revision
        instanceID := self.instanceID
        pid := self.pid
        fromState := item.state
        toState := item.state
        helperRevision := none
        now := now
        expiresAt := now + self.lease
        requireIdle := false }) fun reply =>
      match reply with
      | .error _ => .releaseGate (next false)
      | .ok claimed => .setActive claimed <|
        if inspectionFailed then recordRuntimeFailure claimed (.clearActive (next false))
        else .ask fun reconciled =>
          match reconciled with
          | .decision state =>
            if reconcileTerminalState state then finalizeReconcile claimed state next
            else .clearActive (next false)
          | .runtimeFailed => recordRuntimeFailure claimed (.clearActive (next false))
          | _ => .clearActive (next false)

/-- `reconcileOwnedKind`; the first answer says whether the context has ended. -/
def reconcileOwnedKind (next : Bool → Code) : Code :=
  .ask fun cancelled =>
    if cancelled = .yes then next false
    else .tryAcquireGate fun entered =>
      if entered then
        if self.hasInspector item.kind then
          .ask fun needed =>
            match needed with
            | .yes => claimReconcile self item false next
            | .runtimeFailed => claimReconcile self item true next
            | .no => .releaseGate (next true)
            | _ => .releaseGate (next false)
        else claimReconcile self item false next
      else next false

def ownedBy : Bool :=
  item.lockedByInstanceID == self.instanceID && item.lockedByPID == some self.pid

def reconcileKindState : Bool :=
  item.state == .applied || item.state == .reconcileRequired || item.state == .restoringRuntime ||
    item.state == .rollingBack && item.kind == .fronting

/-- The probe of the process that holds a row: `yes` if it is alive, `no` if it is not. -/
def probe (next : Answer → Code) : Code :=
  if item.lockedByPID = none then next .failed else .ask next

/-- One row of `Recover` whose kind has a reconciler. -/
def recoverReconciled (now : ℤ) (item : Row) (next : Code) : Code :=
  .read fun fields =>
    if 2 ≤ fields.runtimeFailures item.operationID ∨
        item.recoveryErrorCode = "runtime_restore_execution_failed" ∧ 2 ≤ item.recoveryAttempts ∨
        (fields.isActive item.operationID && ownedBy self item) then next
    else
      let reconcile := reconcileOwnedKind self item fun ok => if ok then next else .done
      if item.state = .restoringRuntime ∧ item.lockedByInstanceID ≠ self.instanceID then
        probe item fun alive =>
          if alive = .no ∧ item.expiresAt < now then reconcile else next
      else reconcile

/-- One row of `Recover` that another owner holds. -/
def recoverForeign (now : ℤ) (item : Row) (next : Code) : Code :=
  let rollBack (item : Row) := recoverRollingBack self item fun ok => if ok then next else .done
  let settle (toState : OpState) : Code :=
    if item.state = toState then
      if toState = .rollingBack then rollBack item
      else if toState = .lockSuspect then .markSuspect item.operationID next
      else next
    else
      .store (.recoverOperationLock item.operationID item.revision nonTerminalOperationLockStates
        toState now) fun reply =>
        match reply with
        | .error _ => .done
        | .ok updated =>
          if updated.state = .rollingBack then rollBack updated
          else if updated.state = .lockSuspect then .markSuspect item.operationID next
          else next
  probe item fun alive =>
    if alive = .no ∧ item.expiresAt < now then recoveryTarget self item settle
    else settle .lockSuspect

/-- One row of `Recover` on the general path: the gate is tried for, with any result. -/
def recoverGeneral (now : ℤ) (item : Row) (next : Code) : Code :=
  .tryAcquireGate fun _ =>
    if ownedBy self item then
      if item.state = .prepared ∧ item.expiresAt < now then
        transition self item.operationID item.revision
          (if item.kind = .fronting then .cancelled else .abandoned) none fun updated =>
            if updated.isSome then next else .done
      else next
    else recoverForeign self now item next

def recoverItem (now : ℤ) (item : Row) (next : Code) : Code :=
  if self.hasReconciler item.kind && reconcileKindState item then
    recoverReconciled self now item next
  else recoverGeneral self now item next

/-- The end of `Recover`. -/
def recoverEnd : Code :=
  .store (.listOperationLocks nonTerminalOperationLockStates) fun reply =>
    match reply with
    | .error _ => .done
    | .ok remaining => if remaining.isEmpty then .releaseGate .done else .done

def recoverItems (now : ℤ) (items : List Row) : Code :=
  items.foldr (recoverItem self now) recoverEnd

def recoverable : Bool :=
  item.nonTerminal ||
    (item.state == .applied || item.state == .reconcileRequired) && self.hasReconciler item.kind

def recover : Code :=
  .store (.listOperationLocks []) fun reply =>
    match reply with
    | .error _ => .done
    | .ok all => .clock fun now => recoverItems self now (all.filter (recoverable self))

/-! ## The methods -/

inductive Method
  | acquire (request : AcquireRequest)
  | transition (operationID : Str) (revision : ℤ) (toState : OpState) (binding : Option Str)
  | beginRollback (operationID : Str) (revision : ℤ) (binding : Option Str)
  | beginReconciledRollback (operationID : Str) (revision : ℤ)
  | heartbeat (operationID : Str) (revision : ℤ)
  | tick
  | forgetState (operationID : Str) (revision : ℤ)
  | forceUnlock (operationID : Str) (revision : ℤ)
  | recover

def Method.code : Method → Code
  | .acquire request => Operations.acquire self request
  | .transition operationID revision toState binding =>
    Operations.transition self operationID revision toState binding fun _ => .done
  | .beginRollback operationID revision binding =>
    Operations.beginRollback self operationID revision .applied binding
  | .beginReconciledRollback operationID revision =>
    Operations.beginRollback self operationID revision .reconcileRequired none
  | .heartbeat operationID revision => Operations.heartbeat self operationID revision
  | .tick => Operations.tick self
  | .forgetState operationID revision => Operations.forgetState operationID revision
  | .forceUnlock operationID revision => Operations.forceUnlock operationID revision
  | .recover => Operations.recover self

end Solovey.Operations
