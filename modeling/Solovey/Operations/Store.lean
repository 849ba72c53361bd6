import Solovey.Text.Strings

/-!
# The table of operations

`service/repository/operations.go` of the server protection: the persisted rows of dangerous
operations and the calls on them, each one transaction. An `UPDATE` has to hit exactly one row;
otherwise, and on every other error, the table stays as it was. Revisions are unbounded integers
here.
-/

namespace Solovey.Operations

open Solovey.Text

/-! ## Rows -/

inductive OpState
  | prepared
  | applying
  | restoringRuntime
  | health
  | healthFailed
  | rollingBack
  | lockSuspect
  | applied
  | rolledBack
  | rollbackFailed
  | reconcileRequired
  | abandoned
  | forceUnlocked
  | forgotten
  | cancelled
  deriving DecidableEq

def nonTerminalOperationLockStates : List OpState :=
  [.prepared, .applying, .health, .healthFailed, .rollingBack, .lockSuspect, .restoringRuntime]

def OpState.nonTerminal (state : OpState) : Bool := nonTerminalOperationLockStates.contains state

inductive Kind
  | firewall
  | fronting
  | node
  | nativeFallback
  | localProxy
  deriving DecidableEq

structure Row where
  id : ℕ
  operationID : Str
  kind : Kind
  state : OpState
  revision : ℤ
  idempotencyKey : Str
  helperRevision : Str
  lockedByPID : Option ℤ
  lockedByInstanceID : Str
  recoveryAttempts : ℤ
  recoveryErrorCode : String
  heartbeatAt : ℤ
  expiresAt : ℤ
  createdAt : ℤ
  updatedAt : ℤ
  deriving DecidableEq

abbrev Table := List Row

def Row.nonTerminal (row : Row) : Bool := row.state.nonTerminal

inductive StoreError
  | conflict
  | fenced
  | revisionConflict
  | recordNotFound
  /-- The call of the driver failed. -/
  | failed
  deriving DecidableEq

/-! ## Calls -/

structure AcquireInput where
  operationID : Str
  kind : Kind
  state : OpState
  idempotencyKey : Str
  helperRevision : Str
  lockedByPID : ℤ
  lockedByInstanceID : Str
  now : ℤ
  expiresAt : ℤ

structure FencedUpdate where
  operationID : Str
  revision : ℤ
  instanceID : Str
  pid : ℤ
  fromStates : List OpState
  toState : OpState
  helperRevision : Option Str
  now : ℤ
  expiresAt : ℤ

structure ReclaimUpdate where
  operationID : Str
  revision : ℤ
  instanceID : Str
  pid : ℤ
  fromState : OpState
  toState : OpState
  helperRevision : Option Str
  now : ℤ
  expiresAt : ℤ
  requireIdle : Bool

inductive Call
  | operationByIdempotencyKey (key : Str)
  | listOperationLocks (states : List OpState)
  | acquireOperationLock (input : AcquireInput)
  | updateOperationLockFenced (update : FencedUpdate)
  | heartbeatOperationLock (operationID instanceID : Str) (pid revision now expiresAt : ℤ)
  | reclaimOperationLock (update : ReclaimUpdate)
  | recoverOperationLock (operationID : Str) (expectedRevision : ℤ) (fromStates : List OpState)
    (toState : OpState) (now : ℤ)
  | forceUnlockOperation (operationID : Str) (expectedRevision now : ℤ)
  | forgetOperationState (operationID : Str) (expectedRevision now : ℤ)
  | markOperationRecovery (operationID : Str) (attempts now : ℤ) (code : String)
  | recordRuntimeRecoveryFailure (operation : Row) (attempts now : ℤ)

/-- What a call returns besides an error. -/
abbrev Call.Reply : Call → Type
  | .listOperationLocks _ => List Row
  | .acquireOperationLock _ => Row × Bool
  | .markOperationRecovery .. | .recordRuntimeRecoveryFailure .. => Unit
  | _ => Row

/-! ## Their effects -/

/-- An `UPDATE` with its `WHERE`, which has to hit one row. -/
def Table.updateOne (rows : Table) (hits : Row → Bool) (write : Row → Row) (error : StoreError) :
    Except StoreError Table :=
  if rows.countP hits = 1 then .ok (rows.map fun row => if hits row then write row else row)
  else .error error

def Table.byID (rows : Table) (operationID : Str) : Except StoreError Row :=
  match rows.find? (·.operationID == operationID) with
  | some row => .ok row
  | none => .error .recordNotFound

/-- The last row with the key. -/
def Table.byKey (rows : Table) (key : Str) : Option Row :=
  rows.reverse.find? (·.idempotencyKey == key)

/-- The order of `created_at DESC, id DESC`. -/
def Row.before (a b : Row) : Prop :=
  b.createdAt < a.createdAt ∨ a.createdAt = b.createdAt ∧ b.id ≤ a.id

instance (a b : Row) : Decidable (a.before b) := inferInstanceAs (Decidable (_ ∨ _))

def Table.list (rows : Table) (states : List OpState) : List Row :=
  (rows.filter fun row => states.isEmpty || states.contains row.state).insertionSort Row.before

def Table.nextID (rows : Table) : ℕ := rows.foldl (fun next row => max next (row.id + 1)) 1

def AcquireInput.row (input : AcquireInput) (id : ℕ) : Row where
  id := id
  operationID := input.operationID
  kind := input.kind
  state := input.state
  revision := 1
  idempotencyKey := input.idempotencyKey
  helperRevision := input.helperRevision
  lockedByPID := some input.lockedByPID
  lockedByInstanceID := input.lockedByInstanceID
  recoveryAttempts := 0
  recoveryErrorCode := ""
  heartbeatAt := input.now
  expiresAt := input.expiresAt
  createdAt := input.now
  updatedAt := input.now

/-- `AcquireOperationLock`: a new row, unless there is one with the key or one that is not terminal.
The identifier of an operation is unique in the table. -/
def Table.acquire (rows : Table) (input : AcquireInput) : Except StoreError ((Row × Bool) × Table) :=
  match if input.idempotencyKey = [] then none else rows.byKey input.idempotencyKey with
  | some row => .ok ((row, true), rows)
  | none =>
    if rows.any Row.nonTerminal then .error .conflict
    else if rows.any (·.operationID == input.operationID) then .error .failed
    else .ok ((input.row rows.nextID, false), rows ++ [input.row rows.nextID])

/-- Whether the row is the one that its owner knows at this revision. -/
def Row.fencedBy (row : Row) (operationID instanceID : Str) (pid revision : ℤ) : Bool :=
  row.operationID == operationID && row.revision == revision &&
    row.lockedByInstanceID == instanceID && row.lockedByPID == some pid

/-- The rows that `UpdateOperationLockFenced` hits. A prepared operation is admitted to applying
while its lease lasts. -/
def FencedUpdate.hits (update : FencedUpdate) (row : Row) : Bool :=
  row.fencedBy update.operationID update.instanceID update.pid update.revision &&
    update.fromStates.contains row.state &&
    (update.toState != .applying || row.state != .prepared || decide (update.now < row.expiresAt))

def FencedUpdate.write (update : FencedUpdate) (row : Row) : Row :=
  { row with
    state := update.toState
    revision := update.revision + 1
    heartbeatAt := update.now
    expiresAt := update.expiresAt
    updatedAt := update.now
    helperRevision := update.helperRevision.getD row.helperRevision }

def ReclaimUpdate.hits (update : ReclaimUpdate) (row : Row) : Bool :=
  row.operationID == update.operationID && row.revision == update.revision &&
    row.state == update.fromState

def ReclaimUpdate.write (update : ReclaimUpdate) (row : Row) : Row :=
  { row with
    state := update.toState
    revision := update.revision + 1
    lockedByInstanceID := update.instanceID
    lockedByPID := some update.pid
    heartbeatAt := update.now
    expiresAt := update.expiresAt
    updatedAt := update.now
    helperRevision := update.helperRevision.getD row.helperRevision }

/-- The row at a revision that has not been given up, with a new state. -/
def Row.settle (row : Row) (toState : OpState) (expectedRevision now : ℤ) : Row :=
  { row with state := toState, revision := expectedRevision + 1, updatedAt := now }

/-- `ForceUnlockOperation` and `ForgetOperationState`: the row is read first, and its revision and
its state are looked at. -/
def Table.settleChecked (rows : Table) (operationID : Str) (expectedRevision now : ℤ)
    (admitted : OpState → Bool) (toState : OpState) : Except StoreError Table :=
  match rows.byID operationID with
  | .error error => .error error
  | .ok current =>
    if current.revision ≠ expectedRevision then .error .revisionConflict
    else if !admitted current.state then .error .conflict
    else rows.updateOne
      (fun row => row.operationID == operationID && row.revision == expectedRevision)
      (·.settle toState expectedRevision now) .revisionConflict

/-- What `RecordRuntimeRecoveryFailure` writes: the second failure ends the continuation. -/
def Row.recordFailure (row : Row) (revision attempts now : ℤ) : Row :=
  let noted := { row with
    recoveryAttempts := attempts
    recoveryErrorCode := "runtime_restore_execution_failed"
    updatedAt := now }
  if 2 ≤ attempts then { noted with state := .reconcileRequired, revision := revision + 1 }
  else noted

/-- The table after a call that changes rows, without what the call returns. -/
def Call.update (call : Call) (rows : Table) : Except StoreError Table :=
  match call with
  | .updateOperationLockFenced update => rows.updateOne update.hits update.write .fenced
  | .heartbeatOperationLock operationID instanceID pid revision now expiresAt =>
    rows.updateOne
      (fun row => row.fencedBy operationID instanceID pid revision && row.nonTerminal)
      (fun row => { row with heartbeatAt := now, expiresAt := expiresAt, updatedAt := now }) .fenced
  | .reclaimOperationLock update =>
    match rows.updateOne update.hits update.write .fenced with
    | .error error => .error error
    | .ok rows =>
      if update.requireIdle && rows.any fun row =>
          row.operationID != update.operationID && row.nonTerminal then .error .conflict
      else .ok rows
  | .recoverOperationLock operationID expectedRevision fromStates toState now =>
    rows.updateOne
      (fun row => row.operationID == operationID && row.revision == expectedRevision &&
        fromStates.contains row.state)
      (·.settle toState expectedRevision now) .revisionConflict
  | .forceUnlockOperation operationID expectedRevision now =>
    rows.settleChecked operationID expectedRevision now OpState.nonTerminal .forceUnlocked
  | .forgetOperationState operationID expectedRevision now =>
    rows.settleChecked operationID expectedRevision now
      (fun state => state == .applied || state == .rollbackFailed) .forgotten
  | .markOperationRecovery operationID attempts now code =>
    .ok (rows.map fun row => if row.operationID == operationID then
      { row with recoveryAttempts := attempts, recoveryErrorCode := code, updatedAt := now } else row)
  | .recordRuntimeRecoveryFailure operation attempts now =>
    match operation.lockedByPID with
    | none => .error .fenced
    | some pid =>
      if operation.kind ≠ .firewall ∨ attempts < 1 then .error .fenced
      else rows.updateOne
        (fun row => row.fencedBy operation.operationID operation.lockedByInstanceID pid
          operation.revision && row.state == operation.state)
        (·.recordFailure operation.revision attempts now) .fenced
  | .operationByIdempotencyKey _ | .listOperationLocks _ | .acquireOperationLock _ => .ok rows

/-- A call that changes a row and returns it. -/
def Call.updateAndRead (call : Call) (operationID : Str) (rows : Table) :
    Except StoreError (Row × Table) :=
  match call.update rows with
  | .error error => .error error
  | .ok rows => (rows.byID operationID).map (·, rows)

/-- A call: what it returns and the table after it. -/
def Call.exec (call : Call) (rows : Table) : Except StoreError (call.Reply × Table) :=
  match call with
  | .operationByIdempotencyKey key =>
    match rows.byKey key with
    | some row => .ok (row, rows)
    | none => .error .recordNotFound
  | .listOperationLocks states => .ok (rows.list states, rows)
  | .acquireOperationLock input => rows.acquire input
  | .updateOperationLockFenced update =>
    Call.updateAndRead (.updateOperationLockFenced update) update.operationID rows
  | .heartbeatOperationLock operationID instanceID pid revision now expiresAt =>
    Call.updateAndRead (.heartbeatOperationLock operationID instanceID pid revision now expiresAt)
      operationID rows
  | .reclaimOperationLock update =>
    Call.updateAndRead (.reclaimOperationLock update) update.operationID rows
  | .recoverOperationLock operationID expectedRevision fromStates toState now =>
    Call.updateAndRead
      (.recoverOperationLock operationID expectedRevision fromStates toState now) operationID rows
  | .forceUnlockOperation operationID expectedRevision now =>
    Call.updateAndRead (.forceUnlockOperation operationID expectedRevision now) operationID rows
  | .forgetOperationState operationID expectedRevision now =>
    Call.updateAndRead (.forgetOperationState operationID expectedRevision now) operationID rows
  | .markOperationRecovery operationID attempts now code =>
    (Call.update (.markOperationRecovery operationID attempts now code) rows).map ((), ·)
  | .recordRuntimeRecoveryFailure operation attempts now =>
    (Call.update (.recordRuntimeRecoveryFailure operation attempts now) rows).map ((), ·)

end Solovey.Operations
