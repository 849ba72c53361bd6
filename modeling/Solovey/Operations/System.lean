import Solovey.Data.System
import Solovey.Operations.Manager

/-!
# Managers on one table

Any number of managers in any number of processes, on one table of operations. Every manager serves
any number of calls at a time; an action begins a call or runs the next instruction of one. A call
on the store may fail. The managers of a process share its gate.
-/

namespace Solovey.Operations

open Solovey.Text Solovey.Data

/-! ## One instruction -/

/-- What the instructions of a call can see: the table, the gate of the process and the fields of
the manager. -/
structure View where
  rows : Table
  gate : Bool
  fields : Fields

def View.tryAcquireGate (view : View) : Bool × View :=
  if view.fields.ownsGate then (view.fields.active.isNone, view)
  else if view.gate then (false, view)
  else (true, { view with gate := true, fields := { view.fields with ownsGate := true } })

def View.releaseGateLocked (view : View) : View :=
  if view.fields.ownsGate then
    { view with gate := false, fields := { view.fields with ownsGate := false } }
  else view

def View.setActive (view : View) (active : Option Row) : View :=
  { view with fields := { view.fields with active := active } }

/-- The manager without an operation that has been unlocked. -/
def Fields.forget (fields : Fields) (operationID : Str) : Fields :=
  { fields with
    active := if fields.isActive operationID then none else fields.active
    recoveredSuspect := fields.recoveredSuspect.filter (· != operationID) }

def View.unlock (view : View) (operationID : Str) : View :=
  View.releaseGateLocked { view with fields := view.fields.forget operationID }

def View.refresh (view : View) (operationID : Str) (item : Row) : View :=
  if view.fields.isActive operationID then view.setActive (some item) else view

def View.markSuspect (view : View) (operationID : Str) : View :=
  { view with fields := { view.fields with
    recoveredSuspect := operationID :: view.fields.recoveredSuspect } }

def View.countFailure (view : View) (operationID : Str) : View :=
  { view with fields := { view.fields with
    runtimeFailures := Function.update view.fields.runtimeFailures operationID
      (view.fields.runtimeFailures operationID + 1) } }

/-- What comes to an instruction from outside. -/
inductive Input
  | go
  | fail
  | time (now : ℤ)
  | fresh (operationID : Str)
  | answer (answer : Answer)
  deriving DecidableEq

/-- One instruction of a call, and the rest of the call. -/
def Code.run (view : View) : Code → Input → Option (View × Code)
  | .tryAcquireGate next, .go => some (view.tryAcquireGate.2, next view.tryAcquireGate.1)
  | .releaseGate next, .go => some (view.releaseGateLocked, next)
  | .setActive item next, .go => some (view.setActive (some item), next)
  | .clearActive next, .go => some ((view.setActive none).releaseGateLocked, next)
  | .unlock operationID next, .go => some (view.unlock operationID, next)
  | .refresh operationID item next, .go => some (view.refresh operationID item, next)
  | .read next, .go => some (view, next view.fields)
  | .markSuspect operationID next, .go => some (view.markSuspect operationID, next)
  | .countFailure operationID next, .go =>
    some (view.countFailure operationID, next (view.countFailure operationID).fields)
  | .store call next, .go =>
    match call.exec view.rows with
    | .ok (reply, rows) => some ({ view with rows := rows }, next (.ok reply))
    | .error error => some (view, next (.error error))
  | .store _ next, .fail => some (view, next (.error .failed))
  | .clock next, .time now => some (view, next now)
  | .newID next, .fresh operationID => some (view, next operationID)
  | .ask next, .answer answer => some (view, next answer)
  | _, _ => none

/-- What an instruction can do, case by case. -/
inductive Ran (view : View) : Code → View → Code → Prop
  | entered {next : Bool → Code} :
    Ran view (.tryAcquireGate next) view.tryAcquireGate.2 (next view.tryAcquireGate.1)
  | released {next : Code} : Ran view (.releaseGate next) view.releaseGateLocked next
  | activated {item : Row} {next : Code} :
    Ran view (.setActive item next) (view.setActive (some item)) next
  | cleared {next : Code} :
    Ran view (.clearActive next) (view.setActive none).releaseGateLocked next
  | unlocked {operationID : Str} {next : Code} :
    Ran view (.unlock operationID next) (view.unlock operationID) next
  | refreshed {operationID : Str} {item : Row} {next : Code} :
    Ran view (.refresh operationID item next) (view.refresh operationID item) next
  | looked {next : Fields → Code} : Ran view (.read next) view (next view.fields)
  | suspected {operationID : Str} {next : Code} :
    Ran view (.markSuspect operationID next) (view.markSuspect operationID) next
  | counted {operationID : Str} {next : Fields → Code} :
    Ran view (.countFailure operationID next) (view.countFailure operationID)
      (next (view.countFailure operationID).fields)
  | called {call : Call} {next : Except StoreError call.Reply → Code} {reply : call.Reply}
    {rows : Table} (h : call.exec view.rows = .ok (reply, rows)) :
    Ran view (.store call next) { view with rows := rows } (next (.ok reply))
  | refused {call : Call} {next : Except StoreError call.Reply → Code} {error : StoreError} :
    Ran view (.store call next) view (next (.error error))
  | timed {next : ℤ → Code} {now : ℤ} : Ran view (.clock next) view (next now)
  | named {next : Str → Code} {operationID : Str} : Ran view (.newID next) view (next operationID)
  | answered {next : Answer → Code} {answer : Answer} : Ran view (.ask next) view (next answer)

theorem Code.ran {v v' : View} {code r : Code} {i : Input} (h : code.run v i = some (v', r)) :
    Ran v code v' r := by
  cases code with
  | done => cases i <;> cases h
  | tryAcquireGate next => cases i <;> cases h; exact .entered
  | releaseGate next => cases i <;> cases h; exact .released
  | setActive it next => cases i <;> cases h; exact .activated
  | clearActive next => cases i <;> cases h; exact .cleared
  | unlock operationID next => cases i <;> cases h; exact .unlocked
  | refresh operationID it next => cases i <;> cases h; exact .refreshed
  | read next => cases i <;> cases h; exact .looked
  | markSuspect operationID next => cases i <;> cases h; exact .suspected
  | countFailure operationID next => cases i <;> cases h; exact .counted
  | store call next =>
    cases i with
    | go =>
      simp only [run] at h
      cases he : call.exec v.rows with
      | error error =>
        simp only [he, Option.some.injEq, Prod.mk.injEq] at h
        obtain ⟨rfl, rfl⟩ := h
        exact .refused
      | ok result =>
        obtain ⟨reply, rows⟩ := result
        simp only [he, Option.some.injEq, Prod.mk.injEq] at h
        obtain ⟨rfl, rfl⟩ := h
        exact .called he
    | fail => cases h; exact .refused
    | time | fresh | answer => cases h
  | clock next => cases i <;> cases h; exact .timed
  | newID next => cases i <;> cases h; exact .named
  | ask next => cases i <;> cases h; exact .answered

/-! ## The system -/

/-- A call in progress: its manager and what is left of its method. -/
structure Thread where
  manager : ℕ
  code : Code

structure State where
  rows : Table
  gates : ℕ → Bool
  fields : ℕ → Fields
  threads : List Thread

def State.new : State := ⟨[], fun _ => false, fun _ => .new, []⟩

inductive Action
  | call (manager : ℕ) (method : Method)
  | run (thread : ℕ) (input : Input)

section

variable (config : ℕ → Config)

def State.view (s : State) (manager : ℕ) : View :=
  ⟨s.rows, s.gates (config manager).process, s.fields manager⟩

/-- The state after an instruction of a call of the manager. -/
def State.put (s : State) (manager : ℕ) (view : View) (threads : List Thread) : State where
  rows := view.rows
  gates := Function.update s.gates (config manager).process view.gate
  fields := Function.update s.fields manager view.fields
  threads := threads

def step (s : State) : Action → Option State
  | .call manager method =>
    some { s with threads := s.threads ++ [⟨manager, method.code (config manager)⟩] }
  | .run i input =>
    match s.threads[i]? with
    | none => none
    | some thread =>
      match thread.code.run (s.view config thread.manager) input with
      | none => none
      | some (view, code) =>
        some (s.put config thread.manager view (s.threads.set i { thread with code := code }))

def system : System State Action := .ofStep .new (step config)

end

variable {c : ℕ → Config}

/-- A step begins a call or runs one instruction of a call. -/
theorem step_cases {s t : State} {a : Action} (h : step c s a = some t) : (∃ m mt, a = .call m mt ∧
      t = { s with threads := s.threads ++ [⟨m, mt.code (c m)⟩] }) ∨
    ∃ i ip th view code, a = .run i ip ∧ s.threads[i]? = some th ∧
      th.code.run (s.view c th.manager) ip = some (view, code) ∧
      t = s.put c th.manager view (s.threads.set i { th with code := code }) := by
  cases a with
  | call m mt =>
    cases h
    exact .inl ⟨m, mt, rfl, rfl⟩
  | run i ip =>
    simp only [step] at h
    cases ht : s.threads[i]? with
    | none => simp [ht] at h
    | some th =>
      cases hr : th.code.run (s.view c th.manager) ip with
      | none => simp [ht, hr] at h
      | some result =>
        obtain ⟨view, code⟩ := result
        simp only [ht, hr, Option.some.injEq] at h
        exact .inr ⟨i, ip, th, view, code, rfl, ht, hr, h.symm⟩

/-- A call in progress after the `i`-th one has gone on. -/
theorem mem_set_threads {ts : List Thread} {i : ℕ} {t o : Thread} (h : o ∈ ts.set i t) :
    o = t ∨ ∃ j, j ≠ i ∧ ts[j]? = some o := by
  obtain ⟨j, hj⟩ := List.mem_iff_getElem?.mp h
  rw [List.getElem?_set] at hj
  split at hj
  · split at hj
    · exact .inl (Option.some.inj hj).symm
    · cases hj
  next hne => exact .inr ⟨j, fun heq => hne heq.symm, hj⟩

/-! ## What an instruction does to the table -/

@[simp] theorem View.tryAcquireGate_rows (v : View) : v.tryAcquireGate.2.rows = v.rows := by
  unfold tryAcquireGate
  split
  · rfl
  split <;> rfl

@[simp] theorem View.tryAcquireGate_active (v : View) :
    v.tryAcquireGate.2.fields.active = v.fields.active := by
  unfold tryAcquireGate
  split
  · rfl
  split <;> rfl

@[simp] theorem View.releaseGateLocked_rows (v : View) : v.releaseGateLocked.rows = v.rows := by
  unfold releaseGateLocked
  split <;> rfl

@[simp] theorem View.refresh_rows (v : View) (operationID : Str) (i : Row) :
    (v.refresh operationID i).rows = v.rows := by
  unfold refresh
  split <;> rfl

@[simp] theorem View.releaseGateLocked_active (v : View) :
    v.releaseGateLocked.fields.active = v.fields.active := by
  unfold releaseGateLocked
  split <;> rfl

/-- The action runs a call on the store, and the call succeeds. -/
def Executes (s : State) (a : Action) (call : Call) (rows : Table) : Prop :=
  ∃ i thread next reply, a = .run i .go ∧ s.threads[i]? = some thread ∧
    thread.code = .store call next ∧ call.exec s.rows = .ok (reply, rows)

/-- An instruction leaves the table, or it is a call on the store that succeeds. -/
theorem Code.run_rows {v v' : View} {code r : Code} {i : Input} (h : code.run v i = some (v', r)) :
    v'.rows = v.rows ∨ i = .go ∧ ∃ call next reply, code = .store call next ∧
      call.exec v.rows = .ok (reply, v'.rows) := by
  cases ran h with
  | entered => exact .inl v.tryAcquireGate_rows
  | released => exact .inl v.releaseGateLocked_rows
  | cleared | unlocked => exact .inl (View.releaseGateLocked_rows _)
  | refreshed => exact .inl (v.refresh_rows _ _)
  | called he =>
    cases i with
    | go => exact .inr ⟨rfl, _, _, _, rfl, he⟩
    | fail => exact .inl (congrArg View.rows (congrArg Prod.fst (Option.some.inj h))).symm
    | time | fresh | answer => cases h
  | _ => exact .inl rfl

theorem step_rows {s t : State} {a : Action} (h : step c s a = some t) :
    t.rows = s.rows ∨ ∃ call, Executes s a call t.rows := by
  rcases step_cases h with ⟨m, mt, rfl, rfl⟩ | ⟨i, input, thread, view, code, rfl, ht, hrn, rfl⟩
  · exact .inl rfl
  · rcases Code.run_rows hrn with hr | ⟨rfl, call, next, reply, hc, he⟩
    · exact .inl hr
    · exact .inr ⟨call, i, thread, next, reply, rfl, ht, hc, he⟩

/-! ## Sample managers -/

/-- Managers of their own processes, without backends. -/
def sampleConfig (manager : ℕ) : Config where
  process := manager
  instanceID := List.replicate (manager + 1) 'i'
  pid := 100 + manager
  lease := 60
  hasRecovery _ := false
  hasReconciler _ := false
  hasInspector _ := false

def sampleRequest (key : Str) : AcquireRequest where
  kind := "node".toList
  idempotencyKey := key
  helperRevision := []
  actor := ['a']
  port := none
  initialState := none

/-- The first manager acquires the operation `o` at the time 5. -/
def sampleAcquire (request : AcquireRequest) : List Action :=
  [.call 0 (.acquire request), .run 0 .go, .run 0 .go, .run 0 (.time 5), .run 0 (.fresh ['o']),
    .run 0 .go, .run 0 .go]

end Solovey.Operations
