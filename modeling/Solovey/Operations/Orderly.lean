import Solovey.Operations.Rows

/-!
# What managers ask of the store

Every call that a method makes on the store is orderly: it moves rows along the transitions of the
manager. What a manager has seen of a row is a copy that the row has evolved from.
-/

namespace Solovey.Operations

open Solovey.Text List

/-! ## Orderly calls -/

/-- The call moves rows along the transitions of the manager. -/
def Call.Orderly : Call → Prop
  | .updateOperationLockFenced update => update.fromStates = allowedFromStates update.toState
  | .reclaimOperationLock update =>
    update.fromState ≠ .prepared ∧ (update.toState = update.fromState ∨
      update.toState = .rollingBack ∧ (update.fromState = .applied ∨ update.requireIdle = true))
  | .recoverOperationLock _ _ fromStates toState _ =>
    toState.nonTerminal = false ∨
      (∀ state ∈ fromStates, state.nonTerminal = true) ∧ toState ≠ .prepared ∧ toState ≠ .applying
  | _ => True

/-- The row that a call returns as it is in the table. -/
def Call.Tells : (call : Call) → Except StoreError call.Reply → Row → Prop
  | .acquireOperationLock _, .ok (row, _), told => told = row
  | .updateOperationLockFenced _, .ok row, told => told = row
  | .heartbeatOperationLock .., .ok row, told => told = row
  | .reclaimOperationLock _, .ok row, told => told = row
  | _, _, _ => False

/-- The rest of a call makes orderly calls only, and what it records has been seen: `known` are the
copies of rows that the manager has seen. -/
def Code.Informed : Code → (Row → Prop) → Prop
  | .done, _ => True
  | .tryAcquireGate next, known => ∀ entered, (next entered).Informed known
  | .releaseGate next, known => next.Informed known
  | .setActive item next, known => known item ∧ next.Informed known
  | .clearActive next, known => next.Informed known
  | .unlock _ next, known => next.Informed known
  | .refresh _ item next, known => known item ∧ next.Informed known
  | .read next, known =>
    ∀ fields, (next fields).Informed fun row => known row ∨ fields.active = some row
  | .markSuspect _ next, known => next.Informed known
  | .countFailure _ next, known => ∀ fields, (next fields).Informed known
  | .store call next, known => call.Orderly ∧
    ∀ reply, (next reply).Informed fun row => known row ∨ call.Tells reply row
  | .clock next, known => ∀ now, (next now).Informed known
  | .newID next, known => ∀ operationID, (next operationID).Informed known
  | .ask next, known => ∀ answer, (next answer).Informed known

variable {call : Call}

theorem Code.Informed.mono {code : Code} {k k' : Row → Prop} (h : code.Informed k)
    (hle : ∀ row, k row → k' row) : code.Informed k' := by
  induction code generalizing k k' with
  | done => trivial
  | releaseGate next ih | clearActive next ih | unlock op next ih | markSuspect op next ih =>
    exact ih h hle
  | setActive i next ih | refresh op i next ih => exact ⟨hle i h.1, ih h.2 hle⟩
  | read next ih => exact fun fields => ih fields (h fields) fun row => Or.imp_left (hle row)
  | store call next ih =>
    exact ⟨h.1, fun reply => ih reply (h.2 reply) fun row => Or.imp_left (hle row)⟩
  | tryAcquireGate next ih | countFailure _ next ih | clock next ih | newID next ih | ask next ih =>
    exact fun answer => ih answer (h answer) hle

/-! ## The methods are informed

The rest of a caller does not depend on what its callee has seen. -/

def Code.Proper (code : Code) : Prop := ∀ known, code.Informed known

theorem proper_done : Code.done.Proper := fun _ => trivial

variable {next : Code}

theorem proper_releaseGate (h : next.Proper) : Code.Proper (.releaseGate next) :=
  fun known => h known

theorem proper_clearActive (h : next.Proper) : Code.Proper (.clearActive next) :=
  fun known => h known

variable {operationID : Str}

theorem proper_markSuspect (h : next.Proper) :
    Code.Proper (.markSuspect operationID next) := fun known => h known

theorem proper_tryAcquireGate {next : Bool → Code} (h : ∀ entered, (next entered).Proper) :
    Code.Proper (.tryAcquireGate next) := fun known entered => h entered known

theorem proper_read {next : Fields → Code} (h : ∀ fields, (next fields).Proper) :
    Code.Proper (.read next) := fun _ fields => h fields _

theorem proper_countFailure {next : Fields → Code} (h : ∀ fields, (next fields).Proper) :
    Code.Proper (.countFailure operationID next) :=
  fun known fields => h fields known

theorem proper_store {next : Except StoreError call.Reply → Code} (hc : call.Orderly)
    (h : ∀ reply, (next reply).Proper) :
    Code.Proper (.store call next) := fun _ => ⟨hc, fun reply => h reply _⟩

theorem proper_clock {next : ℤ → Code} (h : ∀ now, (next now).Proper) :
    Code.Proper (.clock next) := fun known now => h now known

theorem proper_ask {next : Answer → Code} (h : ∀ answer, (next answer).Proper) :
    Code.Proper (.ask next) := fun known answer => h answer known

theorem proper_ite {p : Prop} [Decidable p] {ys no : Code} (hy : ys.Proper) (hno : no.Proper) :
    Code.Proper (if p then ys else no) := by
  split
  · exact hy
  · exact hno

theorem acquireGated_proper (self : Config) (r : AcquireRequest) (k : Kind) :
    (acquireGated self r k).Proper := by
  refine proper_ite (proper_releaseGate proper_done) ?_
  intro known now operationID
  refine ⟨trivial, fun reply => ?_⟩
  rcases reply with error | ⟨i, joined⟩
  · trivial
  · cases joined with
    | true => trivial
    | false => exact ⟨.inr rfl, trivial⟩

theorem acquire_proper (self : Config) (r : AcquireRequest) : (acquire self r).Proper := by
  unfold acquire
  split
  · exact proper_done
  refine proper_ite proper_done (proper_store trivial fun found => ?_)
  split
  · exact proper_tryAcquireGate fun _ => proper_ite (acquireGated_proper _ _ _) proper_done
  · exact proper_done

variable {self : Config}

theorem transition_proper {r : ℤ} {ts : OpState} {b : Option Str} {next : Option Row → Code}
    (h : ∀ result, (next result).Proper) :
    (transition self operationID r ts b next).Proper := by
  refine proper_read fun fields => ?_
  cases fields.active with
  | none => exact h none
  | some active =>
    refine proper_ite (h none) (proper_clock fun now known => ⟨rfl, fun reply => ?_⟩)
    rcases reply with error | i
    · exact h none _
    · dsimp only
      split
      · exact h (some i) _
      · exact ⟨.inr rfl, h (some i) _⟩

theorem beginRollback_proper (self : Config) (operationID : Str) (r : ℤ) {fs : OpState}
    (b : Option Str) (hf : fs = .applied ∨ fs = .reconcileRequired) :
    (beginRollback self operationID r fs b).Proper := by
  refine proper_tryAcquireGate fun entered => proper_ite ?_ proper_done
  refine proper_clock fun now known => ⟨⟨?_, .inr ⟨rfl, ?_⟩⟩, fun reply => ?_⟩
  · rcases hf with rfl | rfl <;> simp
  · exact hf.imp id fun heq => by simp [heq]
  · rcases reply with error | i
    · trivial
    · exact ⟨.inr rfl, trivial⟩

theorem heartbeat_proper (self : Config) (operationID : Str) (r : ℤ) :
    (heartbeat self operationID r).Proper := by
  refine proper_clock fun now known => ⟨trivial, fun reply => ?_⟩
  rcases reply with error | i
  · trivial
  · exact ⟨.inr rfl, trivial⟩

theorem tick_proper (self : Config) : (tick self).Proper := by
  refine proper_read fun fields => ?_
  cases fields.active with
  | none => exact proper_done
  | some active => exact proper_ite proper_done (heartbeat_proper _ _ _)

theorem forgetState_proper (operationID : Str) (r : ℤ) : (forgetState operationID r).Proper :=
  proper_ask fun _ => proper_ite
    (proper_clock fun _ => proper_store trivial fun _ => proper_done) proper_done

theorem forceUnlock_proper (operationID : Str) (r : ℤ) : (forceUnlock operationID r).Proper := by
  refine proper_read fun fields => proper_ite ?_ proper_done
  refine proper_ask fun ad => proper_ite ?_ proper_done
  refine proper_clock fun now => proper_store trivial fun reply => ?_
  rcases reply with error | i
  · exact proper_done
  · exact fun known => trivial

variable {item : Row}

theorem attemptRecoveryRollback_proper {next : OpState → Code} (h : ∀ state, (next state).Proper) :
    (attemptRecoveryRollback self item next).Proper := by
  refine proper_clock fun now => proper_ite ?_ (proper_store trivial fun _ => h _)
  refine proper_ask fun rolledBack => proper_ite (proper_store trivial fun _ => h _) ?_
  exact proper_store trivial fun _ => proper_ask fun b => h _

theorem recoverRollingBack_proper {next : Bool → Code} (h : ∀ ok, (next ok).Proper) :
    (recoverRollingBack self item next).Proper := by
  refine proper_tryAcquireGate fun entered => proper_ite ?_ (h false)
  refine proper_clock fun now known => ⟨⟨by simp, .inl rfl⟩, fun reply => ?_⟩
  rcases reply with error | claimed
  · exact h false _
  · have ha : Code.Proper (attemptRecoveryRollback self claimed fun fs =>
        transition self claimed.operationID claimed.revision fs none fun f =>
          if f.isSome then next true else .releaseGate (next false)) :=
      attemptRecoveryRollback_proper fun _ => transition_proper fun _ =>
        proper_ite (h true) (proper_releaseGate (h false))
    exact ⟨.inr rfl, ha _⟩

/-- Recovery never prepares an operation and never applies one. -/
theorem recoveryTarget_proper {next : OpState → Code}
    (h : ∀ state, state ≠ .prepared → state ≠ .applying → (next state).Proper) :
    (recoveryTarget self item next).Proper := by
  have hb : ∀ b : Answer, (next (if b = .yes then .rollbackFailed else .lockSuspect)).Proper := by
    intro b
    split <;> exact h _ (by decide) (by decide)
  have he : (next (if item.kind = .fronting then .cancelled else .abandoned)).Proper := by
    split <;> exact h _ (by decide) (by decide)
  unfold recoveryTarget
  refine proper_ite he (proper_ite (h _ (by decide) (by decide)) (proper_ite ?_
    (proper_ite (h _ (by decide) (by decide)) (proper_ask fun ar => ?_))))
  · exact proper_ite (proper_ask hb) (h _ (by decide) (by decide))
  · split
    · exact h _ (by decide) (by decide)
    · exact he
    · exact proper_clock fun _ => proper_store trivial fun _ => proper_ask hb

theorem recordRuntimeFailure_proper {c : Row} (h : next.Proper) :
    (recordRuntimeFailure c next).Proper :=
  proper_countFailure fun _ => proper_clock fun _ => proper_store trivial fun _ => h

theorem finalizeReconcile_proper {c : Row} {state : OpState} {next : Bool → Code}
    (hs : reconcileTerminalState state = true) (h : ∀ ok, (next ok).Proper) :
    (finalizeReconcile c state next).Proper := by
  refine proper_read fun fields => proper_clock fun now => proper_store (.inl ?_) ?_
  · revert hs
    cases state <;> decide
  · intro reply
    rcases reply with error | item
    · exact proper_ite (recordRuntimeFailure_proper (proper_clearActive (h false)))
        (proper_clearActive (h false))
    · exact proper_clearActive (h true)

theorem claimReconcile_proper {ip : Bool} {next : Bool → Code} (hs : item.state ≠ .prepared)
    (h : ∀ ok, (next ok).Proper) :
    (claimReconcile self item ip next).Proper := by
  refine proper_clock fun now known => ⟨⟨hs, .inl rfl⟩, fun reply => ?_⟩
  rcases reply with error | claimed
  · exact h false _
  · have hf : Code.Proper (recordRuntimeFailure claimed (.clearActive (next false))) :=
      recordRuntimeFailure_proper (proper_clearActive (h false))
    refine ⟨.inr rfl, proper_ite hf (proper_ask fun r => ?_) _⟩
    split
    · split
      next ht => exact finalizeReconcile_proper ht h
      · exact proper_clearActive (h false)
    · exact hf
    · exact proper_clearActive (h false)

theorem reconcileOwnedKind_proper {next : Bool → Code} (hs : item.state ≠ .prepared)
    (h : ∀ ok, (next ok).Proper) :
    (reconcileOwnedKind self item next).Proper := by
  refine proper_ask fun cancelled => proper_ite (h false) ?_
  refine proper_tryAcquireGate fun entered => proper_ite (proper_ite ?_ ?_) (h false)
  · refine proper_ask fun n => ?_
    cases n with
    | yes | runtimeFailed => exact claimReconcile_proper hs h
    | no => exact proper_releaseGate (h true)
    | failed | decision => exact proper_releaseGate (h false)
  · exact claimReconcile_proper hs h

theorem probe_proper (item : Row) {next : Answer → Code} (h : ∀ answer, (next answer).Proper) :
    (probe item next).Proper := proper_ite (h _) (proper_ask h)

variable {n : ℤ}

theorem recoverReconciled_proper (hs : item.state ≠ .prepared) (h : next.Proper) :
    (recoverReconciled self n item next).Proper := by
  have hr : (reconcileOwnedKind self item fun ok => if ok then next else .done).Proper :=
    reconcileOwnedKind_proper hs fun _ => proper_ite h proper_done
  refine proper_read fun fields => proper_ite h (proper_ite ?_ hr)
  exact probe_proper item fun al => proper_ite hr h

theorem proper_recover {r : ℤ} {ts : OpState} {next : Except StoreError Row → Code}
    (hp : ts ≠ .prepared) (ha : ts ≠ .applying) (he : ∀ error, (next (.error error)).Proper)
    (hok : ∀ row, (next (.ok row)).Proper) :
    Code.Proper (.store
      (.recoverOperationLock operationID r nonTerminalOperationLockStates ts n) next) := by
  refine proper_store (.inr ⟨by decide, hp, ha⟩) fun reply => ?_
  rcases reply with error | row
  · exact he error
  · exact hok row

theorem recoverForeign_proper (h : next.Proper) : (recoverForeign self n item next).Proper := by
  have hs (item : Row) (state : OpState) (operationID : Str) :
      Code.Proper (if state = .rollingBack then
        recoverRollingBack self item fun ok => if ok then next else .done
        else if state = .lockSuspect then .markSuspect operationID next else next) :=
    proper_ite (recoverRollingBack_proper fun _ => proper_ite h proper_done)
      (proper_ite (proper_markSuspect h) h)
  refine probe_proper item fun al => proper_ite (recoveryTarget_proper fun ts hp ha => ?_) ?_
  · exact proper_ite (hs item ts _) (proper_recover hp ha
      (fun _ => proper_done) fun updated => hs updated updated.state _)
  · exact proper_ite (hs item .lockSuspect _) (proper_recover (by decide) (by decide)
      (fun _ => proper_done) fun updated => hs updated updated.state _)

theorem recoverItem_proper (h : next.Proper) : (recoverItem self n item next).Proper := by
  unfold recoverItem
  split
  next hr =>
    refine recoverReconciled_proper (fun hp => ?_) h
    simp [reconcileKindState, hp] at hr
  · refine proper_tryAcquireGate fun _ => proper_ite (proper_ite ?_ h) (recoverForeign_proper h)
    exact transition_proper fun _ => proper_ite h proper_done

theorem recover_proper (self : Config) : (recover self).Proper := by
  refine proper_store trivial fun reply => ?_
  rcases reply with error | all
  · exact proper_done
  · refine proper_clock fun n => ?_
    unfold recoverItems
    induction all.filter (recoverable self) with
    | nil =>
      refine proper_store trivial fun r => ?_
      rcases r with error | r
      · exact proper_done
      · exact proper_ite (proper_releaseGate proper_done) proper_done
    | cons item it ih => exact recoverItem_proper ih

theorem Method.code_proper (self : Config) (m : Method) : (m.code self).Proper := by
  cases m with
  | acquire request => exact acquire_proper self request
  | transition => exact transition_proper fun _ => proper_done
  | beginRollback => exact beginRollback_proper _ _ _ _ (.inl rfl)
  | beginReconciledRollback => exact beginRollback_proper _ _ _ _ (.inr rfl)
  | heartbeat => exact heartbeat_proper _ _ _
  | tick => exact tick_proper self
  | forgetState => exact forgetState_proper _ _
  | forceUnlock => exact forceUnlock_proper _ _
  | recover => exact recover_proper self

/-! ## Runs -/

/-- A copy of a row that a row of the table has evolved from. -/
def Table.Knows (rows : Table) (copy : Row) : Prop := ∃ row ∈ rows, copy.Evolves row

variable {rows : Table} {row : Row}

theorem Table.knows_of_mem (h : row ∈ rows) : rows.Knows row := ⟨row, h, .refl row⟩

variable {rows' : Table}

theorem Effect.knows (h : Effect call rows rows') {copy : Row} (hk : rows.Knows copy) :
    rows'.Knows copy := by
  obtain ⟨row, hr, hc⟩ := hk
  obtain ⟨i, hi⟩ := mem_iff_getElem?.mp hr
  obtain ⟨row', hr', he⟩ := h.evolves hi
  exact ⟨row', mem_of_getElem? hr', hc.trans he⟩

theorem Table.mem_of_byID (h : rows.byID operationID = .ok row) :
    row ∈ rows ∧ row.operationID = operationID := by
  unfold Table.byID at h
  split at h
  next found hf =>
    cases h
    exact ⟨mem_of_find?_eq_some hf, by simpa using find?_some hf⟩
  · cases h

theorem Table.mem_of_acquire {i : AcquireInput} {j : Bool}
    (h : rows.acquire i = .ok ((row, j), rows')) : row ∈ rows' := by
  unfold Table.acquire at h
  split at h
  next found hf =>
    cases h
    split at hf
    · cases hf
    · exact mem_reverse.mp (mem_of_find?_eq_some hf)
  split_ifs at h
  · cases h
    exact mem_append_right _ (mem_singleton.mpr rfl)

theorem Call.exec_tells {r : call.Reply} (h : call.exec rows = .ok (r, rows'))
    (ht : call.Tells (.ok r) row) :
    row ∈ rows' := by
  cases call with
  | acquireOperationLock i =>
    obtain rfl : row = r.1 := ht
    exact Table.mem_of_acquire h
  | updateOperationLockFenced | heartbeatOperationLock | reclaimOperationLock =>
    obtain rfl : row = r := ht
    exact (Table.mem_of_byID (Call.updateAndRead_ok h).2).1
  | _ => exact ht.elim

theorem Call.not_tells_error {e : StoreError} : ¬call.Tells (.error e) row := by
  cases call <;> exact fun h => h

theorem Ran.informed {v v' : View} {code r : Code} (h : Ran v code v' r)
    (hc : code.Informed v.rows.Knows) (ha : ∀ row, v.fields.active = some row → v.rows.Knows row) :
    r.Informed v'.rows.Knows ∧ ∀ row, v'.fields.active = some row → v'.rows.Knows row := by
  cases h with
  | entered =>
    rw [View.tryAcquireGate_rows]
    refine ⟨hc _, fun row hr => ha row ?_⟩
    rwa [View.tryAcquireGate_active] at hr
  | released =>
    rw [View.releaseGateLocked_rows, View.releaseGateLocked_active]
    exact ⟨hc, ha⟩
  | activated => exact ⟨hc.2, fun row hr => Option.some.inj hr ▸ hc.1⟩
  | cleared =>
    rw [View.releaseGateLocked_rows, View.releaseGateLocked_active]
    exact ⟨hc, fun row hr => nomatch hr⟩
  | @unlocked operationID _ =>
    rw [View.unlock, View.releaseGateLocked_rows, View.releaseGateLocked_active]
    refine ⟨hc, fun row hr => ha row ?_⟩
    simp only [Fields.forget] at hr
    split at hr
    · cases hr
    · exact hr
  | @refreshed operationID item _ =>
    rw [View.refresh_rows]
    refine ⟨hc.2, fun row hr => ?_⟩
    unfold View.refresh at hr
    split at hr
    · exact Option.some.inj hr ▸ hc.1
    · exact ha row hr
  | looked =>
    refine ⟨(hc _).mono fun row hr => ?_, ha⟩
    exact hr.elim id (ha row)
  | suspected => exact ⟨hc, ha⟩
  | counted | timed | named | answered => exact ⟨hc _, ha⟩
  | called he =>
    have hef := Call.exec_effect he
    refine ⟨(hc.2 _).mono fun row hr => ?_, fun row hr => hef.knows (ha row hr)⟩
    exact hr.elim hef.knows fun ht => Table.knows_of_mem (Call.exec_tells he ht)
  | refused =>
    refine ⟨(hc.2 _).mono fun row hr => ?_, ha⟩
    exact hr.elim id fun ht => (Call.not_tells_error ht).elim

/-- The table and what the managers have seen of it. -/
structure Consistent (s : State) : Prop where
  distinct : s.rows.Distinct
  active : ∀ manager row, (s.fields manager).active = some row → s.rows.Knows row
  informed : ∀ thread ∈ s.threads, thread.code.Informed s.rows.Knows

variable {s : State} {a : Action}

theorem Executes.effect (h : Executes s a call rows) : Effect call s.rows rows := by
  obtain ⟨_, _, _, _, _, _, _, he⟩ := h
  exact Call.exec_effect he

theorem Consistent.orderly (hs : Consistent s) (h : Executes s a call rows) :
    call.Orderly := by
  obtain ⟨i, t, next, reply, _, ht, hc, _⟩ := h
  have hi := hs.informed t (mem_of_getElem? ht)
  rw [hc] at hi
  exact hi.1

variable {c : ℕ → Config}

/-- A step rewrites the table with an orderly call, or leaves it. -/
theorem Consistent.step_effect {t : State} (hs : Consistent s) (h : step c s a = some t) :
    t.rows = s.rows ∨ ∃ call, Executes s a call t.rows ∧ call.Orderly ∧
      Effect call s.rows t.rows := by
  rcases step_rows h with hr | ⟨call, he⟩
  · exact .inl hr
  · exact .inr ⟨call, he, hs.orderly he, he.effect⟩

theorem Consistent.step {t : State} (hs : Consistent s) (h : step c s a = some t) :
    Consistent t := by
  have hk : ∀ row, s.rows.Knows row → t.rows.Knows row := by
    rcases hs.step_effect h with hr | ⟨call, _, _, he⟩
    · exact fun row hrw => hr ▸ hrw
    · exact fun row => he.knows
  have hd : t.rows.Distinct := by
    rcases hs.step_effect h with hr | ⟨call, _, _, he⟩
    · exact hr ▸ hs.distinct
    · exact he.distinct hs.distinct
  rcases step_cases h with ⟨m, mt, rfl, rfl⟩ | ⟨i, input, th, view, code, rfl, ht, hrn, rfl⟩
  · refine ⟨hd, hs.active, fun th ht => ?_⟩
    rcases mem_append.mp ht with hol | hn
    · exact hs.informed th hol
    · rw [mem_singleton.mp hn]
      exact mt.code_proper (c m) _
  · obtain ⟨hi, ha⟩ := (Code.ran hrn).informed
      (hs.informed th (mem_of_getElem? ht)) (hs.active th.manager)
    refine ⟨hd, fun m row hrw => ?_, fun other ho => ?_⟩
    · simp only [State.put, Function.update_apply] at hrw
      split at hrw
      · exact ha row hrw
      · exact hk row (hs.active m row hrw)
    · rcases mem_set_threads ho with rfl | ⟨j, _, hj⟩
      · exact hi
      · exact (hs.informed other (mem_of_getElem? hj)).mono hk

theorem Consistent.new : Consistent .new := by
  refine ⟨nodup_nil, ?_, ?_⟩ <;> simp [State.new, Fields.new]

end Solovey.Operations
