import Solovey.Operations.System

/-!
# What a call does to the rows

A call changes the rows it hits or adds a row. Every change that is one of the state or of the owner
raises the revision, and no change lowers it.
-/

namespace Solovey.Operations

open Solovey.Text List

/-! ## Rows hit and written -/

def Call.hits : Call → Row → Bool
  | .updateOperationLockFenced update, row => update.hits row
  | .heartbeatOperationLock operationID instanceID pid revision _ _, row =>
    row.fencedBy operationID instanceID pid revision && row.nonTerminal
  | .reclaimOperationLock update, row => update.hits row
  | .recoverOperationLock operationID revision fromStates _ _, row =>
    row.operationID == operationID && row.revision == revision && fromStates.contains row.state
  | .forceUnlockOperation operationID revision _, row
  | .forgetOperationState operationID revision _, row =>
    row.operationID == operationID && row.revision == revision
  | .markOperationRecovery operationID _ _ _, row => row.operationID == operationID
  | .recordRuntimeRecoveryFailure operation _ _, row =>
    operation.lockedByPID.any fun pid =>
      row.fencedBy operation.operationID operation.lockedByInstanceID pid operation.revision &&
        row.state == operation.state
  | _, _ => false

def Call.write : Call → Row → Row
  | .updateOperationLockFenced update, row => update.write row
  | .heartbeatOperationLock _ _ _ _ now expiresAt, row =>
    { row with heartbeatAt := now, expiresAt := expiresAt, updatedAt := now }
  | .reclaimOperationLock update, row => update.write row
  | .recoverOperationLock _ revision _ toState now, row => row.settle toState revision now
  | .forceUnlockOperation _ revision now, row => row.settle .forceUnlocked revision now
  | .forgetOperationState _ revision now, row => row.settle .forgotten revision now
  | .markOperationRecovery _ attempts now code, row =>
    { row with recoveryAttempts := attempts, recoveryErrorCode := code, updatedAt := now }
  | .recordRuntimeRecoveryFailure operation attempts now, row =>
    row.recordFailure operation.revision attempts now
  | _, row => row

/-- What becomes of a row. -/
def Call.rewrite (call : Call) (row : Row) : Row :=
  if call.hits row then call.write row else row

variable {rows rows' : Table}

theorem updateOne_ok {hits : Row → Bool} {w : Row → Row} {e : StoreError}
    (h : rows.updateOne hits w e = .ok rows') :
    rows' = rows.map (fun row => if hits row then w row else row) ∧ rows.countP hits = 1 := by
  unfold Table.updateOne at h
  split at h
  next hc => exact ⟨(Except.ok.inj h).symm, hc⟩
  · cases h

variable {operationID : Str}

theorem settleChecked_ok {r n : ℤ} {a : OpState → Bool} {ts : OpState}
    (h : rows.settleChecked operationID r n a ts = .ok rows') :
    rows' = rows.map (fun row => if row.operationID == operationID && row.revision == r then
      row.settle ts r n else row) := by
  unfold Table.settleChecked at h
  split at h
  · cases h
  split at h
  · cases h
  split at h
  · cases h
  exact (updateOne_ok h).1

theorem reclaim_ok {u : ReclaimUpdate}
    (h : Call.update (.reclaimOperationLock u) rows = .ok rows') :
    rows.updateOne u.hits u.write .fenced = .ok rows' ∧
      (u.requireIdle = true → ∀ row ∈ rows', row.nonTerminal = true →
        row.operationID = u.operationID) := by
  simp only [Call.update] at h
  cases hon : rows.updateOne u.hits u.write .fenced with
  | error error => simp [hon] at h
  | ok written =>
    simp only [hon] at h
    split at h
    · cases h
    next hi =>
      cases h
      refine ⟨rfl, fun hrq row hr hop => ?_⟩
      by_contra ho
      refine hi ?_
      rw [hrq, Bool.true_and, any_eq_true]
      exact ⟨row, hr, by simp [ho, hop]⟩

variable {call : Call}

theorem Call.update_ok (h : call.update rows = .ok rows') : rows' = rows.map call.rewrite := by
  have hr : ∀ {call : Call}, (∀ row, call.hits row = false) → rows = rows.map call.rewrite := by
    intro call hn
    refine (map_id' rows).symm.trans (map_congr_left fun row _ => ?_)
    simp [rewrite, hn row]
  cases call with
  | operationByIdempotencyKey | listOperationLocks | acquireOperationLock =>
    cases h; exact hr fun _ => rfl
  | updateOperationLockFenced | heartbeatOperationLock | recoverOperationLock =>
    exact (updateOne_ok h).1
  | reclaimOperationLock update => exact (updateOne_ok (reclaim_ok h).1).1
  | forceUnlockOperation => exact settleChecked_ok h
  | forgetOperationState =>
    simp only [Call.update] at h
    exact settleChecked_ok h
  | markOperationRecovery => exact (Except.ok.inj h).symm
  | recordRuntimeRecoveryFailure o attempts now =>
    simp only [Call.update] at h
    cases hp : o.lockedByPID with
    | none => simp [hp] at h
    | some p =>
      simp only [hp] at h
      split at h
      · cases h
      refine (updateOne_ok h).1.trans (map_congr_left fun row _ => ?_)
      simp [rewrite, hits, write, hp]

theorem Call.updateAndRead_ok {r : Row} (h : call.updateAndRead operationID rows = .ok (r, rows')) :
    call.update rows = .ok rows' ∧ rows'.byID operationID = .ok r := by
  unfold updateAndRead at h
  cases hu : call.update rows with
  | error error => simp [hu] at h
  | ok written =>
    simp only [hu] at h
    cases hr : written.byID operationID with
    | error error => simp [hr, Except.map] at h
    | ok found =>
      simp only [hr, Except.map, Except.ok.injEq, Prod.mk.injEq] at h
      obtain ⟨rfl, rfl⟩ := h
      exact ⟨rfl, hr⟩

/-- What a call does to the table: it rewrites rows, or it adds a row to a table in which every
operation has ended. -/
inductive Effect (call : Call) (rows : Table) : Table → Prop
  | rewritten (h : call.update rows = .ok (rows.map call.rewrite)) :
    Effect call rows (rows.map call.rewrite)
  | added {input : AcquireInput} (hcall : call = .acquireOperationLock input)
    (hidle : ∀ row ∈ rows, row.nonTerminal = false)
    (hfresh : ∀ row ∈ rows, row.operationID ≠ input.operationID) :
    Effect call rows (rows ++ [input.row rows.nextID])

theorem Effect.of_update (h : call.update rows = .ok rows') : Effect call rows rows' := by
  obtain rfl := Call.update_ok h
  exact .rewritten h

theorem Table.acquire_effect {i : AcquireInput} {r : Row × Bool}
    (h : rows.acquire i = .ok (r, rows')) :
    Effect (.acquireOperationLock i) rows rows' := by
  unfold acquire at h
  split at h
  · cases h
    exact .of_update rfl
  split at h
  · cases h
  next hi =>
    split at h
    · cases h
    next hf =>
      cases h
      refine .added rfl (fun row hr => ?_) fun row hr heq => ?_
      · cases hs : row.nonTerminal with
        | false => rfl
        | true => exact absurd (any_eq_true.mpr ⟨row, hr, hs⟩) hi
      · exact hf (any_eq_true.mpr ⟨row, hr, beq_iff_eq.mpr heq⟩)

theorem Call.exec_effect {r : call.Reply} (h : call.exec rows = .ok (r, rows')) :
    Effect call rows rows' := by
  have hm : ∀ {call : Call},
      (call.update rows).map ((), ·) = .ok ((), rows') → Effect call rows rows' := by
    intro call h
    cases hu : call.update rows with
    | error error => simp [hu, Except.map] at h
    | ok written =>
      simp only [hu, Except.map, Except.ok.injEq, Prod.mk.injEq, true_and] at h
      exact .of_update (h ▸ hu)
  cases call with
  | operationByIdempotencyKey key =>
    simp only [exec] at h
    split at h
    · cases h
      exact .of_update rfl
    · cases h
  | listOperationLocks => cases h; exact .of_update rfl
  | acquireOperationLock i => exact Table.acquire_effect h
  | updateOperationLockFenced | heartbeatOperationLock | reclaimOperationLock
  | recoverOperationLock | forceUnlockOperation | forgetOperationState =>
    exact .of_update (updateAndRead_ok h).1
  | markOperationRecovery => exact hm h
  | recordRuntimeRecoveryFailure => exact hm h

/-! ## Operations and revisions -/

@[simp] theorem Row.recordFailure_operationID (row : Row) (r attempts n : ℤ) :
    (row.recordFailure r attempts n).operationID = row.operationID := by
  unfold recordFailure
  split <;> rfl

@[simp] theorem Call.rewrite_operationID (call : Call) (r : Row) :
    (call.rewrite r).operationID = r.operationID := by
  unfold rewrite
  split
  · cases call with
    | recordRuntimeRecoveryFailure => exact r.recordFailure_operationID ..
    | _ => rfl
  · rfl

/-- The process and the instance that hold a row. -/
def Row.owner (row : Row) : Option ℤ × Str := (row.lockedByPID, row.lockedByInstanceID)

/-- A row later: its revision has not fallen, and it has risen if the state or the owner is another
one. -/
structure Row.Evolves (row row' : Row) : Prop where
  operationID : row'.operationID = row.operationID
  revision : row.revision ≤ row'.revision
  fenced : row'.revision = row.revision → row'.state = row.state ∧ row'.owner = row.owner

theorem Row.Evolves.refl (r : Row) : r.Evolves r := ⟨rfl, le_refl _, fun _ => ⟨rfl, rfl⟩⟩

theorem Row.Evolves.trans {a b c : Row} (hab : a.Evolves b) (hbc : b.Evolves c) : a.Evolves c := by
  refine ⟨hbc.operationID.trans hab.operationID, hab.revision.trans hbc.revision, fun heq => ?_⟩
  have hb : b.revision = a.revision := le_antisymm (heq ▸ hbc.revision) hab.revision
  have hf := hab.fenced hb
  have hs := hbc.fenced (heq.trans hb.symm)
  exact ⟨hs.1.trans hf.1, hs.2.trans hf.2⟩

theorem Row.Evolves.raised {r r' : Row} (hid : r'.operationID = r.operationID)
    (h : r'.revision = r.revision + 1) : r.Evolves r' :=
  ⟨hid, by omega, fun heq => by omega⟩

theorem Row.fencedBy_eq_true {row : Row} {instanceID : Str} {p r : ℤ} :
    row.fencedBy operationID instanceID p r = true ↔
      row.operationID = operationID ∧ row.revision = r ∧
        row.owner = (some p, instanceID) := by
  simp only [fencedBy, owner, Bool.and_eq_true, beq_iff_eq, Prod.mk.injEq]
  tauto

theorem FencedUpdate.hits_fenced {u : FencedUpdate} {r : Row} (h : u.hits r = true) :
    r.operationID = u.operationID ∧ r.revision = u.revision := by
  simp only [hits, Bool.and_eq_true, Row.fencedBy_eq_true] at h
  exact ⟨h.1.1.1, h.1.1.2.1⟩

theorem ReclaimUpdate.hits_eq_true {u : ReclaimUpdate} {r : Row} :
    u.hits r = true ↔ r.operationID = u.operationID ∧
      r.revision = u.revision ∧ r.state = u.fromState := by
  simp [hits, and_assoc]

/-- A second failure raises the revision; a first one leaves state and owner. -/
theorem Row.recordFailure_evolves (r : Row) (attempts n : ℤ) :
    r.Evolves (r.recordFailure r.revision attempts n) := by
  unfold recordFailure
  split
  · exact .raised rfl rfl
  · exact ⟨rfl, le_refl _, fun _ => ⟨rfl, rfl⟩⟩

theorem Call.rewrite_evolves (call : Call) (r : Row) : r.Evolves (call.rewrite r) := by
  unfold rewrite
  split
  next hh =>
    cases call with
    | updateOperationLockFenced update =>
      exact .raised rfl (by rw [(FencedUpdate.hits_fenced hh).2]; rfl)
    | reclaimOperationLock update =>
      exact .raised rfl (by rw [(ReclaimUpdate.hits_eq_true.mp hh).2.1]; rfl)
    | recoverOperationLock =>
      simp only [hits, Bool.and_eq_true, beq_iff_eq] at hh
      exact .raised rfl (by rw [hh.1.2]; rfl)
    | forceUnlockOperation | forgetOperationState =>
      simp only [hits, Bool.and_eq_true, beq_iff_eq] at hh
      exact .raised rfl (by rw [hh.2]; rfl)
    | recordRuntimeRecoveryFailure o attempts now =>
      simp only [hits, Option.any_eq_true, Bool.and_eq_true, Row.fencedBy_eq_true] at hh
      obtain ⟨p, _, hf, _⟩ := hh
      simp only [write, ← hf.2.1]
      exact r.recordFailure_evolves attempts now
    | _ => exact ⟨rfl, le_refl _, fun _ => ⟨rfl, rfl⟩⟩
  · exact .refl r

/-- Rows stay at their places. -/
theorem Effect.row (h : Effect call rows rows') {i : ℕ} {r : Row} (hr : rows[i]? = some r) :
    rows'[i]? = some r ∨ rows'[i]? = some (call.rewrite r) := by
  cases h with
  | rewritten => exact .inr (by rw [getElem?_map, hr]; rfl)
  | added =>
    have hlt : i < rows.length := (List.getElem?_eq_some_iff.mp hr).1
    exact .inl (by rw [getElem?_append_left hlt, hr])

theorem Effect.evolves (h : Effect call rows rows') {i : ℕ} {r : Row} (hrw : rows[i]? = some r) :
    ∃ r', rows'[i]? = some r' ∧ r.Evolves r' := by
  rcases h.row hrw with hk | hr
  · exact ⟨r, hk, .refl r⟩
  · exact ⟨_, hr, call.rewrite_evolves r⟩

/-- An operation has one row. -/
def Table.Distinct (rows : Table) : Prop := (rows.map Row.operationID).Nodup

theorem Table.Distinct.eq (h : rows.Distinct) {r r' : Row} (hr : r ∈ rows) (hr' : r' ∈ rows)
    (heq : r.operationID = r'.operationID) : r = r' :=
  inj_on_of_nodup_map h hr hr' heq

theorem Effect.distinct (h : Effect call rows rows') (hd : rows.Distinct) : rows'.Distinct := by
  unfold Table.Distinct at hd ⊢
  cases h with
  | rewritten =>
    have hid : Row.operationID ∘ call.rewrite = Row.operationID :=
      funext fun row => call.rewrite_operationID row
    rwa [List.map_map, hid]
  | @added i hc hi hf =>
    rw [map_append]
    refine hd.append (nodup_singleton _) ?_
    intro operationID ho hn
    obtain ⟨row, hr, rfl⟩ := mem_map.mp ho
    exact hf row hr (mem_singleton.mp hn)

end Solovey.Operations
