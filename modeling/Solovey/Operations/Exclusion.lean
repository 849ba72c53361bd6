import Solovey.Operations.Orderly

/-!
# One operation at a time

At most one operation of the table has not ended, in every run in which an operation that has ended
is reopened only while all the others have ended. `BeginReconciledRollback` looks for that itself;
`BeginRollback` and the restoration of the runtime do not.
-/

namespace Solovey.Operations

open Solovey.Text Solovey.Data List

/-! ## Reopening -/

/-- The operation that a call takes out of a terminal state without looking at the others. -/
def Call.reopens : Call → Option Str
  | .updateOperationLockFenced update =>
    if update.toState = .restoringRuntime then some update.operationID else none
  | .reclaimOperationLock update =>
    if update.fromState = .applied ∧ update.toState = .rollingBack then some update.operationID
    else none
  | _ => none

def Code.reopens : Code → Option Str
  | .store call _ => call.reopens
  | _ => none

/-- Every other operation has ended. -/
def Table.idleBut (rows : Table) (operationID : Str) : Bool :=
  rows.all fun row => row.operationID == operationID || !row.nonTerminal

/-- Whether the action reopens an operation only if every other one has ended. -/
def reopensIdle (s : State) : Action → Bool
  | .call _ _ => true
  | .run i _ => s.threads[i]?.all fun thread => thread.code.reopens.all s.rows.idleBut

variable {rows : Table}

theorem Table.idleBut_eq_true {operationID : Str} : rows.idleBut operationID = true ↔
      ∀ row ∈ rows, row.nonTerminal = true → row.operationID = operationID := by
  simp only [idleBut, all_eq_true, Bool.or_eq_true, beq_iff_eq, Bool.not_eq_true']
  refine forall₂_congr fun row _ => ?_
  cases row.nonTerminal <;> simp

/-! ## The count of operations that have not ended -/

theorem allowedFromStates_nonTerminal {s ts : OpState} (hr : ts ≠ .restoringRuntime)
    (ho : ts.nonTerminal = true) (h : s ∈ allowedFromStates ts) : s.nonTerminal = true := by
  revert h
  cases ts with
  | restoringRuntime => exact absurd rfl hr
  | prepared | applying | health | healthFailed | rollingBack | lockSuspect => cases s <;> decide
  | _ => exact absurd ho (by decide)

variable {c : Call}

/-- A call that only hits operations that have not ended, or that ends what it hits. -/
theorem Call.rewrite_closes (h : ∀ row, c.hits row = true → (c.write row).nonTerminal = true →
      row.nonTerminal = true) (rows : Table) :
    (rows.map c.rewrite).countP Row.nonTerminal ≤ rows.countP Row.nonTerminal := by
  rw [countP_map]
  refine countP_mono_left fun row _ ho => ?_
  simp only [Function.comp_apply, rewrite] at ho
  split at ho
  next hh => exact h row hh ho
  · exact ho

/-- A call that hits one row while every other operation has ended. -/
theorem Call.rewrite_alone {operationID : Str} (hd : rows.Distinct) (hon : rows.countP c.hits = 1)
    (hh : ∀ row, c.hits row = true → row.operationID = operationID)
    (hi : rows.idleBut operationID = true) :
    (rows.map c.rewrite).countP Row.nonTerminal ≤ 1 := by
  rw [countP_map, ← hon]
  refine countP_mono_left fun row hr ho => ?_
  simp only [Function.comp_apply, rewrite] at ho
  split at ho
  next hht => exact hht
  -- A row that is not hit is open as it stands, so it is the row of the operation, which is hit.
  · obtain ⟨hit, hm, hht⟩ := countP_pos_iff.mp (hon ▸ Nat.one_pos)
    have hs := Table.idleBut_eq_true.mp hi row hr ho
    rwa [hd.eq hr hm (hs.trans (hh hit hht).symm)]

theorem FencedUpdate.closes {u : FencedUpdate} (hor : u.fromStates = allowedFromStates u.toState)
    (hr : u.toState ≠ .restoringRuntime) {r : Row} (hh : u.hits r = true)
    (ho : (u.write r).nonTerminal = true) : r.nonTerminal = true := by
  simp only [hits, Bool.and_eq_true, contains_iff_mem] at hh
  exact allowedFromStates_nonTerminal hr ho (hor ▸ hh.1.2)

/-- A reclaim that looks for others finds none: it does not change the rows of others. -/
theorem reclaim_idle {u : ReclaimUpdate} {rows' : Table}
    (h : Call.update (.reclaimOperationLock u) rows = .ok rows') (hrq : u.requireIdle = true) :
    rows.idleBut u.operationID = true := by
  refine Table.idleBut_eq_true.mpr fun row hr hop => ?_
  by_contra ho
  have hk : Call.rewrite (.reclaimOperationLock u) row = row :=
    if_neg fun hh => ho (ReclaimUpdate.hits_eq_true.mp hh).1
  have hm : row ∈ rows' := by
    rw [Call.update_ok h]
    exact mem_map.mpr ⟨row, hr, hk⟩
  exact ho ((reclaim_ok h).2 hrq row hm hop)

theorem reclaim_exclusive {u : ReclaimUpdate} (hor : Call.Orderly (.reclaimOperationLock u))
    (hr : ∀ operationID, Call.reopens (.reclaimOperationLock u) = some operationID →
      rows.idleBut operationID = true) (h : Call.update (.reclaimOperationLock u) rows =
      .ok (rows.map (Call.rewrite (.reclaimOperationLock u)))) (hd : rows.Distinct)
    (hrw : rows.countP Row.nonTerminal ≤ 1) :
    (rows.map (Call.rewrite (.reclaimOperationLock u))).countP Row.nonTerminal ≤ 1 := by
  rcases hor.2 with hsm | ⟨hrl, hf⟩
  · refine (Call.rewrite_closes (fun row hh ho => ?_) rows).trans hrw
    have hs : (Call.write (.reclaimOperationLock u) row).state = row.state :=
      hsm.trans (ReclaimUpdate.hits_eq_true.mp hh).2.2.symm
    rwa [Row.nonTerminal, hs] at ho
  · refine Call.rewrite_alone hd (updateOne_ok (reclaim_ok h).1).2
      (fun row hh => (ReclaimUpdate.hits_eq_true.mp hh).1) ?_
    rcases hf with ha | hrq
    · exact hr _ (if_pos ⟨ha, hrl⟩)
    · exact reclaim_idle h hrq

theorem Effect.exclusive {rows' : Table} (h : Effect c rows rows') (hor : c.Orderly)
    (hr : ∀ operationID, c.reopens = some operationID → rows.idleBut operationID = true)
    (hd : rows.Distinct) (hrw : rows.countP Row.nonTerminal ≤ 1) :
    rows'.countP Row.nonTerminal ≤ 1 := by
  cases h with
  | added hc hi hf =>
    rw [countP_append, countP_eq_zero.mpr fun row hro => by simp [hi row hro],
      zero_add]
    exact countP_le_length
  | rewritten hu =>
    cases c with
    | updateOperationLockFenced update =>
      by_cases hrs : update.toState = .restoringRuntime
      · exact Call.rewrite_alone hd (updateOne_ok hu).2
          (fun row hh => (FencedUpdate.hits_fenced hh).1) (hr _ (if_pos hrs))
      · refine (Call.rewrite_closes (fun row hh ho => ?_) rows).trans hrw
        exact FencedUpdate.closes hor hrs hh ho
    | reclaimOperationLock update => exact reclaim_exclusive hor hr hu hd hrw
    | recoverOperationLock operationID revision f ts now =>
      refine (Call.rewrite_closes (fun row hh ho => ?_) rows).trans hrw
      have ho' : ts.nonTerminal = true := ho
      rcases hor with ht | ⟨hfr, _⟩
      · exact absurd (ho'.symm.trans ht) (by decide)
      · simp only [Call.hits, Bool.and_eq_true, contains_iff_mem] at hh
        exact hfr _ hh.2
    | forceUnlockOperation | forgetOperationState =>
      refine (Call.rewrite_closes (fun row _ ho => ?_) rows).trans hrw
      exact absurd ho Bool.false_ne_true
    | recordRuntimeRecoveryFailure o am now =>
      refine (Call.rewrite_closes (fun row _ ho => ?_) rows).trans hrw
      simp only [Call.write, Row.recordFailure] at ho
      split at ho
      · exact absurd ho Bool.false_ne_true
      · exact ho
    | _ =>
      refine (Call.rewrite_closes (fun row _ ho => ?_) rows).trans hrw
      exact ho

/-! ## Runs -/

variable {config : ℕ → Config}

theorem exclusive_step {s t : State} {a : Action} (hs : Consistent s)
    (hrw : s.rows.countP Row.nonTerminal ≤ 1) (hi : reopensIdle s a = true)
    (h : step config s a = some t) : t.rows.countP Row.nonTerminal ≤ 1 := by
  rcases hs.step_effect h with hk | ⟨c, he, ho, hef⟩
  · rwa [hk]
  · obtain ⟨i, th, next, reply, rfl, ht, hc, _⟩ := he
    refine hef.exclusive ho (fun operationID hr => ?_) hs.distinct hrw
    have ht' : th.code.reopens.all s.rows.idleBut = true := by
      simpa only [reopensIdle, ht, Option.all_some] using hi
    rw [hc] at ht'
    simpa only [Code.reopens, hr, Option.all_some] using ht'

/-- A manager acquires an operation that is applied. -/
def sampleApplied : List Action :=
  sampleAcquire { sampleRequest ['a'] with initialState := some .applying } ++
    [.call 0 (.transition ['o'] 1 .applied none), .run 1 .go, .run 1 (.time 7), .run 1 .go,
      .run 1 .go]

/-- In every run that reopens an operation only while all the others have ended, at most one
operation has not ended. -/
theorem one_operation {s : State}
    (h : ((system config).guarded fun s a => reopensIdle s a = true).Reachable s) :
    s.rows.countP Row.nonTerminal ≤ 1 := by
  refine (h.invariant (I := fun s => Consistent s ∧ s.rows.countP Row.nonTerminal ≤ 1) ?_ ?_).2
  · rintro _ rfl
    exact ⟨.new, Nat.zero_le 1⟩
  · rintro s a t ⟨hs, hr⟩ ⟨hi, hst⟩
    exact ⟨hs.step hst, exclusive_step hs hr hi hst⟩

/-- An operation is applied and rolled back again while it is the only one. -/
theorem one_operation_reopened :
    ∃ s, ((system sampleConfig).guarded fun s a => reopensIdle s a = true).Reachable s ∧
      s.rows.map Row.state = [.rollingBack] ∧ s.rows.countP Row.nonTerminal ≤ 1 := by
  obtain ⟨s, hs, hst⟩ : ∃ s, (sampleApplied ++ [Action.call 0 (.beginRollback ['o'] 2 none),
      .run 2 .go, .run 2 (.time 9), .run 2 .go]).foldlM
      (fun s a => if reopensIdle s a then step sampleConfig s a else none) .new = some s ∧
      s.rows.map Row.state = [.rollingBack] := ⟨_, rfl, rfl⟩
  have hr := System.reachable_guarded_of_foldlM (fun _ _ h => h) hs
  exact ⟨s, hr, hst, one_operation hr⟩

/-- An operation is applied, another manager acquires the next one, and the first one is reopened
for its rollback. -/
theorem two_operations :
    ∃ s, (system sampleConfig).Reachable s ∧
      s.rows.map Row.state = [.rollingBack, .prepared] ∧ s.rows.countP Row.nonTerminal = 2 := by
  obtain ⟨s, hs, hst⟩ : ∃ s, (sampleApplied ++ [Action.call 1 (.acquire (sampleRequest ['b'])),
      .run 2 .go, .run 2 .go, .run 2 (.time 8), .run 2 (.fresh ['p']), .run 2 .go, .run 2 .go,
      .call 0 (.beginRollback ['o'] 2 none), .run 3 .go, .run 3 (.time 9), .run 3 .go]).foldlM
      (step sampleConfig) .new = some s ∧
      s.rows.map Row.state = [.rollingBack, .prepared] ∧ s.rows.countP Row.nonTerminal = 2 :=
    ⟨_, rfl, rfl, rfl⟩
  exact ⟨s, System.reachable_of_foldlM hs, hst⟩

end Solovey.Operations
