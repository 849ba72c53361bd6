import Solovey.Operations.Orderly

/-!
# Fencing

The revision of a row is its fence. It rises with every change of the state or of the owner, so that
a call which still carries an older revision fails in every later state. Only a transition within
the lease starts to apply an operation; but `Heartbeat` renews the lease of an operation that is
still prepared, also when the lease has run out.
-/

namespace Solovey.Operations

open Solovey.Text Solovey.Data List

/-! ## Calls that carry or raise a revision -/

/-- The operation and the revision that a transition or a heartbeat carries. -/
def Call.carries : Call → Option (Str × ℤ)
  | .updateOperationLockFenced update => some (update.operationID, update.revision)
  | .heartbeatOperationLock operationID _ _ revision _ _ => some (operationID, revision)
  | _ => none

/-- The operation that a call takes from its owner, or ends. -/
def Call.takesOver : Call → Option Str
  | .reclaimOperationLock update => some update.operationID
  | .recoverOperationLock operationID _ _ _ _ => some operationID
  | .forceUnlockOperation operationID _ _ => some operationID
  | _ => none

variable {rows rows' : Table}

theorem updateOne_hit {hits : Row → Bool} {w : Row → Row} {e : StoreError}
    (h : rows.updateOne hits w e = .ok rows') :
    ∃ row ∈ rows, hits row = true := by
  have ho := (updateOne_ok h).2
  exact countP_pos_iff.mp (ho ▸ Nat.one_pos)

variable {s : State} {a : Action} {call : Call}

theorem Executes.update (h : Executes s a call rows)
    (hc : call.carries ≠ none ∨ call.takesOver ≠ none) :
    call.update s.rows = .ok rows := by
  obtain ⟨_, _, _, _, _, _, _, he⟩ := h
  cases call with
  | updateOperationLockFenced | heartbeatOperationLock | reclaimOperationLock
  | recoverOperationLock | forceUnlockOperation => exact (Call.updateAndRead_ok he).1
  | _ => exact absurd hc (by simp [Call.carries, Call.takesOver])

variable {operationID : Str} {revision : ℤ}

/-- A transition or a heartbeat that succeeds carries the revision of its row. -/
theorem Call.update_carried (hc : call.carries = some (operationID, revision))
    (h : call.update rows = .ok rows') :
    ∃ row ∈ rows, row.operationID = operationID ∧ row.revision = revision := by
  cases call with
  | updateOperationLockFenced update =>
    cases hc
    obtain ⟨row, hr, hh⟩ := updateOne_hit h
    exact ⟨row, hr, FencedUpdate.hits_fenced hh⟩
  | heartbeatOperationLock =>
    cases hc
    obtain ⟨row, hr, hh⟩ := updateOne_hit h
    rw [Bool.and_eq_true, Row.fencedBy_eq_true] at hh
    exact ⟨row, hr, hh.1.1, hh.1.2.1⟩
  | _ => cases hc

theorem settleChecked_hit {n : ℤ} {admits : OpState → Bool} {ts : OpState}
    (h : rows.settleChecked operationID revision n admits ts = .ok rows') :
    ∃ row ∈ rows, (row.operationID == operationID && row.revision == revision) = true := by
  unfold Table.settleChecked at h
  split at h
  · cases h
  split at h
  · cases h
  split at h
  · cases h
  exact updateOne_hit h

/-- A call that takes over an operation raises the revision of its row. -/
theorem Call.update_taken (ht : call.takesOver = some operationID)
    (h : call.update rows = .ok rows') :
    ∃ row ∈ rows, row.operationID = operationID ∧
      (call.rewrite row).revision = row.revision + 1 := by
  have hht : ∃ row ∈ rows, call.hits row = true := by
    cases call with
    | reclaimOperationLock update => exact updateOne_hit (reclaim_ok h).1
    | recoverOperationLock => exact updateOne_hit h
    | forceUnlockOperation => exact settleChecked_hit h
    | _ => cases ht
  obtain ⟨row, hr, hh⟩ := hht
  refine ⟨row, hr, ?_⟩
  rw [Call.rewrite, if_pos hh]
  cases call with
  | reclaimOperationLock update =>
    cases ht
    obtain ⟨hid, hrv, _⟩ := ReclaimUpdate.hits_eq_true.mp hh
    exact ⟨hid, by rw [hrv]; rfl⟩
  | recoverOperationLock =>
    cases ht
    simp only [Call.hits, Bool.and_eq_true, beq_iff_eq] at hh
    exact ⟨hh.1.1, by rw [hh.1.2]; rfl⟩
  | forceUnlockOperation =>
    cases ht
    simp only [Call.hits, Bool.and_eq_true, beq_iff_eq] at hh
    exact ⟨hh.1, by rw [hh.2]; rfl⟩
  | _ => cases ht

/-! ## Prepared operations -/

variable {row : Row}

/-- The operation whose lease a call renews. -/
def Call.renews : Call → Option Str
  | .heartbeatOperationLock operationID .. => some operationID
  | _ => none

def Code.renews : Code → Option Str
  | .store call _ => call.renews
  | _ => none

/-- The operation is not prepared. -/
def Table.begun (rows : Table) (operationID : Str) : Bool :=
  rows.all fun row => row.operationID != operationID || row.state != .prepared

/-- Whether the action renews the lease of an operation only if that is past being prepared. The
ticks of `run` do; callers of `Heartbeat` have to see to it. -/
def renewsBegun (s : State) : Action → Bool
  | .call _ _ => true
  | .run i _ => s.threads[i]?.all fun thread => thread.code.renews.all s.rows.begun

/-- A row is prepared only if it was, and then with the same lease, unless a heartbeat renews it. -/
theorem Call.Orderly.prepared (ho : call.Orderly)
    (hb : ∀ operationID, call.renews = some operationID → rows.begun operationID = true)
    (hrw : row ∈ rows) (hp : (call.rewrite row).state = .prepared) :
    row.state = .prepared ∧ (call.rewrite row).expiresAt = row.expiresAt := by
  unfold Call.rewrite at hp ⊢
  split at hp
  next hh =>
    rw [if_pos hh]
    cases call with
    | updateOperationLockFenced update =>
      have hto : update.toState = .prepared := hp
      have hfr : update.fromStates = [] := ho.trans (by rw [hto]; rfl)
      simp [Call.hits, FencedUpdate.hits, hfr] at hh
    | heartbeatOperationLock =>
      have hbg := all_eq_true.mp (hb _ rfl) row hrw
      simp only [Call.hits, Bool.and_eq_true, Row.fencedBy_eq_true] at hh
      have hst : row.state = .prepared := hp
      simp [hh.1.1, hst] at hbg
    | reclaimOperationLock update =>
      have hto : update.toState = .prepared := hp
      rcases ho.2 with hsm | ⟨hrl, _⟩
      · exact absurd (hsm.symm.trans hto) ho.1
      · exact absurd (hrl.symm.trans hto) (by decide)
    | recoverOperationLock operationID revision f ts now =>
      have hto : ts = .prepared := hp
      rcases ho with ht | ⟨_, hne, _⟩
      · exact absurd (hto ▸ ht) (by decide)
      · exact absurd hto hne
    | forceUnlockOperation | forgetOperationState => cases hp
    | recordRuntimeRecoveryFailure o am now =>
      simp only [Call.write, Row.recordFailure] at hp ⊢
      split at hp
      · cases hp
      next hf => exact ⟨hp, by rw [if_neg hf]⟩
    | _ => exact ⟨hp, rfl⟩
  next hm =>
    rw [if_neg hm]
    exact ⟨hp, rfl⟩

/-- Only a transition within the lease starts to apply a prepared operation. -/
theorem Call.Orderly.applying (ho : call.Orderly) (hp : row.state = .prepared)
    (ha : (call.rewrite row).state = .applying) :
    ∃ update, call = .updateOperationLockFenced update ∧ update.now < row.expiresAt := by
  unfold Call.rewrite at ha
  split at ha
  next hh =>
    cases call with
    | updateOperationLockFenced update =>
      have hto : update.toState = .applying := ha
      simp only [Call.hits, FencedUpdate.hits, Bool.and_eq_true, hto, hp] at hh
      exact ⟨update, rfl, by simpa using hh.2⟩
    | reclaimOperationLock update =>
      have hto : update.toState = .applying := ha
      have hf := (ReclaimUpdate.hits_eq_true.mp hh).2.2
      exact absurd (hf.symm.trans hp) ho.1
    | recoverOperationLock operationID revision f ts now =>
      have hto : ts = .applying := ha
      rcases ho with ht | ⟨_, _, hne⟩
      · exact absurd (hto ▸ ht) (by decide)
      · exact absurd hto hne
    | forceUnlockOperation | forgetOperationState => cases ha
    | recordRuntimeRecoveryFailure o am now =>
      simp only [Call.write, Row.recordFailure] at ha
      split at ha
      · cases ha
      · exact absurd (hp.symm.trans ha) (by decide)
    | _ => exact absurd (hp.symm.trans ha) (by decide)
  · exact absurd (hp.symm.trans ha) (by decide)

/-! ## Runs -/

variable {config : ℕ → Config}

theorem Consistent.of_reachable (h : (system config).Reachable s) : Consistent s := by
  refine h.invariant ?_ fun hs hst => hs.step hst
  rintro _ rfl
  exact .new

variable {t : State} {i : ℕ}

theorem step_evolves (h : step config s a = some t) (hr : s.rows[i]? = some row) :
    ∃ row', t.rows[i]? = some row' ∧ row.Evolves row' := by
  rcases step_rows h with hk | ⟨call, he⟩
  · exact ⟨row, hk ▸ hr, .refl row⟩
  · exact he.effect.evolves hr

theorem later_evolves (h : (system config).Later s t) (hr : s.rows[i]? = some row) :
    ∃ row', t.rows[i]? = some row' ∧ row.Evolves row' := by
  induction h with
  | refl => exact ⟨row, hr, .refl row⟩
  | tail _ hs ih =>
    obtain ⟨m, hm, hf⟩ := ih
    obtain ⟨last, hl, hsc⟩ := step_evolves hs hm
    exact ⟨last, hl, hf.trans hsc⟩

/-- The runs in which no heartbeat is for an operation that is still prepared. -/
def begunSystem (config : ℕ → Config) : System State Action :=
  (system config).guarded fun s a => renewsBegun s a = true

/-- What is prepared after a step was prepared before it, with the same lease. -/
theorem Consistent.step_prepared (hs : Consistent s) (h : (begunSystem config).step s a t)
    {row' : Row} (hrw : s.rows[i]? = some row) (hr' : t.rows[i]? = some row')
    (hp : row'.state = .prepared) :
    row.state = .prepared ∧ row'.expiresAt = row.expiresAt := by
  rcases hs.step_effect h.2 with hk | ⟨call, hex, ho, he⟩
  · rw [hk, hrw] at hr'
    cases hr'
    exact ⟨hp, rfl⟩
  · rcases he.row hrw with hsm | hr
    · cases hsm.symm.trans hr'
      exact ⟨hp, rfl⟩
    · cases hr.symm.trans hr'
      refine ho.prepared (fun operationID hrn => ?_) (mem_of_getElem? hrw) hp
      obtain ⟨i, thread, next, reply, rfl, hth, hcd, -⟩ := hex
      have hg := h.1
      simpa only [renewsBegun, hth, Option.all_some, hcd, Code.renews, hrn] using hg

/-- The lease of a prepared operation stays what it was. -/
theorem Consistent.later_prepared (hs : Consistent s) (h : (begunSystem config).Later s t)
    {row' : Row} (hr : s.rows[i]? = some row) (hr' : t.rows[i]? = some row')
    (hp : row'.state = .prepared) :
    row'.expiresAt = row.expiresAt := by
  induction h generalizing row' with
  | refl =>
    cases hr.symm.trans hr'
    rfl
  | tail hl hst ih =>
    obtain ⟨m, hm, _⟩ := later_evolves hl.of_guarded hr
    have hc := hl.of_guarded.preserves (I := Consistent) (fun hs hst => hs.step hst) hs
    obtain ⟨hb, hls⟩ := hc.step_prepared hst hm hr' hp
    exact hls.trans (ih hm hb)

/-- A transition or a heartbeat that succeeds on a row carries a revision that the row has reached. -/
theorem Executes.carried (hs : s.rows.Distinct) (hr : s.rows[i]? = some row)
    (h : Executes s a call rows) (hc : call.carries = some (row.operationID, revision)) :
    row.revision = revision := by
  obtain ⟨found, hf, hid, hrv⟩ := Call.update_carried hc (h.update (.inl (by simp [hc])))
  rw [← hrv, hs.eq hf (mem_of_getElem? hr) hid]

/-- Every change of the state or of the owner of a row raises its revision. Once an operation has
been taken over, a transition or a heartbeat succeeds on it only with a later revision than the one
before. As long as no heartbeat is for an operation that is still prepared, a prepared operation
starts to be applied only by a transition that has read the clock within the lease that the operation
was prepared with. -/
theorem operation_fencing {s : State} (hs : (system config).Reachable s) :
    (∀ a t, step config s a = some t → ∀ (i : ℕ) (row : Row), s.rows[i]? = some row →
      ∃ row' : Row, t.rows[i]? = some row' ∧ row'.operationID = row.operationID ∧
        row.revision ≤ row'.revision ∧
        (row'.state ≠ row.state ∨ row'.owner ≠ row.owner → row.revision < row'.revision)) ∧
    (∀ a t call operationID, step config s a = some t → Executes s a call t.rows →
      call.takesOver = some operationID → ∃ row ∈ s.rows, row.operationID = operationID ∧
        ∀ u, (system config).Later t u → ∀ b carrier rows revision, Executes u b carrier rows →
          carrier.carries = some (operationID, revision) → row.revision < revision) ∧
    ∀ t, (begunSystem config).Later s t → ∀ a u, step config t a = some u →
      ∀ (i : ℕ) (row before after : Row), s.rows[i]? = some row → t.rows[i]? = some before →
        u.rows[i]? = some after → before.state = .prepared → after.state = .applying →
        ∃ update, Executes t a (.updateOperationLockFenced update) u.rows ∧
          update.now < row.expiresAt := by
  have hcn := Consistent.of_reachable hs
  refine ⟨fun a t hsp i row hro => ?_, fun a t call operationID hsp hex hts => ?_,
    fun t hlt a u hsp i row before after hro hb ha hp hap => ?_⟩
  · obtain ⟨row', hr', he⟩ := step_evolves hsp hro
    refine ⟨row', hr', he.operationID, he.revision, fun hch => ?_⟩
    refine lt_of_le_of_ne he.revision fun hsm => ?_
    obtain ⟨hst, ho⟩ := he.fenced hsm.symm
    exact hch.elim (fun h => h hst) fun h => h ho
  · have hu := hex.update (.inr (by simp [hts]))
    obtain ⟨row, hro, hid, hr⟩ := Call.update_taken hts hu
    refine ⟨row, hro, hid, fun u hlt b carrier rows revision hc hca => ?_⟩
    obtain ⟨i, hi⟩ := mem_iff_getElem?.mp hro
    have htk : t.rows[i]? = some (call.rewrite row) := by
      rw [Call.update_ok hu, getElem?_map, hi]
      rfl
    obtain ⟨later, hi', he⟩ := later_evolves hlt htk
    have hid' : later.operationID = operationID := by
      rw [he.operationID, call.rewrite_operationID, hid]
    have hd := (Consistent.of_reachable ((hs.step hsp).later hlt)).distinct
    have hcr := hc.carried hd hi' (hid' ▸ hca)
    have hle := he.revision
    omega
  · have hl := hcn.later_prepared hlt hro hb hp
    have ht := Consistent.of_reachable (hs.later hlt.of_guarded)
    rcases ht.step_effect hsp with hk | ⟨call, hex, hor, hef⟩
    · rw [hk, hb] at ha
      cases ha
      exact absurd (hp.symm.trans hap) (by decide)
    · rcases hef.row hb with hsm | hrw
      · cases hsm.symm.trans ha
        exact absurd (hp.symm.trans hap) (by decide)
      · cases hrw.symm.trans ha
        obtain ⟨update, rfl, hn⟩ := hor.applying hp hap
        exact ⟨update, hex, hl ▸ hn⟩

/-- An operation is prepared with a lease until 65 and starts to be applied within it. -/
theorem operation_fencing_applied :
    ∃ s t u a, (system sampleConfig).Reachable s ∧
      s.rows.map (fun row => (row.state, row.expiresAt)) = [(.prepared, 65)] ∧
      (begunSystem sampleConfig).Later s t ∧ step sampleConfig t a = some u ∧
      u.rows.map Row.state = [.applying] ∧
      ∃ update, Executes t a (.updateOperationLockFenced update) u.rows ∧ update.now < 65 := by
  obtain ⟨s, hs, row, hrw, hls⟩ : ∃ s, (sampleAcquire (sampleRequest ['k'])).foldlM
      (step sampleConfig) .new = some s ∧
      ∃ row, s.rows = [row] ∧ (row.state, row.expiresAt) = (.prepared, 65) :=
    ⟨_, rfl, _, rfl, rfl⟩
  obtain ⟨t, ht, u, hu, before, hb, hp, after, ha, hap⟩ :
      ∃ t, [Action.call 0 (.transition ['o'] 1 .applying none), .run 1 .go,
        .run 1 (.time 7)].foldlM (fun s a => if renewsBegun s a then step sampleConfig s a else none)
          s = some t ∧
      ∃ u, step sampleConfig t (.run 1 .go) = some u ∧
        ∃ before, t.rows = [before] ∧ before.state = .prepared ∧
        ∃ after, u.rows = [after] ∧ after.state = .applying := by
    cases hs
    exact ⟨_, rfl, _, rfl, _, rfl, rfl, _, rfl, rfl⟩
  have hr := System.reachable_of_foldlM hs
  have hl : (begunSystem sampleConfig).Later s t := System.later_guarded_of_run (fun hs => hs) ht
  obtain ⟨update, he, hn⟩ := (operation_fencing hr).2.2 t hl _ u hu 0 row before
    after (by rw [hrw]; rfl) (by rw [hb]; rfl) (by rw [ha]; rfl) hp hap
  obtain ⟨hst, hex⟩ := Prod.mk.inj hls
  refine ⟨s, t, u, _, hr, by simp [hrw, hls], hl, hu, by simp [ha, hap], ?_⟩
  exact ⟨update, he, hex ▸ hn⟩

/-- The lease of a prepared operation has run out at 65. A heartbeat at 200 renews it, and the
operation starts to be applied at 210. -/
theorem expired_operation_applied :
    ∃ s t u a, (system sampleConfig).Reachable s ∧
      s.rows.map (fun row => (row.state, row.expiresAt)) = [(.prepared, 65)] ∧
      (system sampleConfig).Later s t ∧ step sampleConfig t a = some u ∧
      u.rows.map Row.state = [.applying] ∧
      ∃ update, Executes t a (.updateOperationLockFenced update) u.rows ∧ update.now = 210 := by
  obtain ⟨s, hs, hrw⟩ : ∃ s, (sampleAcquire (sampleRequest ['k'])).foldlM
      (step sampleConfig) .new = some s ∧
      s.rows.map (fun row => (row.state, row.expiresAt)) = [(.prepared, 65)] := ⟨_, rfl, rfl⟩
  obtain ⟨t, ht, u, hu, hap, update, hex⟩ :
      ∃ t, [Action.call 0 (.heartbeat ['o'] 1), .run 1 (.time 200), .run 1 .go, .run 1 .go,
        .call 0 (.transition ['o'] 1 .applying none), .run 2 .go,
        .run 2 (.time 210)].foldlM (step sampleConfig) s = some t ∧
      ∃ u, step sampleConfig t (.run 2 .go) = some u ∧ u.rows.map Row.state = [.applying] ∧
        ∃ update, Executes t (.run 2 .go) (.updateOperationLockFenced update) u.rows ∧
          update.now = 210 := by
    cases hs
    exact ⟨_, rfl, _, rfl, rfl, _, ⟨_, _, _, _, rfl, rfl, rfl, rfl⟩, rfl⟩
  exact ⟨s, t, u, _, System.reachable_of_foldlM hs, hrw, System.later_of_foldlM ht, hu, hap,
    update, hex⟩

/-- A manager's active operation is a copy of the one row with its id: the row is not behind the
copy, and is the same while its revision is. -/
theorem active_was_stored {s : State} (hs : (system config).Reachable s) {manager : ℕ} {copy : Row}
    (ha : (s.fields manager).active = some copy) : ∃ row, copy.revision ≤ row.revision ∧
      (∀ r ∈ s.rows, r.operationID = copy.operationID ↔ r = row) ∧ row ∈ s.rows ∧
      (row.revision = copy.revision → row.state = copy.state ∧ row.owner = copy.owner) := by
  have hc := Consistent.of_reachable hs
  obtain ⟨row, hr, he⟩ := hc.active manager copy ha
  refine ⟨row, he.revision, fun r hrs => ⟨fun hid => ?_, ?_⟩, hr, he.fenced⟩
  · exact hc.distinct.eq hrs hr (hid.trans he.operationID.symm)
  · rintro rfl
    exact he.operationID

theorem active_was_stored_acquired : ∃ (s : State) (copy : Row),
    (system sampleConfig).Reachable s ∧ (s.fields 0).active = some copy ∧
      ∃ row ∈ s.rows, copy.revision ≤ row.revision := by
  obtain ⟨s, hs, copy, ha⟩ : ∃ s, (sampleAcquire (sampleRequest ['k'])).foldlM
      (step sampleConfig) .new = some s ∧ ∃ copy, (s.fields 0).active = some copy :=
    ⟨_, rfl, _, rfl⟩
  have hr := System.reachable_of_foldlM hs
  obtain ⟨row, hle, -, hrw, -⟩ := active_was_stored hr ha
  exact ⟨s, copy, hr, ha, row, hrw, hle⟩

end Solovey.Operations
