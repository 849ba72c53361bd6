import Solovey.Ssh.Trace

/-!
# Rollback of a failed start

The rollback of a candidate calls the provider to restore the prior artifact or leaves the
candidate to a person, unless something else fails on the way. Given the zero candidate it does
nothing.
-/

namespace Solovey.Ssh

open Text (Str)
open Data List
open Data.Program (bind_done wp wp_bind wp_mono)

variable {D : Digests} {s t u : World} {c : Candidate} {e : Effect} {r : Reply e}

section

variable {G : World → World → Prop} {α : Type}
  (hG : ∀ {s e r t}, e.isStage = false → react D s e r = some t → G s t)

/-! ## Rollback -/

/-- Unless something failed since, the stage is undone and no write of a next step was lost. -/
def Undoes (s : World) (op : Str) (prior : PriorArtifact) (t : World) : Prop :=
  s.failures ≤ t.failures ∧
    (t.failures = s.failures → t.lostAdvance = s.lostAdvance ∧ t.undone op prior = true)

variable {op : Str} {prior : PriorArtifact}

theorem undone_of_restored (h : s.restored op prior = true) : s.undone op prior = true := by
  rw [World.undone, h, Bool.true_or, Bool.true_or]

theorem undone_of_manual (h : s.inState op .manualRecoveryRequired = true) :
    s.undone op prior = true := by
  rw [World.undone, h, Bool.or_true, Bool.true_or]

theorem undoes_step (hs : react D s e r = some u) (h : Undoes u op prior t) :
    Undoes s op prior t := by
  have hf := react_failures hs
  refine ⟨le_trans (by omega) h.1, fun hsm => ?_⟩
  cases hr : e.failedBy r with
  | true =>
    rw [hr, if_pos rfl] at hf
    have := h.1
    omega
  | false =>
    rw [hr, if_neg (by simp)] at hf
    obtain ⟨hl, hu⟩ := h.2 (by omega)
    rw [react_lostAdvance hs, lostAdvance_of_not_failed hr, Bool.false_or] at hl
    exact ⟨hl, hu⟩

theorem Went.undoes (hw : Went s u) (h : Undoes u op prior t) : Undoes s op prior t := by
  refine ⟨hw.failures ▸ h.1, fun hs => ?_⟩
  rw [← hw.lostAdvance]
  exact h.2 (hs.trans hw.failures.symm)

theorem Refused.undoes {l : Bool} (h : Refused s t l) : Undoes s op prior t := by
  have hf := h.failures
  exact ⟨by omega, fun hs => by omega⟩

def Unstaged (e : Effect) : Prop := e.isStage = false

include hG in
/-- Once the provider was called to restore, nothing that follows takes it back. -/
theorem wp_restored {p : Prog α} (hp : p.All Unstaged) (hs : s.restored op prior = true) :
    wp (react D) G p (fun _ t => Undoes s op prior t) s := by
  induction p generalizing s with
  | done a => exact ⟨le_rfl, fun _ => ⟨rfl, undone_of_restored hs⟩⟩
  | call e k ih =>
    intro r t hst
    refine ⟨hG hp.1 hst, wp_mono (fun a u hu => undoes_step hst hu) (ih r (hp.2 r) ?_)⟩
    rw [react_restored hst, hs, Bool.or_true]

variable {event : String}

theorem unstaged_advance {state : CandidateState} {reason : Option ReasonCode} :
    (advance c state event reason).All Unstaged := by
  unfold advance
  split
  · exact ⟨rfl, fun _ => ⟨rfl, fun _ => trivial⟩⟩
  · trivial

variable {reason : ReasonCode}

theorem unstaged_requireManualRecovery {es : Errors} :
    (requireManualRecovery c event reason es).All Unstaged :=
  unstaged_advance.bind fun _ => trivial

variable {M : Manager}

theorem unstaged_reloadRestored {rs : Option RestoreResult} :
    (M.reloadRestored c prior rs).All Unstaged := by
  cases rs with
  | none => trivial
  | some rs =>
    simp only [Manager.reloadRestored]
    split
    · exact ⟨rfl, fun _ => trivial⟩
    · trivial

theorem unstaged_restorePrior : (M.restorePrior c prior reason).All Unstaged := by
  refine ⟨rfl, fun restored => unstaged_reloadRestored.bind fun rl =>
    ⟨rfl, fun i => ⟨rfl, fun observed => ?_⟩⟩⟩
  simp only [bind_done]
  split
  · exact unstaged_requireManualRecovery
  · exact ⟨rfl, fun now => unstaged_advance.bind fun _ => trivial⟩

include hG

theorem wp_restorePrior (M : Manager) (reason : ReasonCode) :
    wp (react D) G (M.restorePrior c prior reason)
      (fun _ t => Undoes s c.operationID prior t) s := by
  intro restored t hs
  refine ⟨hG rfl hs, wp_mono (fun _ u hu => undoes_step hs hu) ?_⟩
  refine wp_restored hG (unstaged_restorePrior.2 restored) ?_
  rw [react_restored hs]
  simp [Effect.restores, Manager.providerFence]

theorem wp_attemptRollback (M : Manager) (reason : ReasonCode) (hf : c.rollbackAttempts = 0) :
    wp (react D) G (M.attemptRollback c prior reason)
      (fun _ t => Undoes s c.operationID prior t) s := by
  rw [Manager.attemptRollback, if_pos hf]
  refine wp_quiet hG rfl rfl fun now t hn _ w u hw => ⟨hG rfl hw, ?_⟩
  have hwn : Went s t := react_went hn rfl rfl
  simp only [bind_done]
  rcases react_update_cases (c := c) hw rfl with ⟨he, hr⟩ | ⟨he, ha⟩
  · obtain ⟨e, rest, hc⟩ := exists_cons_of_ne_nil he
    simp only [hc]
    exact hwn.undoes hr.undoes
  · simp only [he]
    exact wp_mono (fun _ _ h => hwn.undoes (ha.went.undoes h)) (wp_restorePrior hG M reason)

theorem wp_rollbackWithPrior (M : Manager) (reason : ReasonCode) (hf : c.rollbackAttempts = 0)
    (ha : transitionAllowed c.state .rollbackPending = true) :
    wp (react D) G (M.rollbackWithPrior c prior reason)
      (fun _ t => Undoes s c.operationID prior t) s := by
  have hs : c.state ≠ .rollbackPending := by
    intro h
    rw [h] at ha
    cases ha
  rw [Manager.rollbackWithPrior, if_neg (by simp [hf]), if_pos hs, wp_bind]
  refine wp_advance hG ha ?_ ?_
  · intro t next hid _ hat had
    rw [← hid]
    exact wp_mono (fun _ _ h => had.went.undoes h) (wp_attemptRollback hG M reason (hat.trans hf))
  · intro t errors he hr
    obtain ⟨e, rest, rfl⟩ := exists_cons_of_ne_nil he
    exact hr.undoes

theorem wp_requireManualRecovery {es : Errors}
    (ha : transitionAllowed c.state .manualRecoveryRequired = true) :
    wp (react D) G (requireManualRecovery c event reason es)
      (fun _ t => Undoes s c.operationID prior t) s := by
  rw [requireManualRecovery, wp_bind]
  refine wp_advance hG ha ?_ fun t es _ hrf => hrf.undoes
  intro t next hid hs _ had
  have hk : next.prunable = false := by simp [Candidate.prunable, hs]
  have hr := had.row hk
  rw [hid, hs] at hr
  exact had.went.undoes ⟨le_rfl, fun _ => ⟨rfl, undone_of_manual hr⟩⟩

/-- The states from which a candidate with a stored checkpoint is rolled back. -/
def CandidateState.retreats (state : CandidateState) : Prop :=
  transitionAllowed state .rollbackPending = true ∧
    transitionAllowed state .manualRecoveryRequired = true

/-- With a checkpoint, the first failure is undone. -/
theorem wp_failAndRollback (M : Manager) {k : Checkpoint} (reason : ReasonCode)
    (hf : c.rollbackAttempts = 0) (hs : c.state.retreats)
    (hst : s.checkpoints.find? (fun k => k.operationID = c.operationID) = some k) :
    wp (react D) G (M.failAndRollback c reason)
      (fun _ t => Undoes s c.operationID k.prior t) s := by
  rw [Manager.failAndRollback, wp_bind, Manager.rollback]
  refine wp_quiet hG rfl rfl fun found t hfn _ => ?_
  simp only [bind_done]
  have hw : Went s t := react_went hfn rfl rfl
  cases found with
  | found k' =>
    have hsm := (react_checkpoint_found hfn).symm.trans hst
    cases hsm
    exact wp_mono (fun _ _ h => hw.undoes h) (wp_rollbackWithPrior hG M reason hf hs.1)
  | missing =>
    have hn := (react_checkpoint_missing hfn).symm.trans hst
    cases hn
  | failed => exact wp_mono (fun _ _ h => hw.undoes h) (wp_requireManualRecovery hG hs.2)

omit hG in
/-- A candidate that cannot go to the rollback is not restored. -/
theorem rollbackWithPrior_blocked
    (hs : c.state ≠ .rollbackPending ∧ transitionAllowed c.state .rollbackPending = false) :
    ∃ e, M.rollbackWithPrior c prior reason = .done [e] := by
  unfold Manager.rollbackWithPrior
  split
  · exact ⟨_, rfl⟩
  · refine ⟨.code "transition" .operationStateConflict, ?_⟩
    rw [if_pos hs.1, advance, if_neg (by simp [hs.2])]
    rfl

theorem wp_rollbackAfterStage (M : Manager) (stage : StageResult) (reason : ReasonCode)
    (hf : c.rollbackAttempts = 0) (hs : c.state = .preflighted) :
    wp (react D) G (M.rollbackAfterStage c stage reason)
      (fun _ t => Undoes s c.operationID stage.prior t) s := by
  have hs' : (M.withStage c stage).state = .preflighted := hs
  rw [Manager.rollbackAfterStage, if_pos hs']
  intro w t hw
  refine ⟨hG rfl hw, ?_⟩
  simp only [bind_done]
  rcases react_saveCheckpoint hw with ⟨he, ht⟩ | ⟨he, -⟩
  · obtain ⟨e, rest, hc⟩ := exists_cons_of_ne_nil he
    simp only [hc]
    exact (react_refused hw ht rfl (refused_eq_true he)).undoes
  · have hwn : Went s t := react_went hw rfl (refused_eq_false he)
    simp only [he]
    rw [wp_bind]
    refine wp_advance hG (by rw [hs']; rfl) ?_ ?_
    · intro u next hid hn hat ha
      rw [wp_bind]
      refine wp_mono (fun _ _ h => hwn.undoes (ha.went.undoes h)) ?_
      have hid' : c.operationID = next.operationID := hid.symm
      simp only [isEmpty_nil, if_true]
      rw [hid']
      exact wp_rollbackWithPrior hG M reason (hat.trans hf) (by rw [hn]; rfl)
    · intro u errors he hr
      obtain ⟨e, rest, rfl⟩ := exists_cons_of_ne_nil he
      simp only [isEmpty_cons, Bool.false_eq_true, if_false]
      obtain ⟨e', hb⟩ := rollbackWithPrior_blocked (M := M) (c := M.withStage c stage)
        (by rw [hs']; decide)
      rw [hb]
      exact hwn.undoes hr.undoes

/-! ## The zero candidate -/

omit hG in
theorem failAndRollback_zero :
    (M.failAndRollback .zero reason).All fun e => e = .checkpoint [] := by
  have hb : ∀ prior, ∃ e, M.rollbackWithPrior .zero prior reason = .done [e] :=
    fun prior => rollbackWithPrior_blocked (by decide)
  refine Program.All.bind ⟨rfl, fun found => ?_⟩ fun _ => trivial
  simp only [bind_done]
  cases found with
  | found k =>
    obtain ⟨e, hd⟩ := hb k.prior
    simp only [hd]
    trivial
  | missing | failed => exact trivial

omit hG in
theorem rollbackAfterStage_zero {stage : StageResult} :
    ∃ e, M.rollbackAfterStage .zero stage reason = .done [.code "candidate" reason, e] := by
  have hu : (M.withStage .zero stage).state = .unset := rfl
  obtain ⟨e, hb⟩ : ∃ e, M.rollbackWithPrior (M.withStage .zero stage) stage.prior reason =
      .done [e] := rollbackWithPrior_blocked (by rw [hu]; decide)
  have hs : ¬(M.withStage .zero stage).state = .preflighted := by
    intro h
    cases h
  refine ⟨e, ?_⟩
  rw [Manager.rollbackAfterStage, if_neg hs, hb]
  rfl

theorem wp_failAndRollback_zero (M : Manager) (reason : ReasonCode) :
    wp (react D) G (M.failAndRollback .zero reason)
      (fun _ t => t.rows = s.rows ∧ t.checkpoints = s.checkpoints ∧ Went s t) s := by
  have ha : (M.failAndRollback .zero reason).All fun e => e = .checkpoint [] := failAndRollback_zero
  generalize M.failAndRollback .zero reason = p at ha
  induction p generalizing s with
  | done a => exact ⟨rfl, rfl, rfl, rfl, rfl⟩
  | call e k ih =>
    obtain ⟨rfl, hk⟩ := ha
    refine wp_quiet hG rfl rfl fun r t hs ht => ?_
    have hw : Went s t := react_went hs rfl rfl
    refine wp_mono ?_ (ih r (hk r))
    rintro _ u ⟨hr, hc, hrs⟩
    rw [ht] at hr hc
    exact ⟨hr, hc, hw.trans hrs⟩

end

end Solovey.Ssh
