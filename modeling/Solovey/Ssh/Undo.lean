import Solovey.Ssh.Retreat

/-!
# Undoing a failed start

A start that fails after its policy was staged must undo the stage. With one failure in its trace,
the stage is undone unless the failure is a write that records the next step of the candidate
(`start_undone_iff`): then `advance` returns the zero candidate, which the rollback is given and can
do nothing with.
-/

namespace Solovey.Ssh

open Text (Str)
open Data List
open Data.Program (bind_done wp wp_bind wp_frame wp_mono wp_weaken)

variable {D : Digests} {s t u : World} {c : Candidate} {e : Effect} {r : Reply e}

section

variable {op : Str} {prior : PriorArtifact} {G : World → World → Prop} {α : Type}
  (hG : ∀ {s e r t}, e.isStage = false → react D s e r = some t → G s t)

/-! ## From the checkpoint to the reconnect -/

/-- The candidate has come so far without a failure, its checkpoint stored. -/
structure Forward (c : Candidate) (staged : StageResult) (w : World) : Prop where
  stores : w.Stores c
  checkpoint : w.checkpoints.find? (fun k => k.operationID = c.operationID) =
    some (checkpointOf c.operationID staged)
  failures : w.failures = 0
  lostAdvance : w.lostAdvance = false
  restoring : w.restoring = false
  attempts : c.rollbackAttempts = 0

/-- The stage is undone unless a write of a next step was lost. -/
def Verdict (op : Str) (prior : PriorArtifact) (w : World) : Prop :=
  w.failures = 1 → (w.undone op prior = true ↔ w.lostAdvance = false)

variable {staged : StageResult}

theorem Forward.went (h : Forward c staged s) (hw : Went s t) (hr : t.rows = s.rows)
    (hc : t.checkpoints = s.checkpoints) : Forward c staged t := by
  refine ⟨?_, ?_, ?_, ?_, ?_, h.attempts⟩
  · intro d hd
    rw [hr] at hd
    exact h.stores d hd
  · rw [hc]
    exact h.checkpoint
  · rw [hw.failures, h.failures]
  · rw [hw.lostAdvance, h.lostAdvance]
  · rw [hw.restoring, h.restoring]

theorem Forward.advanced {next : Candidate} (h : Forward c staged s) (ha : Advanced s t c next)
    (hid : next.operationID = c.operationID) (hat : next.rollbackAttempts = c.rollbackAttempts)
    (ho : next.state.terminal = false) :
    Forward next staged t := by
  have hw := ha.went
  refine ⟨ha.stores h.stores, ?_, ?_, ?_, ?_, hat.trans h.attempts⟩
  · rw [ha.checkpoints ho, hid]
    exact h.checkpoint
  · rw [hw.failures, h.failures]
  · rw [hw.lostAdvance, h.lostAdvance]
  · rw [hw.restoring, h.restoring]

theorem restored_of_restoring (h : s.restoring = false) : s.restored op prior = false := by
  rw [World.restored, any_eq_false]
  rw [World.restoring, any_eq_false] at h
  intro event hev hr
  refine h event hev ?_
  obtain ⟨e, r⟩ := event
  cases e with
  | restoreManagedPolicy request => rfl
  | _ => cases hr

/-- A stage whose candidate only has its checkpoint and an open state is not undone. -/
theorem undone_eq_false {k : Checkpoint} (hs : s.Stores c)
    (hcp : s.checkpoints.find? (fun k => k.operationID = c.operationID) = some k)
    (hr : s.restoring = false) (ho : c.state.terminal = false) :
    s.undone c.operationID prior = false := by
  have hm : s.inState c.operationID .manualRecoveryRequired = false := by
    rw [World.inState, any_eq_false]
    intro d hd hm
    simp only [Bool.and_eq_true, decide_eq_true_eq] at hm
    rw [← (hs d hd hm.1).2, hm.2] at ho
    cases ho
  have hk := find?_some hcp
  have ha : (s.checkpoints.any fun k => k.operationID = c.operationID) = true :=
    any_eq_true.mpr ⟨k, mem_of_find?_eq_some hcp, hk⟩
  rw [World.undone, restored_of_restoring hr, hm, ha]
  simp

/-- After a lost write of a next step the stage stays as it is. -/
theorem Forward.lost (h : Forward c staged s) (ho : c.state.terminal = false)
    (hrf : Refused s u true)
    (hr : t.rows = u.rows) (hc : t.checkpoints = u.checkpoints) (hw : Went u t) :
    Verdict c.operationID staged.prior t := by
  intro _
  have hs : t.Stores c := by
    intro d hd
    rw [hr, hrf.rows] at hd
    exact h.stores d hd
  have hu : t.undone c.operationID staged.prior = false := by
    refine undone_eq_false (k := checkpointOf c.operationID staged) hs ?_ ?_ ho
    · rw [hc, hrf.checkpoints]
      exact h.checkpoint
    · rw [hw.restoring, hrf.restoring, h.restoring]
  have hl : t.lostAdvance = true := by rw [hw.lostAdvance, hrf.lostAdvance, Bool.true_or]
  rw [hu, hl]
  simp

theorem Undoes.verdict (hf : s.failures = 1) (hl : s.lostAdvance = false)
    (h : Undoes s op prior t) : Verdict op prior t := by
  intro ho
  obtain ⟨hs, hu⟩ := h.2 (ho.trans hf.symm)
  rw [hu, hs, hl]
  simp

/-- What a start must leave if it fails after the stage. -/
def Judged (op : Str) (prior : PriorArtifact) (result : StartResult × Errors) (w : World) : Prop :=
  result.2 ≠ [] → Verdict op prior w

include hG

/-- A lost update is rolled back on the zero candidate, which restores nothing. -/
theorem wp_lost (M : Manager) (reason : ReasonCode) (h : Forward c staged s)
    (ho : c.state.terminal = false) (hrf : Refused s t true) :
    wp (react D) G (failed (M.failAndRollback .zero reason))
      (Judged c.operationID staged.prior) t := by
  rw [failed, wp_bind]
  refine wp_mono ?_ (wp_failAndRollback_zero hG M reason)
  rintro errors u ⟨hr, hc, hw⟩ _
  exact h.lost ho hrf hr hc hw

/-- A step that failed is followed by the rollback of the candidate. -/
theorem wp_failed (M : Manager) (reason : ReasonCode) (h : Forward c staged s)
    (hs : c.state.retreats) (hr : Refused s t false) :
    wp (react D) G (failed (M.failAndRollback c reason)) (Judged c.operationID staged.prior) t := by
  have hf : t.failures = 1 := by rw [hr.failures, h.failures]
  have hl : t.lostAdvance = false := by rw [hr.lostAdvance, h.lostAdvance, Bool.or_false]
  have hst : t.checkpoints.find? (fun k => k.operationID = c.operationID) =
      some (checkpointOf c.operationID staged) := by
    rw [hr.checkpoints]
    exact h.checkpoint
  rw [failed, wp_bind]
  exact wp_mono (fun _ _ hu _ => hu.verdict hf hl)
    (wp_failAndRollback hG M reason h.attempts hs hst)

theorem wp_requireReconnect (M : Manager) (v : Str) (h : Forward c staged s)
    (hs : c.state = .reloadPending) :
    wp (react D) G (M.requireReconnect c v) (Judged c.operationID staged.prior) s := by
  rw [Manager.requireReconnect, wp_bind]
  refine wp_advance hG (by rw [hs]; rfl) ?_ ?_
  · intro t next _ _ _ _ he
    exact absurd rfl he
  · intro t errors he hr
    obtain ⟨e, rest, rfl⟩ := exists_cons_of_ne_nil he
    exact wp_lost hG M .operationStateConflict h (by rw [hs]; rfl) hr

theorem wp_armReconnect (M : Manager) (challenge : Challenge) (v : Str) (h : Forward c staged s)
    (hs : c.state = .reloadPending) :
    wp (react D) G (M.armReconnect c challenge v) (Judged c.operationID staged.prior) s := by
  unfold Manager.armReconnect
  split
  · refine wp_quiet hG rfl rfl fun ok t hst ht => ?_
    simp only [bind_done]
    cases ok with
    | true =>
      have hw : Went s t := react_went hst rfl rfl
      exact wp_requireReconnect hG M v
        (h.went hw (by rw [ht, log_rows]) (by rw [ht, log_checkpoints])) hs
    | false =>
      exact wp_failed hG M .reconnectProofInvalid h (by rw [hs]; exact ⟨rfl, rfl⟩)
        (react_refused hst ht rfl rfl)
  · exact wp_requireReconnect hG M v h hs

theorem wp_issueChallenge (M : Manager) (request : StartRequest) (n : ℤ) (h : Forward c staged s)
    (hs : c.state = .reloadPending) :
    wp (react D) G (M.issueChallenge request c n) (Judged c.operationID staged.prior) s := by
  have hr : c.state.retreats := by
    rw [hs]
    exact ⟨rfl, rfl⟩
  intro id t hid
  refine ⟨hG rfl hid, ?_⟩
  obtain ⟨-, ht⟩ := react_randomID hid
  simp only [bind_done]
  cases id with
  | none => exact wp_failed hG M .reconnectProofInvalid h hr (react_refused hid ht rfl rfl)
  | some id =>
    have hwn : Went s t := react_went hid rfl rfl
    have ht' : Forward c staged t := h.went hwn (by rw [ht]; rfl) (by rw [ht]; rfl)
    intro w u hw
    refine ⟨hG rfl hw, ?_⟩
    simp only [bind_done]
    rcases react_saveChallenge hw with ⟨he, hu⟩ | ⟨he, hu⟩
    · obtain ⟨e, rest, hc⟩ := exists_cons_of_ne_nil he
      simp only [hc]
      exact wp_failed hG M .operationStateConflict ht' hr
        (react_refused hw hu rfl (refused_eq_true he))
    · simp only [he]
      have hst : Went t u := react_went hw rfl (refused_eq_false he)
      exact wp_armReconnect hG M _ _ (ht'.went hst (by rw [hu]; rfl) (by rw [hu]; rfl)) hs

theorem wp_reloadService (M : Manager) (request : StartRequest) (n : ℤ) (h : Forward c staged s)
    (hs : c.state = .reloadPending) :
    wp (react D) G (M.reloadService request c n) (Judged c.operationID staged.prior) s := by
  refine wp_quiet hG rfl rfl fun rl t hst ht => ?_
  simp only [bind_done]
  cases hfl : rl.filter (reloadAccepted c.providerRevision) with
  | none =>
    have hf : Option.isNone (rl.filter (reloadAccepted c.providerRevision)) = true := by
      rw [hfl]
      rfl
    exact wp_failed hG M .configurationMismatch h (by rw [hs]; exact ⟨rfl, rfl⟩)
      (react_refused hst ht rfl hf)
  | some r =>
    have hp : Option.isNone (rl.filter (reloadAccepted c.providerRevision)) = false := by
      rw [hfl]
      rfl
    have hw : Went s t := react_went hst rfl hp
    have ht' := h.went hw (by rw [ht, log_rows]) (by rw [ht, log_checkpoints])
    have hn : Forward (M.withReload c r n) staged t :=
      ⟨ht'.stores, ht'.checkpoint, ht'.failures, ht'.lostAdvance, ht'.restoring, ht'.attempts⟩
    exact wp_issueChallenge hG M request n hn hs

/-- A next step that is stored brings the candidate forward. -/
theorem wp_forward {state : CandidateState} {event : String} {Q : Candidate × Errors → World → Prop}
    (h : Forward c staged s) (ha : transitionAllowed c.state state = true)
    (hf : state.forward = true)
    (hok : ∀ t next, next.operationID = c.operationID → next.state = state →
      Forward next staged t → Q (next, []) t)
    (hno : ∀ t errors, errors ≠ [] → Refused s t true → Q (.zero, errors) t) :
    wp (react D) G (advance c state event none) Q s := by
  refine wp_advance hG ha ?_ ?_
  · intro t next hid hs hat had
    have ho : next.state.terminal = false := by
      rw [hs]
      cases state <;> first | rfl | cases hf
    exact hok t next hid hs (h.advanced had hid hat ho)
  · intro t errors he hr
    rw [hf] at hr
    exact hno t errors he hr

theorem wp_pendReload (M : Manager) (request : StartRequest) (n : ℤ) (h : Forward c staged s)
    (hs : c.state = .staged) :
    wp (react D) G (M.pendReload request c n) (Judged c.operationID staged.prior) s := by
  rw [Manager.pendReload, wp_bind]
  refine wp_forward hG h (by rw [hs]; rfl) rfl ?_ ?_
  · intro t valid hid hv ht
    rw [← hid, wp_bind]
    refine wp_forward hG ht (by rw [hv]; rfl) rfl ?_ ?_
    · intro u pending hid' hp hu
      rw [← hid']
      exact wp_reloadService hG M request n hu hp
    · intro u errors he hr
      obtain ⟨e, rest, rfl⟩ := exists_cons_of_ne_nil he
      exact wp_lost hG M .operationStateConflict ht (by rw [hv]; rfl) hr
  · intro t errors he hr
    obtain ⟨e, rest, rfl⟩ := exists_cons_of_ne_nil he
    exact wp_lost hG M .operationStateConflict h (by rw [hs]; rfl) hr

theorem wp_validateStaged (M : Manager) (request : StartRequest) (n : ℤ) (h : Forward c staged s)
    (hs : c.state = .staged) :
    wp (react D) G (M.validateStaged request c n) (Judged c.operationID staged.prior) s := by
  refine wp_quiet hG rfl rfl fun validated t hst ht => ?_
  simp only [bind_done]
  cases hfl : validated.filter (validationAccepted c.providerRevision) with
  | none =>
    have hf : Option.isNone (validated.filter (validationAccepted c.providerRevision)) = true := by
      rw [hfl]
      rfl
    exact wp_failed hG M .configurationMismatch h (by rw [hs]; exact ⟨rfl, rfl⟩)
      (react_refused hst ht rfl hf)
  | some r =>
    have hp : Option.isNone (validated.filter (validationAccepted c.providerRevision)) = false := by
      rw [hfl]
      rfl
    have hw : Went s t := react_went hst rfl hp
    exact wp_pendReload hG M request n
      (h.went hw (by rw [ht, log_rows]) (by rw [ht, log_checkpoints])) hs

/-! ## The stage -/

/-- The start has come so far without a failure. -/
structure Clean (w : World) : Prop where
  failures : w.failures = 0
  lostAdvance : w.lostAdvance = false
  restoring : w.restoring = false

omit hG in
theorem Clean.went (h : Clean s) (hw : Went s t) : Clean t :=
  ⟨hw.failures.trans h.failures, hw.lostAdvance.trans h.lostAdvance, hw.restoring.trans h.restoring⟩

theorem wp_checkpointStage (M : Manager) (request : StartRequest) (n : ℤ) (h : Clean s)
    (hst : s.Stores c) (hs : c.state = .preflighted) (hf : c.rollbackAttempts = 0) :
    wp (react D) G (M.checkpointStage request c staged n)
      (Judged c.operationID staged.prior) s := by
  intro w t hw
  refine ⟨hG rfl hw, ?_⟩
  simp only [bind_done]
  rcases react_saveCheckpoint hw with ⟨he, ht⟩ | ⟨he, ks, hfn, -, ht⟩
  · obtain ⟨e, rest, hc⟩ := exists_cons_of_ne_nil he
    have hr := react_refused hw ht rfl (refused_eq_true he)
    have hfl : t.failures = 1 := by rw [hr.failures, h.failures]
    have hl : t.lostAdvance = false := by
      rw [hr.lostAdvance, h.lostAdvance]
      rfl
    simp only [hc]
    rw [failed, wp_bind]
    exact wp_mono (fun _ _ hun _ => hun.verdict hfl hl) (wp_rollbackAfterStage hG M staged _ hf hs)
  · have ht' := h.went (react_went hw rfl (refused_eq_false he))
    have hfr : Forward (M.withStage c staged) staged t := by
      refine ⟨?_, ?_, ht'.failures, ht'.lostAdvance, ht'.restoring, hf⟩
      · rw [ht]
        exact hst
      · rw [ht]
        exact hfn
    simp only [he]
    rw [wp_bind]
    refine wp_forward hG hfr (by rw [show (M.withStage c staged).state = _ from hs]; rfl)
      rfl ?_ ?_
    · intro u next hid hn hu
      have hv := wp_validateStaged hG M request n hu hn
      rw [hid] at hv
      exact hv
    · intro u errors he hr
      obtain ⟨e, rest, rfl⟩ := exists_cons_of_ne_nil he
      have ho : (M.withStage c staged).state.terminal = false := by
        rw [show (M.withStage c staged).state = _ from hs]
        rfl
      obtain ⟨e', hz⟩ : ∃ e', M.rollbackAfterStage .zero staged .operationStateConflict =
          .done [.code "candidate" .operationStateConflict, e'] := rollbackAfterStage_zero
      simp only [hz]
      exact fun _ => hfr.lost ho hr rfl rfl ⟨rfl, rfl, rfl⟩

end

/-- What a start leaves if it fails after a matching stage. -/
def Settled (result : StartResult × Errors) (w : World) : Prop :=
  result.2 ≠ [] → ∀ op staged, (op, staged) ∈ w.stages → Verdict op staged.prior w

def Anything (_ _ : World) : Prop := True

variable {M : Manager} {α : Type} {p : Prog (StartResult × Errors)}

/-- A program that stages nothing leaves the stages as they are. -/
theorem wp_same_stages {p : Prog α} {Q : α → World → Prop} {l : List (Str × StageResult)}
    (hs : s.stages = l) (h : wp (react D) SameStages p Q s) :
    wp (react D) Anything p (fun a t => Q a t ∧ t.stages = l) s :=
  wp_weaken (fun _ => trivial)
    (wp_frame (F := fun t => t.stages = l) (fun hsm h => hsm.trans h) hs h)

theorem sameStages_of_unstaged (he : e.isStage = false) (h : react D s e r = some t) :
    SameStages s t := react_stages he h

/-- A single stage is all that has to be judged. -/
theorem settled_of_judged {op : Str} {stage : StageResult} (hs : s.stages = [(op, stage)])
    (h : wp (react D) SameStages p (Judged op stage.prior) s) :
    wp (react D) Anything p Settled s := by
  refine wp_mono ?_ (wp_same_stages hs h)
  rintro result t ⟨hj, hst⟩ he op' stage' hm
  rw [hst] at hm
  cases mem_singleton.mp hm
  exact hj he

theorem settled_of_no_stages {result : StartResult × Errors} (hs : s.stages = []) :
    Settled result s := by
  intro _ op staged hm
  rw [hs] at hm
  cases hm

theorem settled_of_unstaged (hp : p.All Unstaged) (hs : s.stages = []) :
    wp (react D) Anything p Settled s := by
  refine wp_mono ?_ (wp_same_stages hs (hp.wp sameStages_of_unstaged))
  exact fun result t h => settled_of_no_stages h.2

theorem wp_stage (request : StartRequest) (n : ℤ) (h : Clean s) (hs : s.stages = [])
    (hsr : s.Stores c) (hst : c.state = .preflighted) (hfr : c.rollbackAttempts = 0) :
    wp (react D) Anything (M.stage request c n) Settled s := by
  unfold Manager.stage
  split
  · intro reply t hsp
    refine ⟨trivial, ?_⟩
    simp only [bind_done]
    have ht := react_quiet rfl hsp
    have hsg := react_staged hsp
    rw [hs, append_nil] at hsg
    split
    next hm =>
      have ho : t.stages = [(c.operationID, reply.result)] := by
        rw [hsg]
        exact congrArg Option.toList (if_pos hm)
      refine settled_of_judged ho ?_
      split
      next hf =>
        have hr := react_refused hsp ht rfl hf
        have hfl : t.failures = 1 := by rw [hr.failures, h.failures]
        have hl : t.lostAdvance = false := by
          rw [hr.lostAdvance, h.lostAdvance]
          rfl
        rw [failed, wp_bind, wp_bind]
        exact wp_mono (fun _ _ hu _ => hu.verdict hfl hl)
          (wp_rollbackAfterStage sameStages_of_unstaged M reply.result _ hfr hst)
      next hp =>
        have hw : Went s t := react_went hsp rfl (Bool.not_eq_true _ ▸ hp)
        refine wp_checkpointStage sameStages_of_unstaged M request n (h.went hw) ?_ hst hfr
        rw [ht]
        exact hsr
    next hm =>
      have hn : t.stages = [] := by
        rw [hsg]
        exact congrArg Option.toList (if_neg hm)
      exact settled_of_unstaged (unstaged_requireManualRecovery.bind fun _ => trivial) hn
  · exact settled_of_unstaged (unstaged_requireManualRecovery.bind fun _ => trivial) hs

/-! ## The start -/

theorem stores_append (h : ∀ d ∈ s.rows, d.operationID ≠ c.operationID) :
    { s with rows := s.rows ++ [c] }.Stores c := by
  intro d hd hid
  rcases mem_append.mp hd with ho | hn
  · exact absurd hid (h d ho)
  · rw [mem_singleton.mp hn]
    exact ⟨rfl, rfl⟩

theorem wp_createDraft (request : StartRequest) (preview : Preview) (posture : Posture)
    (h : Clean s) (hs : s.stages = []) :
    wp (react D) Anything (M.createDraft request preview posture) Settled s := by
  intro now s₁ hn
  have hs₁ := (react_stages rfl hn).trans hs
  have h₁ := h.went (react_went hn rfl rfl)
  refine ⟨trivial, fun id s₂ hid => ⟨trivial, ?_⟩⟩
  have hs₂ := (react_stages rfl hid).trans hs₁
  simp only [bind_done]
  cases id with
  | none => exact settled_of_no_stages hs₂
  | some id =>
    have h₂ := h₁.went (react_went hid rfl rfl)
    intro sv s₃ hsv
    have hs₃ := (react_stages rfl hsv).trans hs₂
    refine ⟨trivial, ?_⟩
    simp only [bind_done]
    cases hsa : Written.errors sv with
    | cons e rest => exact settled_of_no_stages hs₃
    | nil =>
      have h₃ := h₂.went (react_went hsv rfl (refused_eq_false hsa))
      intro created s₄ hcr
      have hs₄ := (react_stages rfl hcr).trans hs₃
      refine ⟨trivial, ?_⟩
      simp only [bind_done]
      rcases react_create hcr with ⟨he, -⟩ | ⟨he, v, -, ho, -, hv⟩
      · obtain ⟨e, rest, hc⟩ := exists_cons_of_ne_nil he
        simp only [hc]
        exact settled_of_no_stages hs₄
      · have h₄ := h₃.went (react_went hcr rfl (refused_eq_false he))
        simp only [he]
        rw [wp_bind]
        refine wp_mono (fun o t ht => ht.1 ht.2) (wp_same_stages hs₄
          (wp_advance (Q := fun o t => t.stages = [] → wp (react D) Anything _ Settled t)
            sameStages_of_unstaged rfl ?_ ?_))
        · intro s₅ next hid hst hat ha hs₅
          refine wp_stage request now (h₄.went ha.went) hs₅ ?_ hst hat
          refine ha.stores ?_
          rw [hv]
          exact stores_append ho
        · intro s₅ errors he _ hs₅
          obtain ⟨e, rest, rfl⟩ := exists_cons_of_ne_nil he
          exact settled_of_no_stages hs₅

theorem wp_releaseCompletedStage (c : Candidate) :
    wp (react D) SameStages (M.releaseCompletedStage c) (fun o t => o.2 = [] → Went s t) s := by
  unfold Manager.releaseCompletedStage
  split
  · exact fun _ => ⟨rfl, rfl, rfl⟩
  split
  · refine wp_quiet sameStages_of_unstaged rfl rfl fun ok t hok _ => ?_
    simp only [bind_done]
    cases ok with
    | false =>
      intro he
      cases he
    | true =>
      refine wp_quiet sameStages_of_unstaged rfl rfl fun now u hn _ w v hw => ?_
      refine ⟨sameStages_of_unstaged rfl hw, ?_⟩
      simp only [bind_done]
      cases he : Written.errors w with
      | nil =>
        have hwn : Went s t := react_went hok rfl rfl
        exact fun _ => (hwn.trans (react_went hn rfl rfl)).trans
          (react_went hw rfl (refused_eq_false he))
      | cons e rest =>
        intro hnl
        cases hnl
  · intro he
    cases he

theorem wp_releaseAll (ds : List Candidate) :
    wp (react D) SameStages (M.releaseAll ds) (fun errors t => errors = [] → Went s t)
      s := by
  induction ds generalizing s with
  | nil => exact fun _ => ⟨rfl, rfl, rfl⟩
  | cons c rest ih =>
    rw [Manager.releaseAll, wp_bind]
    refine wp_mono ?_ (wp_releaseCompletedStage c)
    rintro ⟨released, errors⟩ t hw
    cases errors with
    | nil => exact wp_mono (fun _ _ h he => (hw rfl).trans (h he)) ih
    | cons e errors =>
      intro hn
      cases hn

theorem wp_reconcileCompletedStageReleases :
    wp (react D) SameStages M.reconcileCompletedStageReleases
      (fun errors t => errors = [] → Went s t) s := by
  refine wp_quiet sameStages_of_unstaged rfl rfl fun ds t hd _ => ?_
  simp only [bind_done]
  cases ds with
  | none =>
    intro hn
    cases hn
  | some ds =>
    have hw : Went s t := react_went hd rfl rfl
    exact wp_mono (fun _ _ h he => hw.trans (h he)) (wp_releaseAll ds)

/-- A run of `Start` from an empty trace settles its stage. -/
theorem wp_start (request : StartRequest) (hs : s.trace = []) :
    wp (react D) Anything (M.start request) Settled s := by
  have hc : Clean s := by
    refine ⟨?_, ?_, ?_⟩
    · rw [World.failures, hs]
      rfl
    · rw [World.lostAdvance, hs]
      rfl
    · rw [World.restoring, hs]
      rfl
  have hst : s.stages = [] := by
    rw [World.stages, hs]
    rfl
  unfold Manager.start
  split
  · rw [wp_bind]
    refine wp_mono ?_ (wp_same_stages hst wp_reconcileCompletedStageReleases)
    rintro errors s₁ ⟨hw, hs₁⟩
    cases errors with
    | cons e rest => exact settled_of_no_stages hs₁
    | nil =>
      have h₁ := hc.went (hw rfl)
      intro replay s₂ hr
      have hs₂ := (react_stages rfl hr).trans hs₁
      have h₂ := h₁.went (react_went hr rfl rfl)
      refine ⟨trivial, ?_⟩
      simp only [bind_done]
      cases replay with
      | found c =>
        dsimp only
        split <;> exact settled_of_no_stages hs₂
      | failed => exact settled_of_no_stages hs₂
      | missing =>
        intro preview s₃ hp
        have hs₃ := (react_stages rfl hp).trans hs₂
        have h₃ := h₂.went (react_went hp rfl rfl)
        refine ⟨trivial, ?_⟩
        simp only [bind_done]
        cases preview with
        | none => exact settled_of_no_stages hs₃
        | some preview =>
          dsimp only
          split
          · exact settled_of_no_stages hs₃
          · split
            · exact wp_createDraft request preview _ h₃ hs₃
            · exact settled_of_no_stages hs₃
  · exact settled_of_no_stages hst

/-- A start that fails by one failure after a matching stage undoes the stage, unless the failure
is a lost write of the candidate's next step. -/
theorem start_undone_iff (M : Manager) (request : StartRequest) {s t : World}
    {result : StartResult × Errors} (hs : s.trace = [])
    (hrun : Program.Runs (react M.digests) (M.start request) s t (some result))
    (herror : result.2 ≠ []) {op : Str} {staged : StageResult} (hstaged : (op, staged) ∈ t.stages)
    (hone : t.failures = 1) :
    t.undone op staged.prior = true ↔ t.lostAdvance = false :=
  (Program.wp_runs (wp_start request hs) hrun).2 result rfl herror op staged hstaged hone

/-! ## Two starts with one failure -/

def sampleDigest : Str := List.replicate 64 'a'

def sampleManager : Manager :=
  ⟨⟨fun _ => [], fun _ _ _ => [], fun _ _ => [], fun _ => [], fun _ _ _ => []⟩, [], true, false⟩

def sampleRequest : StartRequest :=
  ⟨[], ['k'], [], [], [], [], [], ['e'], ['p'], "publickey".toList, true⟩

/-- An environment in which every call succeeds but those that `fails` names. -/
def sampleReply (fails : Effect → Bool) (w : World) : (e : Effect) → Reply e
  | .now => 0
  | .randomID => some (List.replicate w.issued.length 'r')
  | .preview _ _ => some ⟨some ⟨[], [], [], [], true⟩, ⟨true, 900, []⟩, sampleDigest, [], [], [], true,
      [], []⟩
  | .plan c _ => c.preservation
  | .stageReleaseDebts => some (w.rows.filter Candidate.releaseDebt)
  | .candidateByIdempotency _ => .missing
  | .candidate id =>
    match w.rows.find? fun c => c.operationID = id with
    | some c => .found c
    | none => .missing
  | .activeCandidate =>
    match w.rows.find? w.isActive with
    | some c => .found c
    | none => .missing
  | .checkpoint id =>
    match w.checkpoints.find? fun k => k.operationID = id with
    | some k => .found k
    | none => .missing
  | .challenge _ => .failed
  | .savePosture => .ok []
  | .createCandidateWithJournal _ => .ok []
  | .updateCandidateCASWithJournal c revision state event reason =>
    if fails (.updateCandidateCASWithJournal c revision state event reason) then .failed else .ok []
  | .commitCandidateCASWithJournalAndEvidence _ _ _ _ _ _ => .ok []
  | .saveCheckpoint _ => .ok []
  | .saveChallenge _ => .ok []
  | .pruneHistory => .ok []
  | .stageManagedPolicy r =>
    ⟨⟨r.expectedArtifactDigest, r.endpointID, ⟨false, [], [], [], [], 0, sampleDigest⟩, [],
      sampleDigest⟩, false⟩
  | .validateManagedPolicy r => some ⟨true, !fails (.validateManagedPolicy r), [], []⟩
  | .reloadSelectedService _ => some ⟨['s'], ['c'], []⟩
  | .armReconnect _ _ => true
  | .verifyReconnect _ => none
  | .restoreManagedPolicy r => some ⟨r.prior.digest, ['c'], []⟩
  | .inspectManagedPolicy _ => some ⟨false, sampleDigest, [], [], [], 0, false, ['c']⟩
  | .observe => some ⟨⟨[], [], ['s'], ['c'], true⟩, []⟩
  | .recoverCompletedStage r =>
    ⟨⟨r.expectedArtifactDigest, r.endpointID, ⟨false, [], [], [], [], 0, sampleDigest⟩, [],
      sampleDigest⟩, false⟩
  | .releaseCompletedStage _ => true

def sampleRun (fails : Effect → Bool) : Option ((StartResult × Errors) × World) :=
  Program.drive (react sampleManager.digests) (sampleReply fails)
    (sampleManager.start sampleRequest) ⟨[], [], [], [], [], []⟩

def losesStaged : Effect → Bool
  | .updateCandidateCASWithJournal c _ _ _ _ => c.state = .staged
  | _ => false

def validationFails : Effect → Bool
  | .validateManagedPolicy _ => true
  | _ => false

theorem exists_sampleRun (fs : Effect → Bool) (ts : (StartResult × Errors) × World → Bool)
    (h : (sampleRun fs).any ts = true) :
    ∃ result t, Program.Runs (react sampleManager.digests) (sampleManager.start sampleRequest)
      ⟨[], [], [], [], [], []⟩ t (some result) ∧ ts (result, t) = true := by
  cases hr : sampleRun fs with
  | none =>
    rw [hr] at h
    cases h
  | some x =>
    rw [hr] at h
    exact ⟨x.1, x.2, Program.runs_of_drive hr, h⟩

/-- The stage is in place, the candidate is preflighted and has its checkpoint, and the write of its
next state is lost: the start fails and nothing is restored. -/
theorem start_lost_staged : ∃ (M : Manager) (request : StartRequest) (s t : World)
    (result : StartResult × Errors) (op : Str) (staged : StageResult), s.trace = [] ∧
      Program.Runs (react M.digests) (M.start request) s t (some result) ∧ result.2 ≠ [] ∧
      (op, staged) ∈ t.stages ∧ t.failures = 1 ∧ t.undone op staged.prior = false := by
  obtain ⟨result, t, hr, ht⟩ := exists_sampleRun losesStaged (fun x =>
    !x.1.2.isEmpty && x.2.failures = 1 && x.2.stages.any fun y => !x.2.undone y.1 y.2.prior) rfl
  simp only [Bool.and_eq_true, decide_eq_true_eq, any_eq_true] at ht
  obtain ⟨⟨he, ho⟩, ⟨op, staged⟩, hs, hu⟩ := ht
  exact ⟨_, _, _, t, result, op, staged, rfl, hr, by simpa using he, hs, ho,
    by simpa using hu⟩

/-- A validation that fails is undone. -/
theorem start_undone_validation : ∃ (t : World) (result : StartResult × Errors) (op : Str)
    (staged : StageResult), Program.Runs (react sampleManager.digests)
      (sampleManager.start sampleRequest) ⟨[], [], [], [], [], []⟩ t (some result) ∧
      result.2 ≠ [] ∧ (op, staged) ∈ t.stages ∧ t.failures = 1 ∧
      t.undone op staged.prior = true := by
  obtain ⟨result, t, hr, ht⟩ := exists_sampleRun validationFails (fun x =>
    !x.1.2.isEmpty && x.2.failures = 1 && !x.2.lostAdvance && x.2.stages.any fun _ => true) rfl
  simp only [Bool.and_eq_true, decide_eq_true_eq, any_eq_true] at ht
  obtain ⟨⟨⟨he, ho⟩, hl⟩, ⟨op, staged⟩, hs, -⟩ := ht
  have he' : result.2 ≠ [] := by simpa using he
  refine ⟨t, result, op, staged, hr, he', hs, ho, ?_⟩
  exact (start_undone_iff sampleManager sampleRequest rfl hr he' hs ho).mpr (by simpa using hl)

end Solovey.Ssh
