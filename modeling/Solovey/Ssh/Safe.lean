import Solovey.Ssh.Invariant
import Solovey.Ssh.Retreat

/-!
# Methods that keep the invariant

`Start` and `Confirm`, and what they are made of, make legal calls only, whatever their calls are
answered. The rollback of a candidate ends it if it returns without an error.
-/

namespace Solovey.Ssh

open Text (Str)
open Data List
open Data.Program (bind_done wp wp_bind wp_done wp_frame wp_mono wp_weaken)

variable {D : Digests} {s t u : World} {c : Candidate} {α β : Type}

/-- A legal call that makes no new candidate. -/
def Onward (s t : World) : Prop := Step s t ∧ Keeps s t

theorem Onward.inv (h : Onward s t) : Inv t := h.1.inv

/-! ## Programs that keep the invariant -/

/-- From a state of the invariant all calls of the program are legal, and its result is as said. -/
def Safe (D : Digests) (G : World → World → Prop) (p : Prog α) (P : α → Prop) : Prop :=
  ∀ s, Inv s → wp (react D) G p (fun a _ => P a) s

variable {P : α → Prop}

theorem safe_done {G : World → World → Prop} {a : α} (h : P a) : Safe D G (.done a) P :=
  fun _ _ => h

variable {e : Effect}

/-- A call that is legal in every state. -/
theorem safe_call {k : Reply e → Prog α} (he : ∀ s, Legal s e) (hk : ∀ r, Safe D Step (k r) P) :
    Safe D Step (.call e k) P := by
  intro s hs r t h
  have hst := step_of_legal h hs (he s)
  exact ⟨hst, hk r t hst.inv⟩

theorem onward_call {k : Reply e → Prog α} (hc : e.isCreate = false) (he : ∀ s, Legal s e)
    (hk : ∀ r, Safe D Onward (k r) P) : Safe D Onward (.call e k) P := by
  intro s hs r t h
  have hst := step_keeps h hs hc (he s)
  exact ⟨hst, hk r t hst.1.inv⟩

theorem safe_bind {G : World → World → Prop} {p : Prog α} {f : α → Prog β} {P' : β → Prop}
    (hG : ∀ {s t}, G s t → Inv t) (hp : Safe D G p P) (hf : ∀ a, P a → Safe D G (f a) P') :
    Safe D G (p >>= f) P' := by
  intro s hs
  rw [wp_bind]
  refine wp_mono ?_ (wp_frame (F := Inv) (fun hst _ => hG hst) hs (hp s hs))
  exact fun a t h => hf a h.1 t h.2

theorem safe_of_onward {p : Prog α} (h : Safe D Onward p P) : Safe D Step p P :=
  fun s hs => wp_weaken (fun hst => hst.1) (h s hs)

/-! ## Updates -/

variable {state : CandidateState}

theorem updateLegal_same (h : c.state = state) : UpdateLegal s c state :=
  ⟨.inl h, fun hc => h.symm.trans hc, fun hr => .inl (h.symm.trans hr)⟩

variable {n : ℤ}

theorem updateLegal_next {r : Option ReasonCode} (ha : transitionAllowed c.state state = true)
    (hc : state ≠ .committed) (hr : state = .rolledBack → s.Reported c.operationID) :
    UpdateLegal s (c.next state n r) c.state := by
  refine ⟨.inr (by rw [next_state]; exact ha), ?_, ?_⟩
  · rw [next_state]
    exact fun h => absurd h hc
  · rw [next_state, next_operationID]
    exact fun h => .inr (hr h)

/-- What `advance` returned. -/
structure Moved (s t : World) (c : Candidate) (state : CandidateState) (out : Candidate × Errors) :
    Prop where
  operationID : out.2 = [] → out.1.operationID = c.operationID
  state_eq : out.2 = [] → out.1.state = state
  stores : out.2 = [] → s.Stores c → t.Stores out.1
  checkpoints : out.2 = [] → state.terminal = false → t.checkpoints = s.checkpoints
  zero : out.2 ≠ [] → out.1 = .zero

theorem Reported.log {op : Str} {event : Event} (h : s.Reported op) :
    (s.log event).Reported op := by
  obtain ⟨k, hk, hid, r, i, hev, hr⟩ := h
  exact ⟨k, hk, hid, r, i, mem_cons_of_mem _ hev, hr⟩

variable {event : String}

theorem moves_advance {r : Option ReasonCode} (hs : Inv s) (hc : state ≠ .committed)
    (hr : state = .rolledBack → s.Reported c.operationID) :
    wp (react D) Onward (advance c state event r) (fun o t => Moved s t c state o) s := by
  by_cases ha : transitionAllowed c.state state = true
  · rw [advance_eq ha]
    intro n t hn
    have hst := step_keeps hn hs rfl trivial
    refine ⟨hst, fun w u hw => ?_⟩
    have ht := react_quiet rfl hn
    subst ht
    have hl : UpdateLegal (s.log ⟨.now, n⟩) (c.next state n r) c.state :=
      updateLegal_next ha hc fun h => Reported.log (hr h)
    refine ⟨step_keeps hw hst.1.inv rfl hl, ?_⟩
    rw [wp_done]
    rcases react_update hw with ⟨he, -⟩ | ⟨he, hu⟩
    · rw [leaving_refused he]
      exact ⟨fun h => absurd h he, fun h => absurd h he, fun h => absurd h he,
        fun h => absurd h he, fun _ => rfl⟩
    · rw [leaving_ok he]
      refine ⟨fun _ => next_operationID state n r, fun _ => next_state state n r,
        fun _ hsr => ?_, fun _ ho => ?_, fun h => absurd rfl h⟩
      · have hs' : (s.log ⟨.now, n⟩).Stores c := hsr
        exact hu.stores hs' (next_operationID state n r)
      obtain ⟨v, v', hv, -, hsm, -, hcp, -⟩ := hu
      obtain ⟨-, rfl⟩ := updateRow_spec hv
      rw [hcp, hsm (by rw [next_state]; exact ho)]
      rfl
  · rw [advance, if_neg ha]
    have hnl : ([.code "transition" .operationStateConflict] : Errors) ≠ [] := by simp
    exact ⟨fun h => absurd h hnl, fun h => absurd h hnl, fun h => absurd h hnl,
      fun h => absurd h hnl, fun _ => rfl⟩

/-- The same of `advance`, without the states. -/
theorem safe_advance {r : Option ReasonCode} (hc : state ≠ .committed) (hr : state ≠ .rolledBack) :
    Safe D Onward (advance c state event r) fun o =>
      (o.2 = [] → o.1.state = state) ∧ (o.2 ≠ [] → o.1 = .zero) :=
  fun _ hs => wp_mono (fun _ _ h => ⟨h.state_eq, h.zero⟩) (moves_advance hs hc fun h => absurd h hr)

/-! ## Rollback -/

/-- Every row of the operation is terminal. -/
def Closed (op : Str) (w : World) : Prop :=
  ∀ d ∈ w.rows, d.operationID = op → d.state.terminal = true

theorem closed_of_stores (h : s.Stores c) (ht : c.state.terminal = true) :
    Closed c.operationID s := by
  intro d hd hid
  rw [(h d hd hid).2]
  exact ht

/-- A result without an error ends the candidate, if it was the stored one. -/
def Ends (s : World) (c : Candidate) (errors : Errors) (t : World) : Prop :=
  errors = [] → s.Stores c → Closed c.operationID t

variable {es : Errors}

theorem ends_of_ne_nil (h : es ≠ []) : Ends s c es t := fun hn => absurd hn h

/-- Nothing but the trace changed. -/
structure Quietly (s t : World) : Prop where
  rows : t.rows = s.rows
  checkpoints : t.checkpoints = s.checkpoints
  trace : ∀ event ∈ s.trace, event ∈ t.trace

theorem quietly_refl : Quietly s s := ⟨rfl, rfl, fun _ h => h⟩

theorem quietly_log {event : Event} : Quietly s (s.log event) :=
  ⟨rfl, rfl, fun _ h => mem_cons_of_mem _ h⟩

theorem Quietly.trans (hst : Quietly s t) (htu : Quietly t u) : Quietly s u :=
  ⟨htu.rows.trans hst.rows, htu.checkpoints.trans hst.checkpoints,
    fun event h => htu.trace event (hst.trace event h)⟩

theorem Quietly.stores (h : Quietly s t) (hs : s.Stores c) : t.Stores c := by
  intro d hd
  rw [h.rows] at hd
  exact hs d hd

theorem Quietly.ends (h : Quietly s t) (ht : Ends t c es u) :
    Ends s c es u := fun hn hs => ht hn (h.stores hs)

/-- The rule of a quiet call. -/
theorem onward_quiet {k : Reply e → Prog α} {Q : α → World → Prop} (hs : Inv s)
    (hq : e.quiet = true) (hc : e.isCreate = false) (hl : Legal s e)
    (h : ∀ r t, react D s e r = some t → t = s.log ⟨e, r⟩ → Inv t → Quietly s t →
      wp (react D) Onward (k r) Q t) :
    wp (react D) Onward (.call e k) Q s := by
  intro r t hst
  have ho := step_keeps hst hs hc hl
  have ht := react_quiet hq hst
  exact ⟨ho, h r t hst ht ho.1.inv (ht ▸ quietly_log)⟩

variable {reason : ReasonCode}

theorem ends_requireManualRecovery (hs : Inv s) :
    wp (react D) Onward (requireManualRecovery c event reason es) (Ends s c) s := by
  rw [requireManualRecovery, wp_bind]
  refine wp_mono ?_ (moves_advance hs (by simp) (by simp))
  rintro o t hm hn hst
  have ho : o.2 = [] := (append_eq_nil_iff.mp hn).2
  rw [← hm.operationID ho]
  exact closed_of_stores (hm.stores ho hst) (by rw [hm.state_eq ho]; rfl)

variable {prior : PriorArtifact}

theorem exactRollback_reported {rs : Option RestoreResult} {r : Option ReloadResult}
    {ip : Option InspectResult} {o : Option Observation} {x : ReloadResult × Posture}
    (h : exactRollback c prior rs r ip o = some x) :
    ∃ i, ip = some i ∧ prior.reportedBy i = true := by
  unfold exactRollback at h
  split at h
  next rs r ip o =>
    refine ⟨ip, rfl, ?_⟩
    split at h
    next he =>
      simp only [Bool.and_eq_true] at he
      exact he.1.1.1.1.1.2
    · cases h
  · cases h

/-- The checkpoint of the operation records the artifact. -/
def Recorded (s : World) (op : Str) (prior : PriorArtifact) : Prop :=
  ∃ k ∈ s.checkpoints, k.operationID = op ∧ k.prior = prior

theorem Quietly.recorded {op : Str} (h : Quietly s t) (hs : Recorded s op prior) :
    Recorded t op prior := by
  obtain ⟨k, hk, hid, hp⟩ := hs
  exact ⟨k, h.checkpoints ▸ hk, hid, hp⟩

variable {M : Manager}

theorem quietly_reloadRestored {r : Option RestoreResult} (hs : Inv s) :
    wp (react D) Onward (M.reloadRestored c prior r) (fun _ t => Inv t ∧ Quietly s t) s := by
  cases r with
  | none => exact ⟨hs, quietly_refl⟩
  | some r =>
    simp only [Manager.reloadRestored]
    split
    · exact onward_quiet hs rfl rfl trivial fun _ _ _ _ hi hq => ⟨hi, hq⟩
    · exact ⟨hs, quietly_refl⟩

theorem ends_restorePrior (hs : Inv s) (hrc : Recorded s c.operationID prior) :
    wp (react D) Onward (M.restorePrior c prior reason) (Ends s c) s := by
  refine onward_quiet hs rfl rfl trivial fun restored s₁ _ _ h₁ hq₁ => ?_
  simp only [bind_done]
  rw [wp_bind]
  refine wp_mono ?_ (quietly_reloadRestored h₁)
  rintro r s₂ ⟨h₂, hq₂⟩
  refine onward_quiet h₂ rfl rfl trivial fun ip s₃ _ hs₃ h₃ hq₃ => ?_
  simp only [bind_done]
  refine onward_quiet h₃ rfl rfl trivial fun observed s₄ _ _ h₄ hq₄ => ?_
  simp only [bind_done]
  have hq : Quietly s s₄ := ((hq₁.trans hq₂).trans hq₃).trans hq₄
  split
  · exact wp_mono (fun _ _ h => hq.ends h) (ends_requireManualRecovery h₄)
  next r posture he =>
    refine onward_quiet h₄ rfl rfl trivial fun n s₅ _ _ h₅ hq₅ => ?_
    simp only [bind_done]
    obtain ⟨i, rfl, hr⟩ := exactRollback_reported he
    have hrp : s₅.Reported c.operationID := by
      obtain ⟨k, hk, hid, hp⟩ := (hq.trans hq₅).recorded hrc
      refine ⟨k, hk, hid, ⟨M.providerFence c, c.endpointID⟩, i, (hq₄.trans hq₅).trace _ ?_, rfl,
        hp ▸ hr⟩
      rw [hs₃]
      exact mem_cons_self
    rw [wp_bind]
    refine wp_mono ?_ (moves_advance h₅ (by simp) fun _ => hrp)
    rintro o t hm hn hst
    have hs' : s₅.Stores (M.withRollback c r posture n) := (hq.trans hq₅).stores hst
    have hid : o.1.operationID = c.operationID := hm.operationID hn
    rw [← hid]
    exact closed_of_stores (hm.stores hn hs') (by rw [hm.state_eq hn]; rfl)

theorem ends_attemptRollback (hs : Inv s) (hst : c.state = .rollbackPending)
    (hr : Recorded s c.operationID prior) :
    wp (react D) Onward (M.attemptRollback c prior reason) (Ends s c) s := by
  unfold Manager.attemptRollback
  split
  · refine onward_quiet hs rfl rfl trivial fun n s₁ _ _ h₁ hq₁ w s₂ hw => ?_
    simp only [bind_done]
    have hl : UpdateLegal s₁ (c.attempted n) c.state := updateLegal_same rfl
    have hsp := step_keeps hw h₁ rfl hl
    refine ⟨hsp, ?_⟩
    rcases react_update hw with ⟨he, -⟩ | ⟨he, hu⟩
    · obtain ⟨e, rest, hc⟩ := exists_cons_of_ne_nil he
      simp only [hc]
      exact ends_of_ne_nil (by simp)
    · simp only [he]
      have ho : (c.attempted n).state.terminal = false := by
        rw [show (c.attempted n).state = c.state from rfl, hst]
        rfl
      have hr' : Recorded s₂ (c.attempted n).operationID prior := by
        obtain ⟨k, hk, hid, hp⟩ := hq₁.recorded hr
        refine ⟨k, ?_, hid, hp⟩
        obtain ⟨v, v', hv, -, hsm, -, hcp, -⟩ := hu
        obtain ⟨-, rfl⟩ := updateRow_spec hv
        rw [hcp, hsm ho]
        exact hk
      refine wp_mono ?_ (ends_restorePrior hsp.1.inv hr')
      intro es t h hn hsr
      have hs' : s₂.Stores (c.attempted n) := hu.stores (hq₁.stores hsr) rfl
      exact h hn hs'
  · exact ends_restorePrior hs hr

theorem ends_rollbackWithPrior (hs : Inv s) (hr : Recorded s c.operationID prior) :
    wp (react D) Onward (M.rollbackWithPrior c prior reason) (Ends s c) s := by
  unfold Manager.rollbackWithPrior
  split
  · exact ends_of_ne_nil (by simp)
  split
  · rw [wp_bind]
    refine wp_mono ?_ (wp_frame (F := Inv) (fun h _ => h.inv) hs
      (moves_advance hs (by simp) (by simp)))
    rintro ⟨next, es⟩ t ⟨hm, ht⟩
    cases es with
    | cons e rest => exact ends_of_ne_nil (by simp)
    | nil =>
      have hid : next.operationID = c.operationID := hm.operationID rfl
      have hr' : Recorded t next.operationID prior := by
        obtain ⟨k, hk, hk', hp⟩ := hr
        exact ⟨k, (hm.checkpoints rfl rfl).symm ▸ hk, hk'.trans hid.symm, hp⟩
      refine wp_mono ?_ (ends_attemptRollback ht (hm.state_eq rfl) hr')
      intro es u h hn hst
      rw [← hid]
      exact h hn (hm.stores rfl hst)
  next hpn => exact ends_attemptRollback hs (not_not.mp hpn) hr

/-- A rollback without errors ends its candidate. -/
theorem ends_rollback (hs : Inv s) : wp (react D) Onward (M.rollback c reason) (Ends s c) s := by
  refine onward_quiet hs rfl rfl trivial fun found t hf _ ht hq => ?_
  simp only [bind_done]
  cases found with
  | found k =>
    have hfn := react_checkpoint_found hf
    have hk := find?_some hfn
    have hr : Recorded t c.operationID k.prior :=
      hq.recorded ⟨k, mem_of_find?_eq_some hfn, by simpa using hk, rfl⟩
    exact wp_mono (fun _ _ h => hq.ends h) (ends_rollbackWithPrior ht hr)
  | missing | failed => exact wp_mono (fun _ _ h => hq.ends h) (ends_requireManualRecovery ht)

theorem safe_failAndRollback : Safe D Onward (M.failAndRollback c reason) fun _ => True := by
  intro s hs
  rw [Manager.failAndRollback, wp_bind]
  exact wp_mono (fun _ _ _ => trivial) (ends_rollback hs)

theorem safe_requireManualRecovery :
    Safe D Onward (requireManualRecovery c event reason es) fun _ => True :=
  fun _ hs => wp_mono (fun _ _ _ => trivial) (ends_requireManualRecovery hs)

/-- `rollbackAfterStage` is given a preflighted candidate or the zero one. -/
theorem safe_rollbackAfterStage {stage : StageResult} (hc : c.state = .preflighted ∨ c = .zero) :
    Safe D Onward (M.rollbackAfterStage c stage reason) fun _ => True := by
  rcases hc with hst | rfl
  · intro s hs
    have hs' : (M.withStage c stage).state = .preflighted := hst
    rw [Manager.rollbackAfterStage, if_pos hs']
    intro w t hw
    have hsp := step_keeps hw hs rfl trivial
    refine ⟨hsp, ?_⟩
    simp only [bind_done]
    rcases react_saveCheckpoint hw with ⟨he, -⟩ | ⟨he, ks, hf, -, ht⟩
    · obtain ⟨e, rest, hcn⟩ := exists_cons_of_ne_nil he
      simp only [hcn]
      trivial
    · simp only [he]
      rw [wp_bind]
      refine wp_mono ?_ (wp_frame (F := Inv) (fun h _ => h.inv) hsp.1.inv
        (moves_advance hsp.1.inv (by simp) (by simp)))
      rintro ⟨next, es⟩ u ⟨hm, hu⟩
      cases es with
      | nil =>
        rw [wp_bind]
        refine wp_mono (fun _ _ _ => trivial) (ends_rollbackWithPrior hu ?_)
        have hmm : checkpointOf c.operationID stage ∈ ks := mem_of_find?_eq_some hf
        refine ⟨checkpointOf c.operationID stage, ?_, (hm.operationID rfl).symm, rfl⟩
        rw [hm.checkpoints rfl rfl, ht]
        exact hmm
      | cons e rest =>
        obtain ⟨e', hb⟩ : ∃ e', M.rollbackWithPrior (M.withStage c stage) stage.prior
            reason = .done [e'] := rollbackWithPrior_blocked (by rw [hs']; decide)
        simp only [isEmpty_cons, Bool.false_eq_true, if_false, hb]
        trivial
  · obtain ⟨e, hz⟩ : ∃ e, M.rollbackAfterStage .zero stage reason =
        .done [.code "candidate" reason, e] := rollbackAfterStage_zero
    rw [hz]
    exact safe_done trivial

/-! ## Release -/

theorem safe_releaseCompletedStage : Safe D Onward (M.releaseCompletedStage c) fun _ => True := by
  unfold Manager.releaseCompletedStage
  split
  · exact safe_done trivial
  split
  · refine onward_call rfl (fun _ => trivial) fun ok => ?_
    simp only [bind_done]
    cases ok with
    | false => exact safe_done trivial
    | true =>
      refine onward_call rfl (fun _ => trivial) fun n => ?_
      refine onward_call rfl (fun _ => updateLegal_same rfl) fun w => ?_
      simp only [bind_done]
      split <;> exact safe_done trivial
  · exact safe_done trivial

theorem safe_releaseAll (ds : List Candidate) : Safe D Onward (M.releaseAll ds) fun _ => True := by
  induction ds with
  | nil => exact safe_done trivial
  | cons c rest ih =>
    refine safe_bind Onward.inv safe_releaseCompletedStage fun o _ => ?_
    split
    · exact ih
    · exact safe_done trivial

theorem safe_reconcileCompletedStageReleases :
    Safe D Onward M.reconcileCompletedStageReleases fun _ => True := by
  refine onward_call rfl (fun _ => trivial) fun ds => ?_
  simp only [bind_done]
  cases ds with
  | none => exact safe_done trivial
  | some ds => exact safe_releaseAll ds

/-! ## Start -/

variable {M : Manager} {request : StartRequest}

theorem safe_failed {p : Prog Errors} (h : Safe D Onward p fun _ => True) :
    Safe D Step (failed p) fun _ => True :=
  safe_bind Step.inv (safe_of_onward h) fun _ _ => safe_done trivial

theorem safe_requireReconnect {v : Str} : Safe D Step (M.requireReconnect c v) fun _ => True := by
  refine safe_bind Step.inv (safe_of_onward (safe_advance (by simp) (by simp))) fun o _ => ?_
  split
  · exact safe_done trivial
  · exact safe_failed safe_failAndRollback

variable {challenge : Challenge}

theorem safe_armReconnect {v : Str} : Safe D Step (M.armReconnect c challenge v) fun _ => True := by
  unfold Manager.armReconnect
  split
  · refine safe_call (fun _ => trivial) fun ok => ?_
    simp only [bind_done]
    split
    · exact safe_requireReconnect
    · exact safe_failed safe_failAndRollback
  · exact safe_requireReconnect

theorem safe_issueChallenge : Safe D Step (M.issueChallenge request c n) fun _ => True := by
  refine safe_call (fun _ => trivial) fun id => ?_
  simp only [bind_done]
  cases id with
  | none => exact safe_failed safe_failAndRollback
  | some id =>
    refine safe_call (fun _ => trivial) fun w => ?_
    simp only [bind_done]
    split
    · exact safe_armReconnect
    · exact safe_failed safe_failAndRollback

theorem safe_reloadService : Safe D Step (M.reloadService request c n) fun _ => True := by
  refine safe_call (fun _ => trivial) fun r => ?_
  simp only [bind_done]
  split
  · exact safe_failed safe_failAndRollback
  · exact safe_issueChallenge

theorem safe_pendReload : Safe D Step (M.pendReload request c n) fun _ => True := by
  refine safe_bind Step.inv (safe_of_onward (safe_advance (by simp) (by simp))) fun o _ => ?_
  split
  · refine safe_bind Step.inv (safe_of_onward (safe_advance (by simp) (by simp))) fun o _ => ?_
    split
    · exact safe_reloadService
    · exact safe_failed safe_failAndRollback
  · exact safe_failed safe_failAndRollback

theorem safe_validateStaged : Safe D Step (M.validateStaged request c n) fun _ => True := by
  refine safe_call (fun _ => trivial) fun validated => ?_
  simp only [bind_done]
  split
  · exact safe_failed safe_failAndRollback
  · exact safe_pendReload

theorem safe_checkpointStage {stage : StageResult} (hs : c.state = .preflighted) :
    Safe D Step (M.checkpointStage request c stage n) fun _ => True := by
  refine safe_call (fun _ => trivial) fun w => ?_
  simp only [bind_done]
  split
  · refine safe_bind Step.inv (safe_of_onward (safe_advance (by simp) (by simp)))
      fun o ho => ?_
    split
    · exact safe_validateStaged
    next he => exact safe_failed (safe_rollbackAfterStage (.inr (ho.2 he)))
  · exact safe_failed (safe_rollbackAfterStage (.inl hs))

theorem safe_stage (hs : c.state = .preflighted) :
    Safe D Step (M.stage request c n) fun _ => True := by
  unfold Manager.stage
  split
  · refine safe_call (fun _ => trivial) fun reply => ?_
    simp only [bind_done]
    split
    · split
      · refine safe_failed (safe_bind Onward.inv (safe_rollbackAfterStage (.inl hs)) ?_)
        exact fun _ _ => safe_done trivial
      · exact safe_checkpointStage hs
    · exact safe_failed safe_requireManualRecovery
  · exact safe_failed safe_requireManualRecovery

/-- A drawn identifier is of no candidate. -/
theorem fresh_operation {id : Str} (hs : Inv s) (h : react D s .randomID (some id) = some t) :
    ¬t.Created ("ssh-operation:".toList ++ id) ∧ id ∈ t.issued := by
  obtain ⟨hf, rfl⟩ := react_randomID h
  refine ⟨fun hcr => ?_, mem_cons_self⟩
  have hb := created_of_cons (s := s) rfl (not_creates rfl) hcr
  obtain ⟨id', hi, heq⟩ := hs.issued _ hb
  rw [append_cancel_left heq] at hf
  exact hf id' rfl hi

theorem safe_createDraft {preview : Preview} {p : Posture} :
    Safe D Step (M.createDraft request preview p) fun _ => True := by
  refine safe_call (fun _ => trivial) fun n s hs id s₁ hid => ?_
  have hs₁ := step_of_legal hid hs trivial
  refine ⟨hs₁, ?_⟩
  simp only [bind_done]
  cases id with
  | none => trivial
  | some id =>
    obtain ⟨hf, hi⟩ := fresh_operation hs hid
    intro sv s₂ hsv
    have hst₂ := step_of_legal hsv hs₁.inv trivial
    refine ⟨hst₂, ?_⟩
    have hs₂ := react_quiet rfl hsv
    simp only [bind_done]
    split
    · intro created s₃ hcr
      have hl : Legal s₂ (.createCandidateWithJournal
          (M.newCandidate request preview p ("ssh-operation:".toList ++ id) n)) := by
        refine ⟨rfl, fun h => hf ?_, id, ?_, rfl⟩
        · rw [hs₂] at h
          exact created_of_cons rfl (not_creates rfl) h
        · rw [hs₂]
          exact hi
      have hs₃ := step_of_legal hcr hst₂.inv hl
      refine ⟨hs₃, ?_⟩
      simp only [bind_done]
      split
      · refine (safe_bind Step.inv (safe_of_onward (safe_advance (by simp) (by simp)))
          fun o ho => ?_ : Safe D Step _ fun _ => True) s₃ hs₃.inv
        split
        next hn => exact safe_stage (ho.1 hn)
        · exact safe_done trivial
      · trivial
    · trivial

/-- Every write of `Start` is legal, whatever the provider answers. -/
theorem safe_start : Safe D Step (M.start request) fun _ => True := by
  unfold Manager.start
  split
  · refine safe_bind Step.inv (safe_of_onward safe_reconcileCompletedStageReleases) fun es _ => ?_
    split
    · refine safe_call (fun _ => trivial) fun replay => ?_
      simp only [bind_done]
      split
      · split <;> exact safe_done trivial
      · exact safe_done trivial
      · refine safe_call (fun _ => trivial) fun preview => ?_
        simp only [bind_done]
        split
        · exact safe_done trivial
        · split
          · exact safe_done trivial
          · split
            · exact safe_createDraft
            · exact safe_done trivial
    · exact safe_done trivial
  · exact safe_done trivial

/-! ## Confirm -/

theorem safe_rolled {p : Prog Errors} {f : Errors → Candidate × Errors}
    (h : Safe D Onward p fun _ => True) :
    Safe D Step (p >>= fun es => pure (f es)) fun _ => True :=
  safe_bind Step.inv (safe_of_onward h) fun _ _ => safe_done trivial

theorem safe_commit {path : RecoveryPath} {p : Preservation}
    (hp : path.targetOperation = c.operationID) :
    Safe D Step (M.commit c challenge path p n) fun _ => True := by
  simp only [Manager.commit]
  split
  next ha =>
    refine safe_call (fun _ => ⟨rfl, ha, hp⟩) fun w => ?_
    simp only [bind_done]
    split
    · exact safe_bind Step.inv (safe_of_onward safe_releaseCompletedStage)
        fun _ _ => safe_done trivial
    · exact safe_rolled safe_failAndRollback
  · exact safe_rolled safe_failAndRollback

theorem safe_confirmProved {path : RecoveryPath} (hp : path.targetOperation = c.operationID) :
    Safe D Step (M.confirmProved c challenge path) fun _ => True := by
  refine safe_call (fun _ => trivial) fun i => ?_
  refine safe_call (fun _ => trivial) fun observed => ?_
  refine safe_call (fun _ => trivial) fun n => ?_
  refine safe_call (fun _ => trivial) fun p => ?_
  simp only [bind_done]
  split
  · exact safe_commit hp
  · exact safe_rolled safe_failAndRollback

theorem safe_confirm {request : ConfirmRequest} :
    Safe D Step (M.confirm request) fun _ => True := by
  refine safe_call (fun _ => trivial) fun found => ?_
  simp only [bind_done]
  split
  · split
    · refine safe_call (fun _ => trivial) fun n => ?_
      refine safe_call (fun _ => trivial) fun stage => ?_
      simp only [bind_done]
      split
      · exact safe_done trivial
      · unfold Manager.confirmOpen
        split
        · refine safe_call (fun _ => trivial) fun p => ?_
          simp only [bind_done]
          split
          · exact safe_done trivial
          · exact safe_confirmProved rfl
        · exact safe_done trivial
    · exact safe_done trivial
  · exact safe_done trivial

end Solovey.Ssh
