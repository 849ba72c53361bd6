import Solovey.Ssh.Calls

/-!
# What the trace of a start shows

The failures of a run: a provider step that returned an error or an unacceptable report, or a write
that was not stored. Then what one call adds to them, and what `advance` can return.
-/

namespace Solovey.Ssh

open Text (Str)
open Data List
open Data.Program (wp wp_done)

/-! ## What a trace shows -/

def Written.refused (w : Written) : Bool := !w.errors.isEmpty

/-- The call failed: a write was not stored, or a step of the provider or of the random source
returned an error or a report that the request does not accept. -/
def Effect.failedBy : (e : Effect) → Reply e → Bool
  | .randomID, id => Option.isNone id
  | .savePosture, w => Written.refused w
  | .createCandidateWithJournal _, w => Written.refused w
  | .updateCandidateCASWithJournal _ _ _ _ _, w => Written.refused w
  | .commitCandidateCASWithJournalAndEvidence _ _ _ _ _ _, w => Written.refused w
  | .saveCheckpoint _, w => Written.refused w
  | .saveChallenge _, w => Written.refused w
  | .pruneHistory, w => Written.refused w
  | .stageManagedPolicy _, reply => StageReply.failed reply
  | .validateManagedPolicy r, v =>
    Option.isNone (Option.filter (validationAccepted r.fence.expectedProviderRevision) v)
  | .reloadSelectedService r, v =>
    Option.isNone (Option.filter (reloadAccepted r.fence.expectedProviderRevision) v)
  | .armReconnect _ _, ok => not ok
  | .verifyReconnect _, p => Option.isNone p
  | .restoreManagedPolicy _, v => Option.isNone v
  | .inspectManagedPolicy _, v => Option.isNone v
  | .observe, v => Option.isNone v
  | .recoverCompletedStage _, reply => StageReply.failed reply
  | .releaseCompletedStage _, ok => not ok
  | _, _ => false

def Event.failed (event : Event) : Bool := event.1.failedBy event.2

/-- The states of a candidate between its stage and its reconnect. -/
def CandidateState.forward (s : CandidateState) : Bool :=
  s = .staged || s = .validated || s = .reloadPending || s = .reconnectRequired

/-- A write of the next step of a candidate that was not stored. -/
def Event.lostAdvance (event : Event) : Bool :=
  match event.1 with
  | .updateCandidateCASWithJournal c _ _ _ _ => c.state.forward && event.failed
  | _ => false

/-- The report of a stage is the one its request asks for. -/
def StageRequest.matches (r : StageRequest) (staged : StageResult) : Bool :=
  staged.artifactDigest = r.expectedArtifactDigest && staged.endpointID = r.endpointID &&
    staged.providerRevision = r.fence.expectedProviderRevision &&
    validDigest staged.configurationRevision && validDigest staged.prior.digest

def Effect.stagedBy : (e : Effect) → Reply e → Option (Str × StageResult)
  | .stageManagedPolicy r, reply =>
    if r.matches (StageReply.result reply) then
      some (r.fence.operationID, StageReply.result reply)
    else none
  | _, _ => none

def Event.staged (event : Event) : Option (Str × StageResult) := event.1.stagedBy event.2

def Effect.isStage : Effect → Bool
  | .stageManagedPolicy _ => true
  | _ => false

def Effect.isRestore : Effect → Bool
  | .restoreManagedPolicy _ => true
  | _ => false

def Effect.restores (op : Str) (prior : PriorArtifact) : Effect → Bool
  | .restoreManagedPolicy r => r.fence.operationID = op && r.prior = prior
  | _ => false

namespace World

def failures (w : World) : ℕ := w.trace.countP Event.failed

def lostAdvance (w : World) : Bool := w.trace.any Event.lostAdvance

/-- The operations of the matching stages and what these reported. -/
def stages (w : World) : List (Str × StageResult) := w.trace.filterMap Event.staged

def restoring (w : World) : Bool := w.trace.any fun event => event.1.isRestore

/-- The provider was called to restore the artifact for the operation. -/
def restored (w : World) (op : Str) (prior : PriorArtifact) : Bool :=
  w.trace.any fun event => event.1.restores op prior

def inState (w : World) (op : Str) (state : CandidateState) : Bool :=
  w.rows.any fun c => c.operationID = op && c.state = state

/-- The stage of the operation was undone, or is left to a person, or is known to the broker alone:
its candidate is preflighted and has no checkpoint. -/
def undone (w : World) (op : Str) (prior : PriorArtifact) : Bool :=
  w.restored op prior || w.inState op .manualRecoveryRequired ||
    (w.inState op .preflighted && !w.checkpoints.any fun k => k.operationID = op)

end World

variable {D : Digests} {s t u : World} {c : Candidate} {e : Effect} {r : Reply e}

theorem react_failures (h : react D s e r = some t) :
    t.failures = s.failures + if e.failedBy r then 1 else 0 := by
  rw [World.failures, react_trace h, countP_cons]
  rfl

theorem react_lostAdvance (h : react D s e r = some t) :
    t.lostAdvance = (Event.lostAdvance ⟨e, r⟩ || s.lostAdvance) := by
  rw [World.lostAdvance, react_trace h, any_cons]
  rfl

theorem react_restoring (h : react D s e r = some t) :
    t.restoring = (e.isRestore || s.restoring) := by
  rw [World.restoring, react_trace h, any_cons]
  rfl

theorem react_restored {op : Str} {p : PriorArtifact} (h : react D s e r = some t) :
    t.restored op p = (e.restores op p || s.restored op p) := by
  rw [World.restored, react_trace h, any_cons]
  rfl

theorem react_staged (h : react D s e r = some t) :
    t.stages = (e.stagedBy r).toList ++ s.stages := by
  rw [World.stages, react_trace h]
  cases hs : e.stagedBy r with
  | none => exact filterMap_cons_none hs
  | some stage => exact filterMap_cons_some hs

theorem react_stages (he : e.isStage = false) (h : react D s e r = some t) :
    t.stages = s.stages := by
  have hn : e.stagedBy r = none := by
    cases e with
    | stageManagedPolicy request => cases he
    | _ => rfl
  rw [react_staged h, hn]
  rfl

theorem lostAdvance_of_not_failed (hr : e.failedBy r = false) :
    Event.lostAdvance ⟨e, r⟩ = false := by
  cases e with
  | updateCandidateCASWithJournal c revision state event reason =>
    exact Bool.and_eq_false_iff.mpr (.inr hr)
  | _ => rfl

/-! ## One call -/

def SameStages (s t : World) : Prop := t.stages = s.stages

/-- Nothing failed between the states, and nothing was restored. -/
structure Went (s t : World) : Prop where
  failures : t.failures = s.failures
  lostAdvance : t.lostAdvance = s.lostAdvance
  restoring : t.restoring = s.restoring

theorem Went.trans (hst : Went s t) (htu : Went t u) : Went s u :=
  ⟨htu.failures.trans hst.failures, htu.lostAdvance.trans hst.lostAdvance,
    htu.restoring.trans hst.restoring⟩

theorem react_went (h : react D s e r = some t) (he : e.isRestore = false)
    (hr : e.failedBy r = false) : Went s t := by
  refine ⟨?_, ?_, ?_⟩
  · rw [react_failures h, hr]
    rfl
  · rw [react_lostAdvance h, lostAdvance_of_not_failed hr, Bool.false_or]
  · rw [react_restoring h, he, Bool.false_or]

/-- The last call failed and left the database as it was. -/
structure Refused (s t : World) (lost : Bool) : Prop where
  rows : t.rows = s.rows
  checkpoints : t.checkpoints = s.checkpoints
  failures : t.failures = s.failures + 1
  lostAdvance : t.lostAdvance = (lost || s.lostAdvance)
  restoring : t.restoring = s.restoring

theorem Refused.of_went {l : Bool} (h : Refused s t l) (hw : Went u s) (hr : s.rows = u.rows)
    (hc : s.checkpoints = u.checkpoints) :
    Refused u t l :=
  ⟨h.rows.trans hr, h.checkpoints.trans hc, h.failures.trans (by rw [hw.failures]),
    h.lostAdvance.trans (by rw [hw.lostAdvance]), h.restoring.trans hw.restoring⟩

theorem react_refused (h : react D s e r = some t) (ht : t = s.log ⟨e, r⟩)
    (he : e.isRestore = false) (hr : e.failedBy r = true) :
    Refused s t (Event.lostAdvance ⟨e, r⟩) := by
  refine ⟨by rw [ht, log_rows], by rw [ht, log_checkpoints], ?_, react_lostAdvance h, ?_⟩
  · rw [react_failures h, hr]
    rfl
  · rw [react_restoring h, he, Bool.false_or]

/-- The row of the candidate was updated to the next one. -/
structure Advanced (s t : World) (c next : Candidate) : Prop where
  stores : s.Stores c → t.Stores next
  row : next.prunable = false → t.inState next.operationID next.state = true
  checkpoints : next.state.terminal = false → t.checkpoints = s.checkpoints
  went : Went s t

theorem Updated.advanced {next : Candidate} (hid : next.operationID = c.operationID) (hw : Went s t)
    (h : Updated s t next c.revision c.state) : Advanced s t c next := by
  refine ⟨fun hs => h.stores hs hid, fun hk => ?_, fun ho => ?_, hw⟩
  · obtain ⟨d, hd, hop, hst⟩ := h.row hk
    exact any_eq_true.mpr ⟨d, hd, by simp [hop, hst]⟩
  · obtain ⟨u, v, hu, -, hv, -, hc, -⟩ := h
    obtain ⟨-, rfl⟩ := updateRow_spec hu
    rw [hc, hv ho]

variable {w : Written}

theorem refused_eq_false (h : w.errors = []) : w.refused = false := by
  rw [Written.refused, h]
  rfl

theorem refused_eq_true (h : w.errors ≠ []) : w.refused = true := by
  rw [Written.refused, isEmpty_eq_false_iff.mpr h]
  rfl

theorem react_update_cases {next : Candidate} {event : Str} {reason : Option ReasonCode}
    (h : react D s (.updateCandidateCASWithJournal next c.revision c.state event reason) w
      = some t) (hid : next.operationID = c.operationID) :
    (w.errors ≠ [] ∧ Refused s t next.state.forward) ∨ (w.errors = [] ∧ Advanced s t c next) := by
  rcases react_update h with ⟨he, ht⟩ | ⟨he, hu⟩
  · refine .inl ⟨he, ?_⟩
    have hr : Refused s t (next.state.forward && w.refused) :=
      react_refused h ht rfl (refused_eq_true he)
    rwa [refused_eq_true he, Bool.and_true] at hr
  · exact .inr ⟨he, hu.advanced hid (react_went h rfl (refused_eq_false he))⟩

/-! ## Steps of a candidate -/

section

variable {G : World → World → Prop} {α : Type}
  (hG : ∀ {s e r t}, e.isStage = false → react D s e r = some t → G s t)

include hG in
theorem wp_quiet {k : Reply e → Prog α} {Q : α → World → Prop} (hq : e.quiet = true)
    (he : e.isStage = false)
    (h : ∀ r t, react D s e r = some t → t = s.log ⟨e, r⟩ → wp (react D) G (k r) Q t) :
    wp (react D) G (.call e k) Q s :=
  fun r t hs => ⟨hG he hs, h r t hs (react_quiet hq hs)⟩

theorem next_operationID (state : CandidateState) (n : ℤ) (reason : Option ReasonCode) :
    (c.next state n reason).operationID = c.operationID := by
  cases reason <;> rfl

theorem next_state (state : CandidateState) (n : ℤ) (reason : Option ReasonCode) :
    (c.next state n reason).state = state := by
  cases reason <;> rfl

theorem next_rollbackAttempts (state : CandidateState) (n : ℤ) (reason : Option ReasonCode) :
    (c.next state n reason).rollbackAttempts = c.rollbackAttempts := by
  cases reason <;> rfl

theorem leaving_ok {w : Written} (h : w.errors = []) : w.leaving c = (c, []) := by
  simp only [Written.leaving, h]

theorem leaving_refused {w : Written} (h : w.errors ≠ []) : w.leaving c = (.zero, w.errors) := by
  obtain ⟨e, rest, hc⟩ := exists_cons_of_ne_nil h
  simp only [Written.leaving, hc]

theorem advance_eq {state : CandidateState} {event : String} {reason : Option ReasonCode}
    (ha : transitionAllowed c.state state = true) :
    advance c state event reason = .call .now fun now =>
      .call (.updateCandidateCASWithJournal (c.next state now reason) c.revision c.state
        event.toList reason) fun w => .done (Written.leaving w (c.next state now reason)) :=
  if_pos ha

include hG in
/-- What `advance` returns if the transition is allowed: the next candidate, or the zero one. -/
theorem wp_advance {state : CandidateState} {event : String} {reason : Option ReasonCode}
    {Q : Candidate × Errors → World → Prop} (ha : transitionAllowed c.state state = true)
    (hok : ∀ t next, next.operationID = c.operationID → next.state = state →
      next.rollbackAttempts = c.rollbackAttempts → Advanced s t c next → Q (next, []) t)
    (hno : ∀ t errors, errors ≠ [] → Refused s t state.forward → Q (.zero, errors) t) :
    wp (react D) G (advance c state event reason) Q s := by
  rw [advance_eq ha]
  refine wp_quiet hG rfl rfl fun now t hn ht w v hw => ⟨hG rfl hw, ?_⟩
  have hwn : Went s t := react_went hn rfl rfl
  subst ht
  rw [wp_done]
  rcases react_update_cases (c := c) hw (next_operationID state now reason) with
    ⟨he, hr⟩ | ⟨he, had⟩
  · rw [leaving_refused he]
    rw [next_state] at hr
    exact hno v _ he (hr.of_went hwn rfl rfl)
  · rw [leaving_ok he]
    exact hok v _ (next_operationID state now reason) (next_state state now reason)
      (next_rollbackAttempts state now reason)
      ⟨had.stores, had.row, had.checkpoints, hwn.trans had.went⟩

end

end Solovey.Ssh
