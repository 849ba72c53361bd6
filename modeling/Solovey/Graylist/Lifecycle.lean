import Solovey.Data.System
import Solovey.Graylist.Outcome

/-!
# Lives of graylist states

What holds of a state along every run of evaluations. A superseded state stays superseded as long as
no evaluation takes the timer path, which works the band and the lifecycle out anew without looking
whether the state has been superseded. No state asks for an action without strong evidence that was
alive when the action was chosen.
-/

namespace Solovey.Graylist

open Solovey.Text Solovey.Data

/-! ## A sample

A subject whose first signal, in the first hour, takes it into the graylist. -/

def sampleSignal (letter : Char) (delta : ℤ) (observedAt : Time) (lifetime : Duration) :
    AcceptedSignal where
  signal :=
    { signalID := List.replicate 64 letter
      sourceClass := "native".toList
      subject := ⟨"ip".toList, "1.1.1.1".toList⟩
      targetResourceID := ['r']
      endpointID := ['e']
      transport := "tcp".toList
      policyRevision := ['p']
      confidenceBP := 9000
      observedAt := observedAt
      expiresAt := observedAt + lifetime }
  delta := delta
  weak := false
  evidenceClass := none

def sampleInput (existing : Option GraylistState) (accepted : Option AcceptedSignal) (now : Time) :
    EvaluateInput where
  existing := existing
  accepted := accepted
  policy := { defaultPolicy with revision := ['p'] }
  strategyRevision := ['s']
  capabilityRevision := ['c']
  allowlisted := false
  management := false
  recoveryProtected := false
  trustedSource := false
  manualClear := false
  now := now

/-- The sample after its first signal. -/
def sampleState : GraylistState where
  schema := graylistStateSchema
  stateID := ['1', '2', '6', 'a', '2', '7', '9', '3', 'f', '8', '2', '9', '3', '4', '2', '0',
    '3', '6', '1', '3', 'b', '6', 'c', '5', '3', '8', '5', '3', 'd', '1', '1', '3',
    '9', 'f', '9', 'd', '2', '9', '2', '3', '5', 'e', 'd', '9', '2', 'b', '5', '0',
    '6', '8', '8', 'c', '5', '4', 'f', '4', '3', '8', '4', 'a', '1', '2', 'd', '9']
  revision := 2
  subject := ⟨"ip".toList, "1.1.1.1".toList⟩
  resourceID := ['r']
  endpointID := ['e']
  transport := "tcp".toList
  score := 20
  confidenceBP := 9000
  policyRevision := ['p']
  strategyRevision := ['s']
  capabilityRevision := ['c']
  signalRefs := [List.replicate 64 'a']
  evidenceRefs := [⟨List.replicate 64 'a', .strongTrusted, hour + 5 * minute⟩]
  sourceClasses := ["native".toList]
  band := .graylist
  lifecycle := .active
  enteredAt := hour
  lastSignalAt := hour
  expiresAt := 2 * hour
  selectedResponse := .observe
  desiredAction := .softGraylist
  actualActionState := .notApplied
  appliedActionRefID := []
  reasonCodes := []
  createdAt := hour
  updatedAt := hour

/-- The sample after the subject has been put on the allowlist. -/
def sampleSuperseded : GraylistState :=
  { sampleState with
    revision := 3
    lifecycle := .superseded
    desiredAction := .observe
    reasonCodes := ["allowlist_precedence".toList]
    updatedAt := hour + minute }

/-! ## Superseded states -/

variable {state : GraylistState} {now : Time} {r : EvaluateResult}

theorem supersede_superseded {rs : Str} (h : supersede state now rs = .ok r) :
    r.state.lifecycle = .superseded ∧ (r.state = state ∨ r.state.desiredAction = .observe) := by
  simp only [supersede] at h
  split at h
  next hk =>
    cases h
    exact ⟨hk.1, .inl rfl⟩
  · obtain ⟨rfl, -⟩ := validated_ok h
    exact ⟨rfl, .inr rfl⟩

/-- Whether the timer path leaves the lifecycle alone: the score has fallen below the score that
enters a band, and no band is left for the cooldown. -/
def Dormant (state : GraylistState) (policy : Policy) (now : Time) : Prop :=
  now < state.expiresAt ∧ hasActiveStrongEvidence state.evidenceRefs now = true ∧
    decayedScore state.score state.lastSignalAt now policy < policy.enterScore ∧
    (policy.exitScore ≤ decayedScore state.score state.lastSignalAt now policy ∨
      ¬(state.band = .graylist ∨ state.band = .rateCandidate ∨ state.band = .cooldown))

/-- Whether an evaluation of a superseded state carries a signal or a reason to supersede it, or is a
timer that leaves its lifecycle alone. -/
def StaysSuperseded (state : GraylistState) (evaluation : Time × EvaluateInput) : Prop :=
  evaluation.2.drifted state = true ∨ evaluation.2.accepted.isSome = true ∨
    evaluation.2.precedence.isSome = true ∨
    Dormant state evaluation.2.currentPolicy (evaluation.2.time evaluation.1)

theorem nextStanding_superseded {p : Policy} (hp : p.enterScore ≤ p.rateScore)
    (hs : state.lifecycle = .superseded) (hl : now < state.expiresAt) :
    (nextStanding state p now).2.1 = .superseded ↔ Dormant state p now := by
  simp only [nextStanding, Dormant]
  split
  next hw => simp_all
  split
  next hst hr =>
    have he := hp.trans hr.1
    simp only [reduceCtorEq, false_iff, not_and]
    intro _ _ hlw
    omega
  split
  next he =>
    simp only [reduceCtorEq, false_iff, not_and]
    intro _ _ hlw
    omega
  split
  next hex =>
    refine iff_of_false (by simp) fun hd => ?_
    rcases hd.2.2.2 with hh | hb
    · omega
    · exact hb hex.1
  next hst _ he hex =>
    refine iff_of_true hs ⟨hl, by simpa using hst, by omega, ?_⟩
    by_cases hb : state.band = .graylist ∨ state.band = .rateCandidate ∨ state.band = .cooldown
    · exact .inl (not_lt.mp fun hlw => hex ⟨hb, hlw⟩)
    · exact .inr hb

variable {clock : Time} {input : EvaluateInput}

theorem currentPolicy_scores (h : evaluate clock input = .ok r) :
    input.currentPolicy.enterScore ≤ input.currentPolicy.rateScore := by
  simp only [evaluate] at h
  split at h
  · cases h
  next hv =>
    simp only [Policy.valid, Bool.not_eq_true', Bool.not_eq_false, Bool.and_eq_true,
      decide_eq_true_eq] at hv
    omega

/-- An evaluation of a superseded state leaves it superseded under the condition and only then. -/
theorem evaluate_superseded (hex : input.existing = some state) (hs : state.lifecycle = .superseded)
    (h : evaluate clock input = .ok r) :
    (r.state.lifecycle = .superseded ↔ StaysSuperseded state (clock, input)) ∧
      (r.state.lifecycle = .superseded → r.state = state ∨ r.state.desiredAction = .observe) := by
  obtain ⟨-, ⟨hd, hsp⟩ | ⟨hd, hc⟩⟩ := evaluate_existing h hex
  · obtain ⟨hlf, ha⟩ := supersede_superseded hsp
    exact ⟨iff_of_true hlf (.inl hd), fun _ => ha⟩
  rcases evaluateCurrent_some hc with ⟨ht, hcn⟩ | ⟨accepted, -, hrc⟩
  swap
  · exact absurd hs (receive_cases hrc).1
  cases hp : input.precedence with
  | some rs =>
    simp only [conclude, hp] at hcn
    obtain ⟨hlf, ha⟩ := supersede_superseded hcn
    exact ⟨iff_of_true hlf (.inr (.inr (.inl (by simp [hp])))),
      fun _ => ha⟩
  | none =>
    have hdr : StaysSuperseded state (clock, input) ↔
        Dormant state input.currentPolicy (input.time clock) := by
      simp [StaysSuperseded, hd, ht, hp]
    simp only [conclude, hp] at hcn
    split at hcn
    next hep =>
      rw [expire, if_neg (by simp [hs])] at hcn
      obtain ⟨rfl, -⟩ := validated_ok hcn
      have he : ¬(Lifecycle.expired = .superseded) := by decide
      refine ⟨iff_of_false he ?_, fun hlf => absurd hlf he⟩
      rw [hdr]
      exact fun hl => absurd hep (not_le.mpr hl.1)
    next hl =>
      obtain ⟨rfl, -⟩ := validated_ok hcn
      have hst := nextStanding_superseded (currentPolicy_scores h) hs (not_le.mp hl)
      refine ⟨by rw [hdr]; exact hst, fun hlf => .inr ?_⟩
      obtain ⟨-, hsr, hlw, het⟩ := hst.mp hlf
      have hr : ¬input.currentPolicy.rateScore ≤ decayedScore state.score state.lastSignalAt
          (input.time clock) input.currentPolicy := by
        have := currentPolicy_scores h
        omega
      simp only [GraylistState.canonical, nextStanding, hsr, hr, false_and, not_le.mpr hlw,
        Bool.not_true, Bool.false_eq_true, if_false]
      split <;> rfl

/-- Successive evaluations of one state. -/
def evaluations : System GraylistState (Time × EvaluateInput) where
  initial _ := True
  step state evaluation next := ∃ changed,
    evaluate evaluation.1 { evaluation.2 with existing := some state } = .ok ⟨next, changed⟩

/-- In every run all of whose evaluations meet the condition, a superseded state stays superseded
and gets no action but to observe. An evaluation that does not meet it gives the state another
lifecycle. -/
theorem superseded_terminal {state : GraylistState} :
    (∀ {later}, (evaluations.guarded StaysSuperseded).Later state later →
      state.lifecycle = .superseded →
      later.lifecycle = .superseded ∧ (later = state ∨ later.desiredAction = .observe)) ∧
    ∀ {evaluation next}, state.lifecycle = .superseded →
      evaluations.step state evaluation next →
      (next.lifecycle = .superseded ↔ StaysSuperseded state evaluation) := by
  constructor
  · intro later hl hst
    refine hl.preserves (I := fun later => later.lifecycle = .superseded ∧
      (later = state ∨ later.desiredAction = .observe)) ?_ ⟨hst, .inl rfl⟩
    rintro s evaluation t ⟨hs, ha⟩ ⟨hsy, c, h⟩
    obtain ⟨hi, hk⟩ := evaluate_superseded rfl hs h
    have ht := hi.mpr hsy
    refine ⟨ht, ?_⟩
    rcases hk ht with hsm | ho
    · change t = s at hsm
      rwa [hsm]
    · exact .inr ho
  · rintro evaluation next hst ⟨c, h⟩
    exact (evaluate_superseded rfl hst h).1

/-- The allowlist leaves the superseded sample superseded. -/
theorem superseded_terminal_sample :
    ∃ later, (evaluations.guarded StaysSuperseded).Later sampleSuperseded later ∧
      later.lifecycle = .superseded ∧
      (later = sampleSuperseded ∨ later.desiredAction = .observe) := by
  have hs : evaluate 0 { sampleInput (some sampleSuperseded) none (hour + 2 * minute) with
      allowlisted := true } = .ok ⟨sampleSuperseded, false⟩ := by decide +kernel
  have hl : (evaluations.guarded StaysSuperseded).Later sampleSuperseded sampleSuperseded :=
    .tail (a := (0, { sampleInput none none (hour + 2 * minute) with allowlisted := true })) .refl
      ⟨.inr (.inr (.inl rfl)), _, hs⟩
  exact ⟨_, hl, superseded_terminal.1 hl rfl⟩

/-- A timer makes the superseded sample active again. -/
theorem superseded_reactivated :
    sampleSuperseded.lifecycle = .superseded ∧
      evaluate 0 (sampleInput (some sampleSuperseded) none (hour + 2 * minute)) =
        .ok ⟨{ sampleState with
          revision := 4
          reasonCodes := ["allowlist_precedence".toList]
          updatedAt := hour + 2 * minute }, true⟩ := by
  decide +kernel

/-! ## Actions and revisions -/

theorem nextStanding_action {p : Policy} (h : (nextStanding state p now).2.2 ≠ .observe) :
    hasActiveStrongEvidence state.evidenceRefs now = true := by
  by_contra hw
  rw [Bool.not_eq_true] at hw
  simp [nextStanding, hw] at h

theorem revision_succ {rv : UInt64} (h : rv + 1 ≠ 0) : (rv + 1).toNat = rv.toNat + 1 := by
  have hlt := rv.toNat_lt
  have hne : (rv + 1).toNat ≠ 0 := fun hz => h (UInt64.toNat.inj hz)
  simp only [UInt64.toNat_add, UInt64.toNat_one] at hne ⊢
  omega

/-- The revision that an evaluation starts from; a new state is made at revision 1. -/
def EvaluateInput.revision (input : EvaluateInput) : UInt64 :=
  (input.existing.map GraylistState.revision).getD 1

/-- A successful evaluation returns a state that passes its check, counts its change, and asks for
an action only on evidence that is alive or where it leaves the state as it is. -/
theorem evaluate_sound (h : evaluate clock input = .ok r) : r.state.validate = .ok () ∧
      r.state.revision.toNat = input.revision.toNat + (if r.changed then 1 else 0) ∧
      (r.state.desiredAction = .observe ∨
        hasActiveStrongEvidence r.state.evidenceRefs (input.time clock) = true ∨
        input.existing = some r.state ∧ r.changed = false) := by
  rcases evaluate_cases h with ⟨state, hex, hv, rfl⟩ | ⟨b, hb, ho⟩
  · exact ⟨hv, by simp [EvaluateInput.revision, hex], .inr (.inr ⟨hex, rfl⟩)⟩
  have hr : input.revision = b.revision := hb.revision.symm
  rw [hr]
  cases ho with
  | kept he =>
    obtain ⟨hex, hv⟩ := hb.ended he
    exact ⟨hv, by simp, .inr (.inr ⟨hex, rfl⟩)⟩
  | ended hv hn ha =>
    have hne := (GraylistState.checked hv).revision
    rw [hn] at hne
    exact ⟨hv, by simp [hn, revision_succ hne], .inl ha⟩
  | @rescored state c hv hn ha hev =>
    refine ⟨hv, ?_, ?_⟩
    · have hne := (GraylistState.checked hv).revision
      rw [hn] at hne ⊢
      cases c with
      | false => rfl
      | true => simpa using revision_succ hne
    · by_cases hob : state.desiredAction = .observe
      · exact .inl hob
      · refine .inr (.inl ?_)
        rw [hev, hb.evidence.eq_self]
        exact nextStanding_action (ha ▸ hob)

/-- A signal that a live state has taken in already leaves the state as it is. -/
theorem evaluate_referenced {a : AcceptedSignal} (hex : input.existing = some state)
    (ha : input.accepted = some a) (he : state.lifecycle ≠ .expired)
    (hrf : a.signal.signalID ∈ state.signalRefs) (hd : input.drifted state = false)
    (h : evaluate clock input = .ok r) :
    r = ⟨state, false⟩ := by
  obtain ⟨-, ⟨hdr, -⟩ | ⟨-, hc⟩⟩ := evaluate_existing h hex
  · rw [hd] at hdr
    cases hdr
  rcases evaluateCurrent_some hc with ⟨hn, -⟩ | ⟨other, ho, hr⟩
  · rw [ha] at hn
    cases hn
  rw [ha] at ho
  cases ho
  obtain ⟨-, ⟨-, -, hs⟩ | ⟨hnw, -⟩⟩ := receive_cases hr
  · exact hs
  · rw [entered, if_neg he] at hnw
    exact absurd hrf hnw

/-- What a subject's evaluations have come to: their times, the last one first, and the state. -/
abbrev History := List Time × Option GraylistState

/-- The evaluations of one subject from its first signal on. -/
def histories : System History (Time × EvaluateInput) where
  initial history := history = ([], none)
  step history evaluation next := ∃ result,
    evaluate evaluation.1 { evaluation.2 with existing := history.2 } = .ok result ∧
      next = (evaluation.2.time evaluation.1 :: history.1, some result.state)

/-- Along every history, an action other than to observe was chosen at the time of an evaluation at
which the state held unexpired strong evidence. -/
theorem action_on_evidence {history : History} (h : histories.Reachable history) :
    ∀ state ∈ history.2, state.desiredAction ≠ .observe →
      ∃ time ∈ history.1, hasActiveStrongEvidence state.evidenceRefs time = true := by
  refine h.invariant (I := fun history : History => ∀ state ∈ history.2,
    state.desiredAction ≠ .observe →
      ∃ time ∈ history.1, hasActiveStrongEvidence state.evidenceRefs time = true) ?_ ?_
  · rintro history rfl state hs
    cases hs
  · rintro history e next ih ⟨r, he, rfl⟩ state hs ha
    cases hs
    rcases (evaluate_sound he).2.2 with ho | hst | ⟨hk, -⟩
    · exact absurd ho ha
    · exact ⟨_, List.mem_cons_self .., hst⟩
    · obtain ⟨time, ht, hst⟩ := ih r.state hk ha
      exact ⟨time, List.mem_cons_of_mem _ ht, hst⟩

/-- An action needs unexpired strong evidence, along every history and in every evaluation that
changes the state; a successful evaluation returns a state that passes its check and counts its
change; and under the revisions that made a live state, a signal that it has taken in already leaves
it as it is. -/
theorem evaluation_history :
    (∀ history, histories.Reachable history → ∀ state ∈ history.2,
      state.desiredAction ≠ .observe →
      ∃ time ∈ history.1, hasActiveStrongEvidence state.evidenceRefs time = true) ∧
    (∀ clock input r, evaluate clock input = .ok r →
      (hasActiveStrongEvidence r.state.evidenceRefs (input.time clock) = false →
        r.state.desiredAction = .observe ∨ input.existing = some r.state ∧ r.changed = false) ∧
      r.state.validate = .ok () ∧
      r.state.revision.toNat = input.revision.toNat + (if r.changed then 1 else 0)) ∧
    ∀ clock input state accepted r, input.existing = some state →
      input.accepted = some accepted → state.lifecycle ≠ .superseded →
      state.lifecycle ≠ .expired → accepted.signal.signalID ∈ state.signalRefs →
      input.drifted state = false → evaluate clock input = .ok r → r = ⟨state, false⟩ := by
  refine ⟨fun history h => action_on_evidence h, ?_, ?_⟩
  · intro clock input r h
    obtain ⟨hv, hrv, hac⟩ := evaluate_sound h
    refine ⟨fun hw => ?_, hv, hrv⟩
    rcases hac with ho | hs | hk
    · exact .inl ho
    · rw [hw] at hs
      cases hs
    · exact .inr hk
  · intro clock input state accepted r hex ha _ he hr hd h
    exact evaluate_referenced hex ha he hr hd h

/-- The first signal of the sample once more: the state stays as it is and passes its check. -/
theorem evaluation_history_replay :
    evaluate 0 (sampleInput (some sampleState) (some (sampleSignal 'a' 20 hour (5 * minute)))
        (hour + minute)) = .ok ⟨sampleState, false⟩ ∧ sampleState.validate = .ok () := by
  have hok : (evaluate 0 (sampleInput (some sampleState)
      (some (sampleSignal 'a' 20 hour (5 * minute))) (hour + minute))).toOption.isSome = true := by
    decide +kernel
  cases h : evaluate 0 (sampleInput (some sampleState)
      (some (sampleSignal 'a' 20 hour (5 * minute))) (hour + minute)) with
  | error rs =>
    rw [h] at hok
    cases hok
  | ok r =>
    have hs : r = ⟨sampleState, false⟩ := evaluation_history.2.2 0 _ sampleState
      (sampleSignal 'a' 20 hour (5 * minute)) r rfl rfl (by decide) (by decide) (by decide)
      (by decide) h
    rw [hs] at h
    exact ⟨by rw [hs], ((evaluation_history.2.1 0 _ _ h).2.1)⟩

/-- The same signal under another revision of the capability: the state is superseded. -/
theorem referenced_signal_drift :
    sampleState.lifecycle = .active ∧ List.replicate 64 'a' ∈ sampleState.signalRefs ∧
      evaluate 0 { sampleInput (some sampleState)
        (some (sampleSignal 'a' 20 hour (5 * minute))) (hour + minute) with
          capabilityRevision := ['d'] } =
        .ok ⟨{ sampleState with
          revision := 3
          lifecycle := .superseded
          desiredAction := .observe
          reasonCodes := ["revision_drift".toList]
          updatedAt := hour + minute }, true⟩ := by
  decide +kernel

end Solovey.Graylist
