import Solovey.Graylist.Canonical
import Solovey.Graylist.Evaluate

/-!
# Outcomes of a graylist evaluation

A successful evaluation returns the state it was given, or it concludes a base state: the state it
was given, or that state with a signal taken in. `Outcome` lists how, and `evaluate_cases` says that
there is nothing else.
-/

namespace Solovey.Graylist

open Solovey.Text

/-! ## Checked states -/

/-- What the proofs use of a state that passes its check. -/
structure Checked (state : GraylistState) : Prop where
  revision : state.revision ≠ 0
  signals : canonicalSignalRefs state.signalRefs = state.signalRefs
  evidence : CanonicalEvidence state.evidenceRefs

variable {state : GraylistState}

theorem GraylistState.checked (h : state.validate = .ok ()) : Checked state := by
  unfold GraylistState.validate at h
  split at h
  · cases h
  next hi =>
  split at h
  · cases h
  split at h
  · cases h
  split at h
  · cases h
  next hb =>
  split at h
  · cases h
  next hs =>
  split at h
  · cases h
  next hl =>
  split at h
  · cases h
  next he =>
  simp only [validIdentity, Bool.not_eq_true', Bool.not_eq_false, Bool.and_eq_true,
    bne_iff_ne] at hi
  simp only [validBounds, Bool.not_eq_true', Bool.not_eq_false, Bool.and_eq_true,
    decide_eq_true_eq] at hb
  simp only [Bool.or_eq_true, Bool.not_eq_true', not_or, Bool.not_eq_false] at hs
  exact {
    revision := hi.1.1.1.1.1.1.2
    signals := canonicalSignalRefs_eq_self hs.1.1 hb.1.1.1.2.2.2.2
    evidence := canonicalEvidence_of_valid (by simpa using he) (Nat.le_of_not_lt hl) }

variable {r : EvaluateResult}

theorem validated_ok {c : Bool} (h : validated state c = .ok r) :
    r = ⟨state.canonical, c⟩ ∧ state.canonical.validate = .ok () := by
  cases hv : state.canonical.validate with
  | error rs => simp [validated, hv] at h
  | ok =>
    simp only [validated, hv, Except.ok.injEq] at h
    exact ⟨h.symm, rfl⟩

/-! ## How a base state is concluded -/

inductive Outcome (policy : Policy) (now : Time) (base : GraylistState) : EvaluateResult → Prop
  /-- A state that has ended already stays as it is. -/
  | kept (hended : base.lifecycle = .superseded ∨ base.lifecycle = .expired) :
    Outcome policy now base ⟨base, false⟩
  | ended {state : GraylistState} (hvalid : state.validate = .ok ())
    (hrevision : state.revision = base.revision + 1) (haction : state.desiredAction = .observe) :
    Outcome policy now base ⟨state, true⟩
  | rescored {state : GraylistState} {changed : Bool} (hvalid : state.validate = .ok ())
    (hrevision : state.revision = if changed then base.revision + 1 else base.revision)
    (haction : state.desiredAction = (nextStanding base policy now).2.2)
    (hevidence : state.evidenceRefs = canonicalEvidenceRefs base.evidenceRefs) :
    Outcome policy now base ⟨state, changed⟩

variable {base : GraylistState} {p : Policy} {n : Time}

theorem supersede_outcome {rs : Str} (h : supersede base n rs = .ok r) : Outcome p n base r := by
  simp only [supersede] at h
  split at h
  next hk =>
    cases h
    exact .kept (.inl hk.1)
  · obtain ⟨rfl, hv⟩ := validated_ok h
    exact .ended hv rfl rfl

theorem expire_outcome (h : expire base n = .ok r) : Outcome p n base r := by
  simp only [expire] at h
  split at h
  next hk =>
    cases h
    exact .kept (.inr hk)
  · obtain ⟨rfl, hv⟩ := validated_ok h
    exact .ended hv rfl rfl

theorem rescore_outcome {s : Bool} (h : rescore base p n s = .ok r) : Outcome p n base r := by
  obtain ⟨rfl, hv⟩ := validated_ok h
  exact .rescored hv rfl rfl rfl

variable {input : EvaluateInput}

theorem conclude_outcome (h : conclude input n base = .ok r) :
    Outcome input.currentPolicy n base r := by
  cases hp : input.precedence with
  | some rs =>
    simp only [conclude, hp] at h
    exact supersede_outcome h
  | none =>
    simp only [conclude, hp] at h
    split at h
    · exact expire_outcome h
    · exact rescore_outcome h

/-! ## What an evaluation concludes -/

/-- What holds of the state that an evaluation concludes. -/
structure Base (input : EvaluateInput) (base : GraylistState) : Prop where
  revision : base.revision = (input.existing.map GraylistState.revision).getD 1
  evidence : CanonicalEvidence base.evidenceRefs
  ended : base.lifecycle = .superseded ∨ base.lifecycle = .expired →
    input.existing = some base ∧ base.validate = .ok ()

theorem Base.of_existing (hex : input.existing = some state) (hv : state.validate = .ok ()) :
    Base input state where
  revision := by rw [hex]; rfl
  evidence := state.checked hv |>.evidence
  ended _ := ⟨hex, hv⟩

theorem Base.of_fold {a : AcceptedSignal}
    (hr : state.revision = (input.existing.map GraylistState.revision).getD 1)
    (hs : state.lifecycle ≠ .superseded) (he : state.lifecycle ≠ .expired) :
    Base input (fold state p n a) where
  revision := hr
  evidence := canonicalEvidenceRefs_canonical _
  ended h := by
    rcases h with h | h
    · exact absurd h hs
    · exact absurd h he

theorem entered_revision (state : GraylistState) (p : Policy) (s : Signal) :
    (entered state p s).revision = state.revision := by
  unfold entered
  split <;> rfl

theorem entered_live (p : Policy) (s : Signal) (h : state.lifecycle ≠ .superseded) :
    (entered state p s).lifecycle ≠ .superseded ∧ (entered state p s).lifecycle ≠ .expired := by
  unfold entered
  split
  · exact ⟨by simp [reenter], by simp [reenter]⟩
  next he => exact ⟨h, he⟩

/-- A successful evaluation with a signal finds the signal taken in already, or takes it in. -/
theorem receive_cases {a : AcceptedSignal} (h : receive input n a state = .ok r) :
    state.lifecycle ≠ .superseded ∧
      (state.lifecycle ≠ .expired ∧ a.signal.signalID ∈ state.signalRefs ∧ r = ⟨state, false⟩ ∨
        a.signal.signalID ∉ (entered state input.currentPolicy a.signal).signalRefs ∧
          conclude input n (fold (entered state input.currentPolicy a.signal)
            input.currentPolicy n a) = .ok r) := by
  simp only [receive] at h
  split at h
  · cases h
  split at h
  · cases h
  next hs =>
  refine ⟨hs, ?_⟩
  split at h
  next hr =>
    rw [List.contains_iff_mem] at hr
    cases h
    by_cases he : state.lifecycle = .expired
    · simp [entered, he, reenter] at hr
    · rw [entered, if_neg he] at hr ⊢
      exact .inl ⟨he, hr, rfl⟩
  next hn =>
  split_ifs at h
  · rw [List.contains_iff_mem] at hn
    exact .inr ⟨hn, h⟩

variable {c : Time}

/-- A successful evaluation of a given state finds drift, or goes on under the same revisions. -/
theorem evaluate_existing (h : evaluate c input = .ok r) (hex : input.existing = some state) :
    state.validate = .ok () ∧ (input.drifted state = true ∧
          supersede state (input.time c) "revision_drift".toList = .ok r ∨
        input.drifted state = false ∧
          evaluateCurrent input (input.time c) (some state) = .ok r) := by
  simp only [evaluate, hex] at h
  split at h
  · cases h
  split at h
  · cases h
  cases hv : state.validate with
  | error rs => simp [hv] at h
  | ok =>
    simp only [hv] at h
    cases hd : input.drifted state with
    | true => exact ⟨rfl, .inl ⟨rfl, by rwa [if_pos hd] at h⟩⟩
    | false => exact ⟨rfl, .inr ⟨rfl, by rwa [if_neg (by simp [hd])] at h⟩⟩

/-- Without drift, an evaluation takes a signal in or concludes the state. -/
theorem evaluateCurrent_some (h : evaluateCurrent input n (some state) = .ok r) :
    input.accepted = none ∧ conclude input n state = .ok r ∨
      ∃ accepted, input.accepted = some accepted ∧ receive input n accepted state = .ok r := by
  cases ha : input.accepted with
  | none =>
    simp only [evaluateCurrent, ha] at h
    exact .inl ⟨rfl, h⟩
  | some accepted =>
    simp only [evaluateCurrent, ha, Option.getD_some] at h
    split at h
    · cases h
    · exact .inr ⟨accepted, rfl, h⟩

theorem evaluate_new (hex : input.existing = none) (h : evaluate c input = .ok r) :
    ∃ accepted, receive input (input.time c) accepted (fresh input accepted.signal) = .ok r := by
  simp only [evaluate, hex] at h
  split_ifs at h
  cases ha : input.accepted with
  | none => simp [evaluateCurrent, ha] at h
  | some accepted =>
    simp only [evaluateCurrent, ha, Option.getD_none] at h
    split at h
    · cases h
    · exact ⟨accepted, h⟩

theorem evaluate_cases (h : evaluate c input = .ok r) :
    (∃ state, input.existing = some state ∧ state.validate = .ok () ∧ r = ⟨state, false⟩) ∨
      ∃ base, Base input base ∧ Outcome input.currentPolicy (input.time c) base r := by
  cases hex : input.existing with
  | none =>
    obtain ⟨accepted, hr⟩ := evaluate_new hex h
    obtain ⟨hsu, ⟨-, hrf, -⟩ | ⟨-, hc⟩⟩ := receive_cases hr
    · cases hrf
    · obtain ⟨hs, he⟩ := entered_live input.currentPolicy accepted.signal hsu
      refine .inr ⟨_, .of_fold ?_ hs he, conclude_outcome hc⟩
      rw [entered_revision, hex]
      rfl
  | some state =>
    obtain ⟨hv, ⟨-, hsp⟩ | ⟨-, hcr⟩⟩ := evaluate_existing h hex
    · exact .inr ⟨state, .of_existing hex hv, supersede_outcome hsp⟩
    rcases evaluateCurrent_some hcr with ⟨-, hc⟩ | ⟨accepted, -, hr⟩
    · exact .inr ⟨state, .of_existing hex hv, conclude_outcome hc⟩
    obtain ⟨hsu, ⟨-, -, rfl⟩ | ⟨-, hc⟩⟩ := receive_cases hr
    · exact .inl ⟨state, rfl, hv, rfl⟩
    · obtain ⟨hs, he⟩ := entered_live input.currentPolicy accepted.signal hsu
      refine .inr ⟨_, .of_fold ?_ hs he, conclude_outcome hc⟩
      rw [entered_revision, hex]
      rfl

end Solovey.Graylist
