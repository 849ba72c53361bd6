import Solovey.Graylist.Lifecycle

/-!
# Timers and later evaluations

How much a timer evaluation can change what a later evaluation finds. The later one reads the score,
the band, the lifecycle and the action that the timer has recorded; `SameBasis` is what a timer
leaves alone. The bands are hysteretic, so a band recorded by a timer can show in the band found
later; the score and the action do not depend on it.
-/

namespace Solovey.Graylist

open Solovey.Text

/-- What an evaluation is asked for. -/
def GraylistState.standing (state : GraylistState) : ℤ × Band × Lifecycle × ResponseIntent :=
  (state.score, state.band, state.lifecycle, state.desiredAction)

/-- Two states that an evaluation can tell apart only by their standing. -/
structure SameBasis (s t : GraylistState) : Prop where
  subject : s.subject = t.subject
  resourceID : s.resourceID = t.resourceID
  endpointID : s.endpointID = t.endpointID
  transport : s.transport = t.transport
  confidenceBP : s.confidenceBP = t.confidenceBP
  policyRevision : s.policyRevision = t.policyRevision
  strategyRevision : s.strategyRevision = t.strategyRevision
  capabilityRevision : s.capabilityRevision = t.capabilityRevision
  signalRefs : s.signalRefs = t.signalRefs
  evidenceRefs : s.evidenceRefs = t.evidenceRefs
  enteredAt : s.enteredAt = t.enteredAt
  lastSignalAt : s.lastSignalAt = t.lastSignalAt
  expiresAt : s.expiresAt = t.expiresAt

variable {s t : GraylistState}

theorem SameBasis.drifted (h : SameBasis s t) (input : EvaluateInput) :
    input.drifted s = input.drifted t := by
  simp only [EvaluateInput.drifted, h.policyRevision, h.strategyRevision, h.capabilityRevision]

/-! ## One step -/

theorem SameBasis.refl (state : GraylistState) : SameBasis state state := by
  constructor <;> rfl

variable {state : GraylistState} {r : EvaluateResult}

/-- Canonical order leaves the basis of a checked state alone. -/
theorem validated_basis {u : GraylistState} {c : Bool} (hc : Checked state) (hb : SameBasis u state)
    (h : validated u c = .ok r) :
    SameBasis r.state state := by
  obtain ⟨rfl, -⟩ := validated_ok h
  have hs : u.canonical.signalRefs = state.signalRefs := by
    simp only [GraylistState.canonical, hb.signalRefs, hc.signals]
  have he : u.canonical.evidenceRefs = state.evidenceRefs := by
    simp only [GraylistState.canonical, hb.evidenceRefs, hc.evidence.eq_self]
  exact { hb with signalRefs := hs, evidenceRefs := he }

variable {now : Time} {reason : Str}

theorem supersede_basis (hc : Checked state) (h : supersede state now reason = .ok r) :
    SameBasis r.state state := by
  simp only [supersede] at h
  split at h
  · cases h
    exact .refl state
  · refine validated_basis hc ?_ h
    constructor <;> rfl

variable {input : EvaluateInput}

/-- A timer leaves the basis of a state alone. -/
theorem conclude_basis (hc : Checked state) (h : conclude input now state = .ok r) :
    SameBasis r.state state := by
  cases hp : input.precedence with
  | some reason =>
    simp only [conclude, hp] at h
    exact supersede_basis hc h
  | none =>
    simp only [conclude, hp] at h
    split at h
    · simp only [expire] at h
      split at h
      · cases h
        exact .refl state
      · refine validated_basis hc ?_ h
        constructor <;> rfl
    · refine validated_basis hc ?_ h
      constructor <;> rfl

theorem rescore_standing {p : Policy} {sg : Bool} (h : rescore state p now sg = .ok r) :
    r.state.standing = (decayedScore state.score state.lastSignalAt now p,
      nextStanding state p now) := by
  obtain ⟨rfl, -⟩ := validated_ok h
  rfl

theorem expire_standing (h : expire state now = .ok r) :
    state.lifecycle = .expired ∧ r.state = state ∨
      state.lifecycle ≠ .expired ∧ r.state.standing = (state.score, .cooldown, .expired, .observe) := by
  simp only [expire] at h
  split at h
  next he =>
    cases h
    exact .inl ⟨he, rfl⟩
  next hl =>
    obtain ⟨rfl, -⟩ := validated_ok h
    exact .inr ⟨hl, rfl⟩

theorem supersede_standing (h : supersede state now reason = .ok r) :
    (state.lifecycle = .superseded ∧ state.reasonCodes.contains reason = true) ∧ r.state = state ∨
      ¬(state.lifecycle = .superseded ∧ state.reasonCodes.contains reason = true) ∧
        r.state.standing = (state.score, state.band, .superseded, .observe) := by
  simp only [supersede] at h
  split at h
  next hk =>
    cases h
    exact .inl ⟨hk, rfl⟩
  next hn =>
    obtain ⟨rfl, -⟩ := validated_ok h
    exact .inr ⟨hn, rfl⟩

/-- Superseding a state again, for the same reason, does not show. -/
theorem supersede_again {t₁ t₂ : Time} {r₁ r₂ : EvaluateResult}
    (h₁ : supersede state t₁ reason = .ok r₁) (h₂ : supersede r₁.state t₂ reason = .ok r₂)
    (h : supersede state t₂ reason = .ok r) :
    r₂.state.standing = r.state.standing := by
  rcases supersede_standing h₁ with ⟨hk, hsm⟩ | ⟨hn, hs⟩
  · rw [hsm, h] at h₂
    cases h₂
    rfl
  · have hr : r.state.standing = (state.score, state.band, .superseded, .observe) := by
      rcases supersede_standing h with ⟨hk, -⟩ | ⟨-, hr⟩
      · exact absurd hk hn
      · exact hr
    simp only [GraylistState.standing, Prod.mk.injEq] at hs
    rw [hr]
    rcases supersede_standing h₂ with ⟨-, hsm⟩ | ⟨-, hr₂⟩
    · rw [hsm]
      simp only [GraylistState.standing, hs]
    · rw [hr₂, hs.1, hs.2.1]

/-- An expired state that is looked at again does not show it. -/
theorem expire_again {t₁ t₂ : Time} {r₁ r₂ : EvaluateResult} (h₁ : expire state t₁ = .ok r₁)
    (h₂ : expire r₁.state t₂ = .ok r₂) (h : expire state t₂ = .ok r) :
    r₂.state.standing = r.state.standing := by
  rcases expire_standing h₁ with ⟨he, hsm⟩ | ⟨hl, hs⟩
  · rw [hsm, h] at h₂
    cases h₂
    rfl
  · have hr₁ : r₁.state.lifecycle = .expired := by
      have := congrArg (fun standing => standing.2.2.1) hs
      exact this
    rcases expire_standing h with ⟨he, -⟩ | ⟨-, hr⟩
    · exact absurd he hl
    rcases expire_standing h₂ with ⟨-, hsm⟩ | ⟨hl₁, -⟩
    · rw [hsm, hs, hr]
    · exact absurd hr₁ hl₁

/-! ## Two states with the same basis -/

theorem nextStanding_action_eq (hb : SameBasis s t) (hs : s.score = t.score) (p : Policy)
    (now : Time) :
    (nextStanding s p now).2.2 = (nextStanding t p now).2.2 := by
  simp only [nextStanding, hb.evidenceRefs, hb.lastSignalAt, hb.confidenceBP, hs]
  split
  · rfl
  split
  · rfl
  split
  · rfl
  split <;> split <;> rfl

theorem nextStanding_eq (hb : SameBasis s t) (hs : s.score = t.score) (hbn : s.band = t.band)
    (hl : s.lifecycle = t.lifecycle) (p : Policy) (now : Time) :
    nextStanding s p now = nextStanding t p now := by
  simp only [nextStanding, hb.evidenceRefs, hb.lastSignalAt, hb.confidenceBP, hs, hbn, hl]

variable {r' : EvaluateResult}

/-- Concluding two states of one basis and one score gives one score and one action, and with one
standing one standing. -/
theorem conclude_agree (hb : SameBasis s t) (hsc : s.score = t.score) (hp : input.precedence = none)
    (hs : conclude input now s = .ok r) (ht : conclude input now t = .ok r') :
    (s.lifecycle ≠ .expired → t.lifecycle ≠ .expired →
      r.state.score = r'.state.score ∧ r.state.desiredAction = r'.state.desiredAction) ∧
    (s.standing = t.standing → r.state.standing = r'.state.standing) := by
  simp only [conclude, hp, hb.expiresAt] at hs ht
  by_cases he : t.expiresAt ≤ now
  · rw [if_pos he] at hs ht
    rcases expire_standing hs with ⟨hsx, hsr⟩ | ⟨hsl, hsr⟩ <;>
      rcases expire_standing ht with ⟨htx, htr⟩ | ⟨htl, htr⟩
    · exact ⟨fun hne => absurd hsx hne, fun heq => by rw [hsr, htr, heq]⟩
    · refine ⟨fun hne => absurd hsx hne, fun heq => ?_⟩
      have := congrArg (fun standing => standing.2.2.1) heq
      exact absurd (this.symm.trans hsx) htl
    · refine ⟨fun _ hne => absurd htx hne, fun heq => ?_⟩
      have := congrArg (fun standing => standing.2.2.1) heq
      exact absurd (this.trans htx) hsl
    · have hsm : r.state.standing = r'.state.standing := by rw [hsr, htr, hsc]
      refine ⟨fun _ _ => ?_, fun _ => hsm⟩
      simp only [GraylistState.standing, Prod.mk.injEq] at hsm
      exact ⟨hsm.1, hsm.2.2.2⟩
  · rw [if_neg he] at hs ht
    have hsr := rescore_standing hs
    have htr := rescore_standing ht
    rw [hsc, hb.lastSignalAt] at hsr
    constructor
    · intro _ _
      have ha := nextStanding_action_eq hb hsc input.currentPolicy now
      simp only [GraylistState.standing, Prod.ext_iff] at hsr htr
      exact ⟨hsr.1.trans htr.1.symm, by rw [hsr.2.2.2, htr.2.2.2, ha]⟩
    · intro heq
      simp only [GraylistState.standing, Prod.mk.injEq] at heq
      rw [hsr, htr, nextStanding_eq hb hsc heq.2.1 heq.2.2.1]

theorem SameBasis.fold (h : SameBasis s t) (hs : s.score = t.score) (p : Policy) (now : Time)
    (accepted : AcceptedSignal) :
    SameBasis (Graylist.fold s p now accepted) (Graylist.fold t p now accepted) ∧
      (Graylist.fold s p now accepted).score = (Graylist.fold t p now accepted).score := by
  refine ⟨?_, by simp only [Graylist.fold, hs, h.lastSignalAt]⟩
  constructor
  case confidenceBP => simp only [Graylist.fold, h.confidenceBP]
  case signalRefs => simp only [Graylist.fold, h.signalRefs]
  case evidenceRefs => simp only [Graylist.fold, h.evidenceRefs]
  case expiresAt => simp only [Graylist.fold, h.enteredAt]
  case lastSignalAt => rfl
  case subject => exact h.subject
  case resourceID => exact h.resourceID
  case endpointID => exact h.endpointID
  case transport => exact h.transport
  case policyRevision => exact h.policyRevision
  case strategyRevision => exact h.strategyRevision
  case capabilityRevision => exact h.capabilityRevision
  case enteredAt => exact h.enteredAt

theorem SameBasis.reenter (h : SameBasis s t) (p : Policy) (sg : Signal) :
    SameBasis (Graylist.reenter s p sg) (Graylist.reenter t p sg) where
  subject := h.subject
  resourceID := h.resourceID
  endpointID := h.endpointID
  transport := h.transport
  confidenceBP := rfl
  policyRevision := h.policyRevision
  strategyRevision := h.strategyRevision
  capabilityRevision := h.capabilityRevision
  signalRefs := rfl
  evidenceRefs := rfl
  enteredAt := rfl
  lastSignalAt := h.lastSignalAt
  expiresAt := rfl

/-- Taking a signal into two states of one basis and one score, neither of which has expired. -/
theorem receive_agree {accepted : AcceptedSignal} (hb : SameBasis s t) (hsc : s.score = t.score)
    (hp : input.precedence = none) (hsx : s.lifecycle ≠ .expired) (htx : t.lifecycle ≠ .expired)
    (hs : receive input now accepted s = .ok r) (ht : receive input now accepted t = .ok r') :
    (accepted.signal.signalID ∉ t.signalRefs →
      r.state.score = r'.state.score ∧ r.state.desiredAction = r'.state.desiredAction) ∧
    (s.standing = t.standing → r.state.standing = r'.state.standing) := by
  obtain ⟨-, ⟨-, hm, rfl⟩ | ⟨hn, hcs⟩⟩ := receive_cases hs <;>
    obtain ⟨-, ⟨-, hm', rfl⟩ | ⟨hn', hct⟩⟩ := receive_cases ht
  · exact ⟨fun h => absurd hm' h, fun heq => heq⟩
  · rw [entered, if_neg htx, ← hb.signalRefs] at hn'
    exact absurd hm hn'
  · rw [entered, if_neg hsx, hb.signalRefs] at hn
    exact absurd hm' hn
  · rw [entered, if_neg hsx] at hcs
    rw [entered, if_neg htx] at hct
    obtain ⟨hf, hfl⟩ := hb.fold hsc input.currentPolicy now accepted
    obtain ⟨hsr, hst⟩ := conclude_agree hf hfl hp hcs hct
    refine ⟨fun _ => hsr hsx htx, fun heq => hst ?_⟩
    simp only [GraylistState.standing, Prod.mk.injEq] at heq ⊢
    exact ⟨hfl, heq.2⟩

/-- Taking a signal into two expired states of one basis. -/
theorem receive_expired {accepted : AcceptedSignal} (hb : SameBasis s t)
    (ha : s.desiredAction = t.desiredAction) (hp : input.precedence = none)
    (hsx : s.lifecycle = .expired) (htx : t.lifecycle = .expired)
    (hs : receive input now accepted s = .ok r) (ht : receive input now accepted t = .ok r') :
    r.state.standing = r'.state.standing := by
  obtain ⟨-, ⟨hl, -, -⟩ | ⟨-, hcs⟩⟩ := receive_cases hs
  · exact absurd hsx hl
  obtain ⟨-, ⟨hl, -, -⟩ | ⟨-, hct⟩⟩ := receive_cases ht
  · exact absurd htx hl
  rw [entered, if_pos hsx] at hcs
  rw [entered, if_pos htx] at hct
  obtain ⟨hf, hfl⟩ := (hb.reenter input.currentPolicy accepted.signal).fold rfl
    input.currentPolicy now accepted
  refine (conclude_agree hf hfl hp hcs hct).2 ?_
  simp only [GraylistState.standing, Prod.mk.injEq]
  exact ⟨hfl, rfl, rfl, ha⟩

/-! ## A timer and a later evaluation -/

section

variable {c₁ c₂ t₁ t₂ : Time} {input : EvaluateInput} {state : GraylistState}
  {r₁ r₂ r : EvaluateResult}

/-- The time of an evaluation that is asked for at `now`. -/
abbrev EvaluateInput.timeAt (input : EvaluateInput) (now clock : Time) : Time :=
  EvaluateInput.time { input with now := now } clock

section

variable (hex : input.existing = some state)
  (h₁ : evaluate c₁ { input with accepted := none, now := t₁ } = .ok r₁)
  (h₂ : evaluate c₂ { input with existing := some r₁.state, now := t₂ } = .ok r₂)
  (h : evaluate c₂ { input with now := t₂ } = .ok r)
include hex h₁ h₂ h

/-- Without drift, the timer concludes the state, and the two later evaluations go on under the same
revisions. -/
theorem undrifted_evaluations (hd : input.drifted state = false) :
    conclude { input with accepted := none } (input.timeAt t₁ c₁) state = .ok r₁ ∧
      SameBasis r₁.state state ∧
      evaluateCurrent input (input.timeAt t₂ c₂) (some r₁.state) = .ok r₂ ∧
      evaluateCurrent input (input.timeAt t₂ c₂) (some state) = .ok r := by
  obtain ⟨hv, ⟨hno, -⟩ | ⟨-, hf⟩⟩ := evaluate_existing h₁ hex
  · exact absurd (hd.symm.trans hno) (by decide)
  rcases evaluateCurrent_some hf with ⟨-, hf⟩ | ⟨accepted, hn, -⟩
  swap
  · cases hn
  have hb := conclude_basis (GraylistState.checked hv) hf
  obtain ⟨-, ⟨hno, -⟩ | ⟨-, ht⟩⟩ := evaluate_existing h₂ rfl
  · exact absurd (((hb.drifted input).trans hd).symm.trans hno) (by decide)
  obtain ⟨-, ⟨hno, -⟩ | ⟨-, hs⟩⟩ := evaluate_existing h hex
  · exact absurd (hd.symm.trans hno) (by decide)
  exact ⟨hf, hb, ht, hs⟩

/-- A timer that finds drift or a policy of higher precedence does not show later. -/
theorem superseding_timer (he : input.drifted state = true ∨ input.precedence.isSome = true) :
    r₂.state.standing = r.state.standing := by
  cases hd : input.drifted state with
  | true =>
    obtain ⟨hv, ⟨-, hf⟩ | ⟨hno, -⟩⟩ := evaluate_existing h₁ hex
    swap
    · exact absurd (hno.symm.trans hd) (by decide)
    have hd₁ := (supersede_basis (GraylistState.checked hv) hf).drifted input
    obtain ⟨-, ⟨-, ht⟩ | ⟨hno, -⟩⟩ := evaluate_existing h₂ rfl
    swap
    · exact absurd (hno.symm.trans (hd₁.trans hd)) (by decide)
    obtain ⟨-, ⟨-, hsn⟩ | ⟨hno, -⟩⟩ := evaluate_existing h hex
    swap
    · exact absurd (hno.symm.trans hd) (by decide)
    exact supersede_again hf ht hsn
  | false =>
    rw [hd] at he
    obtain ⟨reason, hr⟩ := Option.isSome_iff_exists.mp (he.resolve_left (by decide))
    obtain ⟨hf, -, ht, hsn⟩ := undrifted_evaluations hex h₁ h₂ h hd
    have hsp : supersede state (input.timeAt t₁ c₁) reason = .ok r₁ := by
      have hsm : EvaluateInput.precedence { input with accepted := none } = some reason := hr
      simpa only [conclude, hsm] using hf
    rcases evaluateCurrent_some ht with ⟨hn, ht⟩ | ⟨accepted, -, hrc⟩
    · rcases evaluateCurrent_some hsn with ⟨-, hsn⟩ | ⟨accepted, hs, -⟩
      · simp only [conclude, hr] at ht hsn
        exact supersede_again hsp ht hsn
      · rw [hn] at hs
        cases hs
    · exact absurd (supersede_superseded hsp).1 (receive_cases hrc).1

end

variable {now : Time}

/-- Two states of one basis and one standing are evaluated alike. -/
theorem evaluateCurrent_standing {s : GraylistState} (hp : input.precedence = none)
    (hb : SameBasis s state) (hst : s.standing = state.standing)
    (hs : evaluateCurrent input now (some s) = .ok r₂)
    (h : evaluateCurrent input now (some state) = .ok r) :
    r₂.state.standing = r.state.standing := by
  have heq := hst
  simp only [GraylistState.standing, Prod.mk.injEq] at heq
  rcases evaluateCurrent_some hs with ⟨hn, hs⟩ | ⟨accepted, hsm, hs⟩ <;>
    rcases evaluateCurrent_some h with ⟨hn', h⟩ | ⟨accepted', hs', h⟩
  · exact (conclude_agree hb heq.1 hp hs h).2 hst
  · rw [hn] at hs'
    cases hs'
  · rw [hn'] at hsm
    cases hsm
  · rw [hsm] at hs'
    cases hs'
    by_cases he : state.lifecycle = .expired
    · exact receive_expired hb heq.2.2.2 hp (heq.2.2.1.trans he) he hs h
    · have hsx : s.lifecycle ≠ .expired := fun hx => he (heq.2.2.1.symm.trans hx)
      exact (receive_agree hb heq.1 hp hsx he hs h).2 hst

/-- Two live states of one basis and one score get one score and one action. -/
theorem evaluateCurrent_action {s : GraylistState} (hp : input.precedence = none)
    (hb : SameBasis s state) (hsc : s.score = state.score) (hsx : s.lifecycle ≠ .expired)
    (he : state.lifecycle ≠ .expired)
    (hnw : ∀ accepted ∈ input.accepted, accepted.signal.signalID ∉ state.signalRefs)
    (hs : evaluateCurrent input now (some s) = .ok r₂)
    (h : evaluateCurrent input now (some state) = .ok r) :
    r₂.state.score = r.state.score ∧ r₂.state.desiredAction = r.state.desiredAction := by
  rcases evaluateCurrent_some hs with ⟨hn, hs⟩ | ⟨accepted, hsm, hs⟩ <;>
    rcases evaluateCurrent_some h with ⟨hn', h⟩ | ⟨accepted', hs', h⟩
  · exact (conclude_agree hb hsc hp hs h).1 hsx he
  · rw [hn] at hs'
    cases hs'
  · rw [hn'] at hsm
    cases hsm
  · rw [hsm] at hs'
    cases hs'
    exact (receive_agree hb hsc hp hsx he hs h).1 (hnw accepted hsm)

theorem nextStanding_live {p : Policy} (h : state.lifecycle ≠ .expired) :
    (nextStanding state p now).2.1 ≠ .expired := by
  simp only [nextStanding]
  split
  · decide
  split
  · decide
  split
  · decide
  split
  · decide
  · exact h

/-- Evaluating at `t₁` without a signal and then at `t₂`, against evaluating once at `t₂`. If the
timer leaves the standing as it is, it does not show later; nor does it if the state is superseded,
or without a signal has expired by `t₁`. If it leaves the score of a live state as it is, the score
and the action are those of the single evaluation. -/
theorem timer_then_evaluate (hexisting : input.existing = some state)
    (h₁ : evaluate c₁ { input with accepted := none, now := t₁ } = .ok r₁)
    (h₂ : evaluate c₂ { input with existing := some r₁.state, now := t₂ } = .ok r₂)
    (h : evaluate c₂ { input with now := t₂ } = .ok r)
    (htime : input.timeAt t₁ c₁ ≤ input.timeAt t₂ c₂) :
    (r₁.state.standing = state.standing ∨ input.drifted state = true ∨
        input.precedence.isSome = true ∨
        input.accepted = none ∧ state.expiresAt ≤ input.timeAt t₁ c₁ →
      r₂.state.standing = r.state.standing) ∧
    (decayedScore state.score state.lastSignalAt (input.timeAt t₁ c₁) input.currentPolicy =
        state.score → state.lifecycle ≠ .expired → input.timeAt t₁ c₁ < state.expiresAt →
      (∀ accepted ∈ input.accepted, accepted.signal.signalID ∉ state.signalRefs) →
      r₂.state.score = r.state.score ∧ r₂.state.desiredAction = r.state.desiredAction) := by
  by_cases hen : input.drifted state = true ∨ input.precedence.isSome = true
  · have hsm := superseding_timer hexisting h₁ h₂ h hen
    refine ⟨fun _ => hsm, fun _ _ _ _ => ?_⟩
    simp only [GraylistState.standing, Prod.mk.injEq] at hsm
    exact ⟨hsm.1, hsm.2.2.2⟩
  rw [not_or, Bool.not_eq_true, Bool.not_eq_true, Option.isSome_eq_false_iff,
    Option.isNone_iff_eq_none] at hen
  obtain ⟨hd, hp⟩ := hen
  obtain ⟨hf, hb, ht, hsn⟩ := undrifted_evaluations hexisting h₁ h₂ h hd
  have hsa : EvaluateInput.precedence { input with accepted := none } = none := hp
  simp only [conclude, hsa] at hf
  constructor
  · intro hq
    by_cases hs : r₁.state.standing = state.standing
    · exact evaluateCurrent_standing hp hb hs ht hsn
    · have hr := hq.resolve_left hs
      simp only [hd, hp, Option.isSome_none, Bool.false_eq_true, false_or] at hr
      obtain ⟨hn, hex⟩ := hr
      have he₂ := hex.trans htime
      rw [if_pos hex] at hf
      rcases evaluateCurrent_some ht with ⟨-, ht⟩ | ⟨accepted, hso, -⟩
      swap
      · rw [hn] at hso
        cases hso
      rcases evaluateCurrent_some hsn with ⟨-, hsn⟩ | ⟨accepted, hso, -⟩
      swap
      · rw [hn] at hso
        cases hso
      simp only [conclude, hp, hb.expiresAt, if_pos he₂] at ht hsn
      exact expire_again hf ht hsn
  · intro hu hl he hnw
    rw [if_neg (not_le.mpr he)] at hf
    have hs := rescore_standing hf
    simp only [GraylistState.standing, Prod.ext_iff] at hs
    refine evaluateCurrent_action hp hb (hs.1.trans hu) ?_ hl hnw ht hsn
    rw [hs.2.2.1]
    exact nextStanding_live hl

end

/-- A timer in the first minute leaves the standing of the sample as it is, and the evaluation a
quarter of an hour later finds what it would have found without the timer. -/
theorem timer_then_evaluate_sample :
    ∃ first later single : EvaluateResult,
      evaluate 0 (sampleInput (some sampleState) none (hour + minute)) = .ok first ∧
      evaluate 0 (sampleInput (some first.state) none (hour + 15 * minute)) = .ok later ∧
      evaluate 0 (sampleInput (some sampleState) none (hour + 15 * minute)) = .ok single ∧
      later.state.standing = single.state.standing := by
  have hf : evaluate 0 (sampleInput (some sampleState) none (hour + minute)) =
      .ok ⟨sampleState, false⟩ := by decide +kernel
  have hl : evaluate 0 (sampleInput (some sampleState) none (hour + 15 * minute)) =
      .ok ⟨{ sampleState with
        revision := 3
        score := 19
        band := .observe
        desiredAction := .observe
        updatedAt := hour + 15 * minute }, true⟩ := by decide +kernel
  refine ⟨_, _, _, hf, hl, hl, ?_⟩
  exact (@timer_then_evaluate 0 0 (hour + minute) (hour + 15 * minute)
    (sampleInput (some sampleState) none 0) sampleState _ _ _ rfl hf hl hl
    (by decide +kernel)).1 (.inl rfl)

/-- The sample after a timer that finds its strong evidence expired. -/
def sampleClosed : GraylistState :=
  { sampleState with
    revision := 3
    band := .observe
    desiredAction := .observe
    updatedAt := hour + 6 * minute }

/-- The timer closes the band of the sample before the score has decayed. A signal that comes later
finds the band of the timer, or without the timer the band of the first signal. -/
theorem timer_shows_in_band :
    evaluate 0 (sampleInput (some sampleState) none (hour + 6 * minute)) =
        .ok ⟨sampleClosed, true⟩ ∧
      (evaluate 0 (sampleInput (some sampleClosed)
          (some (sampleSignal 'b' 2 (hour + 55 * minute) hour)) (hour + 55 * minute))).map
        (·.state.standing) = .ok (17, .observe, .active, .observe) ∧
      (evaluate 0 (sampleInput (some sampleState)
          (some (sampleSignal 'b' 2 (hour + 55 * minute) hour)) (hour + 55 * minute))).map
        (·.state.standing) = .ok (17, .graylist, .active, .observe) := by
  decide +kernel

end Solovey.Graylist
