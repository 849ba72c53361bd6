import Solovey.Accounts.SecondFactor

/-!
# Renewing the recovery codes

New recovery codes come in two calls, a rotation and its acknowledgement within ten minutes. The
rotation wants a factor in the state `active`; a rotation or an enrolment that nobody finishes leaves
the factor in another active state, and time alone does not lead out of it.
-/

namespace Solovey.Accounts

open Solovey.Text Solovey.Data List Function

/-! ## Calls that keep the secret -/

/-- The time that a call reads. -/
def Action.time? : Action → Option ℤ
  | .beginEnrollment _ _ _ now | .confirmEnrollment _ _ _ now | .acknowledgeRecoveryCodes _ now
  | .verifyCode _ _ _ now | .consumeRecoveryCode _ _ now | .rotateRecoveryCodes _ _ now => some now
  | _ => none

/-- The acknowledgement of codes that came with a pending secret makes that secret the active one. -/
def replacesSecret (userID : ℕ) (s : State) : Action → Bool
  | .acknowledgeRecoveryCodes id _ =>
    id = userID && (s.db.factors id).any (·.state ≠ .activeRecoveryAck)
  | _ => false

/-- From the time `now` on, without another secret for the user and without an end of the factor. -/
def keepsSecret (userID : ℕ) (now : ℤ) (s : State) (a : Action) : Bool :=
  !removes userID a && !replacesSecret userID s a && a.time?.all (now ≤ ·)

/-- Calls from the time `now` on that keep the secret lead to an active factor whose acknowledged
codes are all new and unused. -/
def Renewable (crypto : Crypto) (s : State) (userID : ℕ) (now : ℤ) : Prop :=
  ∃ t factor verifiers,
    ((accounts crypto).guarded fun s a => keepsSecret userID now s a).Later s t ∧
    t.db.factors userID = some factor ∧ factor.state = .active ∧
    factor.recoveryAcknowledged = true ∧ freshCodes s userID verifiers = true ∧
    t.db.codes userID = verifiers.map fun v => ⟨factor.recoveryGeneration, v, 0⟩

/-- The codes of the user wait for an acknowledgement that keeps the secret. -/
def Factor.Offers (factor : Factor) (now : ℤ) : Prop :=
  factor.state = .activeRecoveryAck ∧ 0 < factor.pendingRecoveryGeneration ∧
    now < factor.pendingExpiresAt

/-- A rotation that has read the generation of the factor can still be acknowledged. -/
def State.Rotates (s : State) (userID : ℕ) (factor : Factor) (now : ℤ) : Prop :=
  ∃ call read began, s.calls call = some (.rotating userID read began) ∧
    read.recoveryGeneration = factor.recoveryGeneration ∧ now < began + mfaPendingTTL

/-! ## The way to new codes -/

variable {crypto : Crypto} {s t : State} {userID call g : ℕ} {now : ℤ} {a : Action}
  {factor : Factor} {vs : List Str}

theorem exists_freshCodes (s : State) (userID : ℕ) : ∃ vs, freshCodes s userID vs = true := by
  let long := (s.verifiers.map fun v => v.2.length).sum + 1
  refine ⟨(List.range 10).map fun n => List.replicate (long + n) 'a', ?_⟩
  simp only [freshCodes, Bool.and_eq_true, decide_eq_true_eq, all_eq_true, Bool.not_eq_true',
    contains_eq_mem, decide_eq_false_iff_not]
  refine ⟨⟨by simp [recoveryCodeCount], nodup_range.map fun m n h => ?_⟩, fun v hv hk => ?_⟩
  · have hl := congrArg List.length h
    simp only [length_replicate] at hl
    omega
  · obtain ⟨n, -, rfl⟩ := mem_map.mp hv
    have hl := single_le_sum (by simp) _ (mem_map_of_mem (f := fun v => v.2.length) hk)
    simp only [length_replicate] at hl
    omega

/-- The codes that a transaction has issued are those that the acknowledgement keeps. -/
theorem deleteWhere_issueCodes (cs : List RecoveryCode) :
    deleteWhere (·.generation ≠ g) (issueCodes cs g vs) = vs.map fun v => ⟨g, v, 0⟩ := by
  rw [issueCodes, deleteWhere, filter_append, filter_eq_nil_iff.mpr, nil_append, filter_eq_self.mpr]
  · intro c hc
    obtain ⟨v, -, rfl⟩ := mem_map.mp hc
    simp
  · intro c hc
    simpa using (mem_deleteWhere.mp hc).2

theorem Renewable.of_later (h : Renewable crypto t userID now) (hv : t.verifiers = s.verifiers)
    (hl : ((accounts crypto).guarded fun s a => keepsSecret userID now s a).Later s t) :
    Renewable crypto s userID now := by
  obtain ⟨u, f, vs, hu, hf, ha, hk, hn, hc⟩ := h
  refine ⟨u, f, vs, hl.trans hu, hf, ha, hk, ?_, hc⟩
  rwa [freshCodes, hv] at hn

/-- The acknowledgement of rotated codes, in time. -/
theorem acknowledge_offers (crypto : Crypto) (hf : s.db.factors userID = some factor)
    (h : factor.Offers now) :
    ∃ t, (accounts crypto |>.guarded fun s a => keepsSecret userID now s a).Later s t ∧
      t.calls = s.calls ∧ t.verifiers = s.verifiers ∧
      t.db.factors userID = some factor.acknowledge ∧ t.db.codes userID =
        deleteWhere (·.generation ≠ factor.pendingRecoveryGeneration) (s.db.codes userID) := by
  obtain ⟨ha, hp, ht⟩ := h
  have hk : keepsSecret userID now s (.acknowledgeRecoveryCodes userID now) = true := by
    simp [keepsSecret, removes, replacesSecret, hf, ha, Action.time?]
  obtain ⟨t, hr⟩ : ∃ t, step crypto s (.acknowledgeRecoveryCodes userID now) = some t := by
    refine ⟨_, Option.bind_eq_some_iff.mpr ⟨factor, hf, if_neg ?_⟩⟩
    simpa [ha, MFAState.isAcknowledgment, hp.ne'] using ht
  have he : Effect crypto s _ t := acknowledgeRecoveryCodes_spec hr
  cases he with
  | acknowledgeRecoveryCodes hf' =>
    rw [hf] at hf'
    cases hf'
    exact ⟨_, .tail .refl ⟨hk, hr⟩, rfl, rfl, update_self .., update_self ..⟩

theorem acknowledge_state : factor.acknowledge.state = .active := by
  unfold Factor.acknowledge
  split <;> rfl

theorem renewable_of_rotates (hf : s.db.factors userID = some factor)
    (h : s.Rotates userID factor now) :
    Renewable crypto s userID now := by
  obtain ⟨call, r, b, hc, hg, ht⟩ := h
  obtain ⟨vs, hv⟩ := exists_freshCodes s userID
  let u := ((s.issue userID (r.recoveryGeneration + 1) vs).setFactor userID
    (some (factor.rotate (r.recoveryGeneration + 1) b))).setCall call .done
  have hu : step crypto s (.storeRotation call vs) = some u := by
    simp [step, storeRotation, hc, hf, hg, hv, u]
  have hr : u.db.factors userID = some (factor.rotate (r.recoveryGeneration + 1) b) :=
    update_self ..
  have hi : u.db.codes userID =
      issueCodes (s.db.codes userID) (r.recoveryGeneration + 1) vs := update_self ..
  obtain ⟨t, hl, -, -, hft, hct⟩ := acknowledge_offers crypto hr ⟨rfl, Nat.succ_pos _, ht⟩
  refine ⟨t, _, vs, .trans (.tail .refl ⟨rfl, hu⟩) hl, hft, acknowledge_state, rfl, hv, ?_⟩
  rw [hct, hi]
  exact deleteWhere_issueCodes _

theorem renewable_of_active (hc : s.calls call = none) (hf : s.db.factors userID = some factor)
    (ha : factor.state = .active) : Renewable crypto s userID now := by
  have hr : step crypto s (.rotateRecoveryCodes call userID now) =
      some (s.setCall call (.rotating userID factor now)) := by
    simp [step, rotateRecoveryCodes, hc, hf, ha]
  refine (renewable_of_rotates (s := s.setCall call (.rotating userID factor now)) hf
    ⟨call, factor, now, update_self .., rfl, by simp [mfaPendingTTL]⟩).of_later rfl
    (System.Later.refl.tail (a := .rotateRecoveryCodes call userID now) ⟨?_, hr⟩)
  simp [keepsSecret, removes, replacesSecret, Action.time?]

theorem renewable_of_offers (hc : s.calls call = none) (hf : s.db.factors userID = some factor)
    (h : factor.Offers now) : Renewable crypto s userID now := by
  obtain ⟨t, hl, hct, hv, hft, -⟩ := acknowledge_offers crypto hf h
  have hc' : t.calls call = none := hct ▸ hc
  exact (renewable_of_active hc' hft acknowledge_state).of_later hv hl

/-! ## No way to new codes -/

/-- The factor waits for something else than a rotation, or for codes that have expired. -/
def Factor.Waits (factor : Factor) (now : ℤ) (g : ℕ) : Prop :=
  factor.state ≠ .active ∧ ¬ factor.Offers now ∧ factor.recoveryGeneration = g

structure Stuck (userID : ℕ) (now : ℤ) (g : ℕ) (s : State) : Prop where
  factor : ∃ f, s.db.factors userID = some f ∧ f.Waits now g
  calls : ∀ call read began, s.calls call = some (.rotating userID read began) →
    read.recoveryGeneration = g → began + mfaPendingTTL ≤ now

theorem Stuck.setCall {c : Call} (h : Stuck userID now g s)
    (hc : ∀ r b, c = .rotating userID r b → r.recoveryGeneration = g → b + mfaPendingTTL ≤ now) :
    Stuck userID now g (s.setCall call c) := by
  refine ⟨h.factor, fun call' r b hr => ?_⟩
  rcases update_eq_some hr with ⟨_, hn⟩ | ⟨_, ho⟩
  · exact hc r b (Option.some.inj hn)
  · exact h.calls call' r b ho

/-- A transaction writes one factor, and ends a call or is not part of one. -/
theorem Stuck.update {id : ℕ} {next : Option Factor} (h : Stuck userID now g s)
    (hf : t.db.factors = update s.db.factors id next)
    (hc : t.calls = s.calls ∨ ∃ call, t.calls = update s.calls call (some .done))
    (hn : id = userID → ∃ f, next = some f ∧ f.Waits now g) : Stuck userID now g t := by
  refine ⟨?_, fun call' r b hr => ?_⟩
  · by_cases hid : userID = id
    · obtain ⟨f, rfl, hw⟩ := hn hid.symm
      exact ⟨f, by rw [hf, hid, update_self], hw⟩
    · rw [hf, update_of_ne hid]
      exact h.factor
  · rcases hc with hc | ⟨call, hc⟩ <;> rw [hc] at hr
    · exact h.calls call' r b hr
    · rcases update_eq_some hr with ⟨_, hd⟩ | ⟨_, ho⟩
      · cases hd
      · exact h.calls call' r b ho

theorem Stuck.waits {f : Factor} (h : Stuck userID now g s) (hf : s.db.factors userID = some f) :
    f.Waits now g := by
  obtain ⟨f', hf', hw⟩ := h.factor
  rw [hf] at hf'
  exact Option.some.inj hf' ▸ hw

theorem stuck_step (h : Stuck userID now g s) (hk : keepsSecret userID now s a = true)
    (hs : step crypto s a = some t) : Stuck userID now g t := by
  simp only [keepsSecret, Bool.and_eq_true, Bool.not_eq_true'] at hk
  obtain ⟨⟨hrm, hrp⟩, htm⟩ := hk
  cases step_effect hs with
  | finishLogin | confirmEnrollment => exact h.setCall nofun
  | completeRecoveryTransition | disable =>
    exact h.update rfl (.inl rfl) fun he => absurd he (of_decide_eq_false hrm)
  | @storeEnrollment call =>
    refine h.update rfl (.inr ⟨call, rfl⟩) fun he => ⟨_, rfl, ?_⟩
    obtain ⟨f, hf, hw⟩ := h.factor
    rw [he, hf, Option.getD_some]
    refine ⟨?_, fun ho => ?_, hw.2.2⟩
    · simp only [Factor.enroll, enrollmentState]
      split <;> decide
    · exact absurd ho.2.1 (lt_irrefl 0)
  | @storeConfirmation call _ _ _ _ _ _ _ _ hrw =>
    refine h.update rfl (.inr ⟨call, rfl⟩) fun he => ⟨_, rfl, ?_⟩
    subst he
    refine ⟨?_, fun ho => ?_, (h.waits hrw).2.2⟩
    · simp only [Factor.confirm]
      split <;> decide
    · have hst := ho.1
      simp only [Factor.confirm] at hst
      split at hst <;> cases hst
  | @acknowledgeRecoveryCodes id b f hf _ hp =>
    have hne : id ≠ userID := by
      -- the codes of the user have expired, and others come with another secret
      rintro rfl
      have hst : f.state = .activeRecoveryAck := by simpa [replacesSecret, hf] using hrp
      have hb : now ≤ b := of_decide_eq_true htm
      refine (h.waits hf).2.1 ⟨hst, hp, ?_⟩
      rw [step, acknowledgeRecoveryCodes, hf, Option.bind_some] at hs
      split at hs
      · cases hs
      next hx =>
        simp only [Bool.or_eq_true, decide_eq_true_eq, not_or, not_le] at hx
        omega
    exact h.update rfl (.inl rfl) fun he => absurd he hne
  | @storeCounter call _ _ _ _ _ _ hrw =>
    refine h.update rfl (.inr ⟨call, rfl⟩) fun he => ⟨_, rfl, ?_⟩
    subst he
    have hw := h.waits hrw
    exact ⟨hw.1, hw.2.1, hw.2.2⟩
  | consumeRecoveryCode => exact ⟨h.factor, h.calls⟩
  | rotateRecoveryCodes hf ha =>
    refine h.setCall fun r c he => ?_
    cases he
    exact absurd ha (h.waits hf).1
  | @storeRotation call _ _ f b _ hc hrw hg =>
    refine h.update rfl (.inr ⟨call, rfl⟩) fun he => ⟨_, rfl, ?_⟩
    subst he
    have hw := (h.waits hrw).2.2
    refine ⟨by simp [Factor.rotate], fun ho => ?_, hw⟩
    exact absurd ho.2.2 (not_lt.mpr (h.calls call f b hc (hg.symm.trans hw)))
  | _ =>
    refine (step_passive hs rfl).preserves h (fun _ h => ⟨h.factor, h.calls⟩) fun h hc => ?_
    exact h.setCall fun r b he => by rw [he] at hc; exact hc.elim

theorem Stuck.not_renewable (h : Stuck userID now g s) : ¬ Renewable crypto s userID now := by
  rintro ⟨t, f, vs, hl, hf, ha, -⟩
  have ht : Stuck userID now g t := by
    refine hl.preserves (fun h hst => ?_) h
    exact stuck_step h hst.1 hst.2
  exact (ht.waits hf).1 ha

/-! ## Every reachable state -/

theorem step_calls (hs : step crypto s a = some t) :
    ∃ call, ∀ o, o ≠ call → t.calls o = s.calls o := by
  have hn : ∃ call, ∀ o, o ≠ call → s.calls o = s.calls o := ⟨0, fun _ _ => rfl⟩
  have hu {call c} : ∃ k, ∀ o, o ≠ k → update s.calls call c o = s.calls o :=
    ⟨call, fun _ hne => update_of_ne hne ..⟩
  cases step_effect hs with
  | changePass | changeCredentialAfterStepUp | completeRecoveryTransition
  | acknowledgeRecoveryCodes | consumeRecoveryCode | disable => exact hn
  | _ => exact hu

/-- Some number has not been given to a call. -/
theorem exists_free_call (hs : (accounts crypto).Reachable s) : ∃ call, s.calls call = none := by
  have hn : ∃ n, ∀ call, n ≤ call → s.calls call = none := by
    refine System.Reachable.invariant (S := accounts crypto)
      (I := fun s => ∃ n, ∀ call, n ≤ call → s.calls call = none) ?_ ?_ hs
    · intro s hi
      exact ⟨0, fun call _ => hi.2.2.2.2.1 call⟩
    · rintro s a t ⟨n, hn⟩ hst
      obtain ⟨k, hk⟩ := step_calls hst
      refine ⟨max n (k + 1), fun call hc => ?_⟩
      rw [hk call (by omega)]
      exact hn call (by omega)
  obtain ⟨n, hn⟩ := hn
  exact ⟨n, hn n le_rfl⟩

/-- From a reachable state, the recovery codes of a user can be renewed exactly when the factor is in
the state `active`, or when codes that were rotated wait for an acknowledgement in time, or when a
rotation that can still be acknowledged is under way. -/
theorem recovery_codes_renewable_iff (hs : (accounts crypto).Reachable s)
    (hf : s.db.factors userID = some factor) (now : ℤ) :
    Renewable crypto s userID now ↔
      factor.state = .active ∨ factor.Offers now ∨ s.Rotates userID factor now := by
  obtain ⟨call, hc⟩ := exists_free_call hs
  constructor
  · intro h
    by_contra hn
    simp only [not_or] at hn
    obtain ⟨hst, ho, hr⟩ := hn
    refine Stuck.not_renewable (g := factor.recoveryGeneration)
      ⟨⟨factor, hf, hst, ho, rfl⟩, fun call r b hcl hg => ?_⟩ h
    exact not_lt.mp fun hlt => hr ⟨call, r, b, hcl, hg, hlt⟩
  · rintro (h | h | h)
    · exact renewable_of_active hc hf h
    · exact renewable_of_offers hc hf h
    · exact renewable_of_rotates hf h

/-! ## Samples -/

/-- A call that began and ended is not a rotation under way. -/
theorem not_rotating_ended {calls : ℕ → Option Call} {c : Call} {k : ℕ} {r : Factor} {b : ℤ}
    (h : update (update calls k (some c)) k (some .done) call =
      some (.rotating userID r b)) : calls call = some (.rotating userID r b) := by
  rcases update_eq_some h with ⟨_, hd⟩ | ⟨hne, h⟩
  · cases hd
  · rwa [update_of_ne hne] at h

theorem recovery_codes_renewable_enrolled : ∃ factor,
    (accounts .sample).Reachable enrolledState ∧ enrolledState.db.factors 1 = some factor ∧
    factor.state.isActive = true ∧ Renewable .sample enrolledState 1 1000 := by
  have hs : (accounts .sample).Reachable enrolledState :=
    ⟨_, starts_admin, System.later_of_run (f := step .sample) (l := enrolment) (fun h => h) rfl⟩
  exact ⟨_, hs, rfl, rfl, (recovery_codes_renewable_iff hs rfl 1000).mpr (.inl rfl)⟩

/-- New codes that nobody has acknowledged. -/
def rotation : List Action := [.rotateRecoveryCodes 5 1 3, .storeRotation 5 (sampleCodes 80)]

def rotatedState : State := afterActions .sample enrolledState rotation

/-- Ten minutes after a rotation that nobody has acknowledged, the factor is active and its recovery
codes cannot be renewed. -/
theorem recovery_codes_not_renewable : ∃ factor,
    (accounts .sample).Reachable rotatedState ∧ rotatedState.db.factors 1 = some factor ∧
    factor.state.isActive = true ∧ ¬ Renewable .sample rotatedState 1 1000 := by
  have hs : (accounts .sample).Reachable rotatedState :=
    ⟨_, starts_admin, System.later_of_run (f := step .sample) (l := enrolment ++ rotation)
      (fun h => h) rfl⟩
  refine ⟨_, hs, rfl, rfl, Stuck.not_renewable (g := 1)
    ⟨⟨_, rfl, by decide, fun ho => absurd ho.2.2 (by decide), rfl⟩, fun call r b hc => ?_⟩⟩
  exact absurd (not_rotating_ended (not_rotating_ended (not_rotating_ended hc))) nofun

end Solovey.Accounts
