import Solovey.Accounts.Login

/-!
# The second factor stays on

A factor has an active secret exactly in its active states, and a login that ends in such a state
waits for the second factor. `BeginEnrollment` chooses the next state from a row that it read before
its transaction, and stores it whatever the row has become: when another enrolment was acknowledged
in between, the factor leaves the active states with its active secret.
-/

namespace Solovey.Accounts

open Solovey.Text Solovey.Data

/-! ## One factor -/

/-- An active secret, an active state and an acknowledged generation come together, and a confirmed
secret is there. -/
structure Factor.Sound (factor : Factor) : Prop where
  active : factor.state.isActive = factor.activeSecret.isSome
  generation : factor.activeSecret.isSome = true ↔ 0 < factor.recoveryGeneration
  confirmed : factor.state = .pendingAcknowledgment ∨ factor.state = .activeRotationAck →
    factor.pendingSecret.isSome = true

variable {factor r : Factor}

variable {current : Option Factor}

theorem enrollmentState_isActive :
    (enrollmentState current).isActive = current.any (·.activeSecret.isSome) := by
  unfold enrollmentState
  split
  next h => exact h.symm
  next h => exact (Bool.not_eq_true _ ▸ h).symm

variable {secret : Str} {now : ℤ}

theorem Factor.Sound.enroll (h : factor.Sound)
    (hc : factor.activeSecret.isSome = current.any (·.activeSecret.isSome)) :
    (factor.enroll (enrollmentState current) secret now).Sound where
  active := enrollmentState_isActive.trans hc.symm
  generation := h.generation
  confirmed := fun _ => rfl

theorem Factor.blank_sound : Factor.blank.Sound := ⟨rfl, by decide, by decide⟩

theorem Factor.Sound.confirm {c : ℤ} (hrw : r.Sound) (hr : factor.Sound)
    (hs : r.state = factor.state) (hsc : r.pendingSecret = some secret) :
    (r.confirm factor c).Sound := by
  have hsm : r.activeSecret.isSome = factor.activeSecret.isSome := by
    rw [← hrw.active, ← hr.active, hs]
  refine ⟨?_, hrw.generation, fun _ => ?_⟩
  · simp only [Factor.confirm, hsm]
    cases factor.activeSecret.isSome <;> rfl
  · simp only [Factor.confirm, hsc, Option.isSome_some]

/-- Codes wait for their acknowledgement after a confirmation or after a rotation of the codes. -/
theorem confirmed_of_isAcknowledgment {state : MFAState} (h : state.isAcknowledgment = true)
    (hne : state ≠ .activeRecoveryAck) :
    state = .pendingAcknowledgment ∨ state = .activeRotationAck := by
  cases state with
  | pendingAcknowledgment => exact .inl rfl
  | activeRotationAck => exact .inr rfl
  | activeRecoveryAck => exact absurd rfl hne
  | pending | active | activePendingRotation => cases h

theorem Factor.Sound.acknowledge (h : factor.Sound) (hs : factor.state.isAcknowledgment = true)
    (hp : 0 < factor.pendingRecoveryGeneration) : factor.acknowledge.Sound := by
  unfold Factor.acknowledge
  split
  next hr =>
    have ha : factor.activeSecret.isSome = true := by rw [← h.active, hr]; rfl
    refine ⟨?_, ?_, fun hor => ?_⟩
    · simp only [ha, MFAState.isActive]
    · simp only [ha, hp]
    · rcases hor with hor | hor <;> cases hor
  next ho =>
    have hc := h.confirmed (confirmed_of_isAcknowledgment hs ho)
    refine ⟨?_, ?_, fun hor => ?_⟩
    · simp only [hc, MFAState.isActive]
    · simp only [hc, hp]
    · rcases hor with hor | hor <;> cases hor

theorem Factor.Sound.count {c : ℤ} (h : r.Sound) :
    { r with lastAcceptedCounter := c }.Sound := ⟨h.active, h.generation, h.confirmed⟩

theorem Factor.Sound.rotate {g : ℕ} (h : r.Sound) (ha : 0 < r.recoveryGeneration) :
    (r.rotate g now).Sound where
  active := (h.generation.mpr ha).symm
  generation := h.generation
  confirmed := by rintro (h | h) <;> cases h

/-! ## All factors and the calls on them -/

/-- What a call has read was sound. -/
def Call.Sound : Call → Prop
  | .confirming _ factor _ _ _ => factor.Sound
  | .rotating _ factor _ => 0 < factor.recoveryGeneration
  | _ => True

theorem Call.Plain.sound {c : Call} (h : c.Plain) : c.Sound := by
  cases c <;> trivial

structure Sound (s : State) : Prop where
  factors : ∀ userID factor, s.db.factors userID = some factor → factor.Sound
  calls : ∀ call c, s.calls call = some c → c.Sound

/-- The transaction of an enrolment finds an active secret exactly when its read did. -/
def enrollmentCurrent (s : State) : Action → Bool
  | .storeEnrollment call _ =>
    match s.calls call with
    | some (.enrolling userID current _) =>
      (s.db.factors userID).any (·.activeSecret.isSome) = current.any (·.activeSecret.isSome)
    | _ => true
  | _ => true

variable {crypto : Crypto} {s t : State} {a : Action} {userID call : ℕ}

theorem enrollmentCurrent_spec (h : enrollmentCurrent s (.storeEnrollment call secret) = true)
    (hc : s.calls call = some (.enrolling userID current now)) :
    ((s.db.factors userID).getD .blank).activeSecret.isSome =
      current.any (·.activeSecret.isSome) := by
  simp only [enrollmentCurrent, hc, decide_eq_true_eq] at h
  rw [← h]
  cases s.db.factors userID <;> rfl

theorem sound_initial (h : Starts s) : Sound s := by
  obtain ⟨_, _, hfc, _, hcl, _⟩ := h
  refine ⟨fun userID factor hf => ?_, fun call c hc => ?_⟩
  · rw [hfc] at hf
    cases hf
  · rw [hcl] at hc
    cases hc

theorem Sound.setCall {c : Call} (h : Sound s) (hc : c.Sound) : Sound (s.setCall call c) where
  factors := h.factors
  calls call' c' hcl := by
    rcases update_eq_some hcl with ⟨_, hn⟩ | ⟨_, ho⟩
    · exact Option.some.inj hn ▸ hc
    · exact h.calls call' c' ho

theorem Sound.setFactor {next : Option Factor} (h : Sound s) (hn : ∀ f, next = some f → f.Sound) :
    Sound (s.setFactor userID next) where
  factors userID' f hf := by
    rcases update_eq_some hf with ⟨_, hnw⟩ | ⟨_, ho⟩
    · exact hn f hnw
    · exact h.factors userID' f ho
  calls := h.calls

/-- The factor that a user has, or a blank one, is sound. -/
theorem Sound.getD (h : Sound s) : ((s.db.factors userID).getD .blank).Sound := by
  cases hf : s.db.factors userID with
  | none => exact Factor.blank_sound
  | some factor => exact h.factors userID factor hf

theorem sound_step (h : Sound s) (hcr : enrollmentCurrent s a = true)
    (hst : step crypto s a = some t) : Sound t := by
  cases step_effect hst with
  | finishLogin => exact h.setCall trivial
  | completeRecoveryTransition =>
    refine Sound.setFactor ⟨h.factors, h.calls⟩ fun f hf => ?_
    cases hf
  | storeEnrollment hcl =>
    refine Sound.setCall (Sound.setFactor ⟨h.factors, h.calls⟩ fun f hf => ?_) trivial
    cases hf
    exact h.getD.enroll (enrollmentCurrent_spec hcr hcl)
  | confirmEnrollment hfc => exact h.setCall (h.factors _ _ hfc)
  | storeConfirmation hcl hrw hs hsc =>
    refine Sound.setCall (Sound.setFactor ⟨h.factors, h.calls⟩ fun f hf => ?_) trivial
    cases hf
    exact (h.factors _ _ hrw).confirm (h.calls _ _ hcl) hs hsc
  | @acknowledgeRecoveryCodes userID _ factor hfc hs hp =>
    have hse : Sound (s.setFactor userID (some factor.acknowledge)) := by
      refine h.setFactor fun f hf => ?_
      cases hf
      exact (h.factors userID factor hfc).acknowledge hs hp
    exact ⟨hse.factors, hse.calls⟩
  | storeCounter _ hrw =>
    refine Sound.setCall (Sound.setFactor ⟨h.factors, h.calls⟩ fun f hf => ?_) trivial
    cases hf
    exact (h.factors _ _ hrw).count
  | consumeRecoveryCode => exact ⟨h.factors, h.calls⟩
  | rotateRecoveryCodes hfc ha =>
    have hsn := h.factors _ _ hfc
    refine h.setCall (hsn.generation.mp ?_)
    rw [← hsn.active, ha]
    rfl
  | @storeRotation call _ _ factor _ _ hcl hrw hg =>
    refine Sound.setCall (Sound.setFactor ⟨h.factors, h.calls⟩ fun f hf => ?_) trivial
    cases hf
    have hr : 0 < factor.recoveryGeneration := h.calls call _ hcl
    exact (h.factors _ _ hrw).rotate (hg ▸ hr)
  | @disable userID =>
    have hse : Sound (s.setFactor userID none) := by
      refine h.setFactor fun f hf => ?_
      cases hf
    exact ⟨hse.factors, hse.calls⟩
  | _ =>
    exact (step_passive hst rfl).preserves h (fun _ h => ⟨h.factors, h.calls⟩)
      fun h hc => h.setCall hc.sound

/-! ## Logins while the factor is active -/

def State.activeFactor (s : State) (userID : ℕ) : Bool :=
  (s.db.factors userID).any (·.state.isActive)

/-- The action takes the factor of the user away. -/
def removes (userID : ℕ) : Action → Bool
  | .disable id => id = userID
  | .completeRecoveryTransition id _ _ _ => id = userID
  | _ => false

theorem activeFactor_some {factor : Factor} (h : s.activeFactor userID = true)
    (hf : s.db.factors userID = some factor) : factor.state.isActive = true := by
  rwa [State.activeFactor, hf, Option.any_some] at h

/-- A transaction that leaves the factor of its user active, if it was. -/
theorem activeFactor_update {o : ℕ} {next : Factor} (h : s.activeFactor userID = true)
    (hf : t.db.factors = Function.update s.db.factors o (some next))
    (hn : o = userID → next.state.isActive = true) : t.activeFactor userID = true := by
  rw [State.activeFactor, hf]
  by_cases hid : userID = o
  · subst hid
    rw [Function.update_self, Option.any_some]
    exact hn rfl
  · rw [Function.update_of_ne hid]
    exact h

theorem activeFactor_remove {o : ℕ} (h : s.activeFactor userID = true)
    (hf : t.db.factors = Function.update s.db.factors o none) (hne : o ≠ userID) :
    t.activeFactor userID = true := by
  rw [State.activeFactor, hf, Function.update_of_ne hne.symm]
  exact h

theorem acknowledge_isActive {factor : Factor} : factor.acknowledge.state.isActive = true := by
  unfold Factor.acknowledge
  split <;> rfl

theorem activeFactor_step (h : Sound s) (hcr : enrollmentCurrent s a = true)
    (hk : removes userID a = false) (ha : s.activeFactor userID = true)
    (hst : step crypto s a = some t) : t.activeFactor userID = true := by
  cases step_effect hst with
  | finishLogin | confirmEnrollment | consumeRecoveryCode | rotateRecoveryCodes => exact ha
  | completeRecoveryTransition | disable => exact activeFactor_remove ha rfl (of_decide_eq_false hk)
  | @storeEnrollment _ _ id _ _ hc =>
    refine activeFactor_update ha rfl fun hid => ?_
    subst hid
    have hrd := enrollmentCurrent_spec hcr hc
    have hfc : ((s.db.factors id).getD .blank).state.isActive = true := by
      cases hf : s.db.factors id with
      | none =>
        rw [State.activeFactor, hf] at ha
        cases ha
      | some factor => exact activeFactor_some ha hf
    rw [h.getD.active, hrd] at hfc
    exact enrollmentState_isActive.trans hfc
  | @storeConfirmation call _ _ factor _ _ _ _ hc hrw hs =>
    refine activeFactor_update ha rfl fun hid => ?_
    subst hid
    have hrd : factor.Sound := h.calls call _ hc
    have hsm : factor.activeSecret.isSome = true := by
      rw [← hrd.active, ← hs]
      exact activeFactor_some ha hrw
    simp only [Factor.confirm, hsm, if_true, MFAState.isActive]
  | acknowledgeRecoveryCodes => exact activeFactor_update ha rfl fun _ => acknowledge_isActive
  | storeCounter _ hrw =>
    refine activeFactor_update ha rfl fun hid => ?_
    subst hid
    have hr := activeFactor_some ha hrw
    exact hr
  | storeRotation => exact activeFactor_update ha rfl fun _ => rfl
  | _ =>
    exact (step_passive hst rfl).preserves (I := (State.activeFactor · userID = true)) ha
      (fun _ h => h) fun h _ => h

/-- A login of the user that has ended asks for the second factor, unless a reset is forced. -/
def Call.Asks (userID : ℕ) : Call → Prop
  | .loggedIn _ user result => user.id = userID → user.forcePasswordReset = false →
    result.authState = .mfaPending
  | _ => True

theorem Call.Plain.asks {c : Call} (h : c.Plain) : c.Asks userID := by
  cases c <;> trivial

/-- The calls that have come further since the state `before` ask for the second factor. -/
def Asking (userID : ℕ) (before s : State) : Prop :=
  ∀ call c, s.calls call = some c → before.calls call = some c ∨ c.Asks userID

theorem Asking.setCall {b : State} {c : Call} (h : Asking userID b s) (hc : c.Asks userID) :
    Asking userID b (s.setCall call c) := by
  intro call' c' hcl
  rcases update_eq_some hcl with ⟨_, hn⟩ | ⟨_, ho⟩
  · exact .inr (Option.some.inj hn ▸ hc)
  · exact h call' c' ho

theorem asking_step {b : State} (h : Asking userID b s) (ha : s.activeFactor userID = true)
    (hs : step crypto s a = some t) :
    Asking userID b t := by
  cases step_effect hs with
  | finishLogin =>
    refine h.setCall fun hid hf => ?_
    rw [State.loginResult, hf, hid]
    exact if_pos ha
  | completeRecoveryTransition | acknowledgeRecoveryCodes | consumeRecoveryCode | disable => exact h
  | confirmEnrollment | rotateRecoveryCodes => exact h.setCall trivial
  | storeEnrollment | storeConfirmation | storeCounter | storeRotation =>
    intro call' c' hcl
    exact h.setCall (c := .done) trivial call' c' hcl
  | _ => exact (step_passive hs rfl).preserves h (fun _ h => h) fun h hc => h.setCall hc.asks

/-! ## Every run -/

/-- In the runs in which the enrolments find what they read, a factor has an active secret exactly
in its active states. From a state in which the factor of a user is active, as long as it is not
removed, every login of the user that ends asks for the second factor, unless a reset is forced. -/
theorem second_factor_stays
    (hs : ((accounts crypto).guarded fun s a => enrollmentCurrent s a).Reachable s) :
    (∀ userID factor, s.db.factors userID = some factor →
      (factor.activeSecret.isSome = true ↔ factor.state.isActive = true)) ∧
    ∀ userID, s.activeFactor userID = true → ∀ t,
      ((accounts crypto).guarded fun s a => enrollmentCurrent s a && !removes userID a).Later s t →
      ∀ call plaintext user result, t.calls call = some (.loggedIn plaintext user result) →
        s.calls call ≠ some (.loggedIn plaintext user result) → user.id = userID →
        user.forcePasswordReset = false → result.authState = .mfaPending := by
  have hsn : Sound s := by
    refine System.Reachable.invariant
      (S := (accounts crypto).guarded fun s a => enrollmentCurrent s a) sound_initial ?_ hs
    intro s a t hsn h
    exact sound_step hsn h.1 h.2
  refine ⟨fun userID factor hfc => ?_, fun userID hac t ht call plaintext user result hcl
    hn hid hf => ?_⟩
  · rw [(hsn.factors userID factor hfc).active]
  · have hr : Sound t ∧ t.activeFactor userID = true ∧ Asking userID s t := by
      refine ht.preserves (I := fun u =>
        Sound u ∧ u.activeFactor userID = true ∧ Asking userID s u) ?_
        ⟨hsn, hac, fun _ _ hc => .inl hc⟩
      rintro u a v ⟨hu, hon, ha⟩ ⟨hok, hst⟩
      simp only [Bool.and_eq_true, Bool.not_eq_true'] at hok
      exact ⟨sound_step hu hok.1 hst, activeFactor_step hu hok.1 hok.2 hon hst,
        asking_step ha hon hst⟩
    exact (hr.2.2 call _ hcl).resolve_left hn hid hf

/-! ## Samples -/

def admin : User where
  id := 1
  username := ['a']
  password := "$argon2yo".toList
  forcePasswordReset := false
  credentialGeneration := 1
  mfaGeneration := 1

theorem starts_admin : Starts (startWith [admin]) := by
  refine ⟨by decide, by decide, ?_⟩
  exact ⟨fun _ => rfl, fun _ => rfl, fun _ => rfl, rfl, rfl, rfl, rfl, rfl, fun _ => rfl,
    fun _ => rfl⟩

/-- The verifiers of ten recovery codes. -/
def sampleCodes (first : ℕ) : List Str := (List.range 10).map fun n => [Char.ofNat (first + n)]

/-- An enrolment from its begin to the acknowledgement of its recovery codes. -/
def enrolment : List Action :=
  [.beginEnrollment 0 1 ['a'] 0, .storeEnrollment 0 ['s'],
    .confirmEnrollment 1 1 (List.replicate 6 '0') 1, .storeConfirmation 1 (sampleCodes 65),
    .acknowledgeRecoveryCodes 1 2]

def login : List Action := [.authenticate 2 ['a'] ['o'], .migrate 2 [], .finishLogin 2]

def enrolledState : State := afterActions .sample (startWith [admin]) enrolment

def loggedInState : State := afterActions .sample enrolledState login

def enrolledAdmin : User := { admin with mfaGeneration := 2 }

def enrolledResult (authState : AuthState) : AuthenticationResult where
  userID := 1
  username := ['a']
  credentialGeneration := 1
  mfaGeneration := 2
  authState := authState

theorem second_factor_stays_enrolled : ∃ result,
    ((accounts .sample).guarded fun s a => enrollmentCurrent s a).Reachable enrolledState ∧
    enrolledState.activeFactor 1 = true ∧
    ((accounts .sample).guarded fun s a => enrollmentCurrent s a && !removes 1 a).Later
      enrolledState loggedInState ∧
    loggedInState.calls 2 = some (.loggedIn ['o'] enrolledAdmin result) ∧
    result.authState = .mfaPending := by
  have hs : ((accounts .sample).guarded fun s a => enrollmentCurrent s a).Reachable enrolledState :=
    ⟨_, starts_admin, System.later_guarded_of_run (S := accounts .sample) (f := step .sample)
      (p := enrollmentCurrent) (l := enrolment) (fun h => h) rfl⟩
  have ht : ((accounts .sample).guarded fun s a =>
      enrollmentCurrent s a && !removes 1 a).Later enrolledState loggedInState :=
    System.later_guarded_of_run (S := accounts .sample) (f := step .sample)
      (p := fun s a => enrollmentCurrent s a && !removes 1 a) (l := login) (fun h => h) rfl
  have hc : loggedInState.calls 2 =
      some (.loggedIn ['o'] enrolledAdmin (enrolledResult .mfaPending)) := rfl
  have hb : enrolledState.calls 2 = none := rfl
  have hn : enrolledState.calls 2 ≠
      some (.loggedIn ['o'] enrolledAdmin (enrolledResult .mfaPending)) := by
    rw [hb]
    exact Option.some_ne_none _ |>.symm
  exact ⟨_, hs, rfl, ht, hc, (second_factor_stays hs).2 1 rfl _ ht 2 _ _ _ hc hn rfl rfl⟩

/-- An enrolment that began before another one was acknowledged: its transaction takes the factor
out of the active states, and the next login needs no second factor. -/
theorem second_factor_lost : ∃ s factor, (accounts .sample).Reachable s ∧
    s.db.factors 1 = some factor ∧ factor.activeSecret = some ['s'] ∧
    factor.state.isActive = false ∧ enrolledAdmin.forcePasswordReset = false ∧
    s.calls 2 = some (.loggedIn ['o'] enrolledAdmin (enrolledResult .authenticated)) := by
  let actions := .beginEnrollment 3 1 ['a'] 0 :: enrolment ++ .storeEnrollment 3 ['t'] :: login
  have hs : (accounts .sample).Reachable (afterActions .sample (startWith [admin]) actions) :=
    ⟨_, starts_admin, System.later_of_run (f := step .sample) (l := actions) (fun h => h) rfl⟩
  refine ⟨_, _, hs, rfl, ?_⟩
  exact ⟨rfl, rfl, rfl, rfl⟩

end Solovey.Accounts
