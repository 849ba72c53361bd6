import Solovey.Accounts.Model

/-!
# What the calls do

One lemma for each transaction and each reading statement: what holds when it goes through, and the
state after it. The calls that neither write a factor nor end a login have one more in common.
-/

namespace Solovey.Accounts

open Solovey.Text Solovey.Data List

variable {crypto : Crypto} {s t : State}

/-! ## Changes of the users -/

/-- A change of the table of users: a row keeps its hash, or has a later generation. -/
structure Advances (users next : List User) : Prop where
  ids : next.map (·.id) = users.map (·.id)
  rows : ∀ row ∈ next, ∃ old ∈ users, row.id = old.id ∧
    (row.credentialGeneration = old.credentialGeneration ∧ row.password = old.password ∨
      old.credentialGeneration < row.credentialGeneration)

variable {users next : List User}

theorem advances_updateWhere {p : User → Bool} {f : User → User}
    (h : ∀ row ∈ users, p row = true → (f row).id = row.id ∧
      ((f row).credentialGeneration = row.credentialGeneration ∧ (f row).password = row.password ∨
        row.credentialGeneration < (f row).credentialGeneration)) :
    Advances users (updateWhere p f users) := by
  constructor
  · rw [updateWhere, List.map_map]
    refine map_congr_left fun row hr => ?_
    by_cases hp : p row = true
    · rw [Function.comp_apply, if_pos hp, (h row hr hp).1]
    · rw [Function.comp_apply, if_neg hp]
  · intro row hr
    obtain ⟨old, ho, rfl⟩ := mem_updateWhere.mp hr
    refine ⟨old, ho, ?_⟩
    by_cases hp : p old = true
    · rw [if_pos hp]
      exact h old ho hp
    · rw [if_neg hp]
      exact ⟨rfl, .inl ⟨rfl, rfl⟩⟩

theorem eq_of_id (hi : (users.map (·.id)).Nodup) {u o : User} (hu : u ∈ users) (ho : o ∈ users)
    (h : u.id = o.id) : u = o :=
  inj_on_of_nodup_map hi hu ho h

theorem lt_nonzeroGeneration_succ (v : ℕ) : v < nonzeroGeneration v + 1 := by
  unfold nonzeroGeneration
  split <;> omega

/-! ## Calls that write no factor -/

/-- No login that has ended, and nothing that a transaction on a factor relies on. -/
def Call.Plain : Call → Prop
  | .loggedIn _ _ _ | .confirming _ _ _ _ _ | .rotating _ _ _ => False
  | _ => True

/-- Nothing changes but the users and one call. -/
inductive Passive (s : State) : State → Prop
  | users (users : List User) : Passive s (s.setUsers users)
  | call {c : Call} (call : ℕ) (hc : c.Plain) : Passive s (s.setCall call c)
  | both {c : Call} (users : List User) (call : ℕ) (hc : c.Plain) :
    Passive s ((s.setUsers users).setCall call c)

theorem Passive.preserves {I : State → Prop} (h : Passive s t) (hs : I s)
    (hu : ∀ {s} users, I s → I (s.setUsers users))
    (hcl : ∀ {s call c}, I s → c.Plain → I (s.setCall call c)) : I t := by
  cases h with
  | users users => exact hu users hs
  | call call hc => exact hcl hs hc
  | both users call hc => exact hcl (hu users hs) hc

def Action.passive : Action → Bool
  | .authenticate _ _ _ | .migrate _ _ | .changePass _ _ _ _ _ | .beginTransition _ _ _ _ _
  | .completeTransition _ _ | .changeCredentialAfterStepUp _ _ _ _ | .beginEnrollment _ _ _ _
  | .verifyCode _ _ _ _ | .abort _ => true
  | _ => false

/-! ## The effect of a step -/

/-- What a call writes, and what holds when it goes through. -/
inductive Effect (crypto : Crypto) (s : State) : Action → State → Prop
  | authenticate {call us p user nm} (hu : user ∈ s.db.users)
    (hm : passwordMatches crypto user.password p = true) :
    Effect crypto s (.authenticate call us p) (s.setCall call (.verified p user nm))
  | keep {call salt p user} :
    Effect crypto s (.migrate call salt) (s.setCall call (.identified p user))
  | migrate {call salt p user rows} :
    Effect crypto s (.migrate call salt) ((s.setUsers rows).setCall call (.identified p user))
  | finishLogin {call p user} (hc : s.calls call = some (.identified p user)) :
    Effect crypto s (.finishLogin call) (s.setCall call (.loggedIn p user (s.loginResult user)))
  | changePass {us op newUser newPass salt rows}
    (hu : (s.db.users.map (·.id)).Nodup → Advances s.db.users rows) :
    Effect crypto s (.changePass us op newUser newPass salt) (s.setUsers rows)
  | beginTransition {call userID op newUsername newPass user us} :
    Effect crypto s (.beginTransition call userID op newUsername newPass)
      (s.setCall call (.transition user us newPass))
  | completeTransition {call salt rows} (hu : Advances s.db.users rows) :
    Effect crypto s (.completeTransition call salt) ((s.setUsers rows).setCall call .done)
  | changeCredentialAfterStepUp {userID newUsername newPass salt rows}
    (hu : Advances s.db.users rows) :
    Effect crypto s (.changeCredentialAfterStepUp userID newUsername newPass salt) (s.setUsers rows)
  | completeRecoveryTransition {userID newUsername newPass salt rows}
    (hu : Advances s.db.users rows) :
    Effect crypto s (.completeRecoveryTransition userID newUsername newPass salt)
      (((s.setUsers rows).setCodes userID []).setFactor userID none)
  | beginEnrollment {call userID us now} : Effect crypto s (.beginEnrollment call userID us now)
      (s.setCall call (.enrolling userID (s.db.factors userID) now))
  | storeEnrollment {call secret userID current now}
    (hc : s.calls call = some (.enrolling userID current now))
    (hf : ∀ known ∈ s.secrets, known.1 ≠ secret) :
    Effect crypto s (.storeEnrollment call secret)
      ((s.enrolled userID current now secret).setCall call .done)
  | confirmEnrollment {call userID code now f secret c} (hf : s.db.factors userID = some f)
    (hs : f.pendingSecret = some secret) (hr : f.state.isConfirmation = true) :
    Effect crypto s (.confirmEnrollment call userID code now)
      (s.setCall call (.confirming userID f secret c now))
  | storeConfirmation {call vs userID f secret c now row}
    (hc : s.calls call = some (.confirming userID f secret c now))
    (hr : s.db.factors userID = some row)
    (hs : row.state = f.state) (hp : row.pendingSecret = some secret)
    (hf : freshCodes s userID vs = true) :
    Effect crypto s (.storeConfirmation call vs)
      ((({ s with accepted := (secret, c) :: s.accepted }.issue userID f.nextGeneration
        vs).setFactor userID (some (row.confirm f c))).setCall call .done)
  | acknowledgeRecoveryCodes {userID now f} (hf : s.db.factors userID = some f)
    (ha : f.state.isAcknowledgment = true) (hp : 0 < f.pendingRecoveryGeneration) :
    Effect crypto s (.acknowledgeRecoveryCodes userID now)
      ((({ s with
          acknowledged := Function.update s.acknowledged userID (s.offered userID) }.setFactor
        userID (some f.acknowledge)).setCodes userID (deleteWhere
          (·.generation ≠ f.pendingRecoveryGeneration)
          (s.db.codes userID))).advanceMFAGeneration userID)
  | verifyCode {call userID code now f secret c} (hf : s.db.factors userID = some f)
    (hs : f.activeSecret = some secret) :
    Effect crypto s (.verifyCode call userID code now)
      (s.setCall call (.verifying userID f secret c))
  | storeCounter {call userID f secret c row}
    (hc : s.calls call = some (.verifying userID f secret c))
    (hr : s.db.factors userID = some row) (hs : row.activeSecret = some secret)
    (hl : row.lastAcceptedCounter < c) :
    Effect crypto s (.storeCounter call)
      (({ s with accepted := (secret, c) :: s.accepted }.setFactor userID
        (some { row with lastAcceptedCounter := c })).setCall call .done)
  | consumeRecoveryCode {userID code now v f} (hv : crypto.recoveryVerifier userID code = some v)
    (hf : s.db.factors userID = some f)
    (ho : (s.db.codes userID).countP (unused f.recoveryGeneration v) = 1) :
    Effect crypto s (.consumeRecoveryCode userID code now)
      ({ s with spent := (userID, v) :: s.spent }.setCodes userID
        (updateWhere (unused f.recoveryGeneration v)
          (fun row => { row with usedAt := now }) (s.db.codes userID)))
  | rotateRecoveryCodes {call userID now f} (hf : s.db.factors userID = some f)
    (ha : f.state = .active) :
    Effect crypto s (.rotateRecoveryCodes call userID now) (s.setCall call (.rotating userID f now))
  | storeRotation {call vs userID f now row} (hc : s.calls call = some (.rotating userID f now))
    (hr : s.db.factors userID = some row) (hg : row.recoveryGeneration = f.recoveryGeneration)
    (hf : freshCodes s userID vs = true) :
    Effect crypto s (.storeRotation call vs)
      (((s.issue userID (f.recoveryGeneration + 1) vs).setFactor userID
        (some (row.rotate (f.recoveryGeneration + 1) now))).setCall call .done)
  | disable {userID} : Effect crypto s (.disable userID) (disable s userID)
  | abort {call} : Effect crypto s (.abort call) (s.setCall call .done)

variable {call userID : ℕ} {code secret : Str} {now : ℤ} {vs : List Str}

/-! ## Calls on passwords -/

variable {us : Str}

theorem authenticate_spec {p : Str} (h : authenticate crypto s call us p = some t) :
    Effect crypto s (.authenticate call us p) t := by
  unfold authenticate at h
  split at h
  · cases h
  obtain ⟨user, hu, h⟩ := Option.bind_eq_some_iff.mp h
  obtain ⟨v, hvr, h⟩ := Option.bind_eq_some_iff.mp h
  split at h
  next hv =>
    cases h
    refine .authenticate (mem_of_find?_eq_some hu) ?_
    rw [passwordMatches, hvr, Option.any_some, hv]
  · cases h

variable {salt : Str}

theorem migrate_spec (h : migrate crypto s call salt = some t) :
    Effect crypto s (.migrate call salt) t := by
  unfold migrate at h
  split at h
  next p user _ =>
    obtain ⟨u, _, h⟩ := Option.bind_eq_some_iff.mp h
    obtain ⟨read, _, rfl⟩ := Option.map_eq_some_iff.mp h
    exact .migrate
  next p user _ =>
    cases h
    exact .keep
  · cases h

theorem finishLogin_spec (h : finishLogin s call = some t) :
    Effect crypto s (.finishLogin call) t := by
  unfold finishLogin at h
  split at h
  next p user hc =>
    cases h
    exact .finishLogin hc
  · cases h

variable {newPass : Str}

theorem changePass_spec {op newUser : Str}
    (h : changePass crypto s us op newUser newPass salt = some t) :
    Effect crypto s (.changePass us op newUser newPass salt) t := by
  simp only [changePass] at h
  split at h
  · cases h
  obtain ⟨user, hu, h⟩ := Option.bind_eq_some_iff.mp h
  split_ifs at h
  obtain ⟨ph, _, rfl⟩ := Option.map_eq_some_iff.mp h
  refine .changePass fun hi => advances_updateWhere fun row hr hid => ?_
  have heq := eq_of_id hi hr (mem_of_find?_eq_some hu) (of_decide_eq_true hid)
  exact heq ▸ ⟨rfl, .inr (lt_nonzeroGeneration_succ _)⟩

variable {newUsername : Str}

theorem beginTransition_spec {op : Str}
    (h : beginTransition crypto s call userID op newUsername newPass = some t) :
    Effect crypto s (.beginTransition call userID op newUsername newPass) t := by
  simp only [beginTransition] at h
  split at h
  · cases h
  obtain ⟨user, _, h⟩ := Option.bind_eq_some_iff.mp h
  split at h
  · cases h
  cases h
  exact .beginTransition

theorem completeTransition_spec (h : completeTransition crypto s call salt = some t) :
    Effect crypto s (.completeTransition call salt) t := by
  simp only [completeTransition] at h
  split at h
  · split at h
    · cases h
    obtain ⟨nh, _, rfl⟩ := Option.map_eq_some_iff.mp h
    refine .completeTransition (advances_updateWhere fun row hr hc => ?_)
    simp only [Bool.and_eq_true, decide_eq_true_eq] at hc
    exact ⟨rfl, .inr (hc.1.1.2 ▸ lt_nonzeroGeneration_succ _)⟩
  · cases h

theorem changeCredentialAfterStepUp_spec
    (h : changeCredentialAfterStepUp crypto s userID newUsername newPass salt = some t) :
    Effect crypto s (.changeCredentialAfterStepUp userID newUsername newPass salt) t := by
  simp only [changeCredentialAfterStepUp] at h
  split at h
  · cases h
  obtain ⟨nh, _, h⟩ := Option.bind_eq_some_iff.mp h
  obtain ⟨user, _, h⟩ := Option.bind_eq_some_iff.mp h
  split at h
  · cases h
  cases h
  refine .changeCredentialAfterStepUp (advances_updateWhere fun row hr hc => ?_)
  simp only [Bool.and_eq_true, decide_eq_true_eq] at hc
  exact ⟨rfl, .inr (hc.2 ▸ lt_nonzeroGeneration_succ _)⟩

theorem completeRecoveryTransition_spec
    (h : completeRecoveryTransition crypto s userID newUsername newPass salt = some t) :
    Effect crypto s (.completeRecoveryTransition userID newUsername newPass salt) t := by
  simp only [completeRecoveryTransition] at h
  split at h
  · cases h
  obtain ⟨nh, _, h⟩ := Option.bind_eq_some_iff.mp h
  obtain ⟨user, hu, h⟩ := Option.bind_eq_some_iff.mp h
  split at h
  · cases h
  cases h
  have hid := find?_some hu
  simp only [decide_eq_true_eq] at hid
  rw [hid]
  refine .completeRecoveryTransition (advances_updateWhere fun row hr hc => ?_)
  simp only [Bool.and_eq_true, decide_eq_true_eq] at hc
  exact ⟨rfl, .inr (hc.1.2 ▸ lt_nonzeroGeneration_succ _)⟩

/-! ## Calls on second factors -/

theorem beginEnrollment_spec (h : beginEnrollment s call userID us now = some t) :
    Effect crypto s (.beginEnrollment call userID us now) t := by
  unfold beginEnrollment at h
  split at h
  · cases h
  · cases h
    exact .beginEnrollment

theorem freshCodes_spec (h : freshCodes s userID vs = true) :
    vs.Nodup ∧ ∀ v ∈ vs, (userID, v) ∉ s.verifiers := by
  simp only [freshCodes, Bool.and_eq_true, decide_eq_true_eq, all_eq_true,
    Bool.not_eq_true', contains_eq_mem, decide_eq_false_iff_not] at h
  exact ⟨h.1.2, h.2⟩

theorem storeEnrollment_spec (h : storeEnrollment s call secret = some t) :
    Effect crypto s (.storeEnrollment call secret) t := by
  unfold storeEnrollment at h
  split at h
  next userID current now hc =>
    split at h
    · cases h
    next hf =>
      cases h
      refine .storeEnrollment hc fun known hk heq => hf ?_
      exact any_eq_true.mpr ⟨known, hk, decide_eq_true heq⟩
  · cases h

theorem confirmEnrollment_spec (h : confirmEnrollment crypto s call userID code now = some t) :
    Effect crypto s (.confirmEnrollment call userID code now) t := by
  unfold confirmEnrollment at h
  split at h
  · cases h
  obtain ⟨f, hf, h⟩ := Option.bind_eq_some_iff.mp h
  obtain ⟨secret, hs, h⟩ := Option.bind_eq_some_iff.mp h
  split at h
  · cases h
  next hr =>
    obtain ⟨c, _, rfl⟩ := Option.map_eq_some_iff.mp h
    simp only [Bool.or_eq_true, Bool.not_eq_true', not_or, Bool.not_eq_false] at hr
    exact .confirmEnrollment hf hs hr.2

theorem storeConfirmation_spec (h : storeConfirmation s call vs = some t) :
    Effect crypto s (.storeConfirmation call vs) t := by
  unfold storeConfirmation at h
  split at h
  next userID f secret c now hc =>
    obtain ⟨row, hrw, h⟩ := Option.bind_eq_some_iff.mp h
    split at h
    · cases h
    next hr =>
      cases h
      simp only [Bool.or_eq_true, decide_eq_true_eq, Bool.not_eq_true', not_or, not_not,
        Bool.not_eq_false] at hr
      exact .storeConfirmation hc hrw hr.1.1.1 hr.1.1.2 hr.2
  · cases h

theorem acknowledgeRecoveryCodes_spec (h : acknowledgeRecoveryCodes s userID now = some t) :
    Effect crypto s (.acknowledgeRecoveryCodes userID now) t := by
  obtain ⟨f, hf, h⟩ := Option.bind_eq_some_iff.mp h
  split at h
  · cases h
  next hr =>
    cases h
    simp only [Bool.or_eq_true, decide_eq_true_eq, Bool.not_eq_true', not_or,
      Bool.not_eq_false] at hr
    exact .acknowledgeRecoveryCodes hf hr.1.1 (Nat.pos_of_ne_zero hr.1.2)

theorem verifyCode_spec (h : verifyCode crypto s call userID code now = some t) :
    Effect crypto s (.verifyCode call userID code now) t := by
  unfold verifyCode at h
  split at h
  · cases h
  obtain ⟨f, hf, h⟩ := Option.bind_eq_some_iff.mp h
  split at h
  · cases h
  obtain ⟨secret, hs, h⟩ := Option.bind_eq_some_iff.mp h
  obtain ⟨c, _, rfl⟩ := Option.map_eq_some_iff.mp h
  exact .verifyCode hf hs

theorem storeCounter_spec (h : storeCounter s call = some t) :
    Effect crypto s (.storeCounter call) t := by
  unfold storeCounter at h
  split at h
  next userID f secret c hc =>
    obtain ⟨row, hrw, h⟩ := Option.bind_eq_some_iff.mp h
    split at h
    · cases h
    next hr =>
      cases h
      simp only [Bool.or_eq_true, decide_eq_true_eq, Bool.not_eq_true', not_or, not_not,
        Bool.not_eq_false, not_le] at hr
      exact .storeCounter hc hrw hr.1.1 hr.2
  · cases h

theorem consumeRecoveryCode_spec (h : consumeRecoveryCode crypto s userID code now = some t) :
    Effect crypto s (.consumeRecoveryCode userID code now) t := by
  obtain ⟨v, hv, h⟩ := Option.bind_eq_some_iff.mp h
  obtain ⟨f, hf, h⟩ := Option.bind_eq_some_iff.mp h
  split at h
  · cases h
  next hr =>
    cases h
    simp only [Bool.or_eq_true, decide_eq_true_eq, not_or, not_not] at hr
    exact .consumeRecoveryCode hv hf hr.2

theorem rotateRecoveryCodes_spec (h : rotateRecoveryCodes s call userID now = some t) :
    Effect crypto s (.rotateRecoveryCodes call userID now) t := by
  unfold rotateRecoveryCodes at h
  split at h
  · cases h
  obtain ⟨f, hf, h⟩ := Option.bind_eq_some_iff.mp h
  split at h
  · cases h
  next ha =>
    cases h
    exact .rotateRecoveryCodes hf (not_not.mp ha)

theorem storeRotation_spec (h : storeRotation s call vs = some t) :
    Effect crypto s (.storeRotation call vs) t := by
  unfold storeRotation at h
  split at h
  next userID f now hc =>
    obtain ⟨row, hrw, h⟩ := Option.bind_eq_some_iff.mp h
    split at h
    · cases h
    next hr =>
      cases h
      simp only [Bool.or_eq_true, decide_eq_true_eq, Bool.not_eq_true', not_or, not_not,
        Bool.not_eq_false] at hr
      exact .storeRotation hc hrw hr.1 hr.2
  · cases h

/-! ## Every call -/

variable {a : Action}

theorem step_effect (h : step crypto s a = some t) : Effect crypto s a t := by
  cases a with
  | authenticate => exact authenticate_spec h
  | migrate => exact migrate_spec h
  | finishLogin => exact finishLogin_spec h
  | changePass => exact changePass_spec h
  | beginTransition => exact beginTransition_spec h
  | completeTransition => exact completeTransition_spec h
  | changeCredentialAfterStepUp => exact changeCredentialAfterStepUp_spec h
  | completeRecoveryTransition => exact completeRecoveryTransition_spec h
  | beginEnrollment => exact beginEnrollment_spec h
  | storeEnrollment => exact storeEnrollment_spec h
  | confirmEnrollment => exact confirmEnrollment_spec h
  | storeConfirmation => exact storeConfirmation_spec h
  | acknowledgeRecoveryCodes => exact acknowledgeRecoveryCodes_spec h
  | verifyCode => exact verifyCode_spec h
  | storeCounter => exact storeCounter_spec h
  | consumeRecoveryCode => exact consumeRecoveryCode_spec h
  | rotateRecoveryCodes => exact rotateRecoveryCodes_spec h
  | storeRotation => exact storeRotation_spec h
  | disable =>
    cases h
    exact .disable
  | abort =>
    cases h
    exact .abort

theorem step_passive (h : step crypto s a = some t) (ha : a.passive = true) : Passive s t := by
  cases step_effect h with
  | authenticate | keep | beginTransition | beginEnrollment | verifyCode | abort =>
    exact .call _ trivial
  | migrate | completeTransition => exact .both _ _ trivial
  | changePass | changeCredentialAfterStepUp => exact .users _
  | _ => cases ha

end Solovey.Accounts
