import Solovey.Accounts.Steps

/-!
# A login is bound to the password it proved

Every change of a password advances the generation of the credential, so that a generation has one
hash. `Authenticate` verifies outside a transaction, and after the upgrade of an old hash it returns
the generation of the row it then finds. Where the upgrade finds the hash that was verified, the
password matches the hash of the returned generation.
-/

namespace Solovey.Accounts

open Solovey.Text Solovey.Data List

/-! ## Generations of a password -/

variable {users next : List User} {passwords : List (ℕ × ℕ × Str)}

/-- The users with the record of their hashes: a generation has one hash, and no generation is later
than the one of the row. -/
structure Recorded (users : List User) (passwords : List (ℕ × ℕ × Str)) : Prop where
  ids : (users.map (·.id)).Nodup
  positive : ∀ user ∈ users, 1 ≤ user.credentialGeneration
  rows : ∀ user ∈ users, user.credential ∈ passwords
  latest : ∀ user ∈ users, ∀ generation encoded, (user.id, generation, encoded) ∈ passwords →
    generation ≤ user.credentialGeneration
  single : ∀ id generation encoded encoded', (id, generation, encoded) ∈ passwords →
    (id, generation, encoded') ∈ passwords → encoded = encoded'

/-- A new entry and an old one of the same generation have the same hash. -/
theorem Recorded.agrees (h : Recorded users passwords) (ha : Advances users next) {r : User}
    (hr : r ∈ next) {e : Str} (ho : (r.id, r.credentialGeneration, e) ∈ passwords) :
    r.password = e := by
  obtain ⟨o, hm, hid, hs⟩ := ha.rows r hr
  have hle := h.latest o hm r.credentialGeneration e (hid ▸ ho)
  rcases hs with ⟨hg, hpw⟩ | hlt
  · rw [hg, hid] at ho
    rw [hpw]
    exact h.single _ _ _ _ (h.rows o hm) ho
  · exact absurd hle (not_le.mpr hlt)

theorem Recorded.advance (h : Recorded users passwords) (ha : Advances users next) :
    Recorded next (next.map User.credential ++ passwords) := by
  have hi : (next.map (·.id)).Nodup := ha.ids ▸ h.ids
  -- an entry of the new record is the one of a row, or an old one
  have he : ∀ {id g e}, (id, g, e) ∈ next.map User.credential ++ passwords →
      (∃ row ∈ next, row.id = id ∧ row.credentialGeneration = g ∧
        row.password = e) ∨ (id, g, e) ∈ passwords := by
    intro id g e hin
    rcases mem_append.mp hin with hn | ho
    · obtain ⟨row, hr, heq⟩ := mem_map.mp hn
      simp only [User.credential, Prod.mk.injEq] at heq
      exact .inl ⟨row, hr, heq⟩
    · exact .inr ho
  refine ⟨hi, fun row hr => ?_, fun row hr => ?_, fun row hr g e hin => ?_,
    fun id g e e' hin hin' => ?_⟩
  · obtain ⟨o, ho, _, hs⟩ := ha.rows row hr
    have hp := h.positive o ho
    omega
  · exact mem_append_left _ (mem_map_of_mem hr)
  · rcases he hin with ⟨row', hr', hid, rfl, _⟩ | ho
    · rw [eq_of_id hi hr' hr hid]
    · obtain ⟨o, hm, hid, hs⟩ := ha.rows row hr
      have hle := h.latest o hm g e (hid ▸ ho)
      omega
  · rcases he hin with ⟨row, hr, rfl, rfl, rfl⟩ | ho <;>
      rcases he hin' with ⟨row', hr', hid, hg, rfl⟩ | ho'
    · rw [eq_of_id hi hr' hr hid]
    · exact h.agrees ha hr ho'
    · subst hid hg
      exact (h.agrees ha hr' ho).symm
    · exact h.single id g e e' ho ho'

/-! ## Calls and what they have proved -/

variable (crypto : Crypto)

/-- The row of a login is one that the table has had, and the password matches its hash. -/
def Proved (passwords : List (ℕ × ℕ × Str)) (plaintext : Str) (user : User) : Prop :=
  user.credential ∈ passwords ∧ passwordMatches crypto user.password plaintext = true ∧
    1 ≤ user.credentialGeneration

def Call.Proved (passwords : List (ℕ × ℕ × Str)) : Call → Prop
  | .verified plaintext user _ => Accounts.Proved crypto passwords plaintext user
  | .identified plaintext user => Accounts.Proved crypto passwords plaintext user
  | .loggedIn plaintext _ result => ∃ encoded,
    (result.userID, result.credentialGeneration, encoded) ∈ passwords ∧
      passwordMatches crypto encoded plaintext = true
  | _ => True

structure Bound (s : State) : Prop where
  recorded : Recorded s.db.users s.passwords
  calls : ∀ call c, s.calls call = some c → c.Proved crypto s.passwords

/-- The upgrade of a hash finds the hash that was verified. -/
def hashKept (s : State) : Action → Bool
  | .migrate call _ =>
    match s.calls call with
    | some (.verified _ user true) =>
      s.db.users.any fun row => row.id = user.id && row.password = user.password
    | _ => true
  | _ => true

variable {crypto} {s t : State} {a : Action}

theorem Call.Proved.mono {c : Call} {m : List (ℕ × ℕ × Str)} (h : c.Proved crypto passwords) :
    c.Proved crypto (m ++ passwords) := by
  have hr : ∀ {p user}, Accounts.Proved crypto passwords p user →
      Accounts.Proved crypto (m ++ passwords) p user :=
    fun hp => ⟨mem_append_right _ hp.1, hp.2⟩
  cases c with
  | verified p user nm => exact hr h
  | identified p user => exact hr h
  | loggedIn p user result =>
    obtain ⟨e, hin, hm⟩ := h
    exact ⟨e, mem_append_right _ hin, hm⟩
  | transition | enrolling | confirming | verifying | rotating | done => trivial

theorem bound_initial (h : Starts s) : Bound crypto s := by
  obtain ⟨hi, hps, _, _, hcl, hp, _⟩ := h
  refine ⟨⟨hi, hps, fun user hu => ?_, fun user hu g e hin => ?_,
    fun id g e e' hin hin' => ?_⟩, fun call c hc => ?_⟩
  · rw [hp]
    exact mem_map_of_mem hu
  · rw [hp] at hin
    obtain ⟨other, ho, heq⟩ := mem_map.mp hin
    simp only [User.credential, Prod.mk.injEq] at heq
    obtain ⟨hid, rfl, _⟩ := heq
    rw [eq_of_id hi ho hu hid]
  · rw [hp] at hin hin'
    obtain ⟨user, hu, heq⟩ := mem_map.mp hin
    obtain ⟨other, ho, he'⟩ := mem_map.mp hin'
    simp only [User.credential, Prod.mk.injEq] at heq he'
    rw [← heq.2.2, ← he'.2.2, eq_of_id hi hu ho (heq.1.trans he'.1.symm)]
  · rw [hcl] at hc
    cases hc

variable {call : ℕ}

theorem Bound.setCall {c : Call} (h : Bound crypto s) (hc : c.Proved crypto s.passwords) :
    Bound crypto (s.setCall call c) where
  recorded := h.recorded
  calls call' c' hcl := by
    rcases update_eq_some hcl with ⟨_, hn⟩ | ⟨_, ho⟩
    · exact Option.some.inj hn ▸ hc
    · exact h.calls call' c' ho

theorem Bound.setUsers (h : Bound crypto s) (ha : Advances s.db.users next) :
    Bound crypto (s.setUsers next) where
  recorded := h.recorded.advance ha
  calls call c hc := (h.calls call c hc).mono

variable {userID : ℕ}

theorem Bound.setFactor {f : Option Factor} (h : Bound crypto s) :
    Bound crypto (s.setFactor userID f) := ⟨h.recorded, h.calls⟩

theorem Bound.setCodes {cs : List RecoveryCode} (h : Bound crypto s) :
    Bound crypto (s.setCodes userID cs) := ⟨h.recorded, h.calls⟩

theorem Bound.advanceMFAGeneration (h : Bound crypto s) :
    Bound crypto (s.advanceMFAGeneration userID) :=
  h.setUsers (advances_updateWhere fun _ _ _ => ⟨rfl, .inl ⟨rfl, rfl⟩⟩)

/-! ## The calls on passwords -/

/-- The row that an upgrade reads again has the upgraded hash, when the update matched it. -/
theorem find?_updateWhere_upgraded {us row : User} {u : Str} (hi : (users.map (·.id)).Nodup)
    (hk : row ∈ users) (hid : row.id = us.id) (hpw : row.password = us.password) {r : User}
    (hrd : (updateWhere (fun row => row.id = us.id && row.password = us.password)
      (·.upgrade u) users).find? (·.id = us.id) = some r) :
    r.password = u := by
  obtain ⟨o, ho, heq⟩ := mem_updateWhere.mp (mem_of_find?_eq_some hrd)
  have hr := find?_some hrd
  simp only [decide_eq_true_eq] at hr
  by_cases hm : (decide (o.id = us.id) && decide (o.password = us.password)) = true
  · rw [if_pos hm] at heq
    rw [← heq, User.upgrade]
  · rw [if_neg hm] at heq
    subst heq
    rw [eq_of_id hi ho hk (hr.trans hid.symm), hid, hpw] at hm
    simp at hm

variable {salt : Str}

theorem bound_migrate (h : Bound crypto s) (hk : hashKept s (.migrate call salt) = true)
    (hs : migrate crypto s call salt = some t) : Bound crypto t := by
  unfold migrate at hs
  split at hs
  next plaintext user hc =>
    obtain ⟨u, hu, hs⟩ := Option.bind_eq_some_iff.mp hs
    obtain ⟨read, hr, rfl⟩ := Option.map_eq_some_iff.mp hs
    simp only [hashKept, hc, any_eq_true, Bool.and_eq_true, decide_eq_true_eq] at hk
    obtain ⟨row, hrw, hid, hpw⟩ := hk
    have hp' := find?_updateWhere_upgraded h.recorded.ids hrw hid hpw hr
    have ha : Advances s.db.users (updateWhere
        (fun row => row.id = user.id && row.password = user.password)
        (·.upgrade u) s.db.users) :=
      advances_updateWhere fun _ _ _ => ⟨rfl, .inr (Nat.lt_succ_self _)⟩
    have hb := h.setUsers ha
    have hm := mem_of_find?_eq_some hr
    refine hb.setCall ⟨hb.recorded.rows read hm, ?_, hb.recorded.positive read hm⟩
    rw [hp']
    exact passwordMatches_hash crypto hu
  next plaintext user hc =>
    cases hs
    have hp : Proved crypto s.passwords plaintext user := h.calls call _ hc
    exact h.setCall hp
  · cases hs

theorem Bound.finishLogin {p : Str} {user : User} (h : Bound crypto s)
    (hc : s.calls call = some (.identified p user)) :
    Bound crypto (s.setCall call (.loggedIn p user (s.loginResult user))) := by
  obtain ⟨hin, hm, hp⟩ : Proved crypto s.passwords p user := h.calls call _ hc
  refine h.setCall ⟨user.password, ?_, hm⟩
  have hg : nonzeroGeneration user.credentialGeneration = user.credentialGeneration :=
    if_neg (by omega)
  simp only [State.loginResult, hg]
  exact hin

/-! ## Every run -/

theorem bound_step (h : Bound crypto s) (hk : hashKept s a = true) (hs : step crypto s a = some t) :
    Bound crypto t := by
  cases step_effect hs with
  | authenticate hmm hm =>
    exact h.setCall ⟨h.recorded.rows _ hmm, hm, h.recorded.positive _ hmm⟩
  | keep | migrate => exact bound_migrate h hk hs
  | finishLogin hc => exact h.finishLogin hc
  | changePass ha => exact h.setUsers (ha h.recorded.ids)
  | completeTransition ha => exact (h.setUsers ha).setCall trivial
  | changeCredentialAfterStepUp ha => exact h.setUsers ha
  | completeRecoveryTransition ha => exact (h.setUsers ha).setCodes.setFactor
  | storeEnrollment | storeConfirmation | storeCounter | storeRotation =>
    exact Bound.setCall ⟨h.recorded, h.calls⟩ trivial
  | acknowledgeRecoveryCodes => exact Bound.advanceMFAGeneration ⟨h.recorded, h.calls⟩
  | consumeRecoveryCode => exact ⟨h.recorded, h.calls⟩
  | disable => exact h.setCodes.setFactor.advanceMFAGeneration
  | _ => exact h.setCall trivial

/-- In the runs in which the upgrades of hashes find the hash that was verified, a login that returns
a generation has proved the password of that generation: the one hash that the user had then matches
it. -/
theorem login_bound (hs : ((accounts crypto).guarded fun s a => hashKept s a).Reachable s)
    {call : ℕ} {plaintext : Str} {user : User} {result : AuthenticationResult}
    (hcall : s.calls call = some (.loggedIn plaintext user result)) :
    ∃ encoded, (result.userID, result.credentialGeneration, encoded) ∈ s.passwords ∧
      passwordMatches crypto encoded plaintext = true ∧
      ∀ other, (result.userID, result.credentialGeneration, other) ∈ s.passwords →
        other = encoded := by
  have hbn : Bound crypto s := by
    refine System.Reachable.invariant (S := (accounts crypto).guarded fun s a => hashKept s a)
      bound_initial ?_ hs
    intro s a t hb h
    exact bound_step hb h.1 h.2
  obtain ⟨encoded, hin, hm⟩ : Call.Proved crypto s.passwords (.loggedIn plaintext user result) :=
    hbn.calls call _ hcall
  exact ⟨encoded, hin, hm, fun other ho => hbn.recorded.single _ _ _ _ ho hin⟩

/-- One administrator, whose password is still in the oldest form. -/
def oldAdmin : User where
  id := 1
  username := ['a']
  password := ['o']
  forcePasswordReset := false
  credentialGeneration := 1
  mfaGeneration := 1

def startWith (users : List User) : State where
  db := { users, factors := fun _ => none, codes := fun _ => [] }
  calls _ := none
  passwords := users.map User.credential
  secrets := []
  verifiers := []
  accepted := []
  spent := []
  offered _ := []
  acknowledged _ := []

theorem starts_oldAdmin : Starts (startWith [oldAdmin]) := by
  refine ⟨by decide, by decide, ?_⟩
  exact ⟨fun _ => rfl, fun _ => rfl, fun _ => rfl, rfl, rfl, rfl, rfl, rfl, fun _ => rfl,
    fun _ => rfl⟩

def afterActions (crypto : Crypto) (s : State) (actions : List Action) : State :=
  (actions.foldlM (step crypto) s).getD s

/-- A login with an upgrade that nothing disturbs, followed by a change of the password. -/
def quietLogin : List Action :=
  [.authenticate 0 ['a'] ['o'], .migrate 0 ['s'], .finishLogin 0,
    .changePass ['a'] ['o'] ['a'] (List.replicate 15 'n') ['t']]

/-- What both logins of the samples below return. -/
def secondGeneration : AuthenticationResult where
  userID := 1
  username := ['a']
  credentialGeneration := 2
  mfaGeneration := 1
  authState := .authenticated

theorem login_bound_quiet : ∃ s user,
    ((accounts .sample).guarded fun s a => hashKept s a).Reachable s ∧
    s.calls 0 = some (.loggedIn ['o'] user secondGeneration) ∧ ∃ encoded,
      (1, 2, encoded) ∈ s.passwords ∧ passwordMatches .sample encoded ['o'] = true ∧
      ∀ other, (1, 2, other) ∈ s.passwords → other = encoded := by
  have hs : ((accounts .sample).guarded fun s a => hashKept s a).Reachable
      (afterActions .sample (startWith [oldAdmin]) quietLogin) :=
    ⟨_, starts_oldAdmin, System.later_guarded_of_run (S := accounts .sample) (f := step .sample)
      (p := hashKept) (l := quietLogin) (fun h => h) rfl⟩
  have hc : (afterActions .sample (startWith [oldAdmin]) quietLogin).calls 0 =
      some (.loggedIn ['o'] (oldAdmin.upgrade "$argon2xsyo".toList) secondGeneration) := rfl
  exact ⟨_, _, hs, hc, login_bound hs hc⟩

/-- The password changes between the verification of an old hash and its upgrade: the login returns
the generation of the new password for a proof of the old one. -/
theorem login_of_later_generation : ∃ s user encoded, (accounts .sample).Reachable s ∧
    s.calls 0 = some (.loggedIn ['o'] user secondGeneration) ∧
    (1, 2, encoded) ∈ s.passwords ∧ passwordMatches .sample encoded ['o'] = false ∧
    ∀ other, (1, 2, other) ∈ s.passwords → other = encoded := by
  let actions : List Action := [.authenticate 0 ['a'] ['o'],
    .changePass ['a'] ['o'] ['a'] (List.replicate 15 'n') ['t'], .migrate 0 ['s'], .finishLogin 0]
  let renewed : Str := "$argon2xty".toList ++ List.replicate 15 'n'
  have hs : (accounts .sample).Reachable (afterActions .sample (startWith [oldAdmin]) actions) :=
    ⟨_, starts_oldAdmin, System.later_of_run (f := step .sample) (l := actions) (fun h => h) rfl⟩
  have hr : (afterActions .sample (startWith [oldAdmin]) actions).passwords =
      [(1, 2, renewed), (1, 2, renewed), (1, 1, ['o'])] := rfl
  refine ⟨_, oldAdmin.recredential oldAdmin ['a'] renewed, renewed, hs, rfl, ?_, rfl, ?_⟩
  · rw [hr]
    exact mem_cons_self
  · intro other ho
    rw [hr] at ho
    simpa using ho

end Solovey.Accounts
