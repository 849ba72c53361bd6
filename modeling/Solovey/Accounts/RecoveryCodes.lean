import Solovey.Accounts.OneTime

/-!
# Recovery codes

The codes of a user belong to the generation acknowledged last or to one that waits for its
acknowledgement. A generation is used again when its codes were never acknowledged; they go when the
next ones come. A code is accepted from the acknowledged generation only, and is marked as used.
-/

namespace Solovey.Accounts

open Solovey.Text Solovey.Data List Function

/-! ## The codes of one user -/

/-- The codes of the two generations that a factor knows are those that were acknowledged and those
that were offered. -/
structure CodesFit (factor : Option Factor) (codes : List RecoveryCode)
    (offered acknowledged : List Str) : Prop where
  acknowledged : ∀ f, factor = some f → ∀ c ∈ codes, c.generation = f.recoveryGeneration →
    c.verifier ∈ acknowledged
  offered : ∀ f, factor = some f → 0 < f.pendingRecoveryGeneration →
    ∀ c ∈ codes, c.generation = f.pendingRecoveryGeneration → c.verifier ∈ offered
  positive : ∀ c ∈ codes, 0 < c.generation
  distinct : (codes.map (·.verifier)).Nodup

variable {factor r : Factor} {cs : List RecoveryCode} {o acknowledged vs : List Str}
  {secret : Str} {now counter : ℤ}

theorem nodup_deleteWhere {p : RecoveryCode → Bool} (h : (cs.map (·.verifier)).Nodup) :
    ((deleteWhere p cs).map (·.verifier)).Nodup :=
  h.sublist (filter_sublist.map _)

theorem codesFit_nil {o acknowledged : List Str} {factor : Option Factor} :
    CodesFit factor [] o acknowledged := by
  refine ⟨?_, ?_, ?_, nodup_nil⟩ <;> simp

/-- The codes that a new pending secret leaves. -/
theorem CodesFit.enroll {found current : Option Factor} {state : MFAState}
    (h : CodesFit found cs o acknowledged) :
    CodesFit (some ((found.getD .blank).enroll state secret now))
      (withoutOffered current cs) o acknowledged := by
  have hs : ∀ c ∈ withoutOffered current cs, c ∈ cs := by
    intro c hc
    unfold withoutOffered at hc
    split at hc
    · exact hc
    · split at hc
      · exact (mem_deleteWhere.mp hc).1
      · exact hc
  refine ⟨fun f hf c hc hg => ?_, fun f hf hp => ?_, fun c hc => h.positive c (hs c hc), ?_⟩
  · cases hf
    cases found with
    | none =>
      -- a new row has generation zero, which no code has
      have hps := h.positive c (hs c hc)
      rw [hg] at hps
      exact absurd hps (lt_irrefl 0)
    | some f => exact h.acknowledged f rfl c (hs c hc) hg
  · cases hf
    exact absurd hp (lt_irrefl 0)
  · unfold withoutOffered
    split
    · exact h.distinct
    · split
      · exact nodup_deleteWhere h.distinct
      · exact h.distinct

variable {g : ℕ}

theorem mem_issueCodes {c : RecoveryCode} (h : c ∈ issueCodes cs g vs) : c ∈ cs ∧ c.generation ≠ g ∨
      c.generation = g ∧ c.verifier ∈ vs ∧ c.usedAt = 0 := by
  rcases mem_append.mp h with ho | hn
  · obtain ⟨hin, hne⟩ := mem_deleteWhere.mp ho
    exact .inl ⟨hin, of_decide_eq_false hne⟩
  · obtain ⟨v, hv, rfl⟩ := mem_map.mp hn
    exact .inr ⟨rfl, hv, rfl⟩

variable {next : Factor}

/-- New codes of a generation that is not the acknowledged one. -/
theorem CodesFit.issue (h : CodesFit (some r) cs o acknowledged) (hg : r.recoveryGeneration < g)
    (hk : next.recoveryGeneration = r.recoveryGeneration) (hp : next.pendingRecoveryGeneration = g)
    (hn : vs.Nodup) (hfr : ∀ c ∈ cs, c.verifier ∉ vs) :
    CodesFit (some next) (issueCodes cs g vs) vs acknowledged := by
  refine ⟨fun f hf c hc hgn => ?_, fun f hf _ c hc hgn => ?_, fun c hc => ?_, ?_⟩
  · cases hf
    rw [hk] at hgn
    rcases mem_issueCodes hc with ⟨hin, _⟩ | ⟨hnw, _⟩
    · exact h.acknowledged r rfl c hin hgn
    · omega
  · cases hf
    rw [hp] at hgn
    rcases mem_issueCodes hc with ⟨_, hne⟩ | ⟨_, hin, _⟩
    · exact absurd hgn hne
    · exact hin
  · rcases mem_issueCodes hc with ⟨hin, _⟩ | ⟨hnw, _⟩
    · exact h.positive c hin
    · omega
  · rw [issueCodes, map_append, List.map_map]
    refine List.Nodup.append (nodup_deleteWhere h.distinct) (hn.map fun _ _ heq => heq) ?_
    intro v ho hnw
    obtain ⟨c, hc, rfl⟩ := mem_map.mp ho
    obtain ⟨v, hv, heq⟩ := mem_map.mp hnw
    exact hfr c (mem_deleteWhere.mp hc).1 (heq ▸ hv)

theorem CodesFit.acknowledge (h : CodesFit (some factor) cs o acknowledged)
    (hp : 0 < factor.pendingRecoveryGeneration) :
    CodesFit (some factor.acknowledge)
      (deleteWhere (·.generation ≠ factor.pendingRecoveryGeneration) cs) o o := by
  have hk : ∀ c ∈ deleteWhere (·.generation ≠ factor.pendingRecoveryGeneration) cs,
      c ∈ cs ∧ c.generation = factor.pendingRecoveryGeneration := by
    intro c hc
    obtain ⟨hin, hg⟩ := mem_deleteWhere.mp hc
    exact ⟨hin, not_not.mp (of_decide_eq_false hg)⟩
  have hz : factor.acknowledge.pendingRecoveryGeneration = 0 := by
    unfold Factor.acknowledge
    split <;> rfl
  refine ⟨fun f hf c hc _ => ?_, fun f hf hps => ?_,
    fun c hc => h.positive c (hk c hc).1, nodup_deleteWhere h.distinct⟩
  · exact h.offered factor rfl hp c (hk c hc).1 (hk c hc).2
  · cases hf
    omega

/-- A factor with the same generations. -/
theorem CodesFit.of_generations (h : CodesFit (some r) cs o acknowledged)
    (hg : next.recoveryGeneration = r.recoveryGeneration)
    (hp : next.pendingRecoveryGeneration = r.pendingRecoveryGeneration) :
    CodesFit (some next) cs o acknowledged := by
  refine ⟨fun f hf c hc hgn => ?_, fun f hf hps c hc hgn => ?_, h.positive, h.distinct⟩
  · cases hf
    exact h.acknowledged r rfl c hc (hgn.trans hg)
  · cases hf
    exact h.offered r rfl (hp ▸ hps) c hc (hgn.trans hp)

/-- A code is marked as used. -/
theorem CodesFit.use {found : Option Factor} {p : RecoveryCode → Bool}
    (h : CodesFit found cs o acknowledged) :
    CodesFit found (updateWhere p (fun r => { r with usedAt := now }) cs) o
      acknowledged := by
  have hs : ∀ c ∈ updateWhere p (fun r => { r with usedAt := now }) cs,
      ∃ ol ∈ cs, ol.generation = c.generation ∧ ol.verifier = c.verifier := by
    intro c hc
    obtain ⟨ol, ho, rfl⟩ := mem_updateWhere.mp hc
    refine ⟨ol, ho, ?_⟩
    split <;> exact ⟨rfl, rfl⟩
  refine ⟨fun f hf c hc hgn => ?_, fun f hf hp c hc hgn => ?_, fun c hc => ?_, ?_⟩
  · obtain ⟨ol, ho, hg, hv⟩ := hs c hc
    exact hv ▸ h.acknowledged f hf ol ho (hg.trans hgn)
  · obtain ⟨ol, ho, hg, hv⟩ := hs c hc
    exact hv ▸ h.offered f hf hp ol ho (hg.trans hgn)
  · obtain ⟨ol, ho, hg, _⟩ := hs c hc
    exact hg ▸ h.positive ol ho
  · have hm : (updateWhere p (fun r => { r with usedAt := now }) cs).map (·.verifier) =
        cs.map (·.verifier) := map_updateWhere fun _ => rfl
    rw [hm]
    exact h.distinct

/-! ## All users -/

/-- A factor that waits for the first code of a known secret did so before, at the same
generation. -/
def Waits (secrets : List (Str × ℕ)) (userID : ℕ) (before next : Option Factor) : Prop :=
  ∀ secret, (secret, userID) ∈ secrets → ∀ f, next = some f → f.pendingSecret = some secret →
    f.state.isConfirmation = true → ∃ f', before = some f' ∧ f'.pendingSecret = some secret ∧
      f'.state.isConfirmation = true ∧ f'.recoveryGeneration = f.recoveryGeneration

/-- The generation that a confirmation under way read is still the one of the factor, as long as the
factor waits for its secret. -/
def Call.Expects (s : State) : Call → Prop
  | .confirming userID factor secret _ _ => factor.state.isConfirmation = true ∧
    (secret, userID) ∈ s.secrets ∧ ∀ f, s.db.factors userID = some f →
      f.pendingSecret = some secret → f.state.isConfirmation = true →
        f.recoveryGeneration = factor.recoveryGeneration
  | _ => True

theorem Call.Plain.awaits {c : Call} (h : c.Plain) : c.Awaits := by
  cases c <;> trivial

theorem Call.Plain.expects {s : State} {c : Call} (h : c.Plain) : c.Expects s := by
  cases c <;> trivial

structure Recovering (s : State) : Prop where
  counting : Counting s
  fits : ∀ userID, CodesFit (s.db.factors userID) (s.db.codes userID) (s.offered userID)
    (s.acknowledged userID)
  known : ∀ userID, ∀ c ∈ s.db.codes userID, (userID, c.verifier) ∈ s.verifiers
  spentKnown : ∀ entry ∈ s.spent, entry ∈ s.verifiers
  used : ∀ userID, ∀ c ∈ s.db.codes userID, (userID, c.verifier) ∈ s.spent → c.usedAt ≠ 0
  once : s.spent.Nodup
  calls : ∀ call c, s.calls call = some c → c.Expects s

/-- A recovery code is not used at the second zero of the clock. -/
def clockSet (_ : State) : Action → Bool
  | .consumeRecoveryCode _ _ now => now ≠ 0
  | _ => true

variable {crypto : Crypto} {s t : State} {a : Action} {userID call : ℕ}

theorem recovering_initial (h : Starts s) : Recovering s := by
  have hcn := counting_initial h
  obtain ⟨_, _, _, hcd, hcl, _, _, _, _, hs, _, _⟩ := h
  refine ⟨hcn, fun userID => ?_, fun userID c hc => ?_, fun e he => ?_,
    fun userID c hc => ?_, ?_, fun call c hc => ?_⟩
  · rw [hcd]
    exact codesFit_nil
  · rw [hcd] at hc
    cases hc
  · rw [hs] at he
    cases he
  · rw [hcd] at hc
    cases hc
  · rw [hs]
    exact nodup_nil
  · rw [hcl] at hc
    cases hc

/-- What a call expects survives a change of a factor that waits only as it did before. -/
theorem Call.Expects.update {c : Call} {next : Option Factor} (h : c.Expects s)
    (hfc : t.db.factors = update s.db.factors userID next) (hsc : ∀ e ∈ s.secrets, e ∈ t.secrets)
    (hw : Waits s.secrets userID (s.db.factors userID) next) : c.Expects t := by
  cases c with
  | confirming id factor secret counter now =>
    obtain ⟨hs, hk, hg⟩ := h
    refine ⟨hs, hsc _ hk, fun f hf hp hc => ?_⟩
    rw [hfc] at hf
    rcases update_eq_some hf with ⟨rfl, hn⟩ | ⟨_, ho⟩
    · obtain ⟨f', hb, hp', hc', heq⟩ := hw secret hk f hn hp hc
      rw [← heq]
      exact hg f' hb hp' hc'
    · exact hg f ho hp hc
  | verified | identified | loggedIn | transition | enrolling | verifying | rotating | done =>
    trivial

/-- A transaction that changes the factor and the codes of one user. -/
theorem Recovering.update (h : Recovering s) (userID : ℕ) (next : Option Factor)
    (cs : List RecoveryCode) (hcn : Counting t)
    (hfc : t.db.factors = update s.db.factors userID next)
    (hcd : t.db.codes = update s.db.codes userID cs)
    (ho : ∀ id ≠ userID, t.offered id = s.offered id ∧ t.acknowledged id = s.acknowledged id)
    (hv : ∀ e ∈ s.verifiers, e ∈ t.verifiers) (hsc : ∀ e ∈ s.secrets, e ∈ t.secrets)
    (hs : t.spent = s.spent) (hcl : t.calls = s.calls)
    (hf : CodesFit next cs (t.offered userID) (t.acknowledged userID))
    (hk : ∀ c ∈ cs, (userID, c.verifier) ∈ t.verifiers)
    (hu : ∀ c ∈ cs, (userID, c.verifier) ∈ s.spent → c.usedAt ≠ 0)
    (hw : Waits s.secrets userID (s.db.factors userID) next) : Recovering t := by
  refine ⟨hcn, fun id => ?_, fun id c hc => ?_, fun e he => ?_, fun id c hc hin => ?_, ?_,
    fun call c hc => ?_⟩
  · by_cases hid : id = userID
    · subst hid
      rw [hfc, hcd, update_self, update_self]
      exact hf
    · rw [hfc, hcd, update_of_ne hid, update_of_ne hid, (ho id hid).1, (ho id hid).2]
      exact h.fits id
  · rw [hcd] at hc
    by_cases hid : id = userID
    · subst hid
      rw [update_self] at hc
      exact hk c hc
    · rw [update_of_ne hid] at hc
      exact hv _ (h.known id c hc)
  · rw [hs] at he
    exact hv _ (h.spentKnown e he)
  · rw [hcd] at hc
    rw [hs] at hin
    by_cases hid : id = userID
    · subst hid
      rw [update_self] at hc
      exact hu c hc hin
    · rw [update_of_ne hid] at hc
      exact h.used id c hc hin
  · rw [hs]
    exact h.once
  · rw [hcl] at hc
    exact (h.calls call c hc).update hfc hsc hw

theorem Recovering.setCall {c : Call} (h : Recovering s) (ha : c.Awaits) (hc : c.Expects s) :
    Recovering (s.setCall call c) := by
  have hs : ∀ c' : Call, c'.Expects s → c'.Expects (s.setCall call c) := by
    intro c' hc'
    cases c' <;> exact hc'
  refine ⟨h.counting.setCall ha, h.fits, h.known, h.spentKnown, h.used, h.once,
    fun call' c' hcl => ?_⟩
  rcases update_eq_some hcl with ⟨_, hn⟩ | ⟨_, ho⟩
  · exact hs c' (Option.some.inj hn ▸ hc)
  · exact hs c' (h.calls call' c' ho)

theorem Recovering.setUsers {us : List User} (h : Recovering s) : Recovering (s.setUsers us) := by
  refine ⟨h.counting.congr rfl rfl rfl rfl, h.fits, h.known, h.spentKnown, h.used, h.once,
    fun call c hc => ?_⟩
  have ho := h.calls call c hc
  cases c <;> exact ho

/-! ## Transactions -/

theorem Recovering.remove (h : Recovering s) :
    Recovering ((s.setCodes userID []).setFactor userID none) := by
  refine h.update userID none [] (h.counting.remove.congr rfl rfl rfl rfl) rfl rfl
    (fun _ _ => ⟨rfl, rfl⟩) (fun _ he => he) (fun _ he => he) rfl rfl codesFit_nil (fun c hc => ?_) (fun c hc => ?_)
    fun _ _ f hf => ?_
  · cases hc
  · cases hc
  · cases hf

theorem Recovering.enroll {current : Option Factor} (h : Recovering s)
    (hfr : ∀ known ∈ s.secrets, known.1 ≠ secret) :
    Recovering (s.enrolled userID current now secret) := by
  have hs : ∀ c ∈ withoutOffered current (s.db.codes userID), c ∈ s.db.codes userID := by
    intro c hc
    unfold withoutOffered at hc
    split at hc
    · exact hc
    · split at hc
      · exact (mem_deleteWhere.mp hc).1
      · exact hc
  refine h.update userID _ _ (h.counting.enroll hfr) rfl rfl (fun _ _ => ⟨rfl, rfl⟩)
    (fun _ he => he) (fun _ he => mem_cons_of_mem _ he) rfl rfl (h.fits userID).enroll
    (fun c hc => h.known userID c (hs c hc)) (fun c hc => h.used userID c (hs c hc)) ?_
  -- the secret that the factor waits for now is a new one
  intro held hk f hf hp
  cases hf
  cases hp
  exact absurd rfl (hfr _ hk)

/-- New codes for a factor that stops waiting for its first code. -/
theorem Recovering.issue {ac : List (Str × ℤ)} (h : Recovering s)
    (hr : s.db.factors userID = some r) (hg : r.recoveryGeneration < g)
    (hk : next.recoveryGeneration = r.recoveryGeneration) (hp : next.pendingRecoveryGeneration = g)
    (hs : next.state.isConfirmation = false) (hfr : freshCodes s userID vs = true)
    (hco : Counting ({ s with accepted := ac }.setFactor userID (some next))) :
    Recovering (({ s with accepted := ac }.issue userID g vs).setFactor userID (some next)) := by
  obtain ⟨hn, hnw⟩ := freshCodes_spec hfr
  have hft := h.fits userID
  rw [hr] at hft
  have hu : ∀ c ∈ s.db.codes userID, c.verifier ∉ vs :=
    fun c hc hin => hnw c.verifier hin (h.known userID c hc)
  refine h.update userID (some next) (issueCodes (s.db.codes userID) g vs)
    (hco.congr rfl rfl rfl rfl) rfl rfl (fun id hid => ⟨update_of_ne hid _ _, rfl⟩)
    (fun _ he => mem_append_right _ he) (fun _ he => he) rfl rfl ?_ (fun c hc => ?_)
    (fun c hc hin => ?_) fun held _ f hf _ hcn => ?_
  · simp only [State.setFactor, State.issue, update_self]
    exact hft.issue hg hk hp hn hu
  · rcases mem_issueCodes hc with ⟨hin, _⟩ | ⟨_, hin, _⟩
    · exact mem_append_right _ (h.known userID c hin)
    · exact mem_append_left _ (mem_map_of_mem hin)
  · rcases mem_issueCodes hc with ⟨ho, _⟩ | ⟨_, hi, _⟩
    · exact h.used userID c ho hin
    · exact absurd (h.spentKnown _ hin) (hnw c.verifier hi)
  · cases hf
    rw [hs] at hcn
    cases hcn

theorem lt_nextGeneration : factor.recoveryGeneration < factor.nextGeneration := by
  unfold Factor.nextGeneration
  split <;> omega

section

variable (h : Recovering s)
include h

theorem Recovering.confirm (hc : s.calls call = some (.confirming userID factor secret counter now))
    (hr : s.db.factors userID = some r) (hs : r.state = factor.state)
    (hsc : r.pendingSecret = some secret) (hf : freshCodes s userID vs = true) :
    Recovering (({ s with accepted := (secret, counter) :: s.accepted }.issue userID
      factor.nextGeneration vs).setFactor userID (some (r.confirm factor counter))) := by
  obtain ⟨hcn, _, hsm⟩ : Call.Expects s (.confirming userID factor secret counter now) :=
    h.calls call _ hc
  have hg := hsm r hr hsc (hs ▸ hcn)
  refine h.issue hr (hg ▸ lt_nextGeneration) rfl rfl ?_ hf (h.counting.confirm hc hr hs hsc)
  simp only [Factor.confirm]
  split <;> rfl

theorem Recovering.rotate (hr : s.db.factors userID = some r)
    (hg : r.recoveryGeneration = factor.recoveryGeneration) (hf : freshCodes s userID vs = true) :
    Recovering ((s.issue userID (factor.recoveryGeneration + 1) vs).setFactor userID
      (some (r.rotate (factor.recoveryGeneration + 1) now))) := by
  have hc : Counting ({ s with accepted := s.accepted }.setFactor userID
      (some (r.rotate (factor.recoveryGeneration + 1) now))) := h.counting.rotate hr
  exact h.issue hr (hg ▸ Nat.lt_succ_self _) rfl rfl rfl hf hc

theorem Recovering.acknowledge (hfc : s.db.factors userID = some factor)
    (hs : factor.state.isAcknowledgment = true) (hp : 0 < factor.pendingRecoveryGeneration) :
    Recovering (({ s with
      acknowledged := Function.update s.acknowledged userID (s.offered userID) }.setFactor userID
        (some factor.acknowledge)).setCodes userID (deleteWhere
          (·.generation ≠ factor.pendingRecoveryGeneration) (s.db.codes userID))) := by
  have hft := h.fits userID
  rw [hfc] at hft
  refine h.update userID _ _ ((h.counting.acknowledge hfc hs).congr rfl rfl rfl rfl) rfl rfl
    (fun id hid => ⟨rfl, update_of_ne hid _ _⟩) (fun _ he => he) (fun _ he => he) rfl rfl ?_
    (fun c hc => h.known userID c (mem_deleteWhere.mp hc).1)
    (fun c hc => h.used userID c (mem_deleteWhere.mp hc).1) fun held _ f hf _ hcn => ?_
  · simp only [State.setFactor, State.setCodes, update_self]
    exact hft.acknowledge hp
  · cases hf
    unfold Factor.acknowledge at hcn
    split at hcn <;> cases hcn

theorem Recovering.count (hr : s.db.factors userID = some r) (hs : r.activeSecret = some secret)
    (hl : r.lastAcceptedCounter < counter) :
    Recovering ({ s with accepted := (secret, counter) :: s.accepted }.setFactor userID
      (some { r with lastAcceptedCounter := counter })) := by
  have hft := h.fits userID
  rw [hr] at hft
  refine h.update userID _ (s.db.codes userID) (h.counting.count hr hs hl) rfl
    (update_eq_self _ _).symm (fun _ _ => ⟨rfl, rfl⟩) (fun _ he => he) (fun _ he => he) rfl rfl
    (hft.of_generations rfl rfl) (h.known userID) (h.used userID)
    fun held _ f hf hp hc => ?_
  cases hf
  exact ⟨r, hr, hp, hc, rfl⟩

/-- The code that is accepted is of the generation acknowledged last, and was not accepted before. -/
theorem Recovering.unspent {v : Str} (hf : s.db.factors userID = some factor)
    (ho : (s.db.codes userID).countP (unused factor.recoveryGeneration v) = 1) :
    v ∈ s.acknowledged userID ∧ (userID, v) ∉ s.spent := by
  obtain ⟨c, hc, hu⟩ := countP_pos_iff.mp (ho ▸ Nat.one_pos)
  simp only [unused, Bool.and_eq_true, decide_eq_true_eq] at hu
  obtain ⟨⟨hg, rfl⟩, hz⟩ := hu
  exact ⟨(h.fits userID).acknowledged factor hf c hc hg, fun hs => h.used userID c hc hs hz⟩

theorem Recovering.consume {v : Str} (hfc : s.db.factors userID = some factor)
    (ho : (s.db.codes userID).countP (unused factor.recoveryGeneration v) = 1) (hcl : now ≠ 0) :
    Recovering ({ s with spent := (userID, v) :: s.spent }.setCodes userID
      (updateWhere (unused factor.recoveryGeneration v)
        (fun r => { r with usedAt := now }) (s.db.codes userID))) := by
  obtain ⟨found, hf, hm⟩ := countP_pos_iff.mp (ho ▸ Nat.one_pos)
  have hv : found.verifier = v := by
    simp only [unused, Bool.and_eq_true, decide_eq_true_eq] at hm
    exact hm.1.2
  have hmr : ∀ c ∈ updateWhere (unused factor.recoveryGeneration v)
      (fun r => { r with usedAt := now }) (s.db.codes userID), ∃ ol ∈ s.db.codes userID,
        ol.verifier = c.verifier ∧ (c.usedAt = now ∨ c = ol ∧ ol ≠ found) := by
    intro c hc
    obtain ⟨ol, hol, rfl⟩ := mem_updateWhere.mp hc
    by_cases hp : unused factor.recoveryGeneration v ol = true
    · rw [if_pos hp]
      exact ⟨ol, hol, rfl, .inl rfl⟩
    · rw [if_neg hp]
      refine ⟨ol, hol, rfl, .inr ⟨rfl, ?_⟩⟩
      rintro rfl
      exact hp hm
  refine ⟨h.counting.congr rfl rfl rfl rfl, fun id => ?_, fun id c hc => ?_, fun e he => ?_,
    fun id c hc hin => ?_, nodup_cons.mpr ⟨(h.unspent hfc ho).2, h.once⟩,
    fun call c hc => ?_⟩
  · by_cases hid : id = userID
    · subst hid
      simp only [State.setCodes, update_self]
      exact (h.fits id).use
    · simp only [State.setCodes, update_of_ne hid]
      exact h.fits id
  · by_cases hid : id = userID
    · subst hid
      simp only [State.setCodes, update_self] at hc
      obtain ⟨ol, hol, heq, _⟩ := hmr c hc
      exact heq ▸ h.known id ol hol
    · simp only [State.setCodes, update_of_ne hid] at hc
      exact h.known id c hc
  · rcases mem_cons.mp he with rfl | hol
    · exact hv ▸ h.known userID found hf
    · exact h.spentKnown e hol
  · by_cases hid : id = userID
    · subst hid
      simp only [State.setCodes, update_self] at hc
      obtain ⟨ol, hol, heq, hn | ⟨rfl, hne⟩⟩ := hmr c hc
      · rw [hn]
        exact hcl
      · rcases mem_cons.mp hin with hs | hs
        · -- two rows have the verifier only if they are one
          have hsm : c.verifier = found.verifier := (Prod.mk.inj hs).2.trans hv.symm
          exact absurd (inj_on_of_nodup_map (h.fits id).distinct hol hf hsm) hne
        · exact h.used id c hol hs
    · simp only [State.setCodes, update_of_ne hid] at hc
      rcases mem_cons.mp hin with hs | hs
      · exact absurd (Prod.mk.inj hs).1 hid
      · exact h.used id c hc hs
  · have hol := h.calls call c hc
    cases c <;> exact hol

/-! ## Every run -/

theorem recovering_step (hcl : clockSet s a = true) (hst : step crypto s a = some t) :
    Recovering t := by
  cases step_effect hst with
  | finishLogin | rotateRecoveryCodes => exact h.setCall trivial trivial
  | completeRecoveryTransition => exact h.setUsers.remove
  | storeEnrollment _ hfr => exact (h.enroll hfr).setCall trivial trivial
  | @confirmEnrollment _ userID _ _ factor secret _ hfc hsc hs =>
    have ho := h.counting.owned userID factor secret hfc (.inr hsc)
    refine h.setCall hs ⟨hs, ho, fun f hf _ _ => ?_⟩
    rw [hfc] at hf
    cases hf
    rfl
  | storeConfirmation hca hr hs hsc hfr =>
    exact (h.confirm hca hr hs hsc hfr).setCall trivial trivial
  | acknowledgeRecoveryCodes hfc hs hp => exact (h.acknowledge hfc hs hp).setUsers
  | storeCounter _ hr hsc hl => exact (h.count hr hsc hl).setCall trivial trivial
  | consumeRecoveryCode _ hfc hon => exact h.consume hfc hon (of_decide_eq_true hcl)
  | storeRotation _ hr hg hfr => exact (h.rotate hr hg hfr).setCall trivial trivial
  | disable => exact h.remove.setUsers
  | _ =>
    exact (step_passive hst rfl).preserves h (fun _ h => h.setUsers)
      fun h hc => h.setCall hc.awaits hc.expects

end

/-- In the runs in which no recovery code is used at the second zero of the clock: the counters that
are accepted for one secret grow, so that each is accepted once; no recovery code is accepted twice;
and a recovery code is accepted only while it is one of those that were acknowledged last. -/
theorem one_time_factors (hs : ((accounts crypto).guarded fun s a => clockSet s a).Reachable s) :
    (s.accepted.Pairwise fun later earlier => later.1 = earlier.1 → earlier.2 < later.2) ∧
    s.spent.Nodup ∧
    ∀ userID code now t, step crypto s (.consumeRecoveryCode userID code now) = some t →
      ∃ verifier, crypto.recoveryVerifier userID code = some verifier ∧
        t.spent = (userID, verifier) :: s.spent ∧ (userID, verifier) ∉ s.spent ∧
        verifier ∈ s.acknowledged userID := by
  have hrc : Recovering s := by
    refine System.Reachable.invariant (S := (accounts crypto).guarded fun s a => clockSet s a)
      recovering_initial ?_ hs
    intro s a t hr h
    exact recovering_step hr h.1 h.2
  refine ⟨hrc.counting.ordered, hrc.once, fun userID code now t hst => ?_⟩
  cases consumeRecoveryCode_spec hst with
  | consumeRecoveryCode hv hf ho =>
    obtain ⟨ha, hu⟩ := hrc.unspent hf ho
    exact ⟨_, hv, rfl, hu, ha⟩

/-- A recovery code that is used after an enrolment. -/
def useCode (now : ℤ) : Action := .consumeRecoveryCode 1 ['A'] now

theorem one_time_factors_enrolled : ∃ t,
    ((accounts .sample).guarded fun s a => clockSet s a).Reachable enrolledState ∧
    enrolledState.accepted = [(['s'], 0)] ∧ step .sample enrolledState (useCode 3) = some t ∧
    ∃ verifier, t.spent = (1, verifier) :: enrolledState.spent ∧
      verifier ∈ enrolledState.acknowledged 1 := by
  have hs : ((accounts .sample).guarded fun s a => clockSet s a).Reachable enrolledState :=
    ⟨_, starts_admin, System.later_guarded_of_run (S := accounts .sample) (f := step .sample)
      (p := clockSet) (l := enrolment) (fun h => h) rfl⟩
  have hst : step .sample enrolledState (useCode 3) =
      some (afterActions .sample enrolledState [useCode 3]) := rfl
  obtain ⟨verifier, _, hsp, _, ha⟩ := (one_time_factors hs).2.2 1 ['A'] 3 _ hst
  exact ⟨_, hs, rfl, hst, verifier, hsp, ha⟩

/-- A code that is used at the second zero of the clock can be used again. -/
theorem recovery_code_used_twice : ∃ s, (accounts .sample).Reachable s ∧
    s.spent = [(1, ['A']), (1, ['A'])] := by
  let actions := enrolment ++ [useCode 0, useCode 3]
  exact ⟨afterActions .sample (startWith [admin]) actions, ⟨_, starts_admin,
    System.later_of_run (f := step .sample) (l := actions) (fun h => h) rfl⟩, rfl⟩

end Solovey.Accounts
