import Solovey.Accounts.SecondFactor

/-!
# One-time factors are used once

The counters that are accepted for a secret grow, through its confirmation, its acknowledgement and
its use. A recovery code is accepted only while it belongs to the generation acknowledged last, and
once it is marked as used no more. The mark is the time of the use, where zero stands for an unused
code: a code used at the second zero of the clock is still unused.
-/

namespace Solovey.Accounts

open Solovey.Text Solovey.Data List

/-! ## Counters -/

def Factor.Holds (factor : Factor) (secret : Str) : Prop :=
  factor.activeSecret = some secret ∨ factor.pendingSecret = some secret

/-- The counters that were accepted for the secrets of a factor are those that the factor knows. -/
structure Factor.Fits (factor : Factor) (accepted : List (Str × ℤ)) : Prop where
  distinct : ∀ secret, factor.activeSecret = some secret → factor.pendingSecret ≠ some secret
  active : ∀ secret, factor.activeSecret = some secret →
    ∀ counter, (secret, counter) ∈ accepted → counter ≤ factor.lastAcceptedCounter
  awaiting : factor.state.isConfirmation = true → ∀ secret, factor.pendingSecret = some secret →
    ∀ counter, (secret, counter) ∉ accepted
  confirmed : factor.state = .pendingAcknowledgment ∨ factor.state = .activeRotationAck →
    ∀ secret, factor.pendingSecret = some secret →
      ∀ counter, (secret, counter) ∈ accepted → counter ≤ factor.pendingAcceptedCounter

variable {factor r : Factor} {accepted : List (Str × ℤ)} {secret : Str} {counter n : ℤ}

/-- A counter that is accepted for another secret. -/
theorem Factor.Fits.cons (h : factor.Fits accepted) (hh : ¬ factor.Holds secret) :
    factor.Fits ((secret, counter) :: accepted) := by
  have ho : ∀ {held counter'}, factor.Holds held →
      (held, counter') ∈ (secret, counter) :: accepted → (held, counter') ∈ accepted := by
    intro held counter' hhl hin
    rcases mem_cons.mp hin with heq | ho
    · cases heq
      exact absurd hhl hh
    · exact ho
  exact ⟨h.distinct, fun held hhl c hc => h.active held hhl c (ho (.inl hhl) hc),
    fun hs held hhl c hc => h.awaiting hs held hhl c (ho (.inr hhl) hc),
    fun hs held hhl c hc => h.confirmed hs held hhl c (ho (.inr hhl) hc)⟩

variable {current : Option Factor}

theorem enrollmentState_isConfirmation : (enrollmentState current).isConfirmation = true := by
  unfold enrollmentState
  split <;> rfl

theorem not_confirmed_of_isConfirmation {state : MFAState} (h : state.isConfirmation = true) :
    ¬ (state = .pendingAcknowledgment ∨ state = .activeRotationAck) := by
  rintro (rfl | rfl) <;> cases h

theorem Factor.Fits.enroll (h : r.Fits accepted) (hf : ∀ counter, (secret, counter) ∉ accepted)
    (ha : r.activeSecret ≠ some secret) :
    (r.enroll (enrollmentState current) secret n).Fits accepted where
  distinct held hh hp := by
    cases hp
    exact ha hh
  active := h.active
  awaiting _ held hh c := by
    cases hh
    exact hf c
  confirmed hs := absurd hs (not_confirmed_of_isConfirmation enrollmentState_isConfirmation)

theorem Factor.blank_fits : Factor.blank.Fits accepted where
  distinct held hh := by cases hh
  active held hh := by cases hh
  awaiting _ held hh := by cases hh
  confirmed _ held hh := by cases hh

/-- The first counter of a pending secret. -/
theorem Factor.Fits.confirm (h : r.Fits accepted) (hs : r.state.isConfirmation = true)
    (hsc : r.pendingSecret = some secret) :
    (r.confirm factor counter).Fits ((secret, counter) :: accepted) where
  distinct := h.distinct
  active held hh c hc := by
    rcases mem_cons.mp hc with heq | ho
    · cases heq
      exact absurd hsc (h.distinct secret hh)
    · exact h.active held hh c ho
  awaiting hcn := by
    simp only [Factor.confirm] at hcn
    split at hcn <;> cases hcn
  confirmed _ held hh c hc := by
    rw [show (r.confirm factor counter).pendingSecret = r.pendingSecret from rfl, hsc] at hh
    cases hh
    rcases mem_cons.mp hc with heq | ho
    · cases heq
      exact le_rfl
    · exact absurd ho (h.awaiting hs secret hsc c)

/-- In the states in which no pending secret counts, only the active secret matters. -/
theorem Factor.fits_of_settled (hst : factor.state = .active ∨ factor.state = .activeRecoveryAck)
    (hd : ∀ secret, factor.activeSecret = some secret → factor.pendingSecret ≠ some secret)
    (ha : ∀ secret, factor.activeSecret = some secret →
      ∀ counter, (secret, counter) ∈ accepted → counter ≤ factor.lastAcceptedCounter) :
    factor.Fits accepted where
  distinct := hd
  active := ha
  awaiting h := by rcases hst with hs | hs <;> rw [hs] at h <;> cases h
  confirmed h := by rcases hst with hs | hs <;> rw [hs] at h <;> rcases h with h | h <;> cases h

theorem Factor.Fits.acknowledge (h : factor.Fits accepted)
    (hs : factor.state.isAcknowledgment = true) : factor.acknowledge.Fits accepted := by
  unfold Factor.acknowledge
  split
  · exact Factor.fits_of_settled (.inl rfl) h.distinct h.active
  next ho =>
    have hc := h.confirmed (confirmed_of_isAcknowledgment hs ho)
    refine Factor.fits_of_settled (.inl rfl) (fun _ _ hp => ?_) hc
    cases hp

/-- A later counter of the active secret. -/
theorem Factor.Fits.count (h : r.Fits accepted) (hsc : r.activeSecret = some secret)
    (hl : r.lastAcceptedCounter < counter) :
    { r with lastAcceptedCounter := counter }.Fits ((secret, counter) :: accepted) := by
  have hp : ∀ {held counter'}, r.pendingSecret = some held →
      (held, counter') ∈ (secret, counter) :: accepted → (held, counter') ∈ accepted := by
    intro held counter' hh hin
    rcases mem_cons.mp hin with heq | ho
    · cases heq
      exact absurd hh (h.distinct secret hsc)
    · exact ho
  refine ⟨h.distinct, fun held hh c hc => ?_,
    fun hs held hh c hc => h.awaiting hs held hh c (hp hh hc),
    fun hs held hh c hc => h.confirmed hs held hh c (hp hh hc)⟩
  rcases mem_cons.mp hc with heq | ho
  · cases heq
    exact le_rfl
  · exact (h.active held hh c ho).trans hl.le

theorem Factor.Fits.rotate {g : ℕ} (h : r.Fits accepted) : (r.rotate g n).Fits accepted :=
  Factor.fits_of_settled (.inr rfl) h.distinct h.active

/-! ## Secrets belong to one factor -/

/-- A confirmation under way read a secret that waited for its first code. -/
def Call.Awaits : Call → Prop
  | .confirming _ factor _ _ _ => factor.state.isConfirmation = true
  | _ => True

/-- Every secret has one user, who alone holds it, and the accepted counters of a secret grow. -/
structure Counting (s : State) : Prop where
  owned : ∀ userID factor secret, s.db.factors userID = some factor → factor.Holds secret →
    (secret, userID) ∈ s.secrets
  single : ∀ secret userID userID', (secret, userID) ∈ s.secrets →
    (secret, userID') ∈ s.secrets → userID = userID'
  known : ∀ entry ∈ s.accepted, ∃ userID, (entry.1, userID) ∈ s.secrets
  fits : ∀ userID factor, s.db.factors userID = some factor → factor.Fits s.accepted
  ordered : s.accepted.Pairwise fun later earlier => later.1 = earlier.1 → earlier.2 < later.2
  calls : ∀ call c, s.calls call = some c → c.Awaits

variable {crypto : Crypto} {s t : State} {a : Action} {userID call : ℕ}

theorem counting_initial (h : Starts s) : Counting s := by
  obtain ⟨_, _, hfc, _, hcl, _, hs, _, ha, _⟩ := h
  refine ⟨fun userID f secret hf => ?_, fun secret u v hu => ?_, fun e he => ?_,
    fun userID f hf => ?_, ?_, fun call c hc => ?_⟩
  · rw [hfc] at hf
    cases hf
  · rw [hs] at hu
    cases hu
  · rw [ha] at he
    cases he
  · rw [hfc] at hf
    cases hf
  · rw [ha]
    exact .nil
  · rw [hcl] at hc
    cases hc

theorem Counting.setCall {c : Call} (h : Counting s) (hc : c.Awaits) :
    Counting (s.setCall call c) :=
  { h with
    calls := by
      intro call' c' hcl
      rcases update_eq_some hcl with ⟨_, hn⟩ | ⟨_, ho⟩
      · exact Option.some.inj hn ▸ hc
      · exact h.calls call' c' ho }

theorem Counting.setFactor {next : Option Factor} (h : Counting s)
    (ho : ∀ f secret, next = some f → f.Holds secret → (secret, userID) ∈ s.secrets)
    (hft : ∀ f, next = some f → f.Fits s.accepted) : Counting (s.setFactor userID next) :=
  { h with
    owned := by
      intro userID' f secret hf hh
      rcases update_eq_some hf with ⟨rfl, hn⟩ | ⟨_, hol⟩
      · exact ho f secret hn hh
      · exact h.owned userID' f secret hol hh
    fits := by
      intro userID' f hf
      rcases update_eq_some hf with ⟨_, hn⟩ | ⟨_, hol⟩
      · exact hft f hn
      · exact h.fits userID' f hol }

/-- A factor that holds no other secrets than the row it comes from. -/
theorem Counting.replace {next : Factor} (h : Counting s) (hr : s.db.factors userID = some r)
    (hh : ∀ secret, next.Holds secret → r.Holds secret) (hft : next.Fits s.accepted) :
    Counting (s.setFactor userID (some next)) := by
  refine h.setFactor (fun f secret hf hhl => ?_) fun f hf => ?_
  · cases hf
    exact h.owned userID r secret hr (hh secret hhl)
  · cases hf
    exact hft

/-- A counter is accepted for a secret of the row, later than all that were. -/
theorem Counting.accept {next : Factor} (h : Counting s) (hr : s.db.factors userID = some r)
    (hhl : r.Holds secret) (hl : ∀ c, (secret, c) ∈ s.accepted → c < counter)
    (hh : ∀ held, next.Holds held → r.Holds held)
    (hft : next.Fits ((secret, counter) :: s.accepted)) :
    Counting ({ s with accepted := (secret, counter) :: s.accepted }.setFactor userID
      (some next)) := by
  have how := h.owned userID r secret hr hhl
  refine ⟨fun userID' f held hf hh' => ?_, h.single, fun e he => ?_, fun userID' f hf => ?_,
    pairwise_cons.mpr ⟨fun e he heq => ?_, h.ordered⟩, h.calls⟩
  · rcases update_eq_some hf with ⟨rfl, hn⟩ | ⟨_, hol⟩
    · cases hn
      exact h.owned userID' r held hr (hh held hh')
    · exact h.owned userID' f held hol hh'
  · rcases mem_cons.mp he with rfl | hol
    · exact ⟨userID, how⟩
    · exact h.known e hol
  · rcases update_eq_some hf with ⟨_, hn⟩ | ⟨hne, hol⟩
    · cases hn
      exact hft
    · refine (h.fits userID' f hol).cons fun ho => hne ?_
      exact h.single secret userID' userID (h.owned userID' f secret hol ho) how
  · refine hl e.2 ?_
    rw [show secret = e.1 from heq]
    exact he

theorem Counting.enroll (h : Counting s) (hfr : ∀ known ∈ s.secrets, known.1 ≠ secret) :
    Counting (s.enrolled userID current n secret) := by
  -- the factor that a user has, or a blank one
  have hr : ((s.db.factors userID).getD .blank).Fits s.accepted ∧ ∀ held,
      ((s.db.factors userID).getD .blank).activeSecret = some held → (held, userID) ∈ s.secrets := by
    cases hf : s.db.factors userID with
    | none =>
      refine ⟨Factor.blank_fits, fun held hh => ?_⟩
      cases hh
    | some f => exact ⟨h.fits userID f hf, fun held hh => h.owned userID f held hf (.inl hh)⟩
  have hun : ∀ c, (secret, c) ∉ s.accepted := by
    intro c hc
    obtain ⟨owner, ho⟩ := h.known _ hc
    exact hfr _ ho rfl
  have hk : Counting { s with secrets := (secret, userID) :: s.secrets } := by
    refine ⟨fun u f held hf hh => mem_cons_of_mem _ (h.owned u f held hf hh),
      fun held u v hu hv => ?_, fun e he => ?_, h.fits, h.ordered, h.calls⟩
    · rcases mem_cons.mp hu with hu | hu <;> rcases mem_cons.mp hv with hv | hv
      · cases hu
        cases hv
        rfl
      · cases hu
        exact absurd rfl (hfr _ hv)
      · cases hv
        exact absurd rfl (hfr _ hu)
      · exact h.single held u v hu hv
    · obtain ⟨owner, ho⟩ := h.known e he
      exact ⟨owner, mem_cons_of_mem _ ho⟩
  have hs : Counting ({ s with secrets := (secret, userID) :: s.secrets }.setFactor userID
      (some (((s.db.factors userID).getD .blank).enroll (enrollmentState current) secret n))) := by
    refine hk.setFactor (fun f held hf hh => ?_) fun f hf => ?_
    · cases hf
      rcases hh with ha | hp
      · exact mem_cons_of_mem _ (hr.2 held ha)
      · cases hp
        exact mem_cons_self
    · cases hf
      exact hr.1.enroll hun fun ha => hfr _ (hr.2 secret ha) rfl
  exact ⟨hs.owned, hs.single, hs.known, hs.fits, hs.ordered, hs.calls⟩

theorem acknowledge_holds (h : factor.acknowledge.Holds secret) : factor.Holds secret := by
  unfold Factor.acknowledge at h
  split at h
  · exact h
  · rcases h with h | h
    · exact .inr h
    · cases h

section

variable (h : Counting s)
include h

theorem Counting.confirm (hcl : s.calls call = some (.confirming userID factor secret counter n))
    (hr : s.db.factors userID = some r) (hs : r.state = factor.state)
    (hsc : r.pendingSecret = some secret) :
    Counting ({ s with accepted := (secret, counter) :: s.accepted }.setFactor userID
      (some (r.confirm factor counter))) := by
  have ha : factor.state.isConfirmation = true := h.calls call _ hcl
  rw [← hs] at ha
  have hf := h.fits userID r hr
  have hh : ∀ held, (r.confirm factor counter).Holds held → r.Holds held := fun _ hhl => hhl
  exact h.accept hr (.inr hsc) (fun c hc => absurd hc (hf.awaiting ha secret hsc c)) hh
    (hf.confirm ha hsc)

theorem Counting.acknowledge (hf : s.db.factors userID = some factor)
    (hs : factor.state.isAcknowledgment = true) :
    Counting (s.setFactor userID (some factor.acknowledge)) :=
  h.replace hf (fun _ => acknowledge_holds) ((h.fits userID factor hf).acknowledge hs)

theorem Counting.count (hr : s.db.factors userID = some r) (hs : r.activeSecret = some secret)
    (hl : r.lastAcceptedCounter < counter) :
    Counting ({ s with accepted := (secret, counter) :: s.accepted }.setFactor userID
      (some { r with lastAcceptedCounter := counter })) := by
  have hf := h.fits userID r hr
  refine h.accept hr (.inl hs) (fun c hc => ?_) (fun _ hh => hh) (hf.count hs hl)
  exact (hf.active secret hs c hc).trans_lt hl

theorem Counting.rotate {g : ℕ} (hr : s.db.factors userID = some r) :
    Counting (s.setFactor userID (some (r.rotate g n))) := by
  have hh : ∀ held, (r.rotate g n).Holds held → r.Holds held := fun _ hhl => hhl
  exact h.replace hr hh (h.fits userID r hr).rotate

theorem Counting.remove : Counting (s.setFactor userID none) :=
  h.setFactor (fun f _ hf => by cases hf) fun f hf => by cases hf

/-- The tables of codes and of users do not matter. -/
theorem Counting.congr (hf : t.db.factors = s.db.factors) (hs : t.secrets = s.secrets)
    (ha : t.accepted = s.accepted) (hc : t.calls = s.calls) : Counting t := by
  refine ⟨?_, ?_, ?_, ?_, ?_, ?_⟩
  · rw [hf, hs]
    exact h.owned
  · rw [hs]
    exact h.single
  · rw [ha, hs]
    exact h.known
  · rw [hf, ha]
    exact h.fits
  · rw [ha]
    exact h.ordered
  · rw [hc]
    exact h.calls

end

end Solovey.Accounts
