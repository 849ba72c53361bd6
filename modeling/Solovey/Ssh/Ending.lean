import Solovey.Data.Machine
import Solovey.Ssh.Safe
import Solovey.Ssh.Undo

/-!
# How SSH policy candidates end

The reconciliation of the manager ends the open candidate if it returns without an error, and at
most one candidate is open. This says how candidates end in every run of the manager, crashes
included (`candidates_end_safely`).
-/

namespace Solovey.Ssh

open Text (Str)
open Data List
open Data.Program (bind_done wp wp_bind wp_frame wp_mono wp_weaken)

variable {D : Digests} {s t u : World} {c : Candidate} {M : Manager}

/-! ## Rollback and reconciliation -/

/-- The bound candidate is of the same operation, at the same revision and state. -/
theorem binds_persistedEndpoint (hs : Inv s) :
    wp (react D) Onward (M.bindPersistedEndpoint c) (fun o t => Inv t ∧ Quietly s t ∧
      o.1.operationID = c.operationID ∧ (s.Stores c → t.Stores o.1)) s := by
  unfold Manager.bindPersistedEndpoint
  split
  · split <;> exact ⟨hs, quietly_refl, rfl, fun h => h⟩
  · refine onward_quiet hs rfl rfl trivial fun st t _ _ ht hq => ?_
    simp only [bind_done]
    split
    · split <;> exact ⟨ht, hq, rfl, hq.stores⟩
    · exact ⟨ht, hq, rfl, hq.stores⟩

theorem ends_bindAndRollback {r : ReasonCode} (hs : Inv s) :
    wp (react D) Onward (M.bindAndRollback c r) (Ends s c) s := by
  rw [Manager.bindAndRollback, wp_bind]
  refine wp_mono ?_ (binds_persistedEndpoint hs)
  rintro ⟨b, errors⟩ t ⟨ht, -, hid, hst⟩
  have he : ∀ errors u, Ends t b errors u → Ends s c errors u := by
    intro errors u h hn hs
    exact hid ▸ h hn (hst hs)
  cases errors with
  | nil => exact wp_mono he (ends_rollback ht)
  | cons e rest => exact wp_mono he (ends_requireManualRecovery ht)

theorem safe_rollbackOperation {request : RollbackRequest} :
    Safe D Step (M.rollbackOperation request) fun _ => True := by
  refine safe_call (fun _ => trivial) fun found => ?_
  simp only [bind_done]
  split
  · split
    · exact safe_done trivial
    · have hb : ∀ c, Safe D Onward (M.bindPersistedEndpoint c) fun _ => True :=
        fun c s hs => wp_mono (fun _ _ _ => trivial) (binds_persistedEndpoint hs)
      refine safe_bind Step.inv (safe_of_onward (hb _)) fun b _ => ?_
      have hr : ∀ c r, Safe D Onward (M.rollback c r) fun _ => True :=
        fun c r s hs => wp_mono (fun _ _ _ => trivial) (ends_rollback hs)
      split
      · refine safe_bind Step.inv (safe_of_onward (hr _ _)) fun errors _ => ?_
        refine safe_call (fun _ => trivial) fun current => ?_
        simp only [bind_done]
        split <;> exact safe_done trivial
      · exact safe_rolled safe_requireManualRecovery
  · exact safe_done trivial

theorem ends_refuseRestored (hs : Inv s) :
    wp (react D) Onward (refuseRestored c) (Ends s c) s := ends_requireManualRecovery hs

theorem safe_reconcileExpired : Safe D Onward M.reconcileExpired fun _ => True := by
  refine safe_bind Onward.inv safe_reconcileCompletedStageReleases fun errors _ => ?_
  split
  · refine onward_call rfl (fun _ => trivial) fun active => ?_
    simp only [bind_done]
    split
    · exact safe_done trivial
    · exact safe_done trivial
    · refine onward_call rfl (fun _ => trivial) fun now => ?_
      simp only [bind_done]
      split
      · exact fun s hs => wp_mono (fun _ _ _ => trivial) (ends_refuseRestored hs)
      · split
        · exact fun s hs => wp_mono (fun _ _ _ => trivial) (ends_bindAndRollback hs)
        · exact safe_done trivial
  · exact safe_done trivial

theorem ends_rollbackStaged (hs : Inv s) (found : Lookup Checkpoint) :
    wp (react D) Onward (M.rollbackStaged c found) (Ends s c) s := by
  cases found with
  | found k =>
    rw [Manager.rollbackStaged, wp_bind]
    refine wp_mono ?_ (wp_frame (F := Inv) (fun h _ => h.inv) hs
      (moves_advance hs (by simp) (by simp)))
    rintro ⟨next, errors⟩ t ⟨hm, ht⟩
    cases errors with
    | cons e rest => exact ends_of_ne_nil (by simp)
    | nil =>
      refine wp_mono ?_ (ends_bindAndRollback ht)
      intro errors u h hn hst
      have hid : next.operationID = c.operationID := hm.operationID rfl
      have hs' : s.Stores (M.withCheckpoint c k) := hst
      rw [← hid]
      exact h hn (hm.stores rfl hs')
  | missing | failed => exact ends_of_ne_nil (by simp)

theorem ends_recoverStage (hs : Inv s) : wp (react D) Onward (M.recoverStage c) (Ends s c) s := by
  unfold Manager.recoverStage
  split
  · refine onward_quiet hs rfl rfl trivial fun reply s₁ _ _ h₁ hq₁ => ?_
    simp only [bind_done]
    split
    · intro w s₂ hw
      have hst := step_keeps hw h₁ rfl trivial
      refine ⟨hst, ?_⟩
      simp only [bind_done]
      rcases react_saveCheckpoint hw with ⟨he, -⟩ | ⟨he, ks, -, -, hs₂⟩
      · obtain ⟨e, rest, hc⟩ := exists_cons_of_ne_nil he
        simp only [hc]
        exact ends_of_ne_nil (by simp)
      · simp only [he]
        refine onward_quiet hst.1.inv rfl rfl trivial fun found s₃ _ _ h₃ hq₃ => ?_
        simp only [bind_done]
        refine wp_mono ?_ (ends_rollbackStaged h₃ found)
        intro errors t h hn hsr
        refine h hn (hq₃.stores ?_)
        rw [hs₂]
        exact hq₁.stores hsr
    · exact wp_mono (fun _ _ h => hq₁.ends h) (ends_requireManualRecovery h₁)
  · exact ends_requireManualRecovery hs

theorem ends_recoverPreflighted (hs : Inv s) :
    wp (react D) Onward (M.recoverPreflighted c) (Ends s c) s := by
  refine onward_quiet hs rfl rfl trivial fun found t _ _ ht hq => ?_
  simp only [bind_done]
  split
  · exact wp_mono (fun _ _ h => hq.ends h) (ends_recoverStage ht)
  · exact wp_mono (fun _ _ h => hq.ends h) (ends_rollbackStaged ht found)

theorem react_active_found (h : react D s .activeCandidate (.found c) = some t) :
    c ∈ s.rows ∧ c.state.terminal = false := by
  obtain ⟨u, hu, -⟩ := Option.map_eq_some_iff.mp h
  simp only [World.respond, World.lookupCandidate] at hu
  split at hu
  next ha =>
    simp only [Bool.and_eq_true, decide_eq_true_eq, World.isActive, Bool.not_eq_true'] at ha
    exact ⟨ha.1.1, ha.1.2.1⟩
  · cases hu

def AllTerminal (w : World) : Prop := ∀ c ∈ w.rows, c.state.terminal = true

/-- If no candidate is active, all are terminal: of those that are not, the first is active. -/
theorem react_active_missing (h : react D s .activeCandidate .missing = some t) :
    AllTerminal s := by
  obtain ⟨u, hu, -⟩ := Option.map_eq_some_iff.mp h
  simp only [World.respond, World.lookupCandidate] at hu
  split at hu
  · cases hu
  next hn =>
    intro c hc
    by_contra ho
    have hm : c ∈ s.rows.filter fun d => !d.state.terminal := mem_filter.mpr ⟨hc, by simpa using ho⟩
    obtain ⟨first, hf⟩ : ∃ first, first ∈ (s.rows.filter fun d => !d.state.terminal).argmin
        Candidate.createdAt := by
      cases hmn : (s.rows.filter fun d => !d.state.terminal).argmin Candidate.createdAt with
      | none =>
        rw [argmin_eq_none.mp hmn] at hm
        cases hm
      | some first => exact ⟨first, rfl⟩
    obtain ⟨hr, hfr⟩ := mem_filter.mp (argmin_mem hf)
    refine hn (any_eq_true.mpr ⟨first, hr, ?_⟩)
    rw [World.isActive, hfr, Bool.true_and, all_eq_true]
    intro d hd
    cases ht : d.state.terminal with
    | true => rfl
    | false =>
      have hle := le_of_mem_argmin (mem_filter.mpr ⟨hd, by simp [ht]⟩) hf
      simpa using hle

/-- The candidates other than one stay terminal. -/
theorem others_step {op : Str} (h : Onward s t)
    (hs : ∀ d ∈ s.rows, d.operationID ≠ op → d.state.terminal = true) :
    ∀ d ∈ t.rows, d.operationID ≠ op → d.state.terminal = true := by
  intro d hd hne
  obtain ⟨o, ho, hid⟩ := h.2 d hd
  have ht := hs o ho (hid ▸ hne)
  rw [h.1.terminal o ho ht d hd hid.symm]
  exact ht

/-- A program that ends the one open candidate ends all. -/
theorem allTerminal_of_ends {p : Prog Errors} (hs : Inv s) (hc : c ∈ s.rows)
    (ho : c.state.terminal = false) (h : wp (react D) Onward p (Ends s c) s) :
    wp (react D) Onward p (fun errors t => errors = [] → AllTerminal t) s := by
  have hot : ∀ d ∈ s.rows, d.operationID ≠ c.operationID → d.state.terminal = true := by
    intro d hd hne
    by_contra hd'
    exact hne (hs.single d hd c hc (by simpa using hd') ho)
  refine wp_mono ?_ (wp_frame (F := fun t =>
    ∀ d ∈ t.rows, d.operationID ≠ c.operationID → d.state.terminal = true) others_step hot h)
  rintro errors t ⟨he, hr⟩ hn d hd
  by_cases hid : d.operationID = c.operationID
  · exact he hn (hs.stores hc) d hd hid
  · exact hr d hd hid

/-- After a startup without errors no candidate is open. -/
theorem ends_reconcileStartup (hs : Inv s) : wp (react D) Onward M.reconcileStartup
      (fun errors t => errors = [] → AllTerminal t) s := by
  rw [Manager.reconcileStartup, wp_bind]
  refine wp_mono ?_ (wp_frame (F := Inv) (fun h _ => h.inv) hs
    (safe_reconcileCompletedStageReleases s hs))
  rintro errors s₁ ⟨-, h₁⟩
  cases errors with
  | cons e rest =>
    intro hn
    cases hn
  | nil =>
    refine onward_quiet h₁ rfl rfl trivial fun active s₂ ha _ h₂ hq₂ => ?_
    simp only [bind_done]
    cases active with
    | missing =>
      have ht := react_active_missing ha
      intro w s₃ hw
      have hst := step_keeps hw h₂ rfl trivial
      refine ⟨hst, fun _ d hd => ?_⟩
      obtain ⟨o, hol, hid⟩ := hst.2 d hd
      have ho' : o.state.terminal = true := ht o (hq₂.rows ▸ hol)
      rw [hst.1.terminal o hol ho' d hd hid.symm]
      exact ho'
    | failed =>
      intro hn
      cases hn
    | found c =>
      obtain ⟨hc, ho⟩ := react_active_found ha
      refine allTerminal_of_ends h₂ (hq₂.rows ▸ hc) ho ?_
      dsimp only
      split
      · exact ends_refuseRestored h₂
      split
      · exact ends_requireManualRecovery h₂
      split
      · exact ends_recoverPreflighted h₂
      · exact ends_bindAndRollback h₂

/-! ## Runs -/

inductive Method
  | start (request : StartRequest)
  | confirm (request : ConfirmRequest)
  | rollback (request : RollbackRequest)
  | reconcileExpired
  | reconcileStartup

/-- The program of a method, down to its errors. -/
def Manager.program (M : Manager) : Method → Prog Errors
  | .start request => do
    let out ← M.start request
    pure out.2
  | .confirm request => do
    let out ← M.confirm request
    pure out.2
  | .rollback request => do
    let out ← M.rollbackOperation request
    pure out.2
  | .reconcileExpired => M.reconcileExpired
  | .reconcileStartup => M.reconcileStartup

/-- The manager on an empty database. -/
def Manager.system (M : Manager) : System (Machine World Method Effect Reply Errors) (Move Method) :=
  Machine.system (fun w => w = ⟨[], [], [], [], [], []⟩) (react M.digests) M.program

/-- What a method promises at its return. -/
def Promised (m : Method) (errors : Errors) (w : World) : Prop :=
  m = .reconcileStartup → errors = [] → AllTerminal w

/-- What is promised of each method. -/
theorem verified_program (m : Method) (hs : Inv s) :
    wp (react M.digests) Step (M.program m) (Promised m) s := by
  have ho : ∀ {p : Prog Errors}, m ≠ .reconcileStartup → Safe M.digests Step p (fun _ => True) →
      wp (react M.digests) Step p (Promised m) s :=
    fun hm h => wp_mono (fun _ _ _ heq => absurd heq hm) (h s hs)
  cases m with
  | start request => exact ho (by simp) (safe_bind Step.inv safe_start fun _ _ => safe_done trivial)
  | confirm request =>
    exact ho (by simp) (safe_bind Step.inv safe_confirm fun _ _ => safe_done trivial)
  | rollback request =>
    exact ho (by simp) (safe_bind Step.inv safe_rollbackOperation fun _ _ => safe_done trivial)
  | reconcileExpired => exact ho (by simp) (safe_of_onward safe_reconcileExpired)
  | reconcileStartup =>
    exact wp_weaken (fun h => h.1) (wp_mono (fun _ _ h _ => h) (ends_reconcileStartup hs))

theorem inv_empty : Inv ⟨[], [], [], [], [], []⟩ := by
  refine ⟨nodup_nil, ?_, ?_, ?_, ?_⟩
  · exact fun c hc => absurd hc not_mem_nil
  · exact fun c hc => absurd hc not_mem_nil
  · exact fun c hc => absurd hc not_mem_nil
  · rintro op ⟨c, p, hev, -⟩
    cases hev

theorem sound_of_reachable {s : Machine World Method Effect Reply Errors}
    (hs : M.system.Reachable s) : Machine.Sound (react M.digests) Inv Step Promised s :=
  Machine.sound_of_reachable (by rintro w rfl; exact inv_empty) (fun h => h.inv)
    (fun m _ hw => verified_program m hw) hs

def sampleDrive (m : Method) (w : World) : Option (Errors × World) :=
  Program.drive (react sampleManager.digests) (sampleReply fun _ => false)
    (sampleManager.program m) w

theorem reachable_sampleDrive {m : Method} {w : World} {x : Errors × World}
    (hw : sampleManager.system.Reachable ⟨w, none⟩) (h : sampleDrive m w = some x) :
    sampleManager.system.Reachable ⟨x.2, some (m, .done x.1)⟩ :=
  Machine.reachable_of_runs (Program.runs_of_drive h) (Machine.reachable_enter hw)

/-- At every moment of every run, crashes included, at most one candidate is open. -/
theorem one_open_candidate (M : Manager) {s : Machine World Method Effect Reply Errors}
    (hs : M.system.Reachable s) :
    (s.world.rows.filter fun c => !c.state.terminal).length ≤ 1 := by
  have hi := (sound_of_reachable hs).1
  have hn := (hi.unique.of_map _).filter fun c => !c.state.terminal
  rw [← toFinset_card_of_nodup hn, Finset.card_le_one]
  intro c hc d hd
  simp only [mem_toFinset, mem_filter, Bool.not_eq_true'] at hc hd
  exact hi.eq_of_id hc.1 hd.1 (hi.single c hc.1 d hd.1 hc.2 hd.2)

theorem one_open_candidate_started : ∃ x, sampleDrive (.start sampleRequest) ⟨[], [], [], [], [], []⟩
      = some x ∧ (x.2.rows.filter fun c => !c.state.terminal).length ≤ 1 := by
  obtain ⟨x, hx⟩ : ∃ x, sampleDrive (.start sampleRequest) ⟨[], [], [], [], [], []⟩ = some x :=
    ⟨_, rfl⟩
  exact ⟨x, hx, one_open_candidate sampleManager (reachable_sampleDrive ⟨_, ⟨rfl, rfl⟩, .refl⟩ hx)⟩

end Solovey.Ssh
