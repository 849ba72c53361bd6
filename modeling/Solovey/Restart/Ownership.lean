import Solovey.Restart.Manager

/-!
# Who owns the in-flight flag

An owner of the flag is a goroutine whose operation runs, a goroutine that has begun to schedule, a
timer that is armed, or a fired callback that has not ended. There is one owner while the flag is
set and none while it is not, so the step that clears the flag is always the owner's own, and a
cancel clears it only for the timer that it stops.
-/

namespace Solovey.Restart

open Solovey.Data

inductive Owner
  | goroutine (g : ℕ)
  | timer (i : ℕ)

def Owns (s : State) : Owner → Prop
  | .goroutine g => s.pcs g = .operate ∨ s.pcs g = .arm
  | .timer i => s.timers i = .armed ∨ s.timers i = .fired ∨ s.timers i = .loaded

/-- One owner while the flag is set, none while it is not. -/
def Exclusive (s : State) : Prop :=
  (s.inFlight = true ∧ ∃ o, Owns s o ∧ ∀ o', Owns s o' → o' = o) ∨
    (s.inFlight = false ∧ ∀ o, ¬Owns s o)

/-! ## What updates do to ownership -/

variable {s : State} {g : ℕ} {pc : Pc} {o : Owner}

theorem owns_moveTo : Owns (s.moveTo g pc) o ↔
      (o = .goroutine g ∧ (pc = .operate ∨ pc = .arm)) ∨ (o ≠ .goroutine g ∧ Owns s o) := by
  cases o with
  | goroutine h =>
    by_cases hgh : h = g
    · subst hgh
      simp [Owns, State.moveTo]
    · simp [Owns, State.moveTo, hgh]
  | timer i => simp [Owns, State.moveTo]

variable {i : ℕ} {ph : TimerPhase}

theorem owns_setTimer : Owns (s.setTimer i ph) o ↔
      (o = .timer i ∧ (ph = .armed ∨ ph = .fired ∨ ph = .loaded)) ∨ (o ≠ .timer i ∧ Owns s o) := by
  cases o with
  | goroutine g => simp [Owns, State.setTimer]
  | timer j =>
    by_cases hij : j = i
    · subst hij
      simp [Owns, State.setTimer]
    · simp [Owns, State.setTimer, hij]

variable {t : State}

/-- Owners depend on goroutines and timers only. -/
theorem owns_congr (hp : t.pcs = s.pcs) (ht : t.timers = s.timers) (o : Owner) :
    Owns t o ↔ Owns s o := by
  cases o <;> simp [Owns, hp, ht]

theorem Exclusive.unique (h : Exclusive s) {o' : Owner} (ho : Owns s o) (ho' : Owns s o') :
    o' = o := by
  rcases h with ⟨-, p, -, hu⟩ | ⟨-, hn⟩
  · rw [hu o ho, hu o' ho']
  · exact absurd ho (hn o)

theorem Exclusive.inFlight (h : Exclusive s) (ho : Owns s o) : s.inFlight = true := by
  rcases h with ⟨hf, -⟩ | ⟨-, hn⟩
  · exact hf
  · exact absurd ho (hn o)

theorem Exclusive.none (h : Exclusive s) (hf : s.inFlight = false) (o : Owner) : ¬Owns s o := by
  rcases h with ⟨ht, -⟩ | ⟨-, hn⟩
  · rw [hf] at ht
    cases ht
  · exact hn o

/-! ## One step -/

section

variable {s t : State}

/-- Nobody's ownership changes. -/
theorem Exclusive.of_same (h : Exclusive s) (hfl : t.inFlight = s.inFlight)
    (how : ∀ o, Owns t o ↔ Owns s o) : Exclusive t := by
  rcases h with ⟨ht, p, hp, hu⟩ | ⟨hf, hn⟩
  · exact .inl ⟨hfl.trans ht, p, (how p).mpr hp, fun o ho => hu o ((how o).mp ho)⟩
  · exact .inr ⟨hfl.trans hf, fun o ho => hn o ((how o).mp ho)⟩

variable {p : Owner}

/-- A free manager gets its owner. -/
theorem Exclusive.claimed (h : Exclusive s) (hfr : s.inFlight = false) (hf : t.inFlight = true)
    (how : ∀ o, Owns t o ↔ o = p ∨ Owns s o) : Exclusive t := by
  refine .inl ⟨hf, p, (how p).mpr (.inl rfl), fun o ho => ?_⟩
  exact ((how o).mp ho).resolve_right (h.none hfr o)

/-- The owner's claim passes to another. -/
theorem Exclusive.passed (h : Exclusive s) {q : Owner} (hp : Owns s p)
    (hf : t.inFlight = s.inFlight) (how : ∀ o, Owns t o ↔ o = q ∨ (o ≠ p ∧ Owns s o)) :
    Exclusive t := by
  refine .inl ⟨hf.trans (h.inFlight hp), q, (how q).mpr (.inl rfl), fun o ho => ?_⟩
  rcases (how o).mp ho with rfl | ⟨hne, ho⟩
  · rfl
  · exact absurd (h.unique hp ho) hne

/-- The owner's claim ends. -/
theorem Exclusive.released (h : Exclusive s) (hp : Owns s p) (hf : t.inFlight = false)
    (how : ∀ o, Owns t o → o ≠ p ∧ Owns s o) : Exclusive t := by
  refine .inr ⟨hf, fun o ho => ?_⟩
  obtain ⟨hne, ho⟩ := how o ho
  exact hne (h.unique hp ho)

end

/-- The owner whose claim an action ends, if it ends one. -/
def Ends (s : State) : Action → Owner → Prop
  | .finish g, o => o = .goroutine g
  | .endPending i, o => o = .timer i
  | .enter g _, o => s.pcs g = .enter .cancelPending ∧
      ∃ i, s.pendingTimer = some i ∧ s.timers i = .armed ∧ o = .timer i
  | _, _ => False

/-- What a step can do to the claim: nothing, take it while it is free, hand it from the scheduling
call to its timer, or end it. -/
inductive Effect (s : State) (a : Action) (t : State) : Prop
  | same : t.inFlight = s.inFlight → (∀ o, Owns t o ↔ Owns s o) → Effect s a t
  | claimed (p : Owner) : s.inFlight = false → t.inFlight = true →
      (∀ o, Owns t o ↔ o = p ∨ Owns s o) → Effect s a t
  | passed (g i : ℕ) : a = .arm g i → Owns s (.goroutine g) → t.inFlight = s.inFlight →
      (∀ o, Owns t o ↔ o = .timer i ∨ (o ≠ .goroutine g ∧ Owns s o)) → Effect s a t
  | ended (p : Owner) : Ends s a p → Owns s p → t.inFlight = false →
      (∀ o, Owns t o → o ≠ p ∧ Owns s o) → Effect s a t

theorem owns_moveTo_same (hb : ¬Owns s (.goroutine g)) (ha : ¬(pc = .operate ∨ pc = .arm))
    (o : Owner) : Owns (s.moveTo g pc) o ↔ Owns s o := by
  rw [owns_moveTo]
  constructor
  · rintro (⟨-, hpc⟩ | ⟨-, ho⟩)
    · exact absurd hpc ha
    · exact ho
  · intro ho
    refine .inr ⟨?_, ho⟩
    rintro rfl
    exact hb ho

variable {a : Action}

theorem moveTo_same (hb : ¬Owns s (.goroutine g)) (ha : ¬(pc = .operate ∨ pc = .arm)) :
    Effect s a (s.moveTo g pc) :=
  .same rfl (owns_moveTo_same hb ha)

theorem claim_claimed (hf : s.inFlight = false) (hb : ¬Owns s (.goroutine g))
    (ha : pc = .operate ∨ pc = .arm) :
    Effect s a (s.claim g pc) := by
  refine .claimed (.goroutine g) hf rfl fun o => ?_
  have hs : Owns (s.claim g pc) o ↔ Owns (s.moveTo g pc) o := owns_congr rfl rfl o
  rw [hs, owns_moveTo]
  constructor
  · rintro (⟨rfl, -⟩ | ⟨-, ho⟩)
    · exact .inl rfl
    · exact .inr ho
  · rintro (rfl | ho)
    · exact .inl ⟨rfl, ha⟩
    · refine .inr ⟨?_, ho⟩
      rintro rfl
      exact hb ho

/-- A timer that stays with its callback stays the owner. -/
theorem setTimer_same (h : (ph = .armed ∨ ph = .fired ∨ ph = .loaded) ↔ Owns s (.timer i)) :
    Effect s a (s.setTimer i ph) := by
  refine .same rfl fun o => ?_
  rw [owns_setTimer]
  by_cases ho : o = .timer i
  · subst ho
    simp [h]
  · simp [ho]

variable {cancelled : Bool}

theorem cancel_effect (hpc : s.pcs g = .enter .cancelPending) :
    Effect s (.enter g cancelled) (s.cancel.moveTo g .idle) := by
  have hb : ¬Owns s (.goroutine g) := by simp [Owns, hpc]
  have hm : ∀ o, Owns (s.moveTo g .idle) o ↔ Owns s o := owns_moveTo_same hb (by simp)
  cases ht : s.pendingTimer with
  | none =>
    have hc : s.cancel = s := by rw [State.cancel, ht]
    rw [hc]
    exact .same rfl hm
  | some i =>
    by_cases ha : s.timers i = .armed
    · have hc : s.cancel =
          { s.setTimer i .stopped with pendingTimer := none, inFlight := false } := by
        simp [State.cancel, ht, ha]
      refine .ended (.timer i) ⟨hpc, i, ht, ha, rfl⟩ (.inl ha) (by rw [hc]; rfl)
        fun o ho => ?_
      rw [hc] at ho
      have hs : Owns ((s.setTimer i .stopped).moveTo g .idle) o := (owns_congr rfl rfl o).mp ho
      rw [owns_moveTo] at hs
      rcases hs with ⟨-, h⟩ | ⟨-, hs⟩
      · rcases h with h | h <;> cases h
      · rcases owns_setTimer.mp hs with ⟨-, h⟩ | hr
        · rcases h with h | h | h <;> cases h
        · exact hr
    · have hc : s.cancel = { s with pendingTimer := none } := by simp [State.cancel, ht, ha]
      rw [hc]
      exact .same rfl fun o => (owns_congr rfl rfl o).trans (hm o)

theorem enter_effect {c : Call} (hpc : s.pcs g = .enter c) :
    Effect s (.enter g cancelled) (s.enter g cancelled c) := by
  have hb : ¬Owns s (.goroutine g) := by simp [Owns, hpc]
  have hi : Effect s (.enter g cancelled) (s.moveTo g .idle) := moveTo_same hb (by simp)
  have hw : Effect s (.enter g cancelled) s := .same rfl fun _ => Iff.rfl
  cases c with
  | run | scheduleRestart =>
    rw [State.enter]
    split
    · exact hi
    next hf => exact claim_claimed (by simpa using hf) hb (by simp)
  | runBlocking =>
    rw [State.enter]
    split
    · exact hw
    next hf => exact claim_claimed (by simpa using hf) hb (by simp)
  | runBlockingContext =>
    rw [State.enter]
    split
    · exact hi
    · split
      · exact hw
      next hf => exact claim_claimed (by simpa using hf) hb (by simp)
  | scheduleRestartBlocking =>
    rw [State.enter]
    split
    · split
      · exact hi
      · exact hw
    next hf => exact claim_claimed (by simpa using hf) hb (by simp)
  | cancelPending => exact cancel_effect hpc

theorem step_effect (h : step s a = some t) : Effect s a t := by
  cases a with
  | call g call =>
    obtain ⟨hpc, rfl⟩ := Option.ite_some_none_eq_some.mp h
    exact moveTo_same (by simp [Owns, hpc]) (by simp)
  | enter g cancelled =>
    simp only [step] at h
    split at h
    · next call hpc =>
      cases h
      exact enter_effect hpc
    · cases h
  | finish g =>
    obtain ⟨hpc, rfl⟩ := Option.ite_some_none_eq_some.mp h
    refine .ended (.goroutine g) rfl (.inl hpc) rfl fun o ho => ?_
    have hm : Owns (s.moveTo g .idle) o := (owns_congr rfl rfl o).mp ho
    rcases owns_moveTo.mp hm with ⟨-, h⟩ | hr
    · rcases h with h | h <;> cases h
    · exact hr
  | arm g i =>
    obtain ⟨hpc, rfl⟩ := Option.ite_some_none_eq_some.mp h
    refine .passed g i rfl (.inr hpc.1) rfl fun o => ?_
    have hs : Owns (s.arm g i) o ↔ Owns ((s.setTimer i .armed).moveTo g .idle) o :=
      owns_congr rfl rfl o
    have hu : ¬Owns s (.timer i) := by simp [Owns, hpc.2]
    rw [hs, owns_moveTo, owns_setTimer]
    constructor
    · rintro (⟨-, h⟩ | ⟨hne, ⟨rfl, -⟩ | ⟨-, ho⟩⟩)
      · rcases h with h | h <;> cases h
      · exact .inl rfl
      · exact .inr ⟨hne, ho⟩
    · rintro (rfl | ⟨hne, ho⟩)
      · exact .inr ⟨by simp, .inl ⟨rfl, .inl rfl⟩⟩
      · refine .inr ⟨hne, .inr ⟨?_, ho⟩⟩
        rintro rfl
        exact hu ho
  | fire i =>
    obtain ⟨ha, rfl⟩ := Option.ite_some_none_eq_some.mp h
    exact setTimer_same (by simp [Owns, ha])
  | load i =>
    obtain ⟨hf, rfl⟩ := Option.ite_some_none_eq_some.mp h
    exact setTimer_same (by simp [Owns, hf])
  | endPending i =>
    obtain ⟨hl, rfl⟩ := Option.ite_some_none_eq_some.mp h
    refine .ended (.timer i) rfl (.inr (.inr hl)) rfl fun o ho => ?_
    have hst : Owns (s.setTimer i .ended) o := (owns_congr rfl rfl o).mp ho
    rcases owns_setTimer.mp hst with ⟨-, h⟩ | hr
    · rcases h with h | h | h <;> cases h
    · exact hr
  | signal i =>
    obtain ⟨he, rfl⟩ := Option.ite_some_none_eq_some.mp h
    exact setTimer_same (by simp [Owns, he])

/-! ## Whole runs -/

theorem Exclusive.step (h : Exclusive s) (hs : step s a = some t) : Exclusive t := by
  cases step_effect hs with
  | same hf ho => exact h.of_same hf ho
  | claimed p hfr hf ho => exact h.claimed hfr hf ho
  | passed g i ha hp hf ho => exact h.passed hp hf ho
  | ended p he hp hf ho => exact h.released hp hf ho

theorem reachable_exclusive (h : system.Reachable s) : Exclusive s := by
  refine h.invariant (fun hi => ?_) fun hs hst => hs.step hst
  rw [show _ = State.new from hi]
  refine .inr ⟨rfl, fun o => ?_⟩
  cases o <;> simp [Owns, State.new]

theorem setTimer_stopped {j : ℕ} (hs : s.timers i = .stopped) (hj : s.timers j ≠ .stopped) :
    (s.setTimer j ph).timers i = .stopped := by
  have hne : i ≠ j := by
    rintro rfl
    exact hj hs
  simp [State.setTimer, hne, hs]

theorem enter_stopped (c : Call) (hs : s.timers i = .stopped) :
    (s.enter g cancelled c).timers i = .stopped := by
  cases c with
  | cancelPending =>
    rw [State.enter, State.cancel]
    split
    · exact hs
    next j hj =>
      split
      · next ha => exact setTimer_stopped hs (by simp [ha])
      · exact hs
  | run | runBlocking | runBlockingContext | scheduleRestart | scheduleRestartBlocking =>
    -- these only claim the flag or give up
    rw [State.enter]
    repeat' split
    all_goals exact hs

/-- A stopped timer stays stopped. -/
theorem stopped_step (hst : step s a = some t) (hs : s.timers i = .stopped) :
    t.timers i = .stopped := by
  cases a with
  | enter g cancelled =>
    simp only [step] at hst
    split at hst
    · cases hst
      exact enter_stopped _ hs
    · cases hst
  | call g call | finish g =>
    obtain ⟨-, rfl⟩ := Option.ite_some_none_eq_some.mp hst
    exact hs
  | arm g j =>
    obtain ⟨h, rfl⟩ := Option.ite_some_none_eq_some.mp hst
    exact setTimer_stopped hs (by simp [h.2])
  | fire j | load j | endPending j | signal j =>
    obtain ⟨h, rfl⟩ := Option.ite_some_none_eq_some.mp hst
    exact setTimer_stopped hs (by simp [h])

/-- In every reachable state the flag is set exactly when there is exactly one owner; a step clears
it only by ending the owner's own claim and takes no claim from anyone else; and a timer that was
stopped never sends its signal. -/
theorem restart_ownership {s : State} (h : system.Reachable s) :
    (s.inFlight = true ↔ ∃! o, Owns s o) ∧ (s.inFlight = false → ∀ o, ¬Owns s o) ∧
    (∀ a t, step s a = some t →
      (s.inFlight = true → t.inFlight = false → ∃ o, Owns s o ∧ Ends s a o) ∧
      ∀ o, Owns s o → ¬Ends s a o → t.inFlight = true ∧
        (Owns t o ∨ ∃ g i, a = .arm g i ∧ o = .goroutine g ∧ Owns t (.timer i))) ∧
    ∀ i, s.timers i = .stopped → ∀ t, system.Later s t →
      t.timers i = .stopped ∧ step t (.signal i) = none := by
  have hex := reachable_exclusive h
  refine ⟨⟨fun hfl => ?_, fun how => hex.inFlight how.choose_spec.1⟩, hex.none,
    fun a t hs => ⟨fun ht hf => ?_, fun o ho he => ?_⟩, fun i hi t hl => ?_⟩
  · rcases hex with ⟨-, o, ho, hun⟩ | ⟨hf, -⟩
    · exact ⟨o, ho, hun⟩
    · rw [hfl] at hf
      cases hf
  · cases step_effect hs with
    | claimed p hfr _ _ => rw [ht] at hfr; cases hfr
    | same hfl _ | passed _ _ _ _ hfl _ => rw [hfl, ht] at hf; cases hf
    | ended p he hp _ _ => exact ⟨p, hp, he⟩
  · have ht := hex.inFlight ho
    cases step_effect hs with
    | same hfl hon => exact ⟨hfl.trans ht, .inl ((hon o).mpr ho)⟩
    | claimed p hfr _ _ => rw [ht] at hfr; cases hfr
    | passed g i ha hp hfl hon =>
      have how := hex.unique hp ho
      exact ⟨hfl.trans ht, .inr ⟨g, i, ha, how, (hon _).mpr (.inl rfl)⟩⟩
    | ended p he' hp _ _ =>
      rw [hex.unique hp ho] at he
      exact absurd he' he
  · have hst : t.timers i = .stopped := hl.preserves (I := fun u => u.timers i = .stopped)
        (fun hu hs => stopped_step hs hu) hi
    exact ⟨hst, by simp [step, hst]⟩

/-- A restart is scheduled and cancelled: its timer is the one owner, and then nobody is. -/
theorem restart_ownership_cancelled :
    ∃ armed cancelled, [Action.call 0 .scheduleRestart, .enter 0 false, .arm 0 7].foldlM step .new =
        some armed ∧ (∃! o, Owns armed o) ∧
      [Action.call 1 .cancelPending, .enter 1 false].foldlM step armed = some cancelled ∧
      (∀ o, ¬Owns cancelled o) ∧ step cancelled (.signal 7) = none := by
  obtain ⟨armed, ha⟩ : ∃ armed, [Action.call 0 .scheduleRestart, .enter 0 false,
      .arm 0 7].foldlM step .new = some armed := ⟨_, rfl⟩
  obtain ⟨cancelled, hc⟩ : ∃ cancelled, [Action.call 1 .cancelPending,
      .enter 1 false].foldlM step armed = some cancelled := by
    cases ha
    exact ⟨_, rfl⟩
  have hr := System.reachable_of_foldlM ha
  have hr' := hr.later (System.later_of_foldlM hc)
  refine ⟨armed, cancelled, ha, (restart_ownership hr).1.mp ?_, hc,
    (restart_ownership hr').2.1 ?_, ((restart_ownership hr').2.2.2 7 ?_ _ .refl).2⟩
  all_goals
    cases ha
    cases hc
    rfl

end Solovey.Restart
