import Mathlib

/-!
# Transition systems

States, labelled steps and the states that runs reach. The runs of a guarded system are the runs all
of whose steps meet a condition on the state before them and on their label.
-/

namespace Solovey.Data

structure System (σ : Type*) (α : Type*) where
  initial : σ → Prop
  step : σ → α → σ → Prop

namespace System

variable {σ α : Type*} (S : System σ α)

/-- The states that a run from `s` can reach. -/
inductive Later (s : σ) : σ → Prop
  | refl : Later s s
  | tail {t u : σ} {a : α} : Later s t → S.step t a u → Later s u

def Reachable (t : σ) : Prop := ∃ s, S.initial s ∧ S.Later s t

/-- The runs of `S` all of whose steps meet the condition. -/
def guarded (ok : σ → α → Prop) : System σ α where
  initial := S.initial
  step s a t := ok s a ∧ S.step s a t

variable {S}

theorem Later.preserves {I : σ → Prop} (hst : ∀ {s a t}, I s → S.step s a t → I t) {s t : σ}
    (h : S.Later s t) (hs : I s) : I t := by
  induction h with
  | refl => exact hs
  | tail _ hl ih => exact hst ih hl

theorem Later.trans {s t u : σ} (hst : S.Later s t) (htu : S.Later t u) : S.Later s u := by
  induction htu with
  | refl => exact hst
  | tail _ hl ih => exact .tail ih hl

theorem Later.of_guarded {ok : σ → α → Prop} {s t : σ} (h : (S.guarded ok).Later s t) :
    S.Later s t := by
  induction h with
  | refl => exact .refl
  | tail _ hl ih => exact .tail ih hl.2

theorem Reachable.step {s t : σ} {a : α} (hs : S.Reachable s) (h : S.step s a t) :
    S.Reachable t := by
  obtain ⟨s₀, hi, hl⟩ := hs
  exact ⟨s₀, hi, hl.tail h⟩

theorem Reachable.later {s t : σ} (hs : S.Reachable s) (h : S.Later s t) : S.Reachable t := by
  obtain ⟨s₀, hi, hl⟩ := hs
  exact ⟨s₀, hi, hl.trans h⟩

/-- What holds at the start and is kept by every step holds of every reachable state. -/
theorem Reachable.invariant {I : σ → Prop} (hi : ∀ {s}, S.initial s → I s)
    (hst : ∀ {s a t}, I s → S.step s a t → I t) {t : σ} (h : S.Reachable t) : I t := by
  obtain ⟨s, hs, hl⟩ := h
  exact hl.preserves hst (hi hs)

/-- The system of a partial function: one start, and the steps that are defined. -/
def ofStep (start : σ) (f : σ → α → Option σ) : System σ α where
  initial s := s = start
  step s a t := f s a = some t

/-- Running a list of actions gives a later state. -/
theorem later_of_run {f : σ → α → Option σ} (hf : ∀ {s a t}, f s a = some t → S.step s a t)
    {s t : σ} {l : List α} (h : l.foldlM f s = some t) : S.Later s t := by
  induction l generalizing s with
  | nil =>
    rw [List.foldlM_nil] at h
    cases h
    exact .refl
  | cons a l ih =>
    rw [List.foldlM_cons] at h
    obtain ⟨u, hu, hr⟩ := Option.bind_eq_some_iff.mp h
    have hfr : S.Later s u := Later.tail .refl (hf hu)
    exact hfr.trans (ih hr)

/-- The state behind a list of actions that can be run. -/
theorem later_get {f : σ → α → Option σ} (hf : ∀ {s a t}, f s a = some t → S.step s a t) {s : σ}
    {l : List α} (h : (l.foldlM f s).isSome = true) : S.Later s ((l.foldlM f s).get h) :=
  later_of_run hf (Option.some_get h).symm

/-- Running a list of actions all of which pass a test gives a later state of the guarded system. -/
theorem later_guarded_of_run {f : σ → α → Option σ} {p : σ → α → Bool}
    (hf : ∀ {s a t}, f s a = some t → S.step s a t) {s t : σ} {l : List α}
    (h : l.foldlM (fun s a => if p s a then f s a else none) s = some t) :
    (S.guarded fun s a => p s a = true).Later s t := by
  refine later_of_run (f := fun s a => if p s a then f s a else none) ?_ h
  intro s a t hs
  by_cases hp : p s a = true
  · rw [if_pos hp] at hs
    exact ⟨hp, hf hs⟩
  · rw [if_neg hp] at hs
    cases hs

theorem later_of_foldlM {st : σ} {f : σ → α → Option σ} {s t : σ} {ac : List α}
    (h : ac.foldlM f s = some t) : (ofStep st f).Later s t :=
  later_of_run (fun hs => hs) h

/-- Running a list of actions gives a reachable state. -/
theorem reachable_of_foldlM {s : σ} {f : σ → α → Option σ} {t : σ} {ac : List α}
    (h : ac.foldlM f s = some t) : (ofStep s f).Reachable t :=
  ⟨s, rfl, later_of_foldlM h⟩

/-- Running a list of actions all of which pass a test gives a state of the guarded system. -/
theorem reachable_guarded_of_foldlM {st : σ} {f : σ → α → Option σ} {ok : σ → α → Prop}
    {ts : σ → α → Bool} (ht : ∀ s a, ts s a = true → ok s a) {t : σ} {ac : List α}
    (h : ac.foldlM (fun s a => if ts s a then f s a else none) st = some t) :
    ((ofStep st f).guarded ok).Reachable t := by
  refine Reachable.invariant (S := ofStep st fun s a => if ts s a then f s a else none)
    ?_ ?_ (reachable_of_foldlM h)
  · rintro s rfl
    exact ⟨s, rfl, .refl⟩
  · intro s a t hs hst
    simp only [ofStep] at hst
    split at hst
    next hok => exact hs.step ⟨ht s a hok, hst⟩
    · cases hst

end System

end Solovey.Data
