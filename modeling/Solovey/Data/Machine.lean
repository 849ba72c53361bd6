import Solovey.Data.Program
import Solovey.Data.System

/-!
# Methods under one lock

A machine runs the program of one method at a time, call by call, and may crash between any two
calls: the environment stays, the method is gone. What every method is verified to do from a state
of the invariant holds in every run of the machine.
-/

namespace Solovey.Data

/-- The state of the environment and the method that is running, with what is left of it. -/
structure Machine (σ μ : Type) (E : Type) (R : E → Type) (α : Type) where
  world : σ
  current : Option (μ × Program E R α)

inductive Move (μ : Type)
  | enter (m : μ)
  | call
  | finish
  | crash

namespace Machine

variable {σ μ E : Type} {R : E → Type} {α : Type}

def Step (react : σ → (e : E) → R e → Option σ) (program : μ → Program E R α)
    (s : Machine σ μ E R α) : Move μ → Machine σ μ E R α → Prop
  | .enter m, t => s.current = none ∧ t = ⟨s.world, some (m, program m)⟩
  | .call, t => ∃ m e k r w, s.current = some (m, .call e k) ∧ react s.world e r = some w ∧
      t = ⟨w, some (m, k r)⟩
  | .finish, t => ∃ m a, s.current = some (m, .done a) ∧ t = ⟨s.world, none⟩
  | .crash, t => t = ⟨s.world, none⟩

/-- The machine that starts idle, the environment in one of the initial states. -/
def system (initial : σ → Prop) (react : σ → (e : E) → R e → Option σ)
    (program : μ → Program E R α) : System (Machine σ μ E R α) (Move μ) where
  initial s := initial s.world ∧ s.current = none
  step := Step react program

variable {i : σ → Prop} {react : σ → (e : E) → R e → Option σ}
  {pr : μ → Program E R α} {I : σ → Prop} {G : σ → σ → Prop} {Q : μ → α → σ → Prop}
  {s t : Machine σ μ E R α} {a : Move μ}

/-- The environment is in a state of the invariant, and what is left of the method is verified. -/
def Sound (react : σ → (e : E) → R e → Option σ) (I : σ → Prop) (G : σ → σ → Prop)
    (Q : μ → α → σ → Prop) (s : Machine σ μ E R α) : Prop :=
  I s.world ∧ ∀ m p, s.current = some (m, p) → Program.wp react G p (Q m) s.world

theorem Sound.step (hG : ∀ {s t}, G s t → I t)
    (hpr : ∀ m {w}, I w → Program.wp react G (pr m) (Q m) w) (hs : Sound react I G Q s)
    (h : Step react pr s a t) : Sound react I G Q t := by
  have hi : Sound react I G Q ⟨s.world, none⟩ := by
    refine ⟨hs.1, fun m p hp => ?_⟩
    cases hp
  cases a with
  | enter m =>
    obtain ⟨-, rfl⟩ := h
    refine ⟨hs.1, fun m' p hp => ?_⟩
    cases hp
    exact hpr m hs.1
  | call =>
    obtain ⟨m, e, k, r, w, hc, hr, rfl⟩ := h
    obtain ⟨hg, hk⟩ := hs.2 m _ hc r w hr
    refine ⟨hG hg, fun m' p hp => ?_⟩
    cases hp
    exact hk
  | finish =>
    obtain ⟨m, a, -, rfl⟩ := h
    exact hi
  | crash =>
    cases h
    exact hi

theorem sound_of_reachable (hi : ∀ {w}, i w → I w) (hG : ∀ {s t}, G s t → I t)
    (hpr : ∀ m {w}, I w → Program.wp react G (pr m) (Q m) w)
    (hs : (system i react pr).Reachable s) : Sound react I G Q s := by
  refine hs.invariant ?_ fun hs h => hs.step hG hpr h
  rintro s ⟨hin, hid⟩
  refine ⟨hi hin, fun m p hp => ?_⟩
  rw [hid] at hp
  cases hp

/-- A run of what is left of a method takes the machine along. -/
theorem reachable_of_runs {m : μ} {p : Program E R α} {w v : σ} {b : α}
    (hr : Program.Runs react p w v (some b)) (hs : (system i react pr).Reachable ⟨w, some (m, p)⟩) :
    (system i react pr).Reachable ⟨v, some (m, .done b)⟩ := by
  generalize ho : some b = o at hr
  induction hr with
  | stop => cases ho
  | done =>
    cases ho
    exact hs
  | call hst _ ih => exact ih (hs.step (a := .call) ⟨_, _, _, _, _, rfl, hst, rfl⟩) ho

theorem reachable_enter {m : μ} {w : σ} (hs : (system i react pr).Reachable ⟨w, none⟩) :
    (system i react pr).Reachable ⟨w, some (m, pr m)⟩ :=
  hs.step (a := .enter m) ⟨rfl, rfl⟩

end Machine

end Solovey.Data
