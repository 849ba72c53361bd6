import Mathlib

/-!
# Programs that call their environment

A program is done with a result, or calls the environment and goes on with its reply. The
environment says, for each call and each reply, whether the reply is possible and what state it
leaves.

A run may stop before its program is done, as a crash leaves it. `wp` says of a program that from a
state every step of every run is allowed and every result is as wanted; `All` says that every call a
program can make is of a certain kind.
-/

namespace Solovey.Data

inductive Program (E : Type) (R : E → Type) (α : Type)
  | done (a : α)
  | call (e : E) (k : R e → Program E R α)

namespace Program

variable {E : Type} {R : E → Type} {α β : Type}

def bind : Program E R α → (α → Program E R β) → Program E R β
  | done a, f => f a
  | call e k, f => call e fun r => (k r).bind f

instance : Monad (Program E R) where
  pure := done
  bind := bind

/-- One call of the environment. -/
def perform (e : E) : Program E R (R e) := call e done

@[simp] theorem pure_eq (a : α) : (pure a : Program E R α) = done a := rfl

@[simp] theorem bind_done (a : α) (f : α → Program E R β) : (done a).bind f = f a := rfl

@[simp] theorem done_bind (a : α) (f : α → Program E R β) : (done a >>= f) = f a := rfl

@[simp] theorem call_bind (e : E) (k : R e → Program E R α) (f : α → Program E R β) :
    (call e k >>= f) = call e fun r => k r >>= f := rfl

@[simp] theorem perform_bind (e : E) (f : R e → Program E R β) : (perform e >>= f) = call e f := rfl

variable {σ : Type} (react : σ → (e : E) → R e → Option σ)

/-- The runs of a program: where they have got to and, if they are complete, their result. -/
inductive Runs : Program E R α → σ → σ → Option α → Prop
  | stop {p : Program E R α} {s : σ} : Runs p s s none
  | done {a : α} {s : σ} : Runs (done a) s s (some a)
  | call {e : E} {k : R e → Program E R α} {r : R e} {s t u : σ} {o : Option α} :
      react s e r = some t → Runs (k r) t u o → Runs (call e k) s u o

/-- Every step of a run from the state is one of `G`, and every result is as in `Q`. -/
def wp (G : σ → σ → Prop) : Program E R α → (α → σ → Prop) → σ → Prop
  | done a, Q, s => Q a s
  | call e k, Q, s => ∀ r t, react s e r = some t → G s t ∧ wp G (k r) Q t

variable {react} {G : σ → σ → Prop} {Q : α → σ → Prop} {s t : σ}

@[simp] theorem wp_done {a : α} : wp react G (done a) Q s ↔ Q a s := Iff.rfl

@[simp] theorem wp_call {e : E} {k : R e → Program E R α} :
    wp react G (call e k) Q s ↔ ∀ r t, react s e r = some t → G s t ∧ wp react G (k r) Q t := Iff.rfl

theorem wp_bind {p : Program E R α} {f : α → Program E R β} {Q : β → σ → Prop} :
    wp react G (p >>= f) Q s ↔ wp react G p (fun a t => wp react G (f a) Q t) s := by
  induction p generalizing s with
  | done a => rfl
  | call e k ih => simp only [call_bind, wp_call, ih]

theorem wp_mono {p : Program E R α} {Q' : α → σ → Prop} (h : ∀ a t, Q a t → Q' a t)
    (hp : wp react G p Q s) : wp react G p Q' s := by
  induction p generalizing s with
  | done a => exact h a s hp
  | call e k ih =>
    intro r t hs
    obtain ⟨hg, hk⟩ := hp r t hs
    exact ⟨hg, ih r hk⟩

theorem wp_weaken {G' : σ → σ → Prop} {p : Program E R α} (h : ∀ {s t}, G s t → G' s t)
    (hp : wp react G p Q s) : wp react G' p Q s := by
  induction p generalizing s with
  | done a => exact hp
  | call e k ih =>
    intro r t hs
    obtain ⟨hg, hk⟩ := hp r t hs
    exact ⟨h hg, ih r hk⟩

/-- What the allowed steps keep is so at the end. -/
theorem wp_frame {F : σ → Prop} {p : Program E R α} (hF : ∀ {s t}, G s t → F s → F t) (hs : F s)
    (hp : wp react G p Q s) : wp react G p (fun a t => Q a t ∧ F t) s := by
  induction p generalizing s with
  | done a => exact ⟨hp, hs⟩
  | call e k ih =>
    intro r t hst
    obtain ⟨hg, hk⟩ := hp r t hst
    exact ⟨hg, ih r (hF hg hs) hk⟩

/-- What `wp` says of a program is so of its runs. -/
theorem wp_runs {p : Program E R α} {o : Option α} (hp : wp react G p Q s)
    (h : Runs react p s t o) :
    Relation.ReflTransGen G s t ∧ ∀ a, o = some a → Q a t := by
  induction h with
  | stop => exact ⟨.refl, fun a h => by cases h⟩
  | done => exact ⟨.refl, fun a h => by cases h; exact hp⟩
  | call hs _ ih =>
    obtain ⟨hg, hk⟩ := hp _ _ hs
    obtain ⟨hl, hr⟩ := ih hk
    exact ⟨.head hg hl, hr⟩

/-- Every call the program can make is of the kind. -/
def All (P : E → Prop) : Program E R α → Prop
  | done _ => True
  | call e k => P e ∧ ∀ r, All P (k r)

variable {P : E → Prop}

theorem All.bind {p : Program E R α} {f : α → Program E R β} (hp : All P p)
    (hf : ∀ a, All P (f a)) : All P (p >>= f) := by
  induction p with
  | done a => exact hf a
  | call e k ih => exact ⟨hp.1, fun r => ih r (hp.2 r)⟩

/-- Steps of calls of one kind are steps of `G`. -/
theorem All.wp {p : Program E R α} (hp : All P p)
    (hs : ∀ {s e r t}, P e → react s e r = some t → G s t) :
    Program.wp react G p (fun _ _ => True) s := by
  induction p generalizing s with
  | done a => trivial
  | call e k ih =>
    intro r t h
    exact ⟨hs hp.1 h, ih r (hp.2 r)⟩

/-- The run in which the environment answers by `oracle`. -/
def drive (react : σ → (e : E) → R e → Option σ) (oracle : σ → (e : E) → R e) :
    Program E R α → σ → Option (α × σ)
  | done a, s => some (a, s)
  | call e k, s => (react s e (oracle s e)).bind fun t => drive react oracle (k (oracle s e)) t

theorem runs_of_drive {o : σ → (e : E) → R e} {p : Program E R α} {a : α}
    (h : drive react o p s = some (a, t)) : Runs react p s t (some a) := by
  induction p generalizing s with
  | done b =>
    cases h
    exact .done
  | call e k ih =>
    obtain ⟨u, hu, hr⟩ := Option.bind_eq_some_iff.mp h
    exact .call hu (ih _ hr)

end Program

end Solovey.Data
