import Mathlib

/-!
# Lists related place by place

Rules for `List.Forall₂`: from a place or a member of one list to the other list, and the
replacement of one place.
-/

namespace Solovey.Data

open List

variable {α β : Type} {R : α → β → Prop}

variable {i : ℕ}

theorem forall₂_getElem? {l : List α} {l' : List β} (h : List.Forall₂ R l l') {a : α}
    (ha : l[i]? = some a) : ∃ b, l'[i]? = some b ∧ R a b := by
  induction h generalizing i with
  | nil => simp at ha
  | @cons _ b _ _ hab _ ih =>
    cases i with
    | zero =>
      rw [getElem?_cons_zero, Option.some.injEq] at ha
      exact ⟨b, rfl, ha ▸ hab⟩
    | succ i => exact ih ha

theorem forall₂_mem_right {l : List α} {l' : List β} (h : List.Forall₂ R l l') {b : β}
    (hb : b ∈ l') : ∃ a ∈ l, R a b := by
  induction h with
  | nil => simp at hb
  | @cons a _ _ _ hab _ ih =>
    rcases mem_cons.mp hb with rfl | hb
    · exact ⟨a, mem_cons_self, hab⟩
    · obtain ⟨a', ha', hab'⟩ := ih hb
      exact ⟨a', mem_cons_of_mem _ ha', hab'⟩

theorem forall₂_set {S : α → α → Prop} (hr : ∀ a, S a a) {l : List α} {a b : α}
    (ha : l[i]? = some a) (hab : S a b) : List.Forall₂ S l (l.set i b) := by
  induction l generalizing i with
  | nil => exact .nil
  | cons first rest ih =>
    cases i with
    | zero =>
      rw [getElem?_cons_zero, Option.some.injEq] at ha
      subst ha
      exact .cons hab (forall₂_same.mpr fun a _ => hr a)
    | succ i => exact .cons (hr first) (ih ha)

/-- A map that is defined on every member. -/
theorem forall₂_filterMap {f : α → Option β} {l : List α} (h : ∀ a ∈ l, ∃ b, f a = some b ∧ R a b) :
    List.Forall₂ R l (l.filterMap f) := by
  induction l with
  | nil => exact .nil
  | cons a l ih =>
    obtain ⟨b, hb, hab⟩ := h a mem_cons_self
    rw [filterMap_cons_some hb]
    exact .cons hab (ih fun a ha => h a (mem_cons_of_mem _ ha))

theorem find?_eq_some_of_unique {p : α → Bool} {l : List α} {a : α} (ha : a ∈ l) (hp : p a = true)
    (hu : ∀ b ∈ l, p b = true → b = a) : l.find? p = some a := by
  cases hf : l.find? p with
  | none => exact absurd hp (find?_eq_none.mp hf a ha)
  | some b => rw [hu b (mem_of_find?_eq_some hf) (find?_some hf)]

/-- The first members that qualify, when members change place by place. -/
theorem find?_forall₂ {p : α → Bool} {q : β → Bool} {l : List α} {l' : List β}
    (hpq : ∀ {a b}, R a b → q b = p a) (h : List.Forall₂ R l l') :
    Option.Rel R (l.find? p) (l'.find? q) := by
  induction h with
  | nil => exact .none
  | cons hab _ ih =>
    rw [find?_cons, find?_cons, hpq hab]
    split
    · exact .some hab
    · exact ih

/-- What is read of the first member that qualifies, when members change place by place. -/
theorem find?_map_of_forall₂ {p : α → Bool} {f : α → γ} {S : α → α → Prop}
    (hS : ∀ {a b}, S a b → p b = p a ∧ (p a = true → f b = f a)) {l l' : List α}
    (h : List.Forall₂ S l l') : (l'.find? p).map f = (l.find? p).map f := by
  have hf : Option.Rel S (l.find? p) (l'.find? p) := find?_forall₂ (fun hab => (hS hab).1) h
  have hp : ∀ a ∈ l.find? p, p a = true := fun a ha => find?_some ha
  generalize l.find? p = found, l'.find? p = found' at hf hp ⊢
  cases hf with
  | none => rfl
  | some hab => exact congrArg some ((hS hab).2 (hp _ rfl))

/-- The first member that qualifies, found by its place. -/
theorem find?_eq_getElem? {p : α → Bool} {l : List α} (h : l.findIdx? p = some i) :
    l.find? p = l[i]? := by
  obtain ⟨hi, hp, hb⟩ := findIdx?_eq_some_iff_getElem.mp h
  rw [getElem?_eq_getElem hi, find?_eq_some_iff_getElem]
  exact ⟨hp, i, hi, rfl, fun j hj => by simpa using hb j hj⟩

theorem find?_set {p : α → Bool} {l : List α} {b : α} (h : l.findIdx? p = some i)
    (hb : p b = true) : (l.set i b).find? p = some b := by
  obtain ⟨hi, hp, hbf⟩ := findIdx?_eq_some_iff_getElem.mp h
  refine find?_eq_some_iff_getElem.mpr ⟨hb, i, by simpa using hi, by simp, fun j hj => ?_⟩
  rw [getElem_set_ne hj.ne']
  simpa using hbf j hj

theorem findSome?_ite {p : α → Bool} {l : List α} {b : β} :
    l.findSome? (fun a => if p a then some b else none) = if l.any p then some b else none := by
  induction l with
  | nil => rfl
  | cons a l ih =>
    rw [findSome?_cons, any_cons]
    cases p a with
    | true => rfl
    | false => simpa using ih

/-- The first member that qualifies decides, when it yields a result at all. -/
theorem findSome?_guarded {p : α → Bool} {g : α → β} {l : List α} :
    l.findSome? (fun a => if p a then some (g a) else none) = (l.find? p).map g := by
  induction l with
  | nil => rfl
  | cons a l ih =>
    rw [findSome?_cons, find?_cons]
    cases p a with
    | true => rfl
    | false => exact ih

theorem findSome?_filterMap {f : α → Option β} {g : β → Option γ} {l : List α} :
    (l.filterMap f).findSome? g = l.findSome? fun a => (f a).bind g := by
  induction l with
  | nil => rfl
  | cons a l ih =>
    rw [findSome?_cons]
    cases hf : f a with
    | none => rw [filterMap_cons_none hf, ih, Option.bind_none]
    | some b => rw [filterMap_cons_some hf, findSome?_cons, ih, Option.bind_some]

theorem findSome?_congr {f g : α → Option β} {l : List α} (h : ∀ a ∈ l, f a = g a) :
    l.findSome? f = l.findSome? g := by
  induction l with
  | nil => rfl
  | cons a l ih =>
    rw [findSome?_cons, findSome?_cons, h a mem_cons_self,
      ih fun b hb => h b (mem_cons_of_mem _ hb)]

end Solovey.Data
