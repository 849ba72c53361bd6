import Mathlib

/-!
# Sorting by a key

A list in the order of a key of its members does not depend on the order it had before exactly if
the key separates its members.
-/

namespace Solovey.Data

open List

variable {α κ : Type*} (key : α → κ)

/-- A key that separates the members of a list. -/
def Separates (l : List α) : Prop := ∀ a ∈ l, ∀ b ∈ l, key a = key b → a = b

theorem Separates.of_injective {key : α → κ} (h : Function.Injective key) (l : List α) :
    Separates key l := fun _ _ _ _ heq => h heq

variable [LinearOrder κ]

theorem pairwise_keySort (l : List α) :
    (l.insertionSort fun a b => key a ≤ key b).Pairwise fun a b => key a ≤ key b := by
  have ht : Std.Total fun a b : α => key a ≤ key b := ⟨fun a b => le_total (key a) (key b)⟩
  have htr : IsTrans α fun a b => key a ≤ key b := ⟨fun a b c => le_trans⟩
  exact pairwise_insertionSort _ l

variable {key}

theorem Separates.keySort_eq {l l' : List α} (h : Separates key l) (hp : l'.Perm l) :
    (l'.insertionSort fun a b => key a ≤ key b) = l.insertionSort fun a b => key a ≤ key b := by
  have hs : (l'.insertionSort fun a b => key a ≤ key b).Perm
      (l.insertionSort fun a b => key a ≤ key b) :=
    ((perm_insertionSort _ l').trans hp).trans (perm_insertionSort _ l).symm
  refine hs.eq_of_pairwise (fun a b ha hb hab hba => ?_) (pairwise_keySort key l')
    (pairwise_keySort key l)
  rw [mem_insertionSort] at ha hb
  exact h a (hp.mem_iff.mp ha) b hb (le_antisymm hab hba)

/-- The sort puts a new head in front of the members with its key. -/
theorem find?_keySort_cons {a : α} {p : α → Bool} (hp : ∀ b, p b = true ↔ key b = key a)
    (l : List α) : ((a :: l).insertionSort fun a b => key a ≤ key b).find? p = some a := by
  rw [insertionSort_cons]
  induction l.insertionSort fun a b => key a ≤ key b with
  | nil => simp [(hp a).mpr rfl]
  | cons b rest ih =>
    rw [orderedInsert_cons]
    split
    · simp [(hp a).mpr rfl]
    next hlt =>
      have ho : p b = false := Bool.eq_false_iff.mpr fun hb => hlt ((hp b).mp hb).ge
      rw [find?_cons, ho]
      exact ih

/-- If the sorted list shows nothing of the order before it, the key separates what it shows. -/
theorem eq_of_keySort {β : Type*} [DecidableEq α] {f : α → β} {key' : β → κ}
    (hk : ∀ a, key' (f a) = key a) {l : List α}
    (h : ∀ l' : List α, l'.Perm l → (l'.insertionSort fun a b => key a ≤ key b).map f =
      (l.insertionSort fun a b => key a ≤ key b).map f) {a b : α} (ha : a ∈ l) (hb : b ∈ l)
    (heq : key a = key b) : f a = f b := by
  have hfn : ∀ a ∈ l, ((l.insertionSort fun a b => key a ≤ key b).map f).find?
      (fun b => key' b == key a) = some (f a) := by
    intro a ha
    rw [← h (a :: l.erase a) (perm_cons_erase ha).symm, find?_map]
    rw [find?_keySort_cons (a := a) fun b => by simp [hk], Option.map_some]
  have hf := hfn a ha
  rw [heq, hfn b hb] at hf
  exact (Option.some.inj hf).symm

end Solovey.Data
