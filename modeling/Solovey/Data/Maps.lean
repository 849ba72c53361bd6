import Mathlib

/-!
# Tree maps

Pairs are compared lexicographically, so that a tree map can be keyed by them. The fold rule is
for loops over a map whose body changes the result only at the key it visits.
-/

namespace Solovey

instance pairOrd {α β : Type} [Ord α] [Ord β] : Ord (α × β) := lexOrd

namespace Data

open Std List

variable {K V W A : Type}

/-- A loop over pairs with distinct keys, whose body changes `look` only at the key it visits. -/
theorem look_foldl_of_distinct {f : A → K × V → A} {look : A → K → Option W}
    {g : K → Option W → V → Option W} (hs : ∀ a k v, look (f a (k, v)) k = g k (look a k) v)
    (ho : ∀ a k v k', k ≠ k' → look (f a (k, v)) k' = look a k') {es : List (K × V)}
    (hd : es.Pairwise fun a b => a.1 ≠ b.1) (a : A) (k : K) :
    (∀ v, (k, v) ∈ es → look (es.foldl f a) k = g k (look a k) v) ∧
      ((∀ v, (k, v) ∉ es) → look (es.foldl f a) k = look a k) := by
  induction es generalizing a with
  | nil => simp
  | cons e rest ih =>
    obtain ⟨k₁, v₁⟩ := e
    rw [pairwise_cons] at hd
    obtain ⟨hf, hr⟩ := hd
    obtain ⟨hin, hot⟩ := ih hr (f a (k₁, v₁))
    rw [foldl_cons]
    constructor
    · intro v hv
      rcases mem_cons.mp hv with heq | hv
      · cases heq
        rw [hot fun v' hv' => hf (k, v') hv' rfl, hs]
      · rw [hin v hv, ho _ _ _ _ (hf (k, v) hv)]
    · intro hn
      have hne : k₁ ≠ k := by
        rintro rfl
        exact hn v₁ mem_cons_self
      rw [hot fun v hv => hn v (mem_cons_of_mem _ hv), ho _ _ _ _ hne]

variable [Ord K] [TransOrd K]

variable {t : ExtTreeMap K V} {k : K}

theorem mem_iff_exists_getElem? : k ∈ t ↔ ∃ v, t[k]? = some v := by
  rw [ExtTreeMap.mem_iff_isSome_getElem?, Option.isSome_iff_exists]

theorem mem_of_mem_erase {k' : K} {v : V} (h : v ∈ (t.erase k)[k']?) : v ∈ t[k']? := by
  rw [ExtTreeMap.getElem?_erase] at h
  split at h
  · cases h
  · exact h

variable [LawfulEqOrd K]

theorem mem_iff_exists_mem_toList : k ∈ t ↔ ∃ v, (k, v) ∈ t.toList := by
  simp only [mem_iff_exists_getElem?, ExtTreeMap.mem_toList_iff_getElem?_eq_some]

theorem mem_getElem?_insert {k' : K} {v w : V} (h : w ∈ (t.insert k v)[k']?) :
    k = k' ∧ v = w ∨ w ∈ t[k']? := by
  rw [ExtTreeMap.getElem?_insert] at h
  split at h
  · next heq => exact .inl ⟨LawfulEqOrd.compare_eq_iff_eq.mp heq, Option.some.inj h⟩
  · exact .inr h

theorem erase_of_getElem?_eq_none (h : t[k]? = none) : t.erase k = t := by
  ext1 k'
  rw [ExtTreeMap.getElem?_erase]
  split
  · next heq => rw [← LawfulEqOrd.compare_eq_iff_eq.mp heq, h]
  · rfl

theorem distinct_toList (t : ExtTreeMap K V) : t.toList.Pairwise fun a b => a.1 ≠ b.1 :=
  ExtTreeMap.distinct_keys_toList.imp fun h heq => h (by rw [heq, ReflOrd.compare_self])

/-- The fold rule: after the loop, `look` is as before at the keys that the map does not have,
and one visit further at those that it has. -/
theorem look_foldl {f : A → K × V → A} (look : A → K → Option W) (g : K → Option W → V → Option W)
    (hs : ∀ a k v, look (f a (k, v)) k = g k (look a k) v)
    (ho : ∀ a k v k', k ≠ k' → look (f a (k, v)) k' = look a k') (t : ExtTreeMap K V) (a : A)
    (k : K) :
    look (t.toList.foldl f a) k = (t[k]?).elim (look a k) (g k (look a k)) := by
  obtain ⟨hin, hot⟩ := look_foldl_of_distinct hs ho (distinct_toList t) a k
  cases h : t[k]? with
  | some v => exact hin v (ExtTreeMap.mem_toList_iff_getElem?_eq_some.mpr h)
  | none =>
    refine hot fun v hv => ?_
    rw [ExtTreeMap.mem_toList_iff_getElem?_eq_some.mp hv] at h
    cases h

end Data

end Solovey
