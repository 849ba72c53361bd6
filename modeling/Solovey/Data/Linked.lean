import Mathlib

/-!
# Linked records

Records that name their predecessor, as in a hash chain: the first record names the value the
chain starts with, every other one the digest of the record before it.
-/

namespace Solovey.Data

section Linked

variable {α β : Type} (prev digest : α → β)

/-- The chain starts at `first`. -/
def Linked (first : β) : List α → Prop
  | [] => True
  | a :: l => prev a = first ∧ Linked (digest a) l

/-- The digest that the next record has to name. -/
def tip (first : β) (l : List α) : β := l.foldl (fun _ a => digest a) first

variable {prev digest}

@[simp] theorem tip_concat {first : β} {l : List α} {a : α} :
    tip digest first (l ++ [a]) = digest a := by
  simp [tip]

theorem Linked.concat {first : β} {l : List α} {a : α} (h : Linked prev digest first l)
    (ha : prev a = tip digest first l) : Linked prev digest first (l ++ [a]) := by
  induction l generalizing first with
  | nil => exact ⟨ha, trivial⟩
  | cons b l ih => exact ⟨h.1, ih h.2 ha⟩

/-- The named predecessors are the digests, shifted by one. -/
theorem Linked.map_prev {first : β} {l : List α} (h : Linked prev digest first l) :
    l.map prev = (first :: l.map digest).dropLast := by
  induction l generalizing first with
  | nil => rfl
  | cons a l ih => simp [h.1, ih h.2]

/-- Records of different digests name different predecessors. -/
theorem Linked.nodup_prev {first : β} {l : List α} (h : Linked prev digest first l)
    (hf : first ∉ l.map digest) (hd : (l.map digest).Nodup) : (l.map prev).Nodup := by
  rw [h.map_prev]
  exact (List.nodup_cons.mpr ⟨hf, hd⟩).sublist (List.dropLast_sublist _)

end Linked

end Solovey.Data
