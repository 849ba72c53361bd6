import Mathlib

/-!
# Tables of rows

Statements of a relational store on a list of rows: a conditional update, a conditional deletion,
and an insertion that updates on a conflict. Reads are `List.find?` and `List.filter`, the rows an
update affects are counted by `List.countP`. The calls under way are a partial map from call to what
it has read.
-/

namespace Solovey.Data

open List

variable {α : Type*}

def updateWhere (p : α → Bool) (f : α → α) (rows : List α) : List α :=
  rows.map fun row => if p row then f row else row

def deleteWhere (p : α → Bool) (rows : List α) : List α := rows.filter fun row => !p row

/-- Insert a row, or update the rows it conflicts with. -/
def upsert (conflicts : α → Bool) (f : α → α) (new : α) (rows : List α) : List α :=
  if rows.any conflicts then updateWhere conflicts f rows else rows ++ [new]

variable {p : α → Bool} {f : α → α} {rs : List α} {r n : α}

theorem mem_updateWhere : r ∈ updateWhere p f rs ↔ ∃ o ∈ rs, (if p o then f o else o) = r := by
  rw [updateWhere, mem_map]

theorem mem_deleteWhere : r ∈ deleteWhere p rs ↔ r ∈ rs ∧ p r = false := by
  simp [deleteWhere]

/-- An update that leaves a column alone. -/
theorem map_updateWhere {β : Type*} {c : α → β} (h : ∀ r, c (f r) = c r) :
    (updateWhere p f rs).map c = rs.map c := by
  rw [updateWhere, List.map_map]
  refine map_congr_left fun r _ => ?_
  by_cases hp : p r = true
  · rw [Function.comp_apply, if_pos hp, h]
  · rw [Function.comp_apply, if_neg hp]

/-- A property that the update keeps on the rows it matches holds of every row after it. -/
theorem forall_updateWhere {P : α → Prop} (hk : ∀ o ∈ rs, P o → p o = true → P (f o))
    (h : ∀ o ∈ rs, P o) : ∀ r ∈ updateWhere p f rs, P r := by
  intro r hr
  obtain ⟨o, ho, rfl⟩ := mem_updateWhere.mp hr
  by_cases hp : p o = true
  · rw [if_pos hp]
    exact hk o ho (h o ho) hp
  · rw [if_neg hp]
    exact h o ho

theorem forall_upsert {P : α → Prop} (hk : ∀ o ∈ rs, P o → p o = true → P (f o))
    (hn : rs.any p = false → P n) (h : ∀ o ∈ rs, P o) :
    ∀ r ∈ upsert p f n rs, P r := by
  unfold upsert
  split
  · exact forall_updateWhere hk h
  next ha =>
    intro r hr
    rcases mem_append.mp hr with ho | hl
    · exact h r ho
    · rw [mem_singleton.mp hl]
      exact hn (Bool.not_eq_true _ ▸ ha)

/-- The first row that meets a condition which the update does not change. -/
theorem find?_updateWhere {q : α → Bool} (hq : ∀ r, p r = true → q (f r) = q r) :
    (updateWhere p f rs).find? q = (rs.find? q).map fun r => if p r then f r else r := by
  induction rs with
  | nil => rfl
  | cons r rest ih =>
    rw [updateWhere, map_cons, ← updateWhere]
    have hs : q (if p r then f r else r) = q r := by
      split
      next hp => exact hq r hp
      · rfl
    by_cases hqr : q r = true
    · rw [find?_cons_of_pos (hs.trans hqr), find?_cons_of_pos hqr]
      rfl
    · rw [find?_cons_of_neg (hs ▸ hqr), find?_cons_of_neg hqr, ih]

theorem find?_updateWhere_self (hf : ∀ r, p (f r) = p r) :
    (updateWhere p f rs).find? p = (rs.find? p).map f := by
  rw [find?_updateWhere fun r _ => hf r]
  cases hfn : rs.find? p with
  | none => rfl
  | some r => simp [find?_some hfn]

/-- The row that stands for a key after an insertion or update under it. -/
theorem find?_upsert (hf : ∀ r, p (f r) = p r) (hnw : p n = true) :
    (upsert p f n rs).find? p = some (((rs.find? p).map f).getD n) := by
  unfold upsert
  split
  next ha =>
    obtain ⟨r, hr, hp⟩ := any_eq_true.mp ha
    obtain ⟨found, hfn⟩ := Option.isSome_iff_exists.mp (find?_isSome.mpr ⟨r, hr, hp⟩)
    rw [find?_updateWhere_self hf, hfn]
    rfl
  next ha =>
    have hn : rs.find? p = none := find?_eq_none.mpr fun r hr hp => ha (any_eq_true.mpr ⟨r, hr, hp⟩)
    rw [find?_append, hn, Option.none_or, find?_cons_of_pos hnw]
    rfl

theorem update_eq_some {κ : Type*} [DecidableEq κ] {cs : κ → Option α} {k k' : κ} {v : Option α}
    (h : Function.update cs k v k' = some r) :
    k' = k ∧ v = some r ∨ k' ≠ k ∧ cs k' = some r := by
  by_cases hk : k' = k
  · subst hk
    rw [Function.update_self] at h
    exact .inl ⟨rfl, h⟩
  · rw [Function.update_of_ne hk] at h
    exact .inr ⟨hk, h⟩

end Solovey.Data
