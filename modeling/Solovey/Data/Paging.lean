import Mathlib

/-!
# Paging through a table

A page is the first rows with a key behind a cursor, and from the start again when there is none.
The cursor is set to the last key of each page. The rows behind the cursor are passed page by page,
and then those from the start, so one page more than the rows fill is enough for every row.
-/

namespace Solovey.Data

open List

variable {α : Type*} (key : α → ℕ)

/-- The next rows behind the cursor, at most `limit` of them. -/
def page (limit after : ℕ) (rows : List α) : List α :=
  let next := (rows.filter fun row => after < key row).take limit
  if next.isEmpty && decide (0 < after) then rows.take limit else next

/-- The cursor behind a page; a page without rows leaves it. -/
def advance (after : ℕ) (rows : List α) : ℕ := (rows.getLast?.map key).getD after

/-- The rows of a number of pages, one after the other. -/
def pages (limit : ℕ) (rows : List α) : ℕ → ℕ → List α
  | 0, _ => []
  | count + 1, after =>
    let next := page key limit after rows
    next ++ pages limit rows count (advance key after next)

/-- The rows up to a cursor and those behind it. -/
structure SplitAt (passed ahead : List α) (after : ℕ) : Prop where
  sorted : (passed ++ ahead).Pairwise (key · < key ·)
  passed : ∀ row ∈ passed, key row ≤ after
  ahead : ∀ row ∈ ahead, after < key row

variable {key} {lm a : ℕ} {p ah : List α}

namespace SplitAt

theorem filter_eq (h : SplitAt key p ah a) : ((p ++ ah).filter fun row => a < key row) = ah := by
  have hp : p.filter (fun row => a < key row) = [] :=
    filter_eq_nil_iff.mpr fun row hr => by simpa using h.passed row hr
  have ha : ah.filter (fun row => a < key row) = ah :=
    filter_eq_self.mpr fun row hr => by simpa using h.ahead row hr
  rw [filter_append, hp, ha, nil_append]

/-- Behind a page of sorted rows the cursor splits them there. -/
theorem cut {b next r : List α} (hr : (b ++ next ++ r).Pairwise (key · < key ·)) (hn : next ≠ [])
    (a : ℕ) :
    SplitAt key (b ++ next) r (advance key a next) := by
  obtain ⟨init, last, rfl⟩ := (eq_nil_or_concat' next).resolve_left hn
  have ha : advance key a (init ++ [last]) = key last := by simp [advance]
  rw [ha]
  obtain ⟨hs, -, hc⟩ := pairwise_append.mp hr
  rw [← append_assoc] at hs
  obtain ⟨-, -, hi⟩ := pairwise_append.mp hs
  refine ⟨hr, fun row hrw => ?_, fun row hrw => hc last (by simp) row hrw⟩
  rw [← append_assoc] at hrw
  rcases mem_append.mp hrw with hm | hm
  · exact (hi row hm last (mem_singleton_self last)).le
  · rw [mem_singleton.mp hm]

/-- With rows ahead a page is the next of them. -/
theorem page_ahead (h : SplitAt key p ah a) (hl : 0 < lm) (ha : ah ≠ []) :
    page key lm a (p ++ ah) = ah.take lm := by
  have hne : (ah.take lm).isEmpty = false := by
    rw [isEmpty_eq_false_iff, ne_eq, take_eq_nil_iff]
    simp [hl.ne', ha]
  simp [page, h.filter_eq, hne]

/-- With none ahead it starts again. -/
theorem page_end (h : SplitAt key p [] a) (hp : ∀ row ∈ p, 0 < key row) :
    page key lm a p = p.take lm := by
  have hf := h.filter_eq
  rw [append_nil] at hf
  cases p with
  | nil => simp [page]
  | cons row rest =>
    have ha : 0 < a := (hp row mem_cons_self).trans_le (h.passed row mem_cons_self)
    simp [page, hf, ha]

end SplitAt

theorem take_ne_nil {l : List α} (hlm : 0 < lm) (hl : l ≠ []) : l.take lm ≠ [] := by
  rw [ne_eq, take_eq_nil_iff]
  simp [hlm.ne', hl]

/-- The cursor behind the next page of the rows ahead. -/
theorem SplitAt.next (h : SplitAt key p ah a) (hl : 0 < lm) (ha : ah ≠ []) :
    SplitAt key (p ++ ah.take lm) (ah.drop lm) (advance key a (ah.take lm)) := by
  refine SplitAt.cut ?_ (take_ne_nil hl ha) a
  rw [append_assoc, take_append_drop]
  exact h.sorted

/-- The rows ahead are passed in their order. -/
theorem take_subset_pages (hl : 0 < lm) (h : SplitAt key p ah a) (c : ℕ) :
    ah.take (c * lm) ⊆ pages key lm (p ++ ah) c a := by
  induction c generalizing p ah a with
  | zero => simp
  | succ c ih =>
    by_cases ha : ah = []
    · simp [ha]
    have ih := ih (h.next hl ha)
    rw [append_assoc, take_append_drop] at ih
    rw [pages, h.page_ahead hl ha, Nat.add_one_mul, Nat.add_comm, take_add]
    exact append_subset.mpr ⟨subset_append_left _ _, fun row hr => mem_append_right _ (ih hr)⟩

/-- With none ahead the rows are passed from the start. -/
theorem wrap_subset_pages (hl : 0 < lm) (hp : ∀ row ∈ p, 0 < key row) (h : SplitAt key p [] a)
    (c : ℕ) :
    p.take (c * lm) ⊆ pages key lm p c a := by
  cases c with
  | zero => simp
  | succ c =>
    by_cases hr : p = []
    · simp [hr]
    have hs : SplitAt key ([] ++ p.take lm) (p.drop lm) (advance key a (p.take lm)) := by
      refine SplitAt.cut ?_ (take_ne_nil hl hr) a
      rw [nil_append, take_append_drop]
      simpa using h.sorted
    have hrs := take_subset_pages hl hs c
    rw [nil_append, take_append_drop] at hrs
    rw [pages, h.page_end hp, Nat.add_one_mul, Nat.add_comm, take_add]
    exact append_subset.mpr ⟨subset_append_left _ _, fun row hrw => mem_append_right _ (hrs hrw)⟩

/-- When the rows ahead have been passed, those from the start follow. -/
theorem restart_subset_pages (hl : 0 < lm) {rs : List α} (hp : ∀ row ∈ rs, 0 < key row) {f : ℕ}
    (hr : rs = p ++ ah) (h : SplitAt key p ah a) (hf : ah.length ≤ f * lm) (c : ℕ) :
    rs.take (c * lm) ⊆ pages key lm rs (f + c) a := by
  induction f generalizing p ah a with
  | zero =>
    obtain rfl : ah = [] := length_eq_zero_iff.mp (by omega)
    rw [append_nil] at hr
    subst hr
    rw [Nat.zero_add]
    exact wrap_subset_pages hl hp h c
  | succ f ih =>
    by_cases ha : ah = []
    · subst ha
      rw [append_nil] at hr
      subst hr
      have hw := wrap_subset_pages hl hp h (f + 1 + c)
      refine fun row hrw => hw (take_subset_take_left _ ?_ hrw)
      exact Nat.mul_le_mul_right _ (Nat.le_add_left _ _)
    · have ih := ih (by rw [hr, append_assoc, take_append_drop])
        (h.next hl ha) (by rw [length_drop, Nat.add_one_mul] at *; omega)
      rw [Nat.add_right_comm, pages, hr, h.page_ahead hl ha, ← hr]
      exact fun row hrw => mem_append_right _ (ih hrw)

theorem pages_mono {rs : List α} {c c' : ℕ} (h : c ≤ c') (a : ℕ) :
    pages key lm rs c a ⊆ pages key lm rs c' a := by
  induction c generalizing c' a with
  | zero => simp [pages]
  | succ c ih =>
    obtain ⟨c', rfl⟩ : ∃ n, c' = n + 1 := ⟨c' - 1, by omega⟩
    rw [pages, pages]
    exact append_subset.mpr ⟨subset_append_left _ _,
      fun row hr => mem_append_right _ (ih (by omega) _ hr)⟩

/-- Two parts of a whole fill at most one page more than the whole. -/
theorem ceilDiv_add_ceilDiv_le (hl : 0 < lm) (m n : ℕ) :
    m ⌈/⌉ lm + n ⌈/⌉ lm ≤ (m + n) ⌈/⌉ lm + 1 := by
  have hw : m + n ≤ lm * ((m + n) ⌈/⌉ lm) := le_smul_ceilDiv hl
  have hp : lm * (n ⌈/⌉ lm) < n + lm := by
    rw [Nat.ceilDiv_eq_add_pred_div]
    have hd := Nat.mul_div_le (n + lm - 1) lm
    omega
  have hle : n ⌈/⌉ lm ≤ (m + n) ⌈/⌉ lm := (gc_mul_ceilDiv hl).monotone_l (Nat.le_add_left n m)
  have hf : m ⌈/⌉ lm ≤ (m + n) ⌈/⌉ lm + 1 - n ⌈/⌉ lm := by
    rw [ceilDiv_le_iff_le_smul hl, smul_eq_mul, Nat.mul_sub, Nat.mul_add_one]
    omega
  omega

/-- Sorted rows are split by any cursor. -/
theorem exists_splitAt {rs : List α} (hsr : rs.Pairwise (key · < key ·)) (a : ℕ) :
    ∃ p ah, rs = p ++ ah ∧ SplitAt key p ah a := by
  induction rs with
  | nil => exact ⟨[], [], rfl, hsr, by simp, by simp⟩
  | cons row rest ih =>
    obtain ⟨hrw, hr⟩ := pairwise_cons.mp hsr
    by_cases hle : key row ≤ a
    · obtain ⟨p, ah, rfl, hs⟩ := ih hr
      exact ⟨row :: p, ah, rfl, hsr, forall_mem_cons.mpr ⟨hle, hs.passed⟩, hs.ahead⟩
    · have hlt : a < key row := not_le.mp hle
      exact ⟨[], row :: rest, rfl, hsr, by simp,
        forall_mem_cons.mpr ⟨hlt, fun other ho => hlt.trans (hrw other ho)⟩⟩

/-- One page more than the rows fill contains every row, from any cursor. -/
theorem mem_pages (hl : 0 < lm) {rs : List α} (hsr : rs.Pairwise (key · < key ·))
    (hps : ∀ r ∈ rs, 0 < key r) (a : ℕ) {r : α} (hrw : r ∈ rs) :
    r ∈ pages key lm rs (rs.length ⌈/⌉ lm + 1) a := by
  obtain ⟨p, ah, hr, hs⟩ := exists_splitAt hsr a
  have hc : ah.length ⌈/⌉ lm + p.length ⌈/⌉ lm ≤ rs.length ⌈/⌉ lm + 1 := by
    rw [hr, length_append, Nat.add_comm p.length]
    exact ceilDiv_add_ceilDiv_le hl _ _
  have hf : ∀ l : List α, l.length ≤ l.length ⌈/⌉ lm * lm := fun l => by
    rw [Nat.mul_comm]
    exact le_smul_ceilDiv hl
  refine pages_mono hc a ?_
  rw [hr, mem_append] at hrw
  rcases hrw with hp | ha
  · refine restart_subset_pages hl hps hr hs (hf ah) _ ?_
    have ht : p ⊆ rs.take (p.length ⌈/⌉ lm * lm) := by
      rw [hr, take_append, take_of_length_le (hf p)]
      exact subset_append_left _ _
    exact ht hp
  · have ht := take_subset_pages hl hs (ah.length ⌈/⌉ lm)
    rw [take_of_length_le (hf ah), ← hr] at ht
    exact pages_mono (Nat.le_add_right _ _) a (ht ha)

/-- The rows of the pages are those of each of them, when the cursor is advanced between. -/
theorem exists_mem_page {rs : List α} {c : ℕ → ℕ}
    (hc : ∀ i, c (i + 1) = advance key (c i) (page key lm (c i) rs)) {cn : ℕ} {r : α}
    (h : r ∈ pages key lm rs cn (c 0)) :
    ∃ i < cn, r ∈ page key lm (c i) rs := by
  induction cn generalizing c with
  | zero => simp [pages] at h
  | succ cn ih =>
    rw [pages, mem_append] at h
    rcases h with hf | hr
    · exact ⟨0, Nat.succ_pos _, hf⟩
    · rw [← hc 0] at hr
      obtain ⟨i, hi, hm⟩ : ∃ i < cn, r ∈ page key lm (c (i + 1)) rs := ih (fun i => hc (i + 1)) hr
      exact ⟨i + 1, Nat.succ_lt_succ hi, hm⟩

end Solovey.Data
