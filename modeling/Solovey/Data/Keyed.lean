import Solovey.Data.Rows

/-!
# Tables with a generated primary key

The rows of a table whose primary key is a positive number that the store hands out in increasing
order and never reuses. The rows are held in the order of their keys, so a query ordered by the key
is a filter.
-/

namespace Solovey.Data

open List

/-- Rows in the order of their keys, and the largest key handed out. -/
@[ext]
structure Keyed (α : Type*) (key : α → ℕ) where
  rows : List α
  last : ℕ
  sorted : rows.Pairwise (key · < key ·)
  bounds : ∀ row ∈ rows, 0 < key row ∧ key row ≤ last

namespace Keyed

variable {α : Type*} {key : α → ℕ}

def empty : Keyed α key where
  rows := []
  last := 0
  sorted := .nil
  bounds := by simp

def get? (t : Keyed α key) (id : ℕ) : Option α := t.rows.find? fun row => key row == id

/-- The number of rows an update with this condition affects. -/
def affected (t : Keyed α key) (p : α → Bool) : ℕ := t.rows.countP p

theorem pairwise_updateWhere {p : α → Bool} {f : α → α} (hf : ∀ row, key (f row) = key row)
    {rs : List α} (h : rs.Pairwise (key · < key ·)) :
    (updateWhere p f rs).Pairwise (key · < key ·) := by
  rw [← pairwise_map (R := (· < ·)), map_updateWhere hf]
  exact pairwise_map.mpr h

def update (t : Keyed α key) (p : α → Bool) (f : α → α) (hf : ∀ row, key (f row) = key row) :
    Keyed α key where
  rows := updateWhere p f t.rows
  last := t.last
  sorted := pairwise_updateWhere hf t.sorted
  bounds := forall_updateWhere (fun old _ hold _ => by rwa [hf]) t.bounds

/-- Insert a row under the next key. -/
def insert (t : Keyed α key) (row : ℕ → α) (hrow : ∀ id, key (row id) = id) : Keyed α key where
  rows := t.rows ++ [row (t.last + 1)]
  last := t.last + 1
  sorted := by
    refine List.pairwise_append.mpr ⟨t.sorted, List.pairwise_singleton _ _, fun old hold new hnew => ?_⟩
    rw [List.mem_singleton.mp hnew, hrow]
    exact Nat.lt_succ_of_le (t.bounds old hold).2
  bounds := by
    intro new hnew
    rcases List.mem_append.mp hnew with hold | hlast
    · exact ⟨(t.bounds new hold).1, (t.bounds new hold).2.trans (Nat.le_succ _)⟩
    · rw [List.mem_singleton.mp hlast, hrow]
      exact ⟨Nat.succ_pos _, le_rfl⟩

/-- A refused insertion has taken the next key all the same. -/
def skip (t : Keyed α key) : Keyed α key where
  rows := t.rows
  last := t.last + 1
  sorted := t.sorted
  bounds := fun row hr => ⟨(t.bounds row hr).1, (t.bounds row hr).2.trans (Nat.le_succ _)⟩

variable {t : Keyed α key} {id : ℕ} {row : α}

/-! ## Reading one row -/

theorem eq_of_key {o : α} (hr : row ∈ t.rows) (ho : o ∈ t.rows) (h : key row = key o) :
    row = o := by
  have hn : (t.rows.map key).Nodup := (pairwise_map.mpr t.sorted).imp fun hlt => hlt.ne
  exact inj_on_of_nodup_map hn hr ho h

theorem get?_eq_some : t.get? id = some row ↔ row ∈ t.rows ∧ key row = id := by
  constructor
  · intro h
    exact ⟨mem_of_find?_eq_some h, by simpa using find?_some h⟩
  · rintro ⟨hr, rfl⟩
    obtain ⟨found, hf⟩ : ∃ found, t.get? (key row) = some found :=
      Option.isSome_iff_exists.mp (find?_isSome.mpr ⟨row, hr, by simp⟩)
    have hk : key found = key row := by simpa using find?_some hf
    rwa [eq_of_key (mem_of_find?_eq_some hf) hr hk] at hf

/-- A condition on one key affects the row with the key, if that meets it. -/
theorem affected_key (p : α → Bool) :
    t.affected (fun row => key row == id && p row) = if (t.get? id).any p then 1 else 0 := by
  have hn : (t.rows.map key).Nodup := (pairwise_map.mpr t.sorted).imp fun hlt => hlt.ne
  have hc : t.rows.countP (fun row => key row == id) ≤ 1 := by
    have hle := nodup_iff_count_le_one.mp hn id
    rwa [count_eq_countP, countP_map] at hle
  cases hg : t.get? id with
  | none =>
    rw [affected, countP_eq_zero.mpr fun row hr => ?_]
    · rfl
    · have hne := find?_eq_none.mp hg row hr
      simp only [Bool.not_eq_true] at hne
      simp [hne]
  | some row =>
    obtain ⟨hr, hk⟩ := get?_eq_some.mp hg
    rw [Option.any_some]
    have hle : t.affected (fun row => key row == id && p row) ≤ 1 :=
      (countP_mono_left fun other _ => by simp +contextual).trans hc
    split
    next hp =>
      have hps : 0 < t.affected (fun row => key row == id && p row) :=
        countP_pos_iff.mpr ⟨row, hr, by simp [hk, hp]⟩
      omega
    next hp =>
      refine countP_eq_zero.mpr fun other ho => ?_
      by_cases hs : key other = id
      · rw [eq_of_key ho hr (hs.trans hk.symm)]
        simp [hp]
      · simp [hs]

/-! ## Writing -/

theorem rows_update {p : α → Bool} {f : α → α} {hf : ∀ row, key (f row) = key row} :
    (t.update p f hf).rows = t.rows.map fun row => if p row then f row else row := rfl

theorem mem_rows_update {p : α → Bool} {f : α → α} {hf : ∀ row, key (f row) = key row} :
    row ∈ (t.update p f hf).rows ↔ ∃ o ∈ t.rows, (if p o then f o else o) = row :=
  mem_updateWhere

theorem get?_update {p : α → Bool} {f : α → α} {hf : ∀ row, key (f row) = key row} (id : ℕ) :
    (t.update p f hf).get? id = (t.get? id).map fun row => if p row then f row else row := by
  have hk : ∀ row, key (if p row then f row else row) = key row := fun row => by
    split
    · exact hf row
    · rfl
  unfold get?
  simp only [rows_update, find?_map, Function.comp_def, hk]

theorem get?_insert {n : ℕ → α} {hnw : ∀ id, key (n id) = id} (id : ℕ) : (t.insert n hnw).get? id =
      if id = t.last + 1 then some (n (t.last + 1)) else t.get? id := by
  rw [get?, insert, find?_append]
  split
  next h =>
    subst h
    have hn : t.rows.find? (fun row => key row == t.last + 1) = none :=
      find?_eq_none.mpr fun row hr => by
        have hle := (t.bounds row hr).2
        simp only [beq_iff_eq]
        omega
    simp [hn, hnw]
  next h => simp [get?, hnw, Ne.symm h]

/-! ## Equal tables -/

theorem mem_rows_iff : row ∈ t.rows ↔ t.get? (key row) = some row := by
  rw [get?_eq_some]
  exact ⟨fun h => ⟨h, rfl⟩, fun h => h.1⟩

theorem update_congr {p q : α → Bool} {f g : α → α} {hf : ∀ row, key (f row) = key row}
    {hg : ∀ row, key (g row) = key row}
    (h : ∀ row ∈ t.rows, (if p row then f row else row) = if q row then g row else row) :
    t.update p f hf = t.update q g hg :=
  Keyed.ext (map_congr_left h) rfl

theorem update_eq_self {p : α → Bool} {f : α → α} {hf : ∀ row, key (f row) = key row}
    (h : ∀ row ∈ t.rows, p row = false) : t.update p f hf = t := by
  refine Keyed.ext ?_ rfl
  exact (map_congr_left fun row hr => by rw [h row hr]; rfl).trans (map_id' t.rows)

theorem forall_update {Q : α → Prop} {p : α → Bool} {f : α → α} {hf : ∀ row, key (f row) = key row}
    (hh : ∀ o ∈ t.rows, p o = true → Q (f o)) (hm : ∀ o ∈ t.rows, p o = false → Q o) :
    ∀ row ∈ (t.update p f hf).rows, Q row := by
  intro row hr
  obtain ⟨o, ho, rfl⟩ := mem_rows_update.mp hr
  cases hp : p o with
  | true => exact hh o ho hp
  | false => exact hm o ho hp

/-! ## Unique indexes -/

variable {β : Type*}

/-- The entries of a partial index. -/
def indexed (t : Keyed α key) (p : α → Bool) (index : α → β) : List β := (t.rows.filter p).map index

/-- Whether a row shares its entry of the index with another row. -/
def duplicated [DecidableEq β] (t : Keyed α key) (p : α → Bool) (index : α → β) (row : α) : Bool :=
  p row && decide (1 < (t.indexed p index).count (index row))

theorem duplicated_eq_false [DecidableEq β] {p : α → Bool} {i : α → β} (h : (t.indexed p i).Nodup)
    (row : α) : t.duplicated p i row = false := by
  have hle := nodup_iff_count_le_one.mp h (i row)
  simp [duplicated, hle]

theorem indexed_update {p q : α → Bool} {i : α → β} {f : α → α} {hf : ∀ row, key (f row) = key row}
    (hp : ∀ row, p (f row) = p row) (hi : ∀ row, i (f row) = i row) :
    (t.update q f hf).indexed p i = t.indexed p i := by
  rw [indexed, rows_update, filter_map, List.map_map, indexed]
  have hfl : ∀ row, (p ∘ fun row => if q row then f row else row) row = p row := fun row => by
    rw [Function.comp_apply]
    split
    · exact hp row
    · rfl
  rw [filter_congr fun row _ => hfl row]
  refine map_congr_left fun row _ => ?_
  rw [Function.comp_apply]
  split
  · exact hi row
  · rfl

/-- An update that takes every duplicate out of the index leaves it unique. -/
theorem nodup_indexed_update [DecidableEq β] {p : α → Bool} {i : α → β} {f : α → α}
    {hf : ∀ row, key (f row) = key row} (ho : ∀ row, p (f row) = false) :
    ((t.update (t.duplicated p i) f hf).indexed p i).Nodup := by
  have heq : (t.update (t.duplicated p i) f hf).indexed p i =
      (t.rows.filter fun row => p row && !t.duplicated p i row).map i := by
    rw [indexed, rows_update, filter_map, List.map_map]
    have hfl : ∀ row, (p ∘ fun row => if t.duplicated p i row then f row else row) row =
        (p row && !t.duplicated p i row) := fun row => by
      rw [Function.comp_apply]
      cases t.duplicated p i row with
      | true => rw [if_pos rfl, ho, Bool.not_true, Bool.and_false]
      | false => rw [if_neg Bool.false_ne_true, Bool.not_false, Bool.and_true]
    rw [filter_congr fun row _ => hfl row]
    refine map_congr_left fun row hr => ?_
    have hk := (mem_filter.mp hr).2
    simp only [Bool.and_eq_true, Bool.not_eq_true'] at hk
    rw [Function.comp_apply, hk.2, if_neg Bool.false_ne_true]
  have hs : ((t.rows.filter fun row => p row && !t.duplicated p i row).map i).Sublist
      (t.indexed p i) :=
    (monotone_filter_right t.rows fun row hr => (Bool.and_eq_true_iff.mp hr).1).map i
  rw [heq]
  refine nodup_iff_count_le_one.mpr fun e => ?_
  by_cases he : e ∈ (t.rows.filter fun row => p row && !t.duplicated p i row).map i
  · obtain ⟨row, hr, rfl⟩ := mem_map.mp he
    have hk := (mem_filter.mp hr).2
    simp only [duplicated, Bool.and_eq_true, Bool.not_eq_true', Bool.and_eq_false_imp,
      decide_eq_false_iff_not, not_lt] at hk
    exact (hs.count_le _).trans (hk.2 hk.1)
  · rw [count_eq_zero.mpr he]
    exact Nat.zero_le 1

/-! ## Sums over a table -/

/-- The sum of a column. -/
def total (t : Keyed α key) (f : α → ℤ) : ℤ := (t.rows.map f).sum

theorem total_eq_sum {f : α → ℤ} {ks : Finset ℕ} (hk : ∀ row ∈ t.rows, key row ∈ ks) :
    t.total f = ∑ id ∈ ks, (t.get? id).elim 0 f := by
  have hn : (t.rows.map key).Nodup := (pairwise_map.mpr t.sorted).imp fun hlt => hlt.ne
  have hs : (t.rows.map key).toFinset ⊆ ks := fun id hid => by
    obtain ⟨row, hrw, rfl⟩ := mem_map.mp (mem_toFinset.mp hid)
    exact hk row hrw
  have hr : ∀ id ∈ ks, id ∉ (t.rows.map key).toFinset → (t.get? id).elim 0 f = 0 := by
    intro id _ hid
    cases hg : t.get? id with
    | none => rfl
    | some row =>
      obtain ⟨hrw, rfl⟩ := get?_eq_some.mp hg
      exact absurd (mem_toFinset.mpr (mem_map_of_mem hrw)) hid
  rw [← Finset.sum_subset hs hr, sum_toFinset _ hn, List.map_map, total]
  refine congrArg List.sum (map_congr_left fun row hrw => ?_)
  rw [Function.comp_apply, mem_rows_iff.mp hrw]
  rfl

/-- A change of one row changes the sum by the difference at that row. -/
theorem total_change {u : Keyed α key} {f : α → ℤ} (id : ℕ)
    (h : ∀ other, other ≠ id → (u.get? other).elim 0 f = (t.get? other).elim 0 f) :
    u.total f = t.total f - (t.get? id).elim 0 f + (u.get? id).elim 0 f := by
  have hk : ∀ v : Keyed α key, v.rows ⊆ t.rows ++ u.rows → ∀ row ∈ v.rows,
      key row ∈ Insert.insert id ((t.rows ++ u.rows).map key).toFinset := fun v hv row hrw =>
    Finset.mem_insert_of_mem (mem_toFinset.mpr (mem_map_of_mem (hv hrw)))
  rw [total_eq_sum (hk t (subset_append_left _ _)), total_eq_sum (hk u (subset_append_right _ _)),
    ← Finset.add_sum_erase _ _ (Finset.mem_insert_self id _),
    ← Finset.add_sum_erase _ (fun id => (t.get? id).elim 0 f) (Finset.mem_insert_self id _)]
  have hr := Finset.sum_congr rfl fun other ho =>
    h other (Finset.ne_of_mem_erase (s := Insert.insert id ((t.rows ++ u.rows).map key).toFinset) ho)
  linarith

theorem total_congr {u : Keyed α key} {f : α → ℤ}
    (h : ∀ id, (u.get? id).elim 0 f = (t.get? id).elim 0 f) : u.total f = t.total f := by
  rw [total_change 0 fun other _ => h other, h 0]
  ring

/-- One term of a sum of terms that are not negative. -/
theorem le_total {f : α → ℤ} (hf : ∀ row, 0 ≤ f row) (hr : row ∈ t.rows) : f row ≤ t.total f :=
  single_le_sum (by simpa using fun row _ => hf row) _ (mem_map_of_mem hr)

end Keyed

end Solovey.Data
