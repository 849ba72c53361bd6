import Solovey.Data.KeySort
import Solovey.Data.Rows

/-!
# Reordering a table

`internal/entities/order/order.go`: the rows of a table have places in a list that the panel shows.
A request names the ids of the table in a new order. It is checked against the ids that are there,
and the places are then written one after the other.
-/

namespace Solovey.Order

open Solovey.Data List

structure Row where
  id : ℕ
  sortOrder : ℤ
  deriving DecidableEq, Repr

/-- A table with its primary key. -/
structure Table where
  rows : List Row
  nodup : (rows.map (·.id)).Nodup

inductive Error
  | hookFailed
  | lengthMismatch (got want : ℕ)
  | duplicate (id : ℕ)
  | unknown (id : ℕ)
  | notUpdated (id : ℕ)
  deriving DecidableEq, Repr

/-- The rows of a target in the order of `Clause`: by place, and by id where places are equal. -/
def listing (selects : ℕ → Bool) (rows : List Row) : List Row :=
  (rows.filter (selects ·.id)).insertionSort
    fun a b => toLex (a.sortOrder, a.id) ≤ toLex (b.sortOrder, b.id)

/-- The loop of `ValidateIDs` over the requested ids. -/
def validateFrom (current : List ℕ) : List ℕ → List ℕ → Option Error
  | _, [] => none
  | seen, id :: rest =>
    if id ∈ seen then some (.duplicate id)
    else if id ∉ current then some (.unknown id)
    else validateFrom current (id :: seen) rest

def validateIDs (current requested : List ℕ) : Option Error :=
  if current.length ≠ requested.length then
    some (.lengthMismatch requested.length current.length)
  else validateFrom current [] requested

/-- The loop of `ApplyIDs` from an index on. The rows that it wrote before an error stay written. -/
def applyIDs (index : ℕ) : List ℕ → List Row → Option Error × List Row
  | [], rows => (none, rows)
  | id :: rest, rows =>
    if rows.any (·.id == id) then
      applyIDs (index + 1) rest
        (updateWhere (·.id == id) (fun row => { row with sortOrder := index + 1 }) rows)
    else (some (.notUpdated id), rows)

/-- What `Before` does: it reads the rows, and writes the other tables or fails. A target without a
hook leaves them as they are. -/
def runBefore {W : Type} (before : Option (List Row → W → Option W)) (rows : List Row) (other : W) :
    Option W :=
  match before with
  | some hook => hook rows other
  | none => some other

def reorderDBTarget {W : Type} (before : Option (List Row → W → Option W)) (selects : ℕ → Bool)
    (t : Table) (other : W) (requested : List ℕ) : Option Error × List Row × W :=
  match runBefore before t.rows other with
  | none => (some .hookFailed, t.rows, other)
  | some other =>
    match validateIDs ((listing selects t.rows).map (·.id)) requested with
    | some error => (some error, t.rows, other)
    | none =>
      let (error, rows) := applyIDs 0 requested t.rows
      (error, rows, other)

/-! ## The check -/

variable {c requested ids : List ℕ} {rs : List Row}

theorem validateFrom_eq_none {s : List ℕ} : validateFrom c s requested = none ↔
    requested.Nodup ∧ ∀ id ∈ requested, id ∉ s ∧ id ∈ c := by
  induction requested generalizing s with
  | nil => simp [validateFrom]
  | cons id rest ih =>
    unfold validateFrom
    split_ifs with hs hn
    · simp [hs]
    · rw [ih, nodup_cons]
      simp only [mem_cons, not_or, forall_eq_or_imp]
      refine ⟨fun h => ?_, fun h => ⟨h.1.2, fun other ho => ⟨⟨?_, (h.2.2 other ho).1⟩, ?_⟩⟩⟩
      · exact ⟨⟨fun hid => (h.2 id hid).1.1 rfl, h.1⟩, ⟨hs, hn⟩,
          fun other ho => ⟨(h.2 other ho).1.2, (h.2 other ho).2⟩⟩
      · rintro rfl
        exact h.1.1 ho
      · exact (h.2.2 other ho).2
    · simp [hn]

/-- Length and membership decide whether a request is a permutation, since no id is there twice. -/
theorem validateIDs_eq_none (hc : c.Nodup) : validateIDs c requested = none ↔ requested.Perm c := by
  unfold validateIDs
  split_ifs with hl
  · exact iff_of_false nofun fun hp => hl hp.length_eq.symm
  · rw [validateFrom_eq_none]
    refine ⟨fun ⟨hnd, hm⟩ => ?_, fun hp => ⟨hp.nodup_iff.mpr hc, fun id hid => ?_⟩⟩
    · have hs : requested.Subperm c := subperm_of_subset hnd fun id hid => (hm id hid).2
      exact hs.perm_of_length_le (not_not.mp hl).le
    · exact ⟨not_mem_nil, hp.mem_iff.mp hid⟩

/-! ## The places -/

/-- A row with the place that the loop gives it. -/
def place (index : ℕ) (ids : List ℕ) (row : Row) : Row :=
  if row.id ∈ ids then { row with sortOrder := index + ids.idxOf row.id + 1 } else row

theorem place_id (i : ℕ) (ids : List ℕ) (r : Row) : (place i ids r).id = r.id := by
  unfold place
  split <;> rfl

theorem applyIDs_eq (i : ℕ) (hnd : ids.Nodup) (hm : ∀ id ∈ ids, id ∈ rs.map (·.id)) :
    applyIDs i ids rs = (none, rs.map (place i ids)) := by
  induction ids generalizing i rs with
  | nil =>
    have hs : place i [] = id := funext fun row => by simp [place]
    rw [hs, List.map_id, applyIDs]
  | cons id rest ih =>
    obtain ⟨hn, hnd⟩ := nodup_cons.mp hnd
    have ha : rs.any (·.id == id) = true := by
      obtain ⟨row, hr, hid⟩ := mem_map.mp (hm id mem_cons_self)
      exact any_eq_true.mpr ⟨row, hr, beq_iff_eq.mpr hid⟩
    have hi : (updateWhere (·.id == id) (fun row => { row with sortOrder := i + 1 })
        rs).map (·.id) = rs.map (·.id) := map_updateWhere fun _ => rfl
    rw [applyIDs, if_pos ha, ih _ hnd fun other ho => ?_]
    · rw [updateWhere, List.map_map]
      refine congrArg (none, ·) (map_congr_left fun row _ => ?_)
      by_cases hid : row.id = id
      · simp [place, hid, hn]
      · have hne : id ≠ row.id := Ne.symm hid
        simp only [Function.comp_apply, beq_eq_false_iff_ne.mpr hid, Bool.false_eq_true, if_false,
          place, mem_cons, hid, false_or, idxOf_cons_ne _ hne]
        push_cast
        ring_nf
    · rw [hi]
      exact hm other (mem_cons_of_mem id ho)

theorem pairwise_idxOf (hnd : ids.Nodup) : ids.Pairwise fun a b => ids.idxOf a ≤ ids.idxOf b := by
  refine pairwise_iff_getElem.mpr fun i j hi hj hij => ?_
  rw [hnd.idxOf_getElem, hnd.idxOf_getElem]
  exact hij.le

/-- The rows that have got places are listed in the order of the ids. -/
theorem listing_place {ss : ℕ → Bool} (hnd : ids.Nodup)
    (hpr : ids.Perm ((rs.filter (ss ·.id)).map (·.id))) :
    (listing ss (rs.map (place 0 ids))).map (·.id) = ids := by
  have hs : ((rs.map (place 0 ids)).filter (ss ·.id)).map (·.id) =
      (rs.filter (ss ·.id)).map (·.id) := by
    rw [filter_map, List.map_map]
    simp only [Function.comp_def, place_id]
  have hl : ((listing ss (rs.map (place 0 ids))).map (·.id)).Perm ids :=
    ((perm_insertionSort _ _).map _).trans (hs ▸ hpr.symm)
  refine hl.eq_of_pairwise (fun a b ha hb hab hba => ?_) ?_ (pairwise_idxOf hnd)
  · exact (idxOf_inj hb).mp (le_antisymm hba hab) |>.symm
  · rw [pairwise_map]
    refine (pairwise_keySort (fun row : Row => toLex (row.sortOrder, row.id)) _).imp_of_mem
      fun {a b} ha hb hle => ?_
    have hp : ∀ row ∈ listing ss (rs.map (place 0 ids)), row.sortOrder = ids.idxOf row.id + 1 := by
      intro row hr
      have hid : row.id ∈ ids := hl.mem_iff.mp (mem_map_of_mem hr)
      rw [listing, mem_insertionSort] at hr
      obtain ⟨o, -, rfl⟩ := mem_map.mp (mem_of_mem_filter hr)
      rw [place_id] at hid ⊢
      simp [place, hid]
    have hf : a.sortOrder ≤ b.sortOrder := Prod.Lex.monotone_fst _ _ hle
    rw [hp a ha, hp b hb] at hf
    omega

/-- A reorder is accepted exactly if the hook of the target, where it has one, succeeds and the request
is a permutation of the ids of the target. The listing then shows the requested order, and a request
that is refused has changed no row. -/
theorem reorder_permutes {W : Type} (before : Option (List Row → W → Option W))
    (selects : ℕ → Bool) (t : Table) (other : W) (requested : List ℕ) :
    ((reorderDBTarget before selects t other requested).1 = none ↔
      (runBefore before t.rows other).isSome ∧
        requested.Perm ((listing selects t.rows).map (·.id))) ∧
    ((reorderDBTarget before selects t other requested).1 = none →
      (listing selects (reorderDBTarget before selects t other requested).2.1).map (·.id) =
        requested) ∧
    ((reorderDBTarget before selects t other requested).1 ≠ none →
      (reorderDBTarget before selects t other requested).2.1 = t.rows) := by
  have hl : ((listing selects t.rows).map (·.id)).Perm
      ((t.rows.filter (selects ·.id)).map (·.id)) := (perm_insertionSort _ _).map _
  have hcr : ((listing selects t.rows).map (·.id)).Nodup :=
    hl.nodup_iff.mpr (t.nodup.sublist (filter_sublist.map _))
  unfold reorderDBTarget
  cases hb : runBefore before t.rows other with
  | none => exact ⟨iff_of_false nofun nofun, nofun, fun _ => rfl⟩
  | some other =>
    dsimp only
    cases hc : validateIDs ((listing selects t.rows).map (·.id)) requested with
    | some error =>
      refine ⟨iff_of_false nofun fun h => ?_, nofun, fun _ => rfl⟩
      rw [(validateIDs_eq_none hcr).mpr h.2] at hc
      cases hc
    | none =>
      have hp := (validateIDs_eq_none hcr).mp hc
      have hnd := hp.nodup_iff.mpr hcr
      have hm : ∀ id ∈ requested, id ∈ t.rows.map (·.id) := fun id hid =>
        (filter_sublist.map _).subset ((hp.trans hl).mem_iff.mp hid)
      rw [applyIDs_eq 0 hnd hm]
      exact ⟨iff_of_true rfl ⟨rfl, hp⟩, fun _ => listing_place hnd (hp.trans hl), absurd rfl⟩

end Solovey.Order
