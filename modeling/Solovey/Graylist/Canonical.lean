import Solovey.Graylist.State

/-!
# Canonical lists of a graylist state

The references of a state that passes its check are in their canonical order already, so that
bringing them into it changes nothing; and what the canonical order gives is in canonical order.
-/

namespace Solovey.Graylist

open Solovey.Text Solovey.Net List

/-! ## Identifiers of signals -/

theorem isSpace_of_isHexDigit {c : Char} (h : isHexDigit c = true) : isSpace c = false := by
  have hr : 48 ≤ c.toNat ∧ c.toNat ≤ 102 := by
    simp only [isHexDigit, Char.isDigit, Bool.or_eq_true, Bool.and_eq_true, decide_eq_true_eq,
      ge_iff_le, Char.le_def, UInt32.le_iff_toNat_le] at h
    simp only [Char.toNat]
    change (((48 ≤ _ ∧ _ ≤ 57) ∨ (97 ≤ _ ∧ _ ≤ 102)) ∨ (65 ≤ _ ∧ _ ≤ 70)) at h
    omega
  exact isSpace_visible (by omega) (by omega)

theorem normal_of_validSHA256 {vl : Str} (h : validSHA256 vl = true) :
    toLower (trimSpace vl) = vl := by
  simp only [validSHA256, Bool.and_eq_true, beq_iff_eq] at h
  obtain ⟨⟨-, hl⟩, hh⟩ := h
  have hv : ∀ c ∈ vl, isSpace c = false :=
    fun c hc => isSpace_of_isHexDigit (all_eq_true.mp hh c hc)
  rw [trimSpace_of_ends (fun c hc => hv c (mem_of_mem_head? hc))
    fun c hc => hv c (mem_of_mem_getLast? hc)]
  exact hl.symm

theorem normalSignalID_of_valid {vl : Str} (h : validSHA256 vl = true) :
    normalSignalID vl = some vl := by
  simp only [normalSignalID, normal_of_validSHA256 h, h, if_true]

/-! ## References to signals -/

theorem filterMap_of_fixed {α : Type} {f : α → Option α} {values : List α}
    (h : ∀ value ∈ values, f value = some value) : values.filterMap f = values :=
  (filterMap_congr h).trans filterMap_some

variable {values : List Str}

theorem sortedUniqueStrings_iff : sortedUniqueStrings values = true ↔ values.Pairwise (· < ·) := by
  rw [sortedUniqueStrings, decide_eq_true_eq, isChain_iff_pairwise]

theorem eraseDups_of_nodup (h : values.Nodup) : values.eraseDups = values := by
  induction values with
  | nil => rfl
  | cons value values ih =>
    rw [nodup_cons] at h
    have hk : values.filter (fun other => !other == value) = values := by
      rw [filter_eq_self]
      intro other ho
      simp only [Bool.not_eq_true', beq_eq_false_iff_ne]
      rintro rfl
      exact h.1 ho
    rw [eraseDups_cons, hk, ih h.2]

theorem canonicalSignalRefs_eq_self (hv : sortedUniqueSHA256 values = true)
    (hb : values.length ≤ maxGraylistSignalRefs) : canonicalSignalRefs values = values := by
  simp only [sortedUniqueSHA256, Bool.and_eq_true, all_eq_true] at hv
  obtain ⟨hi, hs⟩ := hv
  have hp := sortedUniqueStrings_iff.mp hs
  have hn : values.filterMap normalSignalID = values :=
    filterMap_of_fixed fun value hvl => normalSignalID_of_valid (hi value hvl)
  rw [canonicalSignalRefs, hn, eraseDups_of_nodup (hp.imp fun h => ne_of_lt h),
    sortStrings, (hp.imp fun h => le_of_lt h).insertionSort_eq, take_of_length_le hb]

/-! ## References to evidence -/

/-- A list of references to evidence in canonical order. -/
structure CanonicalEvidence (values : List EvidenceRef) : Prop where
  bounded : values.length ≤ maxGraylistSignalRefs
  normal : ∀ value ∈ values, value.normal = some value
  sorted : values.Pairwise fun a b => a.signalID < b.signalID

variable {v : EvidenceRef}

theorem EvidenceRef.normal_of_valid (h : v.valid = true) : v.normal = some v := by
  simp only [valid, Bool.and_eq_true, bne_iff_ne] at h
  obtain ⟨⟨hid, he⟩, -⟩ := h
  simp [normal, normal_of_validSHA256 hid, hid, he]

theorem canonicalEvidence_of_valid {values : List EvidenceRef} (hvl : validEvidence values = true)
    (hb : values.length ≤ maxGraylistSignalRefs) :
    CanonicalEvidence values := by
  simp only [validEvidence, Bool.and_eq_true, all_eq_true] at hvl
  exact ⟨hb, fun v hv => EvidenceRef.normal_of_valid (hvl.1 v hv),
    pairwise_map.mp (sortedUniqueStrings_iff.mp hvl.2)⟩

theorem keepLatest_new {k : List EvidenceRef} (h : ∀ other ∈ k, other.signalID ≠ v.signalID) :
    keepLatest k v = k ++ [v] := by
  have hn : k.find? (·.signalID == v.signalID) = none := by
    rw [find?_eq_none]
    intro other ho
    simpa using h other ho
  simp only [keepLatest, hn]

theorem foldl_keepLatest_of_distinct {values : List EvidenceRef} (k : List EvidenceRef)
    (h : (k ++ values).Pairwise fun a b => a.signalID ≠ b.signalID) :
    values.foldl keepLatest k = k ++ values := by
  induction values generalizing k with
  | nil => rw [foldl_nil, append_nil]
  | cons v values ih =>
    have hn : ∀ other ∈ k, other.signalID ≠ v.signalID :=
      fun other ho => (pairwise_append.mp h).2.2 other ho v (by simp)
    rw [foldl_cons, keepLatest_new hn, ih (k ++ [v]) (by simpa using h)]
    simp

theorem CanonicalEvidence.eq_self {values : List EvidenceRef} (h : CanonicalEvidence values) :
    canonicalEvidenceRefs values = values := by
  have hn : values.filterMap EvidenceRef.normal = values := filterMap_of_fixed h.normal
  have hf : values.foldl keepLatest [] = values :=
    foldl_keepLatest_of_distinct [] (h.sorted.imp fun hlt => ne_of_lt hlt)
  rw [canonicalEvidenceRefs, hn, hf,
    (h.sorted.imp fun hlt => le_of_lt hlt).insertionSort_eq, take_of_length_le h.bounded]

/-- One pass of the loop keeps the signals distinct and adds no reference but the one it reads. -/
theorem keepLatest_distinct {k : List EvidenceRef} (v : EvidenceRef)
    (h : k.Pairwise fun a b => a.signalID ≠ b.signalID) :
    (keepLatest k v).Pairwise (fun a b => a.signalID ≠ b.signalID) ∧
      ∀ evidence ∈ keepLatest k v, evidence ∈ k ∨ evidence = v := by
  rcases hf : k.find? (·.signalID == v.signalID) with _ | current
  · have hn : ∀ other ∈ k, other.signalID ≠ v.signalID := by
      intro other ho
      simpa using find?_eq_none.mp hf other ho
    rw [keepLatest_new hn]
    constructor
    · refine pairwise_append.mpr ⟨h, pairwise_singleton _ _, ?_⟩
      intro other ho added ha
      rw [mem_singleton.mp ha]
      exact hn other ho
    · intro evidence he
      simpa using he
  · simp only [keepLatest, hf]
    split
    · constructor
      · rw [pairwise_map]
        refine h.imp fun {a b} hab => ?_
        split <;> split <;> simp_all
      · intro evidence he
        obtain ⟨other, ho, rfl⟩ := mem_map.mp he
        split
        · exact .inr rfl
        · exact .inl ho
    · exact ⟨h, fun evidence he => .inl he⟩

theorem foldl_keepLatest_distinct (values : List EvidenceRef) (k : List EvidenceRef)
    (h : k.Pairwise fun a b => a.signalID ≠ b.signalID) :
    (values.foldl keepLatest k).Pairwise (fun a b => a.signalID ≠ b.signalID) ∧
      ∀ evidence ∈ values.foldl keepLatest k, evidence ∈ k ∨ evidence ∈ values := by
  induction values generalizing k with
  | nil => exact ⟨h, fun evidence he => .inl he⟩
  | cons v values ih =>
    obtain ⟨hd, hm⟩ := keepLatest_distinct v h
    obtain ⟨ha, hl⟩ := ih _ hd
    refine ⟨ha, fun evidence he => ?_⟩
    rcases hl evidence he with hk | hv
    · rcases hm evidence hk with ho | rfl
      · exact .inl ho
      · exact .inr (mem_cons_self ..)
    · exact .inr (mem_cons_of_mem _ hv)

theorem EvidenceRef.normal_normal {o : EvidenceRef} (h : v.normal = some o) :
    o.normal = some o := by
  simp only [normal] at h
  split at h
  · cases h
  · next hv =>
    simp only [Bool.or_eq_true, Bool.not_eq_true', beq_iff_eq, not_or, Bool.not_eq_false] at hv
    cases h
    simp [normal, normal_of_validSHA256 hv.1, hv.1, hv.2]

theorem canonicalEvidenceRefs_canonical (values : List EvidenceRef) :
    CanonicalEvidence (canonicalEvidenceRefs values) := by
  obtain ⟨hd, hm⟩ := foldl_keepLatest_distinct (values.filterMap EvidenceRef.normal) [] .nil
  have ht : Std.Total fun a b : EvidenceRef => a.signalID ≤ b.signalID :=
    ⟨fun a b => le_total a.signalID b.signalID⟩
  have htr : IsTrans EvidenceRef fun a b => a.signalID ≤ b.signalID :=
    ⟨fun _ _ _ hab hbc => le_trans hab hbc⟩
  set kept := (values.filterMap EvidenceRef.normal).foldl keepLatest [] with hk
  have hp := perm_insertionSort (fun a b : EvidenceRef => a.signalID ≤ b.signalID) kept
  refine ⟨by simp [canonicalEvidenceRefs], ?_, ?_⟩
  · intro v hv
    have hin : v ∈ kept := hp.mem_iff.mp (mem_of_mem_take hv)
    rcases hm v hin with hn | hnr
    · cases hn
    · obtain ⟨other, -, ho⟩ := mem_filterMap.mp hnr
      exact EvidenceRef.normal_normal ho
  · have hs := pairwise_insertionSort (fun a b : EvidenceRef => a.signalID ≤ b.signalID) kept
    have hne := (hp.pairwise_iff fun {a b} (hab : a.signalID ≠ b.signalID) => hab.symm).mpr hd
    exact ((hs.and hne).imp fun {a b} h => lt_of_le_of_ne h.1 h.2).sublist (take_sublist _ _)

end Solovey.Graylist
