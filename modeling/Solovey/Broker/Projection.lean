import Solovey.Broker.Indexes

/-!
# The compacted journal

`retainedJournalProjection` chooses the rows that survive a compaction: a snapshot of the chain head
and the fences, the rows still needed, and as many of the newest other completions as fit.
`retainedJournalProjection_ok` describes every outcome by the set of the selected positions.
-/

namespace Solovey.Broker

open Solovey.Text Solovey.Json Solovey.Data List

variable {row : JournalRow}

theorem encodeJournalRow_ok {l : Bytes} : encodeJournalRow row = .ok l ↔
      row.Valid ∧ (marshal row.toValue).length ≤ maxJournalRowBytes ∧
        l = marshal row.toValue ++ [newline] := by
  rw [← validateJournalRow_ok]
  unfold encodeJournalRow
  cases hv : validateJournalRow row with
  | error text => simp
  | ok u =>
    simp only [true_and]
    split_ifs with hl
    · exact iff_of_false nofun fun h => by omega
    · simp only [Except.ok.injEq, eq_comm (a := l)]
      exact ⟨fun h => ⟨by omega, h⟩, fun h => h.2⟩

/-- The snapshot that a compaction writes. -/
def snapshot (i : JournalIndexes) : JournalRow := authorityRow ⟨i.sequence, i.previous, i.fences⟩

/-- The selected positions and the bytes of their lines and of the snapshot. -/
structure Selection where
  indices : List ℕ
  encodedBytes : ℕ

def Selection.add (sel : Selection) (index : ℕ) (line : Bytes) : Selection :=
  ⟨index :: sel.indices, sel.encodedBytes + line.length⟩

/-- The positions that must survive: the row that caused the compaction, the active row of
every unresolved receipt and the completion of every live mutation. -/
def requiredRow (rows : List JournalRow) (indexes : JournalIndexes) (requiredIndex : Option ℕ)
    (index : ℕ) : Bool :=
  requiredIndex == some index ||
  indexes.unresolved.keys.any (fun key =>
    lastIndex (fun row => row.phase == "active" && row.idempotencyKey == key) rows == some index) ||
  indexes.liveCompleted.keys.any fun key =>
    lastIndex (fun row => row.succeededAs key) rows == some index

def selectRequired (required : ℕ → Bool) (sel : Selection) (entry : JournalRow × ℕ) :
    Except BrokerError Selection :=
  if required entry.2 && entry.1.phase != "authority" then
    (encodeJournalRow entry.1).map (sel.add entry.2)
  else .ok sel

/-- A completion that is no longer needed but answers replays; a released result is not kept. -/
def optionalRow (indexes : JournalIndexes) (row : JournalRow) : Bool :=
  row.phase == "complete" && !(row.response.any (·.ok) &&
    row.receipt.any fun r => indexes.released.contains r.mutationKey)

def selectOptional (indexes : JournalIndexes) (reserveBytes reserveRows : ℕ) (sel : Selection)
    (entry : JournalRow × ℕ) : Except BrokerError Selection :=
  if entry.2 ∈ sel.indices ∨ optionalRow indexes entry.1 = false then .ok sel
  else
    (encodeJournalRow entry.1).map fun line =>
      if 1 + sel.indices.length + 1 + reserveRows > targetJournalRows ∨
          sel.encodedBytes + line.length + reserveBytes > maxJournalBytes then sel
      else sel.add entry.2 line

def failIf (bad : Prop) [Decidable bad] (text : String) : Except BrokerError Unit :=
  if bad then .error (.internal text) else .ok ()

/-- The line of a row that is known to have one. -/
def lineOf (row : JournalRow) : Bytes := (encodeJournalRow row).toOption.getD []

def retainedJournalProjection (rows : List JournalRow) (requiredIndex : Option ℕ)
    (reserveBytes reserveRows : ℕ) :
    Except BrokerError (List JournalRow × JournalIndexes × Bytes) := do
  let indexes ← (buildJournalIndexes rows).mapError .internal
  let state := snapshot indexes
  let stateLine ← encodeJournalRow state
  let sel ← rows.zipIdx.foldlM (selectRequired (requiredRow rows indexes requiredIndex))
    ⟨[], stateLine.length⟩
  failIf (sel.encodedBytes + reserveBytes > maxJournalFileBytes ∨
      1 + sel.indices.length + reserveRows > maxJournalRows)
    "broker live journal authority exceeds its bounded contract"
  -- from the newest row to the oldest
  let sel ← rows.zipIdx.reverse.foldlM (selectOptional indexes reserveBytes reserveRows) sel
  let kept := pick (fun index => decide (index ∈ sel.indices)) rows
  let keep := state :: kept
  let output := stateLine ++ kept.flatMap lineOf
  failIf (output.length + reserveBytes > maxJournalFileBytes ∨
      keep.length + reserveRows > maxJournalRows)
    "broker compacted journal exceeds its bounded contract"
  let keptIndexes ← (buildJournalIndexes keep).mapError .internal
  return (keep, keptIndexes, output)

theorem failIf_ok {b : Prop} [Decidable b] {t : String} {u : Unit} : failIf b t = .ok u ↔ ¬b := by
  unfold failIf
  split_ifs with h <;> simp [h]

/-! ## The selection -/

/-- A row that has a line. -/
def JournalRow.Encodes (row : JournalRow) : Prop :=
  row.Valid ∧ (marshal row.toValue).length ≤ maxJournalRowBytes

theorem lineOf_eq (h : row.Encodes) : lineOf row = marshal row.toValue ++ [newline] := by
  rw [lineOf, encodeJournalRow_ok.mpr ⟨h.1, h.2, rfl⟩]
  rfl

/-- The bytes of the line at a position. -/
def lineSize (rows : List JournalRow) (index : ℕ) : ℕ := (lineOf (rows[index]?.getD {})).length

/-- Every selected position holds a row that has a line and that may be selected, and the lines
are counted. -/
structure Selection.Within (sel : Selection) (rows : List JournalRow) (base : ℕ)
    (may : ℕ → JournalRow → Prop) : Prop where
  positions : ∀ i ∈ sel.indices, ∃ row, rows[i]? = some row ∧ row.Encodes ∧ may i row
  bytes : sel.encodedBytes = base + (sel.indices.map (lineSize rows)).sum

variable {sel : Selection} {rows : List JournalRow}

theorem Selection.Within.add {b : ℕ} {m : ℕ → JournalRow → Prop} (h : sel.Within rows b m) {ix : ℕ}
    {l : Bytes} (hr : rows[ix]? = some row) (hl : encodeJournalRow row = .ok l) (hm : m ix row) :
    (sel.add ix l).Within rows b m := by
  obtain ⟨hv, hln, hl'⟩ := encodeJournalRow_ok.mp hl
  refine ⟨fun i hi => ?_, ?_⟩
  · rcases mem_cons.mp hi with rfl | hi
    · exact ⟨row, hr, ⟨hv, hln⟩, hm⟩
    · exact h.positions i hi
  · have hs : lineSize rows ix = l.length := by
      rw [lineSize, hr, Option.getD_some, lineOf_eq ⟨hv, hln⟩, hl']
    simp only [Selection.add, h.bytes, map_cons, sum_cons, hs]
    omega

/-- The required rows, all of them and nothing else. -/
theorem selectRequired_ok {r : ℕ → Bool} {bs : ℕ}
    (h : rows.zipIdx.foldlM (selectRequired r) ⟨[], bs⟩ = .ok sel) :
    sel.Within rows bs (fun i row => r i = true ∧ row.phase ≠ "authority") ∧
      ∀ i row, rows[i]? = some row → r i = true → row.phase ≠ "authority" → i ∈ sel.indices := by
  have hi : sel.Within rows bs (fun i row => r i = true ∧ row.phase ≠ "authority") ∧
      ∀ e ∈ rows.zipIdx, r e.2 = true → e.1.phase ≠ "authority" → e.2 ∈ sel.indices := by
    -- along the fold, over the entries seen so far
    have hsb : ∀ e ∈ rows.zipIdx, rows[e.2]? = some e.1 := fun e he => mem_zipIdx_iff_getElem?.mp he
    generalize rows.zipIdx = entries at h hsb ⊢
    revert hsb
    refine foldlM_induction (P := fun entries sel =>
      (∀ e ∈ entries, rows[e.2]? = some e.1) →
      sel.Within rows bs (fun i row => r i = true ∧ row.phase ≠ "authority") ∧
      ∀ e ∈ entries, r e.2 = true → e.1.phase ≠ "authority" → e.2 ∈ sel.indices) ?_ ?_ h
    · intro _
      exact ⟨⟨by simp, by simp⟩, by simp⟩
    · intro entries s e s' _ ih hs hsb
      obtain ⟨hw, ha⟩ := ih fun e he => hsb e (by simp [he])
      simp only [selectRequired, Bool.and_eq_true, bne_iff_ne] at hs
      split_ifs at hs with hrq
      · obtain ⟨line, hl, rfl⟩ := map_ok.mp hs
        refine ⟨hw.add (hsb e (by simp)) hl hrq, ?_⟩
        intro e' he' hr' hp
        rcases mem_append.mp he' with he' | he'
        · exact mem_cons_of_mem _ (ha e' he' hr' hp)
        · rw [mem_singleton.mp he']
          exact mem_cons_self
      · cases hs
        refine ⟨hw, ?_⟩
        intro e' he' hr' hp
        rcases mem_append.mp he' with he' | he'
        · exact ha e' he' hr' hp
        · rw [mem_singleton.mp he'] at hr' hp
          exact absurd ⟨hr', hp⟩ hrq
  refine ⟨hi.1, fun i row hr hrq hp => ?_⟩
  exact hi.2 (row, i) (mem_zipIdx_iff_getElem?.mpr hr) hrq hp

/-- The second pass only adds rows that may stay, and only as long as there is room. -/
theorem selectOptional_ok {ie : JournalIndexes} {rs rr : ℕ} {b : ℕ} {s₀ : Selection}
    (m : ℕ → JournalRow → Prop)
    (h : rows.zipIdx.reverse.foldlM (selectOptional ie rs rr) s₀ = .ok sel)
    (h₀ : s₀.Within rows b m) (hm : ∀ i row, optionalRow ie row = true → m i row) :
    sel.Within rows b m ∧ (∀ i ∈ s₀.indices, i ∈ sel.indices) ∧
      (sel = s₀ ∨ sel.encodedBytes + rs ≤ maxJournalBytes) := by
  have hsb : ∀ e ∈ rows.zipIdx.reverse, rows[e.2]? = some e.1 := fun e he =>
    mem_zipIdx_iff_getElem?.mp (mem_reverse.mp he)
  generalize rows.zipIdx.reverse = entries at h hsb
  revert hsb
  refine foldlM_induction (P := fun entries sel =>
    (∀ e ∈ entries, rows[e.2]? = some e.1) →
    sel.Within rows b m ∧ (∀ i ∈ s₀.indices, i ∈ sel.indices) ∧
      (sel = s₀ ∨ sel.encodedBytes + rs ≤ maxJournalBytes)) ?_ ?_ h
  · exact fun _ => ⟨h₀, fun i hi => hi, .inl rfl⟩
  · intro entries s e s' _ ih hs hsb
    obtain ⟨hw, hk, hr⟩ := ih fun e he => hsb e (by simp [he])
    simp only [selectOptional] at hs
    split at hs
    · cases hs
      exact ⟨hw, hk, hr⟩
    · rename_i hc
      rw [not_or, Bool.not_eq_false] at hc
      obtain ⟨line, hl, hs'⟩ := map_ok.mp hs
      split_ifs at hs' with hf
      · subst hs'
        exact ⟨hw, hk, hr⟩
      · subst hs'
        rw [not_or, Nat.not_lt, Nat.not_lt] at hf
        exact ⟨hw.add (hsb e (by simp)) hl (hm _ _ hc.2),
          fun i hi => mem_cons_of_mem _ (hk i hi), .inr hf.2⟩

/-- What a compaction keeps of the indexed rows: the selected positions behind a snapshot. -/
structure Projection (rows : List JournalRow) (requiredIndex : Option ℕ)
    (reserveBytes reserveRows : ℕ) (s : IndexLoop) (sel : ℕ → Bool) (keep : List JournalRow)
    (indexes : JournalIndexes) (output : Bytes) : Prop where
  indexed : indexRows rows = .ok s
  keep_eq : keep = snapshot s.indexes :: pick sel rows
  selected : ∀ i row, rows[i]? = some row → sel i = true →
    requiredRow rows s.indexes requiredIndex i = true ∧ row.phase ≠ "authority" ∨
      optionalRow s.indexes row = true
  required : ∀ i row, rows[i]? = some row → requiredRow rows s.indexes requiredIndex i = true →
    row.phase ≠ "authority" → sel i = true
  encodes : ∀ row ∈ keep, row.Encodes
  kept_indexed : buildJournalIndexes keep = .ok indexes
  output_eq : output = joinLines (keep.map fun row => marshal row.toValue)
  optional_le : (∀ i row, rows[i]? = some row → sel i = true →
      requiredRow rows s.indexes requiredIndex i = true) ∨
    output.length + reserveBytes ≤ maxJournalBytes
  output_le : output.length + reserveBytes ≤ maxJournalFileBytes
  keep_le : keep.length + reserveRows ≤ maxJournalRows

theorem flatMap_lineOf (h : ∀ row ∈ rows, row.Encodes) :
    rows.flatMap lineOf = joinLines (rows.map fun row => marshal row.toValue) := by
  induction rows with
  | nil => rfl
  | cons row rows ih =>
    rw [flatMap_cons, lineOf_eq (h row (by simp)), ih fun r hr => h r (by simp [hr])]
    simp

theorem retainedJournalProjection_ok {rq : Option ℕ} {rs rr : ℕ} {kp : List JournalRow}
    {ie : JournalIndexes} {ot : Bytes}
    (h : retainedJournalProjection rows rq rs rr = .ok (kp, ie, ot)) :
    ∃ s sel, Projection rows rq rs rr s sel kp ie ot := by
  obtain ⟨i, hi, h⟩ := bind_ok.mp h
  obtain ⟨s, hs, rfl⟩ := buildJournalIndexes_ok.mp (mapError_ok.mp hi)
  obtain ⟨sl, hl, h⟩ := bind_ok.mp h
  obtain ⟨s₀, hs₀, h⟩ := bind_ok.mp h
  obtain ⟨-, -, h⟩ := bind_ok.mp h
  obtain ⟨sel, hsl, h⟩ := bind_ok.mp h
  obtain ⟨_, hb, h⟩ := bind_ok.mp h
  obtain ⟨ks, hk, h⟩ := bind_ok.mp h
  rw [mapError_ok] at hk
  obtain ⟨rfl, rfl, rfl⟩ : _ ∧ _ ∧ _ := by simpa [pure, Except.pure] using h
  obtain ⟨hw₀, ha⟩ := selectRequired_ok hs₀
  obtain ⟨hw, hsb, hr⟩ := selectOptional_ok (fun j row =>
    requiredRow rows s.indexes rq j = true ∧ row.phase ≠ "authority" ∨
      optionalRow s.indexes row = true) hsl
    ⟨fun j hj => by
      obtain ⟨row, hro, hen, hmy⟩ := hw₀.positions j hj
      exact ⟨row, hro, hen, .inl hmy⟩, hw₀.bytes⟩
    (fun j row hro => .inr hro)
  obtain ⟨hv, hln, rfl⟩ := encodeJournalRow_ok.mp hl
  have he : ∀ row ∈ pick (fun ix => decide (ix ∈ sel.indices)) rows, row.Encodes := by
    intro row hro
    obtain ⟨j, hj, hm⟩ := mem_pick.mp hro
    obtain ⟨row', hr', hen, -⟩ := hw.positions j (by simpa using hm)
    rw [hj] at hr'
    exact Option.some.inj hr' ▸ hen
  obtain ⟨hby, hrw⟩ : _ ∧ _ := by
    simpa only [not_or, gt_iff_lt, not_lt] using failIf_ok.mp hb
  refine ⟨s, fun ix => decide (ix ∈ sel.indices), hs, rfl, ?_, ?_, ?_, hk, ?_, ?_, hby, hrw⟩
  · intro j row hro hm
    obtain ⟨row', hr', -, hmy⟩ := hw.positions j (by simpa using hm)
    rw [hro] at hr'
    exact Option.some.inj hr' ▸ hmy
  · intro j row hro hrq hp
    simpa using hsb j (ha j row hro hrq hp)
  · intro row hro
    rcases mem_cons.mp hro with rfl | hro
    · exact ⟨hv, hln⟩
    · exact he row hro
  · rw [flatMap_lineOf he]
    simp
  · rcases hr with rfl | hr
    · left
      intro j row hro hm
      obtain ⟨row', hr', -, hrq, -⟩ := hw₀.positions j (by simpa using hm)
      exact hrq
    · right
      have hpc := pick_sum_le (fun row => (lineOf row).length) rows sel.indices
        (lineSize rows) (fun i row hro => by simp [lineSize, hro])
      have hby := hw.bytes
      rw [length_append, length_flatMap]
      omega

/-! ## What a compaction keeps -/

/-- The row that causes a compaction is the last one. -/
def LastRow (rows : List JournalRow) (requiredIndex : Option ℕ) : Prop :=
  ∀ i ∈ requiredIndex, i + 1 = rows.length

section Kept

variable {rs k : List JournalRow} {ri : Option ℕ} {rb rr : ℕ}
  {s s' : IndexLoop} {sl : ℕ → Bool} {ix : JournalIndexes} {o : Bytes}
  (hp : Projection rs ri rb rr s sl k ix o)
  (hs' : indexRows k = .ok s')

include hp

/-- The event of a kept history. -/
theorem Projection.last_keep {β : Type} {f : JournalRow → Option β}
    (hs : f (snapshot s.indexes) = none) : last? f k = last? f (pick sl rs) := by
  rw [hp.keep_eq, last_cons, hs, Option.or_none]

include hs'

theorem Projection.kept_authority :
    s'.indexes.sequence = s.indexes.sequence ∧ s'.indexes.previous = s.indexes.previous ∧
      s'.indexes.fences = s.indexes.fences := by
  have hc := indexRows_covers hp.indexed
  rw [hp.keep_eq] at hs'
  exact indexRows_snapshot hs' (fun row hr => hc.sequence_le row (pick_subset hr))
    (fun row hr => hc.fence_le row (pick_subset hr))

omit hs' in
/-- A kept active row belongs to an unresolved receipt, or is the last row. -/
theorem Projection.active_kept (hrq : LastRow rs ri) {row : JournalRow} (hrw : row ∈ pick sl rs)
    (hph : row.phase = "active") :
    row.idempotencyKey ∈ s.indexes.unresolved ∨ ∃ l, rs = l ++ [row] := by
  obtain ⟨i, hi, hs⟩ := mem_pick.mp hrw
  rcases hp.selected i row hi hs with ⟨hr, -⟩ | ho
  · simp only [requiredRow, Bool.or_eq_true, beq_iff_eq, any_eq_true, Std.ExtTreeMap.mem_keys] at hr
    rcases hr with (hr | ⟨key, hk, hls⟩) | ⟨key, hk, hls⟩
    · exact .inr ⟨_, eq_concat_of_getElem? hi (hrq i hr)⟩
    · left
      obtain ⟨l₁, a, l₂, hl, hln, ha, -⟩ := lastIndex_eq_some hls
      have hrw : a = row := by
        subst hl hln
        simpa using hi
      subst hrw
      simp only [Bool.and_eq_true, beq_iff_eq] at ha
      rwa [ha.2]
    · obtain ⟨l₁, a, l₂, hl, hln, ha, -⟩ := lastIndex_eq_some hls
      have hrw : a = row := by
        subst hl hln
        simpa using hi
      subst hrw
      simp [JournalRow.succeededAs, hph] at ha
  · simp [optionalRow, hph] at ho

theorem Projection.kept_unresolved (hrq : LastRow rs ri) :
    s'.indexes.unresolved = s.indexes.unresolved := by
  ext1 key
  have hr := unresolved_eq hp.indexed key
  rw [unresolved_eq hs' key, hp.last_keep (by simp [unresolvedEvent, snapshot, authorityRow])]
  cases hls : last? (unresolvedEvent key) rs with
  | none =>
    have hn : last? (unresolvedEvent key) (pick sl rs) = none :=
      last_eq_none.mpr fun row hrw => last_eq_none.mp hls row (pick_subset hrw)
    rw [hn, hr, hls]
  | some e =>
    cases e with
    | none =>
      -- the key is resolved, so no active row of it is kept
      rw [hls] at hr
      rw [hr]
      cases hpc : last? (unresolvedEvent key) (pick sl rs) with
      | none => rfl
      | some e =>
        cases e with
        | none => rfl
        | some r =>
          exfalso
          obtain ⟨row, hrw, he⟩ := last_eq_some_mem hpc
          obtain ⟨hk, hph, -⟩ := unresolvedEvent_some he
          rcases hp.active_kept hrq hrw hph with hm | ⟨l, rfl⟩
          · rw [hk, Std.ExtTreeMap.mem_iff_isSome_getElem?, hr] at hm
            simp at hm
          · rw [last_concat, he] at hls
            simp at hls
    | some r =>
      obtain ⟨l₁, row, l₂, hl, he, ha⟩ := last_eq_some.mp hls
      rw [hls] at hr
      have hrw : rs[l₁.length]? = some row := by simp [hl]
      obtain ⟨hk, hph, -⟩ := unresolvedEvent_some he
      have hi : lastIndex (fun row => row.phase == "active" && row.idempotencyKey == key) rs =
          some l₁.length := by
        rw [hl]
        refine lastIndex_append (by simp [hk, hph]) fun x hx => ?_
        have hn := ha x hx
        unfold unresolvedEvent at hn
        split_ifs at hn <;> simp_all
      have hs : sl l₁.length = true := by
        refine hp.required _ row hrw ?_ (by simp [hph])
        simp only [requiredRow, Bool.or_eq_true, beq_iff_eq, any_eq_true, Std.ExtTreeMap.mem_keys]
        refine .inl (.inr ⟨key, ?_, hi⟩)
        rw [Std.ExtTreeMap.mem_iff_isSome_getElem?, hr]
        rfl
      rw [hr, hl, last_pick he ha hs]

end Kept

end Solovey.Broker
