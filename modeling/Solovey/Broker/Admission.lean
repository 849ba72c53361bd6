import Solovey.Broker.Pairs
import Solovey.Broker.System

/-!
# Admission

A request is admitted only when every earlier admission has a committed row and its fence is above
all earlier fences of its resource. `State.Inv` ties the admissions to the two indexes that `Begin`
checks: the fences cover them, and one without a committed row is unresolved. Both indexes survive
compactions and crashes (`CrashAppend.holds`).
-/

namespace Solovey.Broker

open Solovey.Text Solovey.Json Solovey.Data List

/-! ## The indexes that an admission checks -/

/-- The same fences and the same unresolved receipts. -/
structure JournalIndexes.SameGuards (i i' : JournalIndexes) : Prop where
  fences : i.fences = i'.fences
  unresolved : i.unresolved = i'.unresolved

variable {rows k : List JournalRow} {rb rr : ℕ} {s : IndexLoop}
  {sl : ℕ → Bool} {ix : JournalIndexes} {o : Bytes}

theorem Projection.guards {ri : Option ℕ} {s' : IndexLoop}
    (hp : Projection rows ri rb rr s sl k ix o) (hs' : indexRows k = .ok s')
    (hr : LastRow rows ri) :
    s'.indexes.SameGuards s.indexes :=
  ⟨(hp.kept_authority hs').2.2, hp.kept_unresolved hs' hr⟩

theorem lastRow_concat (rows : List JournalRow) (row : JournalRow) :
    LastRow (rows ++ [row]) (some rows.length) := by
  simp [LastRow]

variable {row : JournalRow}

/-- The row that causes a compaction is kept. -/
theorem Projection.mem_keep (hp : Projection (rows ++ [row]) (some rows.length) rb rr s sl k ix
      o) (hph : row.phase ≠ "authority") : row ∈ k := by
  rw [hp.keep_eq]
  refine mem_cons_of_mem _ (mem_pick.mpr ⟨rows.length, by simp, ?_⟩)
  exact hp.required _ row (by simp) (by simp [requiredRow]) hph

/-- The rows after an appended row, in memory or in the file: its effect on the guards is there,
whether the journal was compacted or not. -/
structure Follows (rows : List JournalRow) (row : JournalRow) (rows' : List JournalRow) : Prop where
  guards : ∀ s', indexRows rows' = .ok s' →
    ∃ s₁, indexRows (rows ++ [row]) = .ok s₁ ∧ s'.indexes.SameGuards s₁.indexes
  mem : row.phase ≠ "authority" → row ∈ rows'

theorem follows_concat (rows : List JournalRow) (row : JournalRow) :
    Follows rows row (rows ++ [row]) :=
  ⟨fun s' hs' => ⟨s', hs', rfl, rfl⟩, by simp⟩

theorem Projection.follows (hp : Projection (rows ++ [row]) (some rows.length) rb rr s sl k ix
      o) : Follows rows row k :=
  ⟨fun _ hs' => ⟨s, hp.indexed, hp.guards hs' (lastRow_concat rows row)⟩, hp.mem_keep⟩

variable {w : World}

theorem AppendOk.follows {w' : World} (h : AppendOk w row rb rr w') :
    Follows w.journal.rows row w'.journal.rows := by
  cases h with
  | appended hi hs => exact follows_concat _ _
  | compacted hp hl => exact hp.follows

variable {disk : Disk}

/-- The file after a crash inside an append: the old rows, or those after the new row. -/
theorem CrashAppend.holds (h : CrashAppend w row rb rr disk) (hw : w.Synced) (hm : row.Marshalled) :
    ∃ rows tail, disk.Holds rows tail ∧ ∀ s, indexRows rows = .ok s →
      rows = w.journal.rows ∨ row.Encodes ∧ Follows w.journal.rows row rows := by
  obtain ⟨rows, hh, hr⟩ := hw.file
  have ho : ∀ t, ({ w.disk with temporary := t } : Disk).Holds rows [] :=
    fun t => ⟨hh.bytes, by simp, hh.written⟩
  cases h with
  | before => exact ⟨rows, [], hh, fun s hs => .inl (hr s hs)⟩
  | @line line hl _ n =>
    obtain ⟨hv, hln, hl'⟩ := encodeJournalRow_ok.mp hl
    have he : row.Encodes := ⟨hv, hln⟩
    rw [← lineOf_eq he] at hl'
    subst hl'
    obtain ⟨rows', tail, hh', hr'⟩ := hh.line ⟨he, hm⟩ n
    refine ⟨rows', tail, hh', fun s hs => ?_⟩
    rcases hr' with rfl | rfl
    · exact .inl (hr s hs)
    · obtain ⟨s₀, hs₀⟩ := indexRows_append hs
      rw [← hr s₀ hs₀]
      exact .inr ⟨he, follows_concat _ _⟩
  | @compaction line _ hl _ hc =>
    obtain ⟨hv, hln, -⟩ := encodeJournalRow_ok.mp hl
    have he : row.Encodes := ⟨hv, hln⟩
    cases hc with
    | before => exact ⟨rows, [], hh, fun s hs => .inl (hr s hs)⟩
    | removed => exact ⟨rows, [], ho none, fun s hs => .inl (hr s hs)⟩
    | writing _ n => exact ⟨rows, [], ho _, fun s hs => .inl (hr s hs)⟩
    | @published k ix o hpr =>
      obtain ⟨s₁, sl, hp⟩ := retainedJournalProjection_ok hpr
      have hwr : ∀ r ∈ w.journal.rows ++ [row], r.Written := by
        simpa [or_imp, forall_and] using ⟨hw.written, he, hm⟩
      refine ⟨k, [], ⟨?_, by simp, hp.written hwr⟩, fun s hs => .inr ⟨he, hp.follows⟩⟩
      simp [hp.output_eq, fileOf]

theorem Disk.eq_empty (hm : disk.main = none) (ht : disk.temporary = none) : disk = {} := by
  obtain ⟨m, t⟩ := disk
  cases hm
  cases ht
  rfl

/-- The file after a crash inside an opening: its rows, or a compaction of them. -/
theorem CrashOpen.holds {disk' : Disk} (h : CrashOpen disk disk') {d : Bytes} {tail : Bytes}
    (hm : disk.main = some d) (hh : disk.Holds rows tail) :
    disk'.main ≠ none ∧ ∃ rows' tail', disk'.Holds rows' tail' ∧
      ∀ s', indexRows rows' = .ok s' → (∀ row ∈ rows', row.Readable) →
        ∃ s, indexRows rows = .ok s ∧ (∀ row ∈ rows, row.Readable) ∧
          s'.indexes.SameGuards s.indexes := by
  have hb := hh.bytes
  rw [hm, Option.getD_some] at hb
  have hsr : disk.source = some (d, true) := by
    obtain ⟨m, t⟩ := disk
    cases hm
    rfl
  have hct : ∀ loaded, readJournalFile false (some d) true = .ok loaded →
      d.take loaded.fileBytes = fileOf rows ∧ loaded.rows = rows ∧ ∀ row ∈ rows, row.Readable := by
    intro loaded hrd
    simp only [readJournalFile, Bool.false_eq_true, if_false] at hrd
    split_ifs at hrd
    rw [hb, parseJournal_written hh.written hh.tail_line] at hrd
    obtain ⟨hr, s, -, rfl⟩ := hrd
    exact ⟨by simp [hb], rfl, hr⟩
  have hs : ∀ s', indexRows rows = .ok s' → (∀ row ∈ rows, row.Readable) →
      ∃ s, indexRows rows = .ok s ∧ (∀ row ∈ rows, row.Readable) ∧
        s'.indexes.SameGuards s.indexes :=
    fun s' hs' hr => ⟨s', hs', hr, rfl, rfl⟩
  cases h with
  | before => exact ⟨by simp [hm], rows, tail, hh, hs⟩
  | removed => exact ⟨by simp [hm], rows, tail, ⟨hh.bytes, hh.tail_line, hh.written⟩, hs⟩
  | recovered hsr' hrd =>
    rw [hsr] at hsr'
    cases hsr'
    rw [(hct _ hrd).1]
    exact ⟨by simp, rows, [], ⟨by simp, by simp, hh.written⟩, hs⟩
  | compaction hsr' hrd j hl hc =>
    rw [hsr] at hsr'
    cases hsr'
    obtain ⟨ht, hrw, hr⟩ := hct _ hrd
    rw [ht, hrw] at hc
    cases hc with
    | before | removed | writing => exact ⟨by simp, rows, [], ⟨by simp, by simp, hh.written⟩, hs⟩
    | @published k ix o hpr =>
      obtain ⟨s₁, sl, hp⟩ := retainedJournalProjection_ok hpr
      refine ⟨by simp, k, [], ⟨?_, by simp, hp.written hh.written⟩, fun s' hs' _ =>
        ⟨s₁, hp.indexed, hr, hp.guards hs' (by simp [LastRow])⟩⟩
      simp [hp.output_eq, fileOf]

/-- A crash before the first row does not create a file. -/
theorem CrashAppend.missing (h : CrashAppend w row rb rr disk) (hw : w.Synced)
    (hb : rb ≤ maxJournalRowLineSize) (hrw : rr ≤ 1) (hmn : disk.main = none) : disk = w.disk := by
  cases h with
  | before => rfl
  | line hln hs n => simp at hmn
  | @compaction line _ hln hl hc =>
    have hm : w.disk.main = none := by
      cases hc with
      | before | removed | writing _ n => exact hmn
      | published hp => simp at hmn
    obtain ⟨rows, hh, hr⟩ := hw.file
    have hn : rows = [] := by
      have := hh.bytes
      rw [hm, Option.getD_none, append_nil, eq_comm, fileOf_eq_nil] at this
      exact this
    have he : w.journal.rows = [] := by rw [← hr {} (hn ▸ rfl), hn]
    obtain ⟨-, hle, rfl⟩ := encodeJournalRow_ok.mp hln
    -- one row is far below the size of a compaction
    rw [hw.bytes, he, needsCompaction_iff] at hl
    simp only [fileOf_nil, length_nil, length_append, length_singleton,
      maxJournalBytes, maxJournalRows, maxJournalFileBytes, maxJournalRowLineSize,
      maxJournalRowBytes, maxResponseBytes] at hl hle hb
    omega

section Effects

variable {rows rows' : List JournalRow} {ro : JournalRow} {s s' : IndexLoop}

theorem Follows.fence_le (h : Follows rows ro rows') (hs : indexRows rows = .ok s)
    (hs' : indexRows rows' = .ok s') (r : String) :
    s.indexes.fences.getD r 0 ≤ s'.indexes.fences.getD r 0 := by
  obtain ⟨s₁, hs₁, hg⟩ := h.guards s' hs'
  obtain ⟨s₀, hs₀, hrw⟩ := indexRows_concat.mp hs₁
  rw [hs] at hs₀
  cases hs₀
  rw [hg.fences]
  rcases indexRow_ok.mp hrw with ⟨st, hr, hi, -, rfl⟩ | ⟨rc, hr, -, rfl⟩ |
    ⟨rc, response, hr, -, rfl⟩
  · -- a snapshot is the first row
    have hc := indexRows_covers hs
    obtain rfl : rows = [] := eq_nil_of_length_eq_zero (hc.index ▸ hi)
    cases hs
    simp
  · exact (s.receive_fence ro rc).1 r
  · simpa [IndexLoop.complete] using (s.receive_fence ro rc).1 r

theorem Follows.active (h : Follows rows ro rows') (hs' : indexRows rows' = .ok s')
    (hp : ro.phase = "active") :
    ro.fenceSequence ≤ s'.indexes.fences.getD ro.fenceResource 0 ∧
      ro.idempotencyKey ∈ s'.indexes.unresolved := by
  obtain ⟨s₁, hs₁, hg⟩ := h.guards s' hs'
  refine ⟨?_, ?_⟩
  · rw [hg.fences]
    exact (indexRows_covers hs₁).fence_le ro (by simp)
  · rw [hg.unresolved, Std.ExtTreeMap.mem_iff_isSome_getElem?, unresolved_eq hs₁, last_concat]
    obtain ⟨s₀, -, hrw⟩ := indexRows_concat.mp hs₁
    rcases indexRow_ok.mp hrw with ⟨st, hr, -⟩ | ⟨r, hr, -⟩ | ⟨r, rs, hr, -⟩
    · simp [hr.row_eq] at hp
    · simp [unresolvedEvent, hp, hr.receipt_eq]
    · simp [hr.phase] at hp

end Effects

/-! ## The invariant -/

/-- The row completes the request. -/
structure JournalRow.Completes (row : JournalRow) (request : Request) : Prop where
  phase : row.phase = "complete"
  key : row.idempotencyKey = request.idempotencyKey
  resource : row.fenceResource = request.fence.resource
  sequence : row.fenceSequence = request.fence.sequence

/-- A completion that has a line completes the request of its receipt. -/
theorem completeRow_completes {j : FileJournal} {a : Admitted} {rq : Request} {r : Response}
    {p : CompletionPolicy} {n : Int64} (hrc : a.receipt.idempotencyKey = a.request.idempotencyKey ∧
      a.receipt.fenceResource = a.request.fence.resource ∧
      a.receipt.fenceSequence = a.request.fence.sequence)
    (he : (completeRow rq (completeReceipt j a.receipt r n) r p).Encodes) :
    (completeRow rq (completeReceipt j a.receipt r n) r p).Completes
      a.request := by
  rcases he.1 with h | h | ⟨h⟩
  · simpa [completeRow] using congrArg JournalRow.phase h.row_eq
  · simpa [completeRow] using h.phase
  · have hsg := h.signed
    obtain rfl := Option.some.inj h.receipt_eq
    simp only [receiptMatches, Bool.and_eq_true, beq_iff_eq] at hsg
    obtain ⟨⟨⟨⟨⟨-, hk⟩, hr⟩, hs⟩, -⟩, -⟩ := hsg
    exact ⟨rfl, hk.symm.trans hrc.1, hr.symm.trans hrc.2.1, hs.symm.trans hrc.2.2⟩

namespace State

/-- Every admission is below the fences, and has a committed row or is unresolved. -/
def Covered (s : State) (i : JournalIndexes) : Prop :=
  ∀ a ∈ s.admitted,
    a.request.fence.sequence ≤ i.fences.getD a.request.fence.resource 0 ∧
    ((∃ row ∈ s.seen, row.Completes a.request) ∨
      s.pending = some a ∧ a.request.idempotencyKey ∈ i.unresolved)

structure Inv (c : Caller) (s : State) : Prop where
  begun : ∀ a ∈ s.admitted, c.begins a.request a.digest
  increasing : s.admitted.Pairwise fun a b =>
    a.request.fence.resource = b.request.fence.resource →
      a.request.fence.sequence < b.request.fence.sequence
  receipt : ∀ a ∈ s.pending, a.receipt.idempotencyKey = a.request.idempotencyKey ∧
    a.receipt.fenceResource = a.request.fence.resource ∧
      a.receipt.fenceSequence = a.request.fence.sequence
  missing : s.disk.main = none → s.admitted = [] ∧ s.disk.temporary = none
  running : ∀ j ∈ s.running, World.Synced ⟨j, s.disk⟩ ∧ s.Covered j.indexes
  stopped : s.running = none → ∃ rows tail, s.disk.Holds rows tail ∧
    ∀ i, indexRows rows = .ok i → (∀ row ∈ rows, row.Readable) → s.Covered i.indexes

variable {s : State} {i i' : JournalIndexes}

theorem Covered.guards (h : s.Covered i) (hi : i'.SameGuards i) : s.Covered i' := by
  intro a ha
  rw [hi.fences, hi.unresolved]
  exact h a ha

theorem Covered.observe (h : s.Covered i) : s.observe.Covered i := by
  intro a ha
  obtain ⟨hf, hr⟩ := h a ha
  refine ⟨hf, hr.imp_left ?_⟩
  rintro ⟨row, hr, hc⟩
  exact ⟨row, mem_append_left _ hr, hc⟩

/-- Nothing is unresolved: every admission has a committed row. -/
theorem Covered.committed (h : s.Covered i) (hi : i.unresolved.isEmpty = true) :
    ∀ a ∈ s.admitted, ∃ row ∈ s.seen, row.Completes a.request := by
  intro a ha
  rcases (h a ha).2 with hr | ⟨-, hm⟩
  · exact hr
  · rw [Std.ExtTreeMap.isEmpty_iff.mp hi] at hm
    simp at hm

theorem Synced.guards {w : World} (h : w.Synced) {x : IndexLoop}
    (hx : indexRows w.journal.rows = .ok x) : w.journal.indexes.SameGuards x.indexes := by
  obtain ⟨y, hy, hi⟩ := h.indexed
  rw [hx] at hy
  cases hy
  rw [hi]
  exact ⟨rfl, rfl⟩

theorem mem_seen_running {j : FileJournal} {row : JournalRow} (hr : row ∈ j.rows)
    (hj : s.running = some j) : row ∈ s.observe.seen := by
  simp [observe, hj, hr]

theorem mem_seen_readable {rows : List JournalRow} {tail : Bytes} {x : IndexLoop} {row : JournalRow}
    (hrw : row ∈ rows) (hh : s.disk.Holds rows tail) (hx : indexRows rows = .ok x)
    (hr : ∀ row ∈ rows, row.Readable) :
    row ∈ s.observe.seen := by
  have hf : row ∈ s.disk.readable := by
    have hb := hh.bytes
    unfold Disk.readable
    cases hm : s.disk.main with
    | none =>
      rw [hm, Option.getD_none, eq_comm, append_eq_nil_iff, fileOf_eq_nil] at hb
      simp [hb.1] at hrw
    | some d =>
      rw [hm, Option.getD_some] at hb
      rw [hb]
      simp only [parseJournal_fileOf hr hx hh.tail_line]
      exact hrw
  simp [observe, hf]

section Step

variable {c : Caller} {j : FileJournal} (h : s.Inv c)

include h

variable {w : World}

/-- A call that admits and commits nothing. -/
theorem Inv.kept (hj : s.running = some j) (hw : w.Synced)
    (hg : w.journal.indexes.SameGuards j.indexes) (hm : w.disk.main = none → w.disk = s.disk) :
    { s with disk := w.disk, running := some w.journal }.observe.Inv c := by
  refine ⟨h.begun, h.increasing, h.receipt, fun hmn => ?_, ?_, by rintro ⟨⟩⟩
  · have hd := hm hmn
    exact ⟨(h.missing (hd ▸ hmn)).1, hd ▸ (h.missing (hd ▸ hmn)).2⟩
  · rintro _ ⟨⟩
    exact ⟨hw, Covered.observe (Covered.guards (h.running j hj).2 hg)⟩

/-- A failed call. -/
theorem Inv.failed {w₁ : World} {row : JournalRow} {rb rr : ℕ} {es : List BrokerError}
    (hj : s.running = some j) (hw : w.Synced) (hd : w.disk = s.disk)
    (hg : w.journal.indexes.SameGuards j.indexes) (hm : row.Marshalled)
    (ha : append {} w row rb rr = (w₁, .error es)) :
    { s with
      disk := (reloadAfterWriteFailure {} w₁).1.disk
      running := some (reloadAfterWriteFailure {} w₁).1.journal }.observe.Inv c := by
  obtain ⟨hs, hd', hr, x, hx, hi⟩ := failed_synced hw hm ha
  refine h.kept hj hs ?_ fun hmn => ?_
  · rcases hi with hi | hi
    · rw [hi]
      exact hg
    · have := Synced.guards hw hx
      rw [hi]
      exact ⟨this.fences.symm.trans hg.fences, this.unresolved.symm.trans hg.unresolved⟩
  · rw [hd'] at hmn ⊢
    rcases append_error_working ha with rfl | ⟨-, -, rfl⟩
    · exact hd
    · simp at hmn

theorem Inv.begin (hj : s.running = some j) {r : Request} {d : String} (hb : c.begins r d)
    (p : PeerIdentity) (n : Int64) :
    (s.begun j r p d n).Inv c := by
  obtain ⟨hs, hcv⟩ := h.running j hj
  rcases hc : World.beginCall {} ⟨j, s.disk⟩ r p d n with ⟨w', reply⟩
  simp only [State.begun, hc]
  rcases beginCall_cases hc with ⟨rfl, hr⟩ | ⟨had, hfn⟩
  · have hk := h.kept hj hs ⟨rfl, rfl⟩ fun _ => rfl
    cases reply with
    | ok value =>
      cases value with
      | active => exact hr.elim
      | replay => exact hk
    | refused => exact hk
    | failed => exact hr.elim
  · rcases finishCall_cases hfn with ⟨hap, rfl⟩ | ⟨w₁, errors, hap, rfl, rfl⟩
    · obtain ⟨he, hok⟩ := append_ok hap
      have hw' := append_synced hs.drawn ⟨he, rfl⟩ hok
      obtain ⟨x', hx', -⟩ := hw'.indexed
      have hg := Synced.guards hw' hx'
      obtain ⟨x, hx, -⟩ := hs.indexed
      have ho := Synced.guards hs hx
      obtain ⟨hf, hu⟩ := hok.follows.active hx' rfl
      refine ⟨?_, ?_, ?_, fun hm => ?_, ?_, by rintro ⟨⟩⟩
      · simpa [observe, or_imp, forall_and] using ⟨h.begun, hb⟩
      · refine pairwise_append.mpr ⟨h.increasing, pairwise_singleton _ _, ?_⟩
        simp only [mem_singleton, forall_eq]
        intro a ha hrs
        exact UInt64.lt_of_le_of_lt (hrs ▸ (hcv a ha).1) had.fence
      · rintro _ ⟨⟩
        exact ⟨rfl, rfl, rfl⟩
      · cases hok <;> simp [observe, World.appended, World.compacted] at hm
      · rintro _ ⟨⟩
        refine ⟨hw', Covered.observe ?_⟩
        intro a ha
        rw [hg.fences, hg.unresolved]
        rcases mem_append.mp ha with ha | ha
        · refine ⟨?_, .inl (Covered.committed hcv had.resolved a ha)⟩
          have hle := hok.follows.fence_le hx hx' a.request.fence.resource
          rw [← ho.fences] at hle
          exact UInt64.le_trans (hcv a ha).1 hle
        · rw [mem_singleton.mp ha]
          exact ⟨hf, .inr ⟨rfl, hu⟩⟩
    · refine h.failed hj hs.drawn rfl ⟨rfl, rfl⟩ ?_ hap
      rfl

theorem Inv.commit (hj : s.running = some j) {a : Admitted} (ha : s.pending = some a) {r : Request}
    {rs : Response} {p : CompletionPolicy} (hc : c.commits s.held a r rs p) (n : Int64) :
    (s.committed j a r rs p n).Inv c := by
  obtain ⟨hs, hcv⟩ := h.running j hj
  rcases hcl : World.commitCall {} ⟨j, s.disk⟩ r (some a.receipt) rs p n with
    ⟨w', reply⟩
  simp only [State.committed, hcl]
  rcases commitCall_cases hcl with ⟨rfl, rfl⟩ | hf
  · exact h.kept hj hs ⟨rfl, rfl⟩ fun _ => rfl
  · rcases finishCall_cases hf with ⟨hap, rfl⟩ | ⟨w₁, errors, hap, rfl, rfl⟩
    · obtain ⟨he, hok⟩ := append_ok hap
      have hw' := append_synced hs ⟨he, c.marshals hc⟩ hok
      obtain ⟨x', hx', -⟩ := hw'.indexed
      have hg := Synced.guards hw' hx'
      obtain ⟨x, hx, -⟩ := hs.indexed
      have ho := Synced.guards hs hx
      refine ⟨h.begun, h.increasing, by rintro _ ⟨⟩, fun hm => ?_, ?_, by rintro ⟨⟩⟩
      · cases hok <;> simp [observe, World.appended, World.compacted] at hm
      · rintro _ ⟨⟩
        refine ⟨hw', fun b hb => ⟨?_, .inl ?_⟩⟩
        · have hle := hok.follows.fence_le hx hx' b.request.fence.resource
          rw [← ho.fences] at hle
          rw [hg.fences]
          exact UInt64.le_trans (hcv b hb).1 hle
        · rcases (hcv b hb).2 with ⟨row, hr, hcm⟩ | ⟨hp, -⟩
          · exact ⟨row, mem_append_left _ hr, hcm⟩
          · -- the pending admission is completed by the new row
            rw [ha] at hp
            obtain rfl := Option.some.inj hp
            exact ⟨_, mem_seen_running (hok.follows.mem (by simp [completeRow])) rfl,
              completeRow_completes (h.receipt a ha) he⟩
    · refine h.failed hj hs rfl ⟨rfl, rfl⟩ ?_ hap
      exact c.marshals hc

variable {ds : Disk}

/-- A crash that leaves the rows of the file covered. -/
theorem Inv.crashed {rows : List JournalRow} {tail : Bytes} (hh : ds.Holds rows tail)
    (hm : ds.main = none → s.admitted = [] ∧ ds.temporary = none)
    (hc : ∀ i, indexRows rows = .ok i → (∀ row ∈ rows, row.Readable) →
      (s.crashed ds).Covered i.indexes) :
    (s.crashed ds).Inv c :=
  ⟨h.begun, h.increasing, h.receipt, hm, by rintro _ ⟨⟩, fun _ => ⟨rows, tail, hh, hc⟩⟩

theorem Inv.crash (hj : s.running = some j) : (s.crashed s.disk).Inv c := by
  obtain ⟨hs, hc⟩ := h.running j hj
  obtain ⟨rows, hh, hr⟩ := hs.file
  refine h.crashed hh h.missing fun x hx _ => ?_
  obtain rfl := hr x hx
  have hg := Synced.guards hs hx
  exact Covered.observe (Covered.guards hc ⟨hg.fences.symm, hg.unresolved.symm⟩)

theorem Inv.crashAppend (hj : s.running = some j) (hw : w.Synced) (hd : w.disk = s.disk)
    (hrw : w.journal.rows = j.rows) {row : JournalRow} {rb rr : ℕ} (hc : CrashAppend w row rb rr ds)
    (hm : row.Marshalled) (hb : rb ≤ maxJournalRowLineSize) (ho : rr ≤ 1)
    (hcm : row.Encodes → ∀ a ∈ s.admitted, (∃ row ∈ s.seen, row.Completes a.request) ∨
      row.phase ≠ "authority" ∧ row.Completes a.request) :
    (s.crashed ds).Inv c := by
  obtain ⟨hs, hcv⟩ := h.running j hj
  obtain ⟨rows, tail, hh, hrd⟩ := hc.holds hw hm
  refine h.crashed hh (fun hmn => ?_) fun x hx hre => ?_
  · have := hc.missing hw hb ho hmn
    rw [this, hd] at hmn ⊢
    exact h.missing hmn
  obtain ⟨y, hy, -⟩ := hs.indexed
  have hol := Synced.guards hs hy
  rw [← hrw] at hy
  rcases hrd x hx with rfl | ⟨he, hf⟩
  · rw [hx] at hy
    cases hy
    exact Covered.observe (Covered.guards hcv ⟨hol.fences.symm, hol.unresolved.symm⟩)
  · intro a ha
    refine ⟨?_, .inl ?_⟩
    · have hle := hf.fence_le hy hx a.request.fence.resource
      rw [← hol.fences] at hle
      exact UInt64.le_trans (hcv a ha).1 hle
    · rcases hcm he a ha with ⟨r, hr, hcm⟩ | ⟨hp, hcm⟩
      · exact ⟨r, mem_append_left _ hr, hcm⟩
      · exact ⟨row, mem_seen_readable (hf.mem hp) hh hx hre, hcm⟩

theorem Inv.opening (hst : s.running = none) (bi : String) : (s.opened bi).Inv c := by
  obtain ⟨rows, tail, hh, hc⟩ := h.stopped hst
  unfold State.opened
  cases hm : s.disk.main with
  | none =>
    obtain ⟨hn, ht⟩ := h.missing hm
    simp only [Disk.eq_empty hm ht, openFileJournal, Bool.false_eq_true, if_false]
    refine ⟨h.begun, h.increasing, h.receipt, fun _ => ⟨hn, rfl⟩, ?_, by rintro ⟨⟩⟩
    rintro _ ⟨⟩
    refine ⟨⟨⟨[], ⟨rfl, by simp, by simp⟩, fun _ _ => rfl⟩, by simp, rfl, {}, rfl, rfl⟩, ?_⟩
    intro a ha
    simp [observe, hn] at ha
  | some d =>
    rcases openFileJournal_written bi hm hh with
      ⟨x, hx, hr, ho⟩ | ⟨e, ho⟩
    · rw [ho]
      have hl := loadedWorld_synced bi hh.written hx
      have hc := hc x hx hr
      rcases hcm : compactLoaded {} (loadedWorld bi rows x) with ⟨w, outcome⟩
      -- the loaded journal, compacted or not, has the guards of the file
      have hw : w.Synced ∧ w.disk.main ≠ none ∧ w.journal.indexes.SameGuards x.indexes := by
        rcases compactLoaded_cases hcm with rfl | ⟨x₀, sl, k, ix, o, hp, rfl⟩
        · exact ⟨hl, by simp [loadedWorld], ⟨rfl, rfl⟩⟩
        · have hx₀ := hp.indexed
          rw [show (loadedWorld bi rows x).journal.rows = rows from rfl, hx] at hx₀
          cases hx₀
          obtain ⟨x', hx', rfl⟩ := buildJournalIndexes_ok.mp hp.kept_indexed
          exact ⟨hp.synced hh.written _, by simp [World.compacted],
            hp.guards hx' (by simp [LastRow])⟩
      obtain ⟨hs, hf, hg⟩ := hw
      cases outcome with
      | ok u =>
        refine ⟨h.begun, h.increasing, h.receipt, fun hn => absurd hn hf, ?_, by rintro ⟨⟩⟩
        rintro _ ⟨⟩
        exact ⟨hs, Covered.observe (Covered.guards hc hg)⟩
      | error errors =>
        refine ⟨h.begun, h.increasing, h.receipt, fun hn => absurd hn hf, ?_, fun _ => ?_⟩
        · intro j hj
          rw [show ({ s with disk := w.disk } : State).observe.running = s.running from rfl,
            hst] at hj
          cases hj
        · obtain ⟨rows', hh', hr'⟩ := hs.file
          refine ⟨rows', [], hh', fun y hy _ => ?_⟩
          obtain rfl := hr' y hy
          have hg' := Synced.guards hs hy
          refine Covered.observe (Covered.guards hc ⟨?_, ?_⟩)
          · exact hg'.fences.symm.trans hg.fences
          · exact hg'.unresolved.symm.trans hg.unresolved
    · rw [ho]
      refine ⟨h.begun, h.increasing, h.receipt, h.missing, ?_, fun _ => ?_⟩
      · intro j hj
        rw [show ({ s with disk := s.disk } : State).observe.running = s.running from rfl,
          hst] at hj
        cases hj
      · exact ⟨rows, tail, hh, fun y hy hr => Covered.observe (hc y hy hr)⟩

theorem Inv.crashOpening (hst : s.running = none) (hc : CrashOpen s.disk ds) :
    (s.crashed ds).Inv c := by
  obtain ⟨rows, tail, hh, hcv⟩ := h.stopped hst
  cases hm : s.disk.main with
  | none =>
    obtain ⟨hn, ht⟩ := h.missing hm
    have hsr : s.disk.source = none := by
      rw [Disk.eq_empty hm ht]
      rfl
    have hs : ds = s.disk := by
      cases hc with
      | before => rfl
      | removed hm' => simp [hm] at hm'
      | recovered hs' | compaction hs' => simp [hsr] at hs'
    rw [hs]
    exact h.crashed hh h.missing fun x hx hrd => Covered.observe (hcv x hx hrd)
  | some d =>
    obtain ⟨hf, rows', tail', hh', hr⟩ := hc.holds hm hh
    refine h.crashed hh' (fun hn => absurd hn hf) fun x' hx' hrd => ?_
    obtain ⟨x, hx, hr', hg⟩ := hr x' hx' hrd
    exact Covered.observe (Covered.guards (hcv x hx hr') hg)

theorem Inv.step {s' : State} (hs : Step c s s') : s'.Inv c := by
  cases hs with
  | begin hj hb p now => exact h.begin hj hb p now
  | commit hj ha hc now => exact h.commit hj ha hc now
  | crash hj => exact h.crash hj
  | crashBegin hj hb p now had hcr =>
    obtain ⟨hsy, hcv⟩ := h.running _ hj
    refine h.crashAppend hj hsy.drawn rfl rfl hcr rfl (Nat.le_refl _) (Nat.le_refl _) ?_
    exact fun _ a ha => .inl (Covered.committed hcv had.resolved a ha)
  | @crashCommit j hj a ha request r policy hc now ds hcr =>
    obtain ⟨hsy, hcv⟩ := h.running _ hj
    refine h.crashAppend hj hsy rfl rfl hcr (c.marshals hc) (Nat.zero_le _)
      (Nat.zero_le _) fun he b hb => ?_
    rcases (hcv b hb).2 with hr | ⟨hp, -⟩
    · exact .inl hr
    · rw [ha] at hp
      obtain rfl := Option.some.inj hp
      exact .inr ⟨by simp [completeRow], completeRow_completes (h.receipt a ha) he⟩
  | opening hst bi => exact h.opening hst bi
  | crashOpening hst hcr => exact h.crashOpening hst hcr

end Step

theorem Inv.init (c : Caller) : ({} : State).Inv c :=
  ⟨by simp, List.Pairwise.nil, by simp, fun _ => ⟨rfl, rfl⟩, by simp,
    fun _ => ⟨[], [], ⟨rfl, by simp, by simp⟩, fun i _ _ a ha => by simp at ha⟩⟩

end State

theorem Reachable.inv {c : Caller} {s : State} (h : Reachable c s) : s.Inv c := by
  induction h with
  | refl => exact State.Inv.init c
  | tail _ hs ih => exact ih.step hs

/-! ## Admissions of a run -/

/-- The digest of a request determines its idempotency key and its fence. -/
def Caller.DigestDetermines (c : Caller) : Prop :=
  ∀ {r r' : Request} {d : String}, c.begins r d → c.begins r' d →
    r.idempotencyKey = r'.idempotencyKey ∧ r.fence.resource = r'.fence.resource ∧
      r.fence.sequence = r'.fence.sequence

/-- In every run no request is admitted twice, the admitted fences of a resource increase, and
nothing is admitted as long as an admission has no committed row. -/
theorem admissions_of_run {c : Caller} (hdigest : c.DigestDetermines) {s : State}
    (h : Reachable c s) :
    (s.admitted.map Admitted.digest).Nodup ∧
    (s.admitted.Pairwise fun a b => a.request.fence.resource = b.request.fence.resource →
      a.request.fence.sequence < b.request.fence.sequence) ∧
    ∀ (j : FileJournal) (request : Request) (peer : PeerIdentity) (digest : String) (now : Int64)
      (w : World) (receipt : Receipt), s.running = some j → c.begins request digest →
      World.beginCall {} ⟨j, s.disk⟩ request peer digest now = (w, .ok (.active receipt)) →
      ∀ a ∈ s.admitted, ∃ row ∈ s.seen, row.Completes a.request := by
  have hi := h.inv
  refine ⟨?_, hi.increasing, ?_⟩
  · refine pairwise_map.mpr (hi.increasing.imp_of_mem fun {a b} ha hb hlt heq => ?_)
    have hbg := hi.begun b hb
    rw [← heq] at hbg
    obtain ⟨-, hr, hs⟩ := hdigest (hi.begun a ha) hbg
    have := hlt hr
    rw [hs] at this
    exact UInt64.lt_irrefl _ this
  · intro j request peer digest now w receipt hj _ hc
    exact (hi.running j hj).2.committed (beginCall_active hc).1.resolved

/-- The first two sample requests, answered without a payload. -/
def sampleCaller : Caller where
  begins r d := (r = sampleRequest verbSSHReload 0 ∨ r = sampleRequest verbSSHReload 1) ∧
    d = requestDigest r
  commits held a r response policy := held = true ∧ r = a.request ∧ response.payload = none ∧
    policy = completedMutationLifecycle r.verb
  marshals := by
    rintro held a r response p ⟨-, -, hpayload, -⟩
    rw [hpayload]
    rfl

theorem sampleRequest_digest_ne : requestDigest (sampleRequest verbSSHReload 0) ≠
      requestDigest (sampleRequest verbSSHReload 1) := by
  decide +kernel

theorem sampleCaller_digestDetermines : sampleCaller.DigestDetermines := by
  rintro r r' d ⟨hr, rfl⟩ ⟨hr', heq⟩
  rcases hr with rfl | rfl <;> rcases hr' with rfl | rfl
  · exact ⟨rfl, rfl, rfl⟩
  · exact absurd heq sampleRequest_digest_ne
  · exact absurd heq sampleRequest_digest_ne.symm
  · exact ⟨rfl, rfl, rfl⟩

/-- The second request is admitted after the commit of the first. -/
theorem admissions_of_run_reload :
    ∃ (s : State) (a : Admitted) (j : FileJournal) (w : World) (receipt : Receipt),
      Reachable sampleCaller s ∧ s.admitted = [a] ∧ s.running = some j ∧
      World.beginCall {} ⟨j, s.disk⟩ (sampleRequest verbSSHReload 1) samplePeer
        (requestDigest (sampleRequest verbSSHReload 1)) 1 = (w, .ok (.active receipt)) ∧
      ∃ row ∈ s.seen, row.Completes a.request := by
  have hst := Pairs.init verbSSHReload false none 0
  obtain ⟨w₁, reply, w₂, s₂, hb, hc, hp⟩ := hst.next (by decide) rfl (by simp)
    (by decide) (by decide) (by decide)
  obtain ⟨w, hn, -⟩ := hp.begin (by decide) (by decide)
    (Nat.add_le_of_le_sub (by decide) (hp.bytes.trans (by decide)))
  obtain ⟨s₀, hs₀, hj₀, hd₀, ha₀⟩ := reachable_opened sampleCaller "boot"
  rw [← hd₀] at hb
  obtain ⟨s₁, hs₁, hj₁, hd₁, hh, hpn, ha₁⟩ := hs₀.begun hj₀ ⟨.inl rfl, rfl⟩ hb
  obtain ⟨s, hs, hj, hd, -, ha⟩ := hs₁.committed hj₁ hpn (sampleResponse _ none 0)
    ⟨hh, rfl, rfl, rfl⟩ (by rw [hd₁]; exact hc)
  rw [show w₂ = ⟨w₂.journal, w₂.disk⟩ from rfl, ← hd] at hn
  refine ⟨s, _, _, w, _, hs, by rw [ha, ha₁, ha₀]; rfl, hj, hn, ?_⟩
  refine (admissions_of_run sampleCaller_digestDetermines hs).2.2 _ _ _ _ _ _ _ hj
    ⟨.inr rfl, rfl⟩ hn _ ?_
  rw [ha, ha₁, ha₀]
  exact mem_singleton_self _

end Solovey.Broker
