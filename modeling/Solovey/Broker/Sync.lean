import Solovey.Broker.Calls

/-!
# Memory and file

On a working disk the journal in memory and its file stay together (`World.Synced`): the file
holds the rows in memory, or rows that no reader accepts. `append_synced` and `failed_synced`
keep this for the calls, `openFileJournal_opened` establishes it when a journal is opened.
-/

namespace Solovey.Broker

open Solovey.Text Solovey.Json Solovey.Data List

structure World.Synced (w : World) : Prop where
  file : ∃ rows, w.disk.Holds rows [] ∧ ∀ s, indexRows rows = .ok s → rows = w.journal.rows
  written : ∀ row ∈ w.journal.rows, row.Written
  bytes : w.journal.fileBytes = (fileOf w.journal.rows).length
  -- a failed admission can leave a higher sequence number
  indexed : ∃ s, indexRows w.journal.rows = .ok s ∧
    w.journal.indexes = { s.indexes with sequence := w.journal.indexes.sequence }

variable {w : World}

theorem World.Synced.drawn (h : w.Synced) : w.drawn.Synced := by
  obtain ⟨s, hs, hi⟩ := h.indexed
  refine ⟨h.file, h.written, h.bytes, s, hs, ?_⟩
  simp only [World.drawn]
  rw [hi]

@[simp] theorem fileOf_nil : fileOf [] = [] := rfl

variable {rows : List JournalRow} {ro : JournalRow}

theorem fileOf_concat (h : ro.Encodes) : fileOf (rows ++ [ro]) = fileOf rows ++ lineOf ro := by
  simp [fileOf, lineOf_eq h]

variable {rs rr : ℕ} {s : IndexLoop}

/-- The file after a part of a line: its rows with a tail, or one row more. -/
theorem Disk.Holds.line {d : Disk} {rows : List JournalRow} {ro : JournalRow} (h : d.Holds rows [])
    (hr : ro.Written) (n : ℕ) :
    ∃ rows' tail, ({ d with main := some (d.main.getD [] ++ (lineOf ro).take n) } :
      Disk).Holds rows' tail ∧ (rows' = rows ∨ rows' = rows ++ [ro]) := by
  have hb := h.bytes
  rw [append_nil] at hb
  by_cases hn : n ≤ (marshal ro.toValue).length
  · -- the newline is not there
    refine ⟨rows, (marshal ro.toValue).take n, ⟨?_, ?_, h.written⟩, .inl rfl⟩
    · simp [hb, lineOf_eq hr.1, take_append_of_le_length hn]
    · exact fun hm => newline_notMem_marshal _ (mem_of_mem_take hm)
  · have hw : (lineOf ro).take n = lineOf ro := by
      rw [lineOf_eq hr.1, take_of_length_le (by simp; omega)]
    refine ⟨rows ++ [ro], [], ⟨?_, by simp, ?_⟩, .inr rfl⟩
    · simp [hb, hw, fileOf_concat hr.1]
    · simpa [or_imp, forall_and] using ⟨h.written, hr⟩

theorem Projection.written {k : List JournalRow} {ri : Option ℕ} {sl : ℕ → Bool}
    {ix : JournalIndexes} {o : Bytes} (hp : Projection rows ri rs rr s sl k ix o)
    (hr : ∀ ro ∈ rows, ro.Written) : ∀ ro ∈ k, ro.Written := by
  intro ro hrw
  refine ⟨hp.encodes ro hrw, ?_⟩
  rw [hp.keep_eq] at hrw
  rcases mem_cons.mp hrw with rfl | hrw
  · rfl
  · exact (hr ro (pick_subset hrw)).2

/-- The world after a compaction. -/
theorem Projection.synced {k : List JournalRow} {ri : Option ℕ} {sl : ℕ → Bool}
    {ix : JournalIndexes} {o : Bytes} (hp : Projection rows ri rs rr s sl k ix o)
    (hr : ∀ ro ∈ rows, ro.Written) (w : World) : (w.compacted k ix o).Synced := by
  have hwr := hp.written hr
  obtain ⟨s', hs', rfl⟩ := buildJournalIndexes_ok.mp hp.kept_indexed
  refine ⟨⟨k, ⟨?_, by simp, hwr⟩, fun _ _ => rfl⟩, hwr, ?_, s', hs', rfl⟩
  · simp [World.compacted, hp.output_eq, fileOf]
  · simp [World.compacted, FileJournal.installRows, hp.output_eq, fileOf]

theorem append_synced {w' : World} (h : w.Synced) (hro : ro.Written)
    (hok : AppendOk w ro rs rr w') :
    w'.Synced := by
  have hrw : ∀ r ∈ w.journal.rows ++ [ro], r.Written := by
    simpa [or_imp, forall_and] using ⟨h.written, hro⟩
  cases hok with
  | @appended s hi hs =>
    obtain ⟨rows, hh, hr⟩ := h.file
    have hf := hh.bytes
    rw [append_nil] at hf
    refine ⟨⟨rows ++ [ro], ⟨?_, by simp, ?_⟩, fun s' hs' => ?_⟩, hrw, ?_, s, hi, rfl⟩
    · simp [World.appended, hf, fileOf_concat hro.1]
    · simpa [or_imp, forall_and] using ⟨hh.written, hro⟩
    · obtain ⟨s₀, hs₀⟩ := indexRows_append hs'
      rw [hr s₀ hs₀]
      rfl
    · simp [World.appended, FileJournal.installRows, h.bytes, fileOf_concat hro.1]
  | compacted hp hl => exact hp.synced hrw w

/-- The reload of a synced world finds its rows, or nothing changes. -/
theorem reload_synced (h : w.Synced) :
    let w' := (reloadAfterWriteFailure {} w).1
    w'.Synced ∧ w'.disk = w.disk ∧ w'.journal.rows = w.journal.rows ∧
      ∃ s, indexRows w.journal.rows = .ok s ∧
        (w'.journal.indexes = w.journal.indexes ∨ w'.journal.indexes = s.indexes) := by
  intro w'
  obtain ⟨rows, hh, hr⟩ := h.file
  have hrl := reload_reloaded (f := {}) hh
  revert hrl
  generalize (reloadAfterWriteFailure {} w).2 = outcome
  change Reloaded {} w rows w' outcome → _
  generalize w' = w'
  rintro (@⟨s, hs, hrd⟩ | _ | ⟨hsy, _⟩)
  · obtain rfl := hr s hs
    rw [hh.cut_eq]
    refine ⟨⟨⟨_, hh, fun _ _ => rfl⟩, h.written, rfl, s, hs, rfl⟩, rfl, rfl, s, hs, .inr rfl⟩
  · obtain ⟨s, hs, -⟩ := h.indexed
    exact ⟨h, rfl, rfl, s, hs, .inl rfl⟩
  · cases hsy

/-- A failed call on a working disk keeps the rows. -/
theorem failed_synced {w₁ : World} {es : List BrokerError} (h : w.Synced) (hm : ro.Marshalled)
    (ha : append {} w ro rs rr = (w₁, .error es)) :
    let w' := (reloadAfterWriteFailure {} w₁).1
    w'.Synced ∧ w'.disk = w₁.disk ∧ w'.journal.rows = w.journal.rows ∧
      ∃ s, indexRows w.journal.rows = .ok s ∧
        (w'.journal.indexes = w.journal.indexes ∨ w'.journal.indexes = s.indexes) := by
  have hw₁ : w₁.Synced ∧ w₁.journal = w.journal := by
    rcases append_error_working ha with rfl | ⟨he, hb, rfl⟩
    · exact ⟨h, rfl⟩
    · obtain ⟨rows, hh, hr⟩ := h.file
      have hf := hh.bytes
      rw [append_nil] at hf
      refine ⟨⟨⟨rows ++ [ro], ⟨?_, by simp, ?_⟩, fun s' hs' => ?_⟩, h.written, h.bytes,
        h.indexed⟩, rfl⟩
      · simp [hf, fileOf_concat he]
      · simpa [or_imp, forall_and] using ⟨hh.written, he, hm⟩
      · -- the written row does not follow the rows in memory, so the file is unreadable
        obtain ⟨s₀, hs₀⟩ := indexRows_append hs'
        rw [hr s₀ hs₀] at hs'
        exact absurd hs' (hb s')
  have hrl := reload_synced hw₁.1
  rwa [hw₁.2] at hrl

/-! ## Opening -/

/-- The journal that was read from the rows of a file, before a compaction. -/
def loadedWorld (bootID : String) (rows : List JournalRow) (s : IndexLoop) : World :=
  ⟨{ bootID, rows, indexes := s.indexes, fileBytes := (fileOf rows).length },
    ⟨some (fileOf rows), none⟩⟩

theorem loadedWorld_synced (bi : String) (hwr : ∀ ro ∈ rows, ro.Written)
    (hs : indexRows rows = .ok s) :
    (loadedWorld bi rows s).Synced :=
  ⟨⟨rows, ⟨by simp [loadedWorld], by simp, hwr⟩, fun _ _ => rfl⟩, hwr, rfl, s, hs, rfl⟩

/-- Opening reads the rows of the file and cuts its tail off, or fails and changes nothing. -/
theorem openFileJournal_written (bi : String) {d : Disk} {dt : Bytes} {tail : Bytes}
    (hm : d.main = some dt) (h : d.Holds rows tail) :
    (∃ s, indexRows rows = .ok s ∧ (∀ ro ∈ rows, ro.Readable) ∧
      openFileJournal {} bi d = compactLoaded {} (loadedWorld bi rows s)) ∨
    ∃ e, openFileJournal {} bi d = (⟨{ bootID := bi }, d⟩, .error [e]) := by
  have hb := h.bytes
  rw [hm, Option.getD_some] at hb
  unfold openFileJournal readJournalFile
  simp only [hm, Bool.false_eq_true, if_false, Bool.and_false]
  by_cases hl : dt.length > maxJournalFileBytes
  · simp only [hl, if_true]
    exact .inr ⟨_, rfl⟩
  simp only [hl, if_false]
  cases hp : parseJournal dt true with
  | error e => exact .inr ⟨e, rfl⟩
  | ok L =>
    rw [hb, parseJournal_written h.written h.tail_line] at hp
    obtain ⟨hr, s, hs, rfl⟩ := hp
    refine .inl ⟨s, hs, hr, ?_⟩
    by_cases ht : tail = []
    · simp [ht, hb, loadedWorld, FileJournal.installRows]
    · simp [ht, hb, recoverInterruptedTail, loadedWorld, FileJournal.installRows]

theorem compactLoaded_cases {w' : World} {ot : Except (List BrokerError) Unit}
    (h : compactLoaded {} w = (w', ot)) :
    w' = w ∨ ∃ s sl k ix o, Projection w.journal.rows none 0 0 s sl k ix o ∧
        w' = w.compacted k ix o := by
  unfold compactLoaded at h
  split at h
  · cases ot with
    | ok u =>
      obtain ⟨s, sl, k, ix, o, hp, rfl⟩ := compact_ok h
      exact .inr ⟨s, sl, k, ix, o, hp, rfl⟩
    | error errors =>
      left
      unfold compact at h
      split at h
      · exact (Prod.mk.inj h).1.symm
      · simp [writeTemporary] at h
  · exact .inl (Prod.mk.inj h).1.symm

end Solovey.Broker
