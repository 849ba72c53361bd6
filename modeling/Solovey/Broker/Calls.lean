import Solovey.Broker.Readback

/-!
# What a call can do

Inversion lemmas for the journal's calls. A successful append has put the row at the end of the file
or has compacted the journal around it (`append_ok`). `beginCall_active` and `commitCall_ok` say
what an admission and a commit have checked and written, `reload_ok` what a reload leaves in memory.
-/

namespace Solovey.Broker

open Solovey.Text Solovey.Json Solovey.Data List

/-! ## Reading the file of the journal -/

/-- The file holds the lines of the rows, and a tail without newline. -/
structure Disk.Holds (disk : Disk) (rows : List JournalRow) (tail : Bytes) : Prop where
  bytes : disk.main.getD [] = fileOf rows ++ tail
  tail_line : newline ∉ tail
  written : ∀ row ∈ rows, row.Written

variable {rows : List JournalRow}

theorem fileOf_eq_nil : fileOf rows = [] ↔ rows = [] := by
  cases rows <;> simp [fileOf]

/-- The file without its tail. -/
def Disk.cut (disk : Disk) (rows : List JournalRow) : Disk :=
  { disk with main := disk.main.map fun _ => fileOf rows }

/-- Cutting the file behind its rows removes the tail. -/
theorem Disk.Holds.take_eq_cut {d : Disk} {rows : List JournalRow} {tail : Bytes}
    (h : d.Holds rows tail) :
    ({ d with main := d.main.map (·.take (fileOf rows).length) } : Disk) = d.cut rows := by
  cases hm : d.main with
  | none => simp [Disk.cut, hm]
  | some dt =>
    have hb := h.bytes
    rw [hm, Option.getD_some] at hb
    simp [Disk.cut, hm, hb]

theorem Disk.Holds.cut_eq {d : Disk} (h : d.Holds rows []) : d.cut rows = d := by
  obtain ⟨_ | dt, t⟩ := d
  · rfl
  · have hb := h.bytes
    rw [Option.getD_some, append_nil] at hb
    simp [Disk.cut, hb]

/-- The lines of the file are within their bound. -/
theorem Disk.Holds.short {d : Disk} {rows : List JournalRow} {tail : Bytes}
    (h : d.Holds rows tail) :
    ∀ l ∈ lines (completeLines (fileOf rows ++ tail)), l.length ≤ maxJournalRowBytes := by
  rw [completeLines_fileOf rows h.tail_line, lines_fileOf]
  intro l hl
  rcases mem_append.mp hl with hl | hl
  · obtain ⟨row, hr, rfl⟩ := mem_map.mp hl
    exact (h.written row hr).1.2
  · rw [mem_singleton.mp hl]
    exact Nat.zero_le _

theorem parseLines_error {ls : List Bytes} {e : BrokerError} (h : parseLines ls = .error e) :
    ∃ text, e = .internal text ∧
      ((∀ l ∈ ls, l.length ≤ maxJournalRowBytes) → text ∉ contractErrors) := by
  induction ls with
  | nil => cases h
  | cons l ls ih =>
    rw [parseLines] at h
    split_ifs at h
    · cases h
      exact ⟨_, rfl, fun _ => by decide⟩
    · cases hrw : parseLine l with
      | error e' =>
        rw [hrw] at h
        cases h
        unfold parseLine at hrw
        split at hrw
        · rename_i hln
          cases hrw
          exact ⟨_, rfl, fun hs => absurd (hs l (by simp)) (Nat.not_le.mpr hln)⟩
        · split at hrw <;> cases hrw
          exact ⟨_, rfl, fun _ => by decide⟩
      | ok row =>
        cases hr : parseLines ls with
        | error e' =>
          rw [hrw, hr] at h
          cases h
          obtain ⟨text, rfl, ht⟩ := ih hr
          exact ⟨text, rfl, fun hs => ht fun l hl => hs l (by simp [hl])⟩
        | ok rows =>
          rw [hrw, hr] at h
          cases h

/-- A file that exists is not reported as missing. -/
theorem parseJournal_error {d : Bytes} {e : BrokerError} (h : parseJournal d true = .error e) :
    ∃ text, e = .internal text ∧ ((∀ l ∈ lines (completeLines d), l.length ≤ maxJournalRowBytes) →
        text ∉ contractErrors) := by
  have hgo : failIf (torn d = true ∧ true = false)
      "broker compaction contains an unterminated record" = .ok () := by
    rw [failIf_ok]
    simp
  rw [parseJournal, hgo, complete_eq] at h
  cases hr : parseLines (lines (completeLines d)) with
  | error e' =>
    simp only [hr, bind, Except.bind] at h
    cases h
    exact parseLines_error hr
  | ok rows =>
    cases hi : buildJournalIndexes rows with
    | error text =>
      simp only [hr, hi, bind, Except.bind, Except.mapError] at h
      exact ⟨text, (Except.error.inj h).symm, fun _ => buildJournalIndexes_error hi⟩
    | ok ix =>
      simp only [hr, hi, bind, Except.bind, Except.mapError] at h
      cases h

/-- What a reload can do: read the rows of the file and cut its tail off, fail and change
nothing, or fail after the cut. -/
inductive Reloaded (f : ReloadFaults) (w : World) (rows : List JournalRow) :
    World → Except BrokerError Unit → Prop
  | read {s : IndexLoop} (hs : indexRows rows = .ok s) (hreadable : ∀ row ∈ rows, row.Readable) :
      Reloaded f w rows
        ⟨w.journal.installRows rows s.indexes (fileOf rows).length, w.disk.cut rows⟩ (.ok ())
  | failed (e : BrokerError) (he : e.exceedsContract = false) : Reloaded f w rows w (.error e)
  | unsynced (hf : f.sync = true) (e : BrokerError) (he : e.exceedsContract = false) :
      Reloaded f w rows { w with disk := w.disk.cut rows } (.error e)

variable {w : World}

theorem reload_reloaded {f : ReloadFaults} {tail : Bytes} (h : w.disk.Holds rows tail) :
    Reloaded f w rows (reloadAfterWriteFailure f w).1 (reloadAfterWriteFailure f w).2 := by
  have hb := h.bytes
  unfold reloadAfterWriteFailure readJournalFile
  by_cases hrd : f.read = true
  · simp only [hrd, if_true]
    exact .failed _ rfl
  cases hm : w.disk.main with
  | none =>
    rw [hm, Option.getD_none, eq_comm, append_eq_nil_iff, fileOf_eq_nil] at hb
    obtain ⟨rfl, rfl⟩ := hb
    have hl := @Reloaded.read f w [] {} rfl (by simp)
    rw [h.cut_eq] at hl
    simpa [hrd, fileOf] using hl
  | some d =>
    rw [hm, Option.getD_some] at hb
    simp only [hrd, Bool.false_eq_true, if_false]
    by_cases hln : d.length > maxJournalFileBytes
    · simp only [hln, if_true]
      exact .failed _ rfl
    simp only [hln, if_false]
    cases hp : parseJournal d true with
    | error e =>
      obtain ⟨text, rfl, htx⟩ := parseJournal_error hp
      refine .failed _ ?_
      simpa [BrokerError.exceedsContract] using htx (hb ▸ h.short)
    | ok L =>
      rw [hb, parseJournal_written h.written h.tail_line] at hp
      obtain ⟨hr, s, hs, rfl⟩ := hp
      by_cases ht : tail = []
      · subst ht
        have hl := Reloaded.read (f := f) (w := w) hs hr
        rw [h.cut_eq] at hl
        exact hl
      · have hc := h.take_eq_cut
        simp only [ht, if_false, recoverInterruptedTail]
        by_cases htr : f.truncate = true
        · simp only [htr, if_true]
          exact .failed _ rfl
        simp only [htr, Bool.false_eq_true, if_false, hc]
        by_cases hsy : f.sync = true
        · simp only [hsy, if_true]
          exact .unsynced hsy _ rfl
        · simp only [hsy, Bool.false_eq_true, if_false]
          exact .read hs hr

/-! ## Append -/

variable {reserveBytes reserveRows : ℕ}

theorem needsCompaction_iff {ps rows : ℕ} :
    needsCompaction ps rows reserveBytes reserveRows = true ↔
      ps > maxJournalBytes ∨ rows > maxJournalRows ∨ ps + reserveBytes > maxJournalFileBytes ∨
        rows + reserveRows > maxJournalRows := by
  simp [needsCompaction, or_assoc]

theorem needsCompaction_eq_false {ps rows : ℕ} (hb : ps ≤ maxJournalBytes)
    (hrs : reserveBytes ≤ maxJournalRowLineSize) (hr : rows + reserveRows ≤ maxJournalRows) :
    needsCompaction ps rows reserveBytes reserveRows = false := by
  have hf : maxJournalBytes + maxJournalRowLineSize ≤ maxJournalFileBytes := by decide
  rw [← Bool.not_eq_true, needsCompaction_iff]
  omega

def World.appended (w : World) (row : JournalRow) (s : IndexLoop) : World :=
  ⟨w.journal.installRows (w.journal.rows ++ [row]) s.indexes
      (w.journal.fileBytes + (lineOf row).length),
    { w.disk with main := some (w.disk.main.getD [] ++ lineOf row) }⟩

def World.compacted (w : World) (keep : List JournalRow) (indexes : JournalIndexes)
    (output : Bytes) : World :=
  ⟨w.journal.installRows keep indexes output.length, ⟨some output, none⟩⟩

/-- The two ways in which an append succeeds. -/
inductive AppendOk (w : World) (row : JournalRow) (reserveBytes reserveRows : ℕ) : World → Prop
  | appended {s : IndexLoop} (hindexed : indexRows (w.journal.rows ++ [row]) = .ok s)
      (hsmall : needsCompaction (w.journal.fileBytes + (lineOf row).length)
        (w.journal.rows.length + 1) reserveBytes reserveRows = false) :
      AppendOk w row reserveBytes reserveRows (w.appended row s)
  | compacted {s : IndexLoop} {sel : ℕ → Bool} {keep : List JournalRow} {indexes : JournalIndexes}
      {output : Bytes}
      (hp : Projection (w.journal.rows ++ [row]) (some w.journal.rows.length) reserveBytes
        reserveRows s sel keep indexes output)
      (hlarge : needsCompaction (w.journal.fileBytes + (lineOf row).length)
        (w.journal.rows.length + 1) reserveBytes reserveRows = true) :
      AppendOk w row reserveBytes reserveRows (w.compacted keep indexes output)

variable {w' : World}

/-- A compaction that succeeds publishes its projection. -/
theorem compact_ok {f : CompactFaults} {c : List JournalRow} {ri : Option ℕ}
    (h : compact f w c ri reserveBytes reserveRows = (w', .ok ())) :
    ∃ s sl k ix o, Projection c ri reserveBytes reserveRows s sl k ix o ∧
        w' = w.compacted k ix o := by
  unfold compact at h
  split at h
  · simp at h
  rename_i k ix encoded hpr
  obtain ⟨s, sl, hp⟩ := retainedJournalProjection_ok hpr
  dsimp only at h
  -- the steps before the publication
  iterate 4 (split at h; · simp at h)
  split at h
  · simp at h
  split at h
  · simp at h
  split at h
  · simp at h
  · obtain ⟨rfl, -⟩ := Prod.mk.inj h
    exact ⟨s, sl, k, ix, encoded, hp, rfl⟩

variable {f : CallFaults}

theorem append_ok {r : JournalRow} (h : append f w r reserveBytes reserveRows = (w', .ok ())) :
    r.Encodes ∧ AppendOk w r reserveBytes reserveRows w' := by
  unfold append at h
  split at h
  · simp at h
  rename_i line hln
  obtain ⟨hv, hle, hl'⟩ := encodeJournalRow_ok.mp hln
  have he : r.Encodes := ⟨hv, hle⟩
  have hli : lineOf r = line := (lineOf_eq he).trans hl'.symm
  refine ⟨he, ?_⟩
  simp only [length_append, length_singleton, Nat.add_sub_cancel] at h
  split at h
  · rename_i hl
    obtain ⟨s, sl, k, ix, o, hp, rfl⟩ := compact_ok h
    exact .compacted hp (by rw [hli]; exact hl)
  rename_i hsm
  split_ifs at h with ho hf
  · simp at h
  · simp at h
  simp only [Bool.or_eq_true, not_or, Bool.not_eq_true, Option.isSome_eq_false_iff,
    Option.isNone_iff_eq_none] at hf
  split at h
  · simp at h
  rename_i ix hb
  obtain ⟨s, hs, rfl⟩ := buildJournalIndexes_ok.mp hb
  have hw : w' = w.appended r s := by
    rw [World.appended, hli]
    simpa [writeLine, hf.1.1.1, eq_comm] using h
  rw [hw]
  exact .appended hs (by rw [hli]; simpa using hsm)

/-- On a working disk a failing append has written nothing, or a row that cannot follow the
others. -/
theorem compact_error_working {c : List JournalRow} {ri : Option ℕ} {es : List BrokerError}
    (h : compact {} w c ri reserveBytes reserveRows = (w', .error es)) :
    w' = w := by
  unfold compact at h
  split at h
  · exact (Prod.mk.inj h).1.symm
  · simp [writeTemporary] at h

theorem append_error_working {r : JournalRow} {es : List BrokerError}
    (h : append {} w r reserveBytes reserveRows = (w', .error es)) :
    w' = w ∨ r.Encodes ∧ (∀ s, indexRows (w.journal.rows ++ [r]) ≠ .ok s) ∧
      w' = ⟨w.journal, { w.disk with main := some (w.disk.main.getD [] ++ lineOf r) }⟩ := by
  unfold append at h
  split at h
  · exact .inl (Prod.mk.inj h).1.symm
  rename_i line hl
  obtain ⟨hv, hle, hl'⟩ := encodeJournalRow_ok.mp hl
  have he : r.Encodes := ⟨hv, hle⟩
  have hln : lineOf r = line := (lineOf_eq he).trans hl'.symm
  dsimp only at h
  split at h
  · exact .inl (compact_error_working h)
  · right
    cases hb : buildJournalIndexes (w.journal.rows ++ [r]) with
    | ok ix => simp [hb] at h
    | error text =>
      refine ⟨he, fun s hs => ?_, ?_⟩
      · rw [buildJournalIndexes_ok.mpr ⟨s, hs, rfl⟩] at hb
        cases hb
      · rw [hln]
        simpa [hb, writeLine, eq_comm] using (Prod.mk.inj h).1

/-! ## Calls -/

theorem finishCall_cases {α : Type} {v : α} {r : World × Except (List BrokerError) Unit}
    {rp : Reply α} (h : finishCall f v r = (w', rp)) :
    r = (w', .ok ()) ∧ rp = .ok v ∨
      ∃ w errors, r = (w, .error errors) ∧ w' = (reloadAfterWriteFailure f.reload w).1 ∧
        rp = .failed errors (reloadAfterWriteFailure f.reload w).2 := by
  obtain ⟨w, errors | ⟨⟩⟩ := r
  · exact .inr ⟨w, errors, rfl, (Prod.mk.inj h).1.symm, (Prod.mk.inj h).2.symm⟩
  · obtain ⟨rfl, rfl⟩ := Prod.mk.inj h
    exact .inl ⟨rfl, rfl⟩

/-- The reply does not come from an append. -/
def Reply.Unwritten : Reply Admission → Prop
  | .ok (.replay _) => True
  | .refused _ => True
  | _ => False

/-- The conditions under which a request is admitted. -/
structure JournalIndexes.Admits (i : JournalIndexes) (request : Request) : Prop where
  fresh : i.replays[request.idempotencyKey]? = none
  resolved : i.unresolved.isEmpty = true
  fence : i.fences.getD request.fence.resource 0 < request.fence.sequence

/-- The world after the sequence number of an admission is drawn. -/
def World.drawn (w : World) : World :=
  { w with
    journal := { w.journal with
      indexes := { w.journal.indexes with sequence := w.journal.indexes.sequence + 1 } } }

/-- The receipt of an admission in the world. -/
def World.receiptFor (w : World) (request : Request) (peer : PeerIdentity) (now : Int64) :
    Receipt :=
  activeReceipt w.journal (w.journal.indexes.sequence + 1) request peer now

variable {rq : Request} {n : Int64}

theorem beginCall_cases {p : PeerIdentity} {rd : String} {r : Reply Admission}
    (h : w.beginCall f rq p rd n = (w', r)) :
    w' = w ∧ r.Unwritten ∨ w.journal.indexes.Admits rq ∧
        finishCall f (.active (w.receiptFor rq p n))
          (append f w.drawn (activeRow rq rd (w.receiptFor rq p n))
            maxJournalRowLineSize 1) = (w', r) := by
  unfold World.beginCall at h
  dsimp only at h
  split at h
  · left
    split at h <;> cases h <;> exact ⟨rfl, trivial⟩
  rename_i hr
  split at h
  · cases h
    exact .inl ⟨rfl, trivial⟩
  split at h
  · cases h
    exact .inl ⟨rfl, trivial⟩
  rename_i hrs
  split at h
  · cases h
    exact .inl ⟨rfl, trivial⟩
  rename_i hf
  exact .inr ⟨⟨hr, by simpa using hrs, UInt64.not_le.mp hf⟩, h⟩

variable {rc : Receipt}

theorem beginCall_active {p : PeerIdentity} {rd : String}
    (h : w.beginCall f rq p rd n = (w', .ok (.active rc))) :
    w.journal.indexes.Admits rq ∧ rc = w.receiptFor rq p n ∧
      append f w.drawn (activeRow rq rd rc) maxJournalRowLineSize 1 = (w', .ok ()) := by
  rcases beginCall_cases h with ⟨-, hr⟩ | ⟨ha, hf⟩
  · exact hr.elim
  · rcases finishCall_cases hf with ⟨hap, hr⟩ | ⟨_, _, -, -, hr⟩
    · cases hr
      exact ⟨ha, rfl, hap⟩
    · cases hr

theorem commitCall_cases {r : Response} {p : CompletionPolicy} {rp : Reply Response}
    (h : w.commitCall f rq (some rc) r p n = (w', rp)) :
    w' = w ∧ rp = .refused (.internal "broker completion release verb is invalid") ∨
      finishCall f { r with receipt := some (completeReceipt w.journal rc r n) }
        (append f w (completeRow rq (completeReceipt w.journal rc r n) r p) 0 0) = (w', rp) := by
  simp only [World.commitCall] at h
  split at h
  · cases h
    exact .inl ⟨rfl, rfl⟩
  · exact .inr h

theorem commitCall_ok {r rp : Response} {p : CompletionPolicy}
    (h : w.commitCall f rq (some rc) r p n = (w', .ok rp)) :
    rp = { r with receipt := some (completeReceipt w.journal rc r n) } ∧
      append f w (completeRow rq (completeReceipt w.journal rc r n) r p) 0 0 = (w', .ok ()) := by
  rcases commitCall_cases h with ⟨-, hr⟩ | hf
  · cases hr
  · rcases finishCall_cases hf with ⟨ha, hr⟩ | ⟨_, _, -, -, hr⟩
    · cases hr
      exact ⟨rfl, ha⟩
    · cases hr

end Solovey.Broker
