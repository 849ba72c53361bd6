import Solovey.Broker.Pairs
import Solovey.Data.Linked

/-!
# The receipt chain

Every written receipt names the chain head of the journal as its predecessor. The head is the digest
of the receipt written last as long as no snapshot is taken between an admission and its commit: a
receipt moves the head only when its sequence number is above the snapshot's, and a completion has
the number of its admission.
-/

namespace Solovey.Broker

open Solovey.Text Solovey.Json Solovey.Data List

/-! ## Runs -/

/-- The journal, the receipt of the last admission until its commit succeeds, and the receipts
written so far. -/
structure ChainRun where
  world : World
  pending : Option Receipt := none
  written : List Receipt := []

inductive ChainOp where
  | begin (request : Request) (peer : PeerIdentity) (digest : String) (now : Int64)
  | commit (request : Request) (response : Response) (policy : CompletionPolicy) (now : Int64)
  | compact

namespace ChainRun

def start (bootID : String) : ChainRun := ⟨⟨{ bootID }, {}⟩, none, []⟩

def begun (s : ChainRun) (request : Request) (peer : PeerIdentity) (digest : String)
    (now : Int64) : ChainRun :=
  match s.world.beginCall {} request peer digest now with
  | (w, .ok (.active receipt)) => ⟨w, some receipt, s.written ++ [receipt]⟩
  | (w, _) => { s with world := w }

def committed (s : ChainRun) (receipt : Receipt) (request : Request) (response : Response)
    (policy : CompletionPolicy) (now : Int64) : ChainRun :=
  match s.world.commitCall {} request (some receipt) response policy now with
  | (w, .ok _) => ⟨w, none, s.written ++ [completeReceipt s.world.journal receipt response now]⟩
  | (w, _) => { s with world := w }

def apply (s : ChainRun) : ChainOp → ChainRun
  | .begin request peer digest now => s.begun request peer digest now
  | .commit request response policy now =>
    match s.pending with
    | none => s
    | some receipt => s.committed receipt request response policy now
  | .compact => { s with world := (compact {} s.world s.world.journal.rows none 0 0).1 }

end ChainRun

/-- The payload of a commit comes from `MarshalPayload`. -/
def ChainOp.Marshalled : ChainOp → Prop
  | .commit _ response _ _ => response.payload.map Value.escapeHTML = response.payload
  | _ => True

/-- The states of the runs whose steps all meet the condition. -/
inductive ChainReachable (cond : ChainRun → ChainOp → Prop) : ChainRun → Prop
  | start (bootID : String) : ChainReachable cond (.start bootID)
  | step {s : ChainRun} (h : ChainReachable cond s) (op : ChainOp) (hop : op.Marshalled)
      (hcond : cond s op) : ChainReachable cond (s.apply op)

/-- The row of an admission fits without a compaction and no compaction comes before the commit
of an admission; the sequence numbers are not used up. -/
def ChainRun.HasRoom (s : ChainRun) : ChainOp → Prop
  | .begin request peer digest now =>
    let j := s.world.journal
    let row := activeRow request digest (s.world.receiptFor request peer now)
    j.indexes.sequence.toNat + 1 < 2 ^ 64 ∧
      j.fileBytes + (row.toValue.size + 1) ≤ maxJournalBytes ∧ j.rows.length + 2 ≤ maxJournalRows
  | .commit .. => True
  | .compact => s.pending = none

/-! ## One written receipt -/

variable {rq : Request} {receipt : Receipt} {rs : Response} {s : IndexLoop}
  {row : JournalRow}

/-- A completion that advances becomes the head. -/
theorem complete_head (h : s.Advances receipt) :
    (s.complete row receipt rs).indexes.previous = receipt.receiptDigest := by
  simp only [IndexLoop.complete, JournalIndexes.complete_previous,
    IndexLoop.receive_of_advances h, JournalIndexes.raiseFence_previous, JournalIndexes.advance]

/-- A completion that does not advance leaves the head alone. -/
theorem complete_head_of_not_advances (h : ¬s.Advances receipt) :
    (s.complete row receipt rs).indexes.previous = s.indexes.previous := by
  simp only [IndexLoop.complete, JournalIndexes.complete_previous,
    IndexLoop.receive_of_not_advances h, JournalIndexes.raiseFence_previous]

theorem active_head (h : s.Advances receipt) :
    (s.active row receipt).indexes.previous = receipt.receiptDigest := by
  simp only [IndexLoop.active, IndexLoop.receive_of_advances h, JournalIndexes.activate,
    JournalIndexes.raiseFence_previous, JournalIndexes.advance]

/-! ## Linear chains -/

namespace ChainRun

structure Linear (s : ChainRun) : Prop where
  synced : s.world.Synced
  -- a failed admission can leave a higher sequence number
  sequence : ∀ loop, indexRows s.world.journal.rows = .ok loop →
    loop.indexes.sequence ≤ s.world.journal.indexes.sequence
  advances : ∀ loop, indexRows s.world.journal.rows = .ok loop →
    ∀ receipt ∈ s.pending, loop.Advances receipt
  linked : Linked Receipt.previousDigest Receipt.receiptDigest "" s.written
  head : s.world.journal.indexes.previous = tip Receipt.receiptDigest "" s.written
  digests : "" ∉ s.written.map Receipt.receiptDigest

theorem Linear.init (bi : String) : (start bi).Linear := by
  refine ⟨⟨⟨[], ⟨rfl, by simp, by simp⟩, fun _ _ => rfl⟩, by simp [start], rfl, {}, rfl, rfl⟩, ?_,
    by simp [start], trivial, rfl, by simp [start]⟩
  intro l hl
  cases hl
  exact UInt64.le_refl _

variable {s : ChainRun}

theorem Linear.digests_concat (h : s.Linear) (receipt : Receipt)
    (hr : digestPattern receipt.receiptDigest = true) :
    "" ∉ (s.written ++ [receipt]).map Receipt.receiptDigest := by
  have hne := digestPattern_ne_empty hr
  simpa [hne.symm] using h.digests

/-- A world with the same rows and the same head. -/
theorem Linear.kept (h : s.Linear) {w : World} (hs : w.Synced)
    (hr : w.journal.rows = s.world.journal.rows)
    (hsq : ∀ l, indexRows s.world.journal.rows = .ok l →
      l.indexes.sequence ≤ w.journal.indexes.sequence)
    (hh : w.journal.indexes.previous = s.world.journal.indexes.previous) :
    ({ s with world := w } : ChainRun).Linear :=
  ⟨hs, hr ▸ hsq, hr ▸ h.advances, h.linked, hh.trans h.head, h.digests⟩

theorem Linear.failed (h : s.Linear) {w w₁ : World} {row : JournalRow} {rb rr : ℕ}
    {es : List BrokerError} (hs : w.Synced) (hr : w.journal.rows = s.world.journal.rows)
    (hsq : s.world.journal.indexes.sequence ≤ w.journal.indexes.sequence)
    (hh : w.journal.indexes.previous = s.world.journal.indexes.previous) (hm : row.Marshalled)
    (ha : append {} w row rb rr = (w₁, .error es)) :
    ({ s with world := (reloadAfterWriteFailure {} w₁).1 } : ChainRun).Linear := by
  obtain ⟨hs', -, hr', l, hl, hi⟩ := failed_synced hs hm ha
  rw [hr] at hr' hl
  obtain ⟨l', hl', hin'⟩ := h.synced.indexed
  obtain rfl := Except.ok.inj (hl.symm.trans hl')
  refine h.kept hs' hr' ?_ ?_
  · intro l₁ hl₁
    obtain rfl := Except.ok.inj (hl.symm.trans hl₁)
    rcases hi with heq | heq <;> rw [heq]
    · exact UInt64.le_trans (h.sequence _ hl) hsq
    · exact UInt64.le_refl _
  · rcases hi with heq | heq <;> rw [heq]
    · exact hh
    · rw [hin']

/-- The number of the next receipt is above the snapshot. -/
theorem Linear.next_advances (h : s.Linear) {l : IndexLoop}
    (hl : indexRows s.world.journal.rows = .ok l)
    (hsq : s.world.journal.indexes.sequence.toNat + 1 < 2 ^ 64) (rq : Request) (p : PeerIdentity)
    (nw : Int64) : l.Advances (s.world.receiptFor rq p nw) := by
  by_cases hs : l.hasState = true
  · right
    have hle := UInt64.le_iff_toNat_le.mp ((indexRows_covers hl).state_le hs)
    have hl' := UInt64.le_iff_toNat_le.mp (h.sequence _ hl)
    change _ < s.world.journal.indexes.sequence + 1
    rw [UInt64.lt_iff_toNat_lt, UInt64.toNat_add, UInt64.toNat_one]
    omega
  · exact .inl (by simpa using hs)

theorem Linear.begin (h : s.Linear) {rq : Request} {p : PeerIdentity} {d : String} {nw : Int64}
    (hrm : s.HasRoom (.begin rq p d nw)) :
    (s.begun rq p d nw).Linear := by
  obtain ⟨hsq, hb, hrw⟩ := hrm
  rcases hc : s.world.beginCall {} rq p d nw with ⟨w, reply⟩
  simp only [begun, hc]
  rcases beginCall_cases hc with ⟨rfl, hr⟩ | ⟨-, hf⟩
  · cases reply with
    | ok a =>
      cases a with
      | active receipt => exact hr.elim
      | replay record => exact h
    | _ => exact h
  rcases finishCall_cases hf with ⟨hap, rfl⟩ | ⟨w₁, errors, hap, rfl, rfl⟩
  · obtain ⟨he, hok⟩ := append_ok hap
    have hsy := append_synced h.synced.drawn ⟨he, rfl⟩ hok
    cases hok with
    | appended hi hs =>
      obtain ⟨l, hlp, rfl⟩ := indexRows_activeRow hi
      have ha := h.next_advances hlp hsq rq p nw
      refine ⟨hsy, fun l' hl' => ?_, fun l' hl' => ?_, h.linked.concat h.head,
        ?_, h.digests_concat _ (digestPattern_digest _)⟩
      · rw [Except.ok.inj (hl'.symm.trans hi)]
        exact UInt64.le_refl _
      · rw [Except.ok.inj (hl'.symm.trans hi)]
        rintro receipt ⟨⟩
        exact ha
      · rw [tip_concat]
        exact active_head ha
    | compacted hp hl =>
      have hs : needsCompaction _ (s.world.journal.rows.length + 1) maxJournalRowLineSize 1 =
        false := needsCompaction_eq_false hb le_rfl hrw
      rw [length_lineOf he] at hl
      cases hs.symm.trans hl
  · refine h.failed h.synced.drawn rfl ?_ rfl ?_ hap
    swap; · rfl
    change _ ≤ s.world.journal.indexes.sequence + 1
    rw [UInt64.le_iff_toNat_le, UInt64.toNat_add, UInt64.toNat_one]
    omega

/-- The kept rows have the head of the compacted ones. -/
theorem head_compacted {ro k : List JournalRow} {ri : Option ℕ} {rb rr : ℕ} {l : IndexLoop}
    {sl : ℕ → Bool} {ix : JournalIndexes} {o : Bytes} (hp : Projection ro ri rb rr l sl k ix o) :
    ix.previous = l.indexes.previous ∧
      ∀ l', indexRows k = .ok l' → l'.indexes.sequence ≤ ix.sequence := by
  obtain ⟨l', hl', rfl⟩ := buildJournalIndexes_ok.mp hp.kept_indexed
  refine ⟨(hp.kept_authority hl').2.1, fun l₁ hl₁ => ?_⟩
  rw [Except.ok.inj (hl₁.symm.trans hl')]
  exact UInt64.le_refl _

theorem Linear.commit (h : s.Linear) {receipt : Receipt} (hpn : s.pending = some receipt)
    {rq : Request} {rs : Response} {p : CompletionPolicy} {nw : Int64}
    (hm : rs.payload.map Value.escapeHTML = rs.payload) :
    (s.committed receipt rq rs p nw).Linear := by
  rcases hc : s.world.commitCall {} rq (some receipt) rs p nw with ⟨w, reply⟩
  simp only [committed, hc]
  rcases commitCall_cases hc with ⟨rfl, rfl⟩ | hf
  · exact h
  rcases finishCall_cases hf with ⟨ha, rfl⟩ | ⟨w₁, errors, ha, rfl, rfl⟩
  · obtain ⟨he, hok⟩ := append_ok ha
    have hs := append_synced h.synced ⟨he, hm⟩ hok
    set done := completeReceipt s.world.journal receipt rs nw with hd
    have hl := h.linked.concat (a := done) h.head
    have hdg := h.digests_concat done (digestPattern_digest _)
    -- the completion advances the head as its admission did
    have hh {l : IndexLoop} (hi : indexRows (s.world.journal.rows ++
        [completeRow rq done rs p]) = .ok l) :
        l.indexes.previous = done.receiptDigest := by
      obtain ⟨l₀, hl₀, rfl⟩ := indexRows_completeRow hi
      exact complete_head (h.advances l₀ hl₀ receipt hpn)
    cases hok with
    | appended hi _ =>
      refine ⟨hs, fun l' hl' => ?_, by simp, hl, ?_, hdg⟩
      · rw [Except.ok.inj (hl'.symm.trans hi)]
        exact UInt64.le_refl _
      · rw [tip_concat]
        exact hh hi
    | compacted hp _ =>
      obtain ⟨hpr, hsq⟩ := head_compacted hp
      refine ⟨hs, hsq, by simp, hl, ?_, hdg⟩
      rw [tip_concat, ← hh hp.indexed]
      exact hpr
  · refine h.failed h.synced rfl (UInt64.le_refl _) rfl ?_ ha
    exact hm

theorem Linear.compact (h : s.Linear) (hpn : s.pending = none) : (s.apply .compact).Linear := by
  rcases hc : Broker.compact {} s.world s.world.journal.rows none 0 0 with ⟨w, outcome⟩
  simp only [apply, hc]
  cases outcome with
  | error errors =>
    rw [compact_error_working hc]
    exact h
  | ok _ =>
    obtain ⟨l, sl, k, ix, o, hp, rfl⟩ := compact_ok hc
    obtain ⟨hpr, hs⟩ := head_compacted hp
    obtain ⟨l', hl', hi⟩ := h.synced.indexed
    obtain rfl := Except.ok.inj (hp.indexed.symm.trans hl')
    refine ⟨hp.synced h.synced.written _, hs, by simp [hpn], h.linked, ?_,
      h.digests⟩
    rw [← h.head, hi]
    exact hpr

theorem Linear.of_reachable (h : ChainReachable HasRoom s) : s.Linear := by
  induction h with
  | start bi => exact .init bi
  | @step s h op hop hc ih =>
    cases op with
    | begin rq p digest now => exact ih.begin hc
    | commit rq rs policy now =>
      cases hp : s.pending with
      | none => simpa only [apply, hp] using ih
      | some receipt =>
        simp only [apply, hp]
        exact ih.commit hp hop
    | compact => exact ih.compact hc

end ChainRun

variable {w : World}

theorem ChainReachable.begun {c : ChainRun → ChainOp → Prop} {s : ChainRun} (h : ChainReachable c s)
    {p : PeerIdentity} {d : String} {nw : Int64} (hcn : c s (.begin rq p d nw))
    (hc : s.world.beginCall {} rq p d nw = (w, .ok (.active receipt))) :
    ChainReachable c ⟨w, some receipt, s.written ++ [receipt]⟩ := by
  have hs := h.step (.begin rq p d nw) trivial hcn
  simpa only [ChainRun.apply, ChainRun.begun, hc] using hs

theorem ChainReachable.committed {c : ChainRun → ChainOp → Prop} {w' : World} {wr : List Receipt}
    (h : ChainReachable c ⟨w, some receipt, wr⟩) {r : Response} {p : CompletionPolicy} {nw : Int64}
    (hm : rs.payload.map Value.escapeHTML = rs.payload)
    (hc : c ⟨w, some receipt, wr⟩ (.commit rq rs p nw))
    (hcl : w.commitCall {} rq (some receipt) rs p nw = (w', .ok r)) :
    ChainReachable c ⟨w', none, wr ++ [completeReceipt w.journal receipt rs nw]⟩ := by
  have hs := h.step (.commit rq rs p nw) hm hc
  simpa only [ChainRun.apply, ChainRun.committed, hcl] using hs

/-- In every run in which the admissions find room and no compaction separates an admission from
its commit, every written receipt names the receipt written before it, and receipts of
different digests have different predecessors. -/
theorem chain_linear_of_room {s : ChainRun} (h : ChainReachable ChainRun.HasRoom s) :
    Linked Receipt.previousDigest Receipt.receiptDigest "" s.written ∧
      ((s.written.map Receipt.receiptDigest).Nodup →
        (s.written.map Receipt.previousDigest).Nodup) := by
  have hl := ChainRun.Linear.of_reachable h
  exact ⟨hl.linked, hl.linked.nodup_prev hl.digests⟩

theorem Pairs.hasRoom {verb : Verb} {r : Bool} {p : Option Value} {m n : ℕ} {l : IndexLoop}
    (h : Pairs verb r p m n w l) (hv : stringSize verb ≤ 24) (hn : n < 2048)
    (hr : n * (3700 + m) + 1191 ≤ maxJournalBytes) {pn : Option Receipt} {wr : List Receipt} :
    (ChainRun.mk w pn wr).HasRoom (.begin (sampleRequest verb n) samplePeer
      (requestDigest (sampleRequest verb n)) 1) := by
  refine ⟨h.indexes ▸ h.sequence_lt (by omega), ?_, ?_⟩
  · rw [h.synced.bytes]
    exact (Nat.add_le_add h.bytes (Nat.succ_le_succ (h.active_size hv))).trans hr
  · rw [h.length]
    simp only [maxJournalRows]
    omega

theorem chain_linear_of_room_reload :
    ∃ (s : ChainRun) (first second : Receipt), ChainReachable ChainRun.HasRoom s ∧
      s.written = [first, second] ∧ second.previousDigest = first.receiptDigest := by
  have hs := Pairs.init verbSSHReload false none 0
  obtain ⟨w₁, reply, w₂, s₂, hb, hc, -⟩ := hs.next (by decide) rfl (by simp)
    (by decide) (by decide) (by decide)
  have hr := ((ChainReachable.start "boot").begun
    (hs.hasRoom (by decide) (by decide) (by decide)) hb).committed rfl trivial hc
  exact ⟨_, _, _, hr, rfl, (chain_linear_of_room hr).1.2.1⟩

/-! ## A compacting admission -/

section Compacting

variable {verb : Verb} {n : ℕ} {w : World} {s : IndexLoop}

theorem Pairs.liveCompleted {p : Option Value} {m : ℕ} (h : Pairs verb false p m n w s) :
    s.indexes.liveCompleted = ∅ := by
  ext1 key
  rw [liveCompleted_eq h.indexed, Std.ExtTreeMap.getElem?_empty]
  suffices hn : last? (liveCompletedEvent key) w.journal.rows = none by rw [hn]; rfl
  refine last_eq_none.mpr fun row hr => ?_
  by_cases hp : row.phase = "complete"
  · obtain ⟨k, -, hs⟩ := h.completions row hr hp
    simp [liveCompletedEvent, JournalRow.releasesAs, hs.releases, journalRowRetained, hs.retain]
  · simp [liveCompletedEvent, JournalRow.releasesAs, JournalRow.succeededAs, hp]

/-- Of the rows with the new admission only its own row is required. -/
theorem Pairs.required {p : Option Value} {m : ℕ} (h : Pairs verb false p m n w s) (hn : n < 4096) :
    let rows := w.journal.rows ++ [sampleActive verb n w]
    rows.zipIdx.countP (fun e => requiredRow rows
      (s.active (sampleActive verb n w) (sampleReceipt verb n w)).indexes
      (some w.journal.rows.length) e.2) ≤ 1 := by
  intro rows
  have hl : (s.active (sampleActive verb n w) (sampleReceipt verb n w)).indexes.liveCompleted =
      ∅ := by
    simp only [IndexLoop.active, JournalIndexes.activate, IndexLoop.receive_liveCompleted,
      h.liveCompleted]
  refine countP_zipIdx_le_one (k := w.journal.rows.length) (fun i hi => ?_) rows
  simp only [requiredRow, Bool.or_eq_true, beq_iff_eq, Option.some.injEq, any_eq_true,
    Std.ExtTreeMap.mem_keys, hl, (h.begun hn).unresolved] at hi
  rcases hi with (hi | ⟨key, hk, hls⟩) | ⟨key, hk, -⟩
  · exact hi.symm
  · obtain rfl : sampleKey n = key := by simpa using hk
    rw [lastIndex_concat, if_pos (by simp [sampleActive, activeRow, sampleRequest])] at hls
    exact (Option.some.inj hls).symm
  · simp at hk

/-- The journal after a compacting admission. -/
structure Compacted (verb : Verb) (n : ℕ) (w w₁ : World) (s' : IndexLoop) : Prop where
  boot : w₁.journal.bootID = "boot"
  synced : w₁.Synced
  indexed : indexRows w₁.journal.rows = .ok s'
  indexes : w₁.journal.indexes = s'.indexes
  issued : (sampleReceipt verb n w).sequence = .ofNat (n + 1)
  hasState : s'.hasState = true
  state : s'.stateSequence = .ofNat (n + 1)
  sequence : s'.indexes.sequence = .ofNat (n + 1)
  previous : s'.indexes.previous = (sampleReceipt verb n w).receiptDigest
  fences : s'.indexes.fences = (∅ : StringMap UInt64).insert sampleFence (.ofNat (n + 1))
  unresolved : s'.indexes.unresolved =
    (∅ : StringMap Receipt).insert (sampleKey n) (sampleReceipt verb n w)
  completions : ∀ row ∈ w₁.journal.rows, row.phase = "complete" →
    ∃ k < n, row.idempotencyKey = sampleKey k
  length : w₁.journal.rows.length ≤ 2047
  bytes : (fileOf w₁.journal.rows).length ≤ (fileOf w.journal.rows).length + 1591

theorem ofNat_succ_ne_zero (hn : n < 4096) : UInt64.ofNat (n + 1) ≠ 0 := by
  intro h
  have := congrArg UInt64.toNat h
  rw [toNat_ofNat_small hn] at this
  simp at this

theorem Pairs.begin_compacts (h : Pairs verb false none 0 2048 w s) (hv : stringSize verb ≤ 24) :
    ∃ w₁ s', w.beginCall {} (sampleRequest verb 2048) samplePeer
        (requestDigest (sampleRequest verb 2048)) 1 =
          (w₁, .ok (.active (sampleReceipt verb 2048 w))) ∧
      Compacted verb 2048 w w₁ s' := by
  have hbg := h.begun (show 2048 < 4096 by decide)
  have ha := h.active_size hv
  have hby := h.bytes
  have hen : (sampleActive verb 2048 w).Encodes :=
    encodes_of_size (.active (activeRow_isActive (sampleKey_ne_empty _) (digestPattern_digest _)))
      (ha.trans (by decide))
  have hwr : ∀ row ∈ w.journal.rows ++ [sampleActive verb 2048 w], row.Written := by
    simpa [or_imp, forall_and] using ⟨h.synced.written, hen, rfl⟩
  have he : ∀ row ∈ w.journal.rows ++ [sampleActive verb 2048 w], row.Encodes :=
    fun row hrw => (hwr row hrw).1
  have hf : (fileOf (w.journal.rows ++ [sampleActive verb 2048 w])).length ≤
      (fileOf w.journal.rows).length + 1191 := by
    rw [fileOf_concat hen, length_append, length_lineOf hen]
    exact Nat.add_le_add_left (Nat.succ_le_succ ha) _
  obtain ⟨hsn, hln⟩ := snapshot_encodes (by rw [hbg.sequence]; exact ofNat_succ_ne_zero (by decide))
    (by rw [hbg.previous]; exact digestPattern_digest _) hbg.fences
    (ofNat_succ_ne_zero (by decide))
  obtain ⟨kp, ix, o, hpj, hle⟩ := retainedJournalProjection_succeeds
    (some w.journal.rows.length) maxJournalRowLineSize 1 hbg.indexed he hsn
    (by
      have hr := length_receiptRows_le he
      simp only [maxJournalRowLineSize, maxJournalRowBytes, maxJournalFileBytes, maxResponseBytes,
        maxJournalBytes]
      omega)
    targetJournalRows le_rfl (by decide)
    ((Nat.add_le_add_right (Nat.add_le_add_left (h.required (by decide)) 1) 1).trans (by decide))
  obtain ⟨s₁, sl, hp⟩ := retainedJournalProjection_ok hpj
  obtain rfl := Except.ok.inj (hp.indexed.symm.trans hbg.indexed)
  obtain ⟨s', hs', rfl⟩ := buildJournalIndexes_ok.mp hp.kept_indexed
  obtain ⟨hsq, hpr, hfn⟩ := hp.kept_authority hs'
  have hl : needsCompaction (w.journal.fileBytes + (lineOf (sampleActive verb 2048 w)).length)
      (w.journal.rows.length + 1) maxJournalRowLineSize 1 = true := by
    rw [needsCompaction_iff, h.length]
    exact .inr (.inl (by decide))
  have hb := beginCall_admits samplePeer (requestDigest (sampleRequest verb 2048)) 1
    (h.indexes ▸ h.admits (show 2048 < 4096 by decide)) (append_compacts hen hl hpj)
  have hkp := hs'
  rw [hp.keep_eq] at hkp
  obtain ⟨hh, hs⟩ := indexRows_state hkp
  refine ⟨_, s', hb, h.boot, hp.synced hwr _, hs', rfl, hbg.issued, hh, ?_, ?_, ?_, ?_, ?_, ?_, ?_,
    ?_⟩
  · exact hs.trans hbg.sequence
  · exact hsq.trans hbg.sequence
  · exact hpr.trans hbg.previous
  · exact hfn.trans hbg.fences
  · rw [← hbg.unresolved]
    exact hp.kept_unresolved hs' (by simp [LastRow])
  · intro row hrw hph
    change row ∈ kp at hrw
    rw [hp.keep_eq, mem_cons] at hrw
    rcases hrw with rfl | hrw
    · exact absurd hph (by simp [snapshot, authorityRow])
    rcases mem_append.mp (pick_subset hrw) with ho | hn
    · obtain ⟨k, hk, hsm⟩ := h.completions row ho hph
      exact ⟨k, hk, hsm.key⟩
    · rw [mem_singleton.mp hn] at hph
      exact absurd hph (sampleActive_phase verb 2048 w)
  · exact Nat.le_of_succ_le_succ hle
  · have hot := hp.output_le_rows he
    change (fileOf kp).length ≤ _
    rw [fileOf, ← hp.output_eq]
    omega

section

variable {w₁ : World} {s' : IndexLoop} (h : Compacted verb 2048 w w₁ s')
include h

/-- The completion has the number of the snapshot, so it does not become the head. -/
theorem Compacted.not_advances : ¬s'.Advances (sampleDone verb none 2048 w w₁) := by
  have hsq : (sampleDone verb none 2048 w w₁).sequence = .ofNat 2049 := h.issued
  simp [IndexLoop.Advances, h.hasState, h.state, hsq]

/-- Its fence is not above the one of the admission. -/
theorem Compacted.receive_indexes :
    (s'.receive (sampleComplete verb false none 2048 w w₁)
      (sampleDone verb none 2048 w w₁)).indexes = s'.indexes := by
  refine (IndexLoop.receive_of_not_advances h.not_advances _).trans ?_
  refine JournalIndexes.raiseFence_eq_self _ _ ?_
  change UInt64.ofNat 2049 ≤ s'.indexes.fences.getD sampleFence 0
  rw [h.fences, Std.ExtTreeMap.getD_insert_self]
  exact UInt64.le_refl _

/-- No row completes the next request. -/
theorem Compacted.no_replay : last? (replayEvent (sampleKey 2049))
    (w₁.journal.rows ++ [sampleComplete verb false none 2048 w w₁]) = none := by
  refine last_eq_none.mpr fun row hro => ?_
  unfold replayEvent
  rw [if_neg]
  rintro ⟨hky, hp⟩
  rcases mem_append.mp hro with ho | hnw
  · obtain ⟨k, hk, hrK⟩ := h.completions row ho hp
    have := sampleKey_inj (by omega) (by decide) (hrK.symm.trans hky)
    omega
  · rw [mem_singleton.mp hnw] at hky
    exact absurd (sampleKey_inj (by decide) (by decide) hky) (by decide)

/-- The completion after a compacting admission has the number of the snapshot and does not
become the head. -/
theorem Compacted.commit
    (hv : stringSize verb ≤ 24) (hrp : (sampleReceipt verb 2048 w).Short 24)
    (hb : (fileOf w.journal.rows).length ≤ 7577600) :
    ∃ reply w₂ s₂, w₁.commitCall {} (sampleRequest verb 2048) (some (sampleReceipt verb 2048 w))
        (sampleResponse verb none 2048) ⟨false, ""⟩ 1 = (w₂, .ok reply) ∧
      w₂.journal.bootID = "boot" ∧ w₂.Synced ∧ indexRows w₂.journal.rows = .ok s₂ ∧
      w₂.journal.indexes = s₂.indexes ∧ s₂.indexes.sequence = .ofNat 2049 ∧
      s₂.indexes.previous = (sampleReceipt verb 2048 w).receiptDigest ∧
      s₂.indexes.Admits (sampleRequest verb 2049) ∧
      w₂.journal.rows.length ≤ 2048 ∧ (fileOf w₂.journal.rows).length ≤ 7582000 := by
  have hpr : stringSize w₁.journal.indexes.previous ≤ 66 := by
    rw [h.indexes, h.previous]
    exact (stringSize_digest _).le
  have he : (none : Option Value).map Value.escapeHTML = none := rfl
  have hpy : ∀ v ∈ (none : Option Value), v.size ≤ 0 := by simp
  have hsz : (sampleComplete verb false none 2048 w w₁).toValue.size ≤ 2438 :=
    (sampleComplete_size hpr hrp hv he hpy).trans (by decide)
  have hl : s'.lastSequence ≤ (sampleReceipt verb 2048 w).sequence := by
    rw [h.issued, ← h.sequence]
    exact (indexRows_last h.indexed).1
  have hfl := h.bytes
  have hln := h.length
  have hr : w₁.journal.fileBytes +
      ((sampleComplete verb false none 2048 w w₁).toValue.size + 1) ≤ maxJournalBytes := by
    rw [h.synced.bytes]
    simp only [maxJournalBytes]
    omega
  have hrw : w₁.journal.rows.length + 1 ≤ maxJournalRows := by
    simp only [maxJournalRows]
    omega
  have his := receiptFor_issuedFor w (sampleRequest verb 2048) samplePeer 1
  have hc := commit_appends h.indexed false hl
    (sampleResponse_answers verb 2048 he) his (sampleKey_ne_empty 2048)
    (show (1 : Int64) ≠ 0 by decide) (by simp [sampleResponse])
    (hsz.trans (by decide)) (needsCompaction_eq_false hr (Nat.zero_le _) hrw)
  obtain ⟨-, ha⟩ := commitCall_ok hc
  obtain ⟨(hen : (sampleComplete verb false none 2048 w w₁).Encodes), hok⟩ := append_ok ha
  have hi := indexRows_complete (w := w₁) h.indexed false hl
    (sampleResponse_answers verb 2048 he) his (sampleKey_ne_empty 2048)
    (show (1 : Int64) ≠ 0 by decide) (by simp [sampleResponse])
  have hrc := h.receive_indexes
  refine ⟨_, _, _, hc, h.boot, append_synced h.synced ⟨hen, he⟩ hok, hi, rfl,
    ?_, ?_, ⟨?_, ?_, ?_⟩, ?_, ?_⟩
  · change (JournalIndexes.complete _ _ _ _).sequence = _
    rw [JournalIndexes.complete_sequence]
    exact (congrArg _ hrc).trans h.sequence
  · exact (complete_head_of_not_advances h.not_advances).trans h.previous
  · rw [replays_eq hi]
    exact congrArg _ h.no_replay
  · change (JournalIndexes.complete _ _ _ _).unresolved.isEmpty = true
    rw [JournalIndexes.complete_unresolved]
    change ((s'.receive (sampleComplete verb false none 2048 w w₁)
      (sampleDone verb none 2048 w w₁)).indexes.unresolved.erase (sampleKey 2048)).isEmpty = true
    rw [hrc, h.unresolved, erase_singleton]
    rfl
  · change (JournalIndexes.complete _ _ _ _).fences.getD sampleFence 0 < UInt64.ofNat 2050
    rw [JournalIndexes.complete_fences]
    change (s'.receive (sampleComplete verb false none 2048 w w₁)
      (sampleDone verb none 2048 w w₁)).indexes.fences.getD sampleFence 0 < UInt64.ofNat 2050
    rw [hrc, h.fences, Std.ExtTreeMap.getD_insert_self]
    decide
  · change (w₁.journal.rows ++ [_]).length ≤ 2048
    rw [length_append, length_singleton]
    omega
  · change (fileOf (w₁.journal.rows ++ [sampleComplete verb false none 2048 w w₁])).length ≤ _
    rw [fileOf_concat hen, length_append, length_lineOf hen]
    omega

end

end Compacting

/-- After 2048 rounds the next admission compacts the journal, and two receipts name it as their
predecessor: its completion and the admission that follows. -/
theorem chain_forks :
    ∃ (s : ChainRun) (written : List Receipt) (first second third : Receipt),
      ChainReachable (fun _ _ => True) s ∧ s.written = written ++ [first, second, third] ∧
        second.previousDigest = first.receiptDigest ∧
        third.previousDigest = first.receiptDigest := by
  have hv : stringSize verbSSHReload ≤ 24 := by decide
  obtain ⟨w, l, ⟨written, hr⟩, hp⟩ := Pairs.rounds verbSSHReload false none
    (R := fun w => ∃ written, ChainReachable (fun _ _ => True) ⟨w, none, written⟩)
    (m := 0) (n := 2048) hv rfl
    (by simp) (by decide) le_rfl (by decide) ⟨[], .start "boot"⟩
    (fun k w w₁ reply w₂ ⟨written, h⟩ hb hc => ⟨_, (h.begun trivial hb).committed rfl trivial hc⟩)
  obtain ⟨w₁, s', hb, hcm⟩ := hp.begin_compacts hv
  obtain ⟨reply, w₂, s₂, hc, hbt, hs, hi, hin, hsq, hpr,
    ha, hl, hby⟩ := hcm.commit hv (hp.receipt_short hv) hp.bytes
  have hp₂ : w₂.journal.indexes.previous = (sampleReceipt verbSSHReload 2048 w).receiptDigest :=
    hin ▸ hpr
  have hsz : (sampleActive verbSSHReload 2049 w₂).toValue.size ≤ 1190 := activeRow_size
    (receiptFor_short 1 (sampleRequest_short hv 2049) (by rw [hbt]; decide) (stringSize_digest _).le
      (by rw [hp₂]; exact (stringSize_digest _).le))
    (sampleRequest_short hv 2049) (digestPattern_digest _)
  have hn := begin_appends hi samplePeer 1 hin ha (sampleKey_ne_empty 2049) (digestPattern_digest _)
    (by rw [hsq]; decide) (hsz.trans (by decide)) (needsCompaction_eq_false (by
      rw [hs.bytes]
      refine (Nat.add_le_add hby (Nat.succ_le_succ hsz)).trans (by decide)) le_rfl
      ((Nat.add_le_add_right hl 2).trans (by decide)))
  refine ⟨_, written, _, _, _, ((hr.begun trivial hb).committed rfl trivial hc).begun
    trivial hn, by rw [append_assoc, append_assoc]; rfl, ?_, hp₂⟩
  change w₁.journal.indexes.previous = _
  rw [hcm.indexes, hcm.previous]

end Solovey.Broker
