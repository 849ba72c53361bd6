import Solovey.Broker.Progress

/-!
# Runs of admissions and commits

A caller that begins one request after the other and commits each with the same kind of response.
`Pairs.next` is one round as long as the journal has room, `pairs_run` all rounds up to a number.
-/

namespace Solovey.Broker

open Solovey.Text Solovey.Json Solovey.Data List

/-! ## Requests -/

/-- An identifier that numbers the first 4096 requests. -/
def sampleKey (n : ℕ) : String :=
  String.ofList ('k' :: (List.range 12).map fun i => if n.testBit i then '1' else '0')

theorem sampleKey_inj {m n : ℕ} (hm : m < 4096) (hn : n < 4096) (h : sampleKey m = sampleKey n) :
    m = n := by
  have hl := congrArg String.toList h
  simp only [sampleKey, String.toList_ofList, List.cons.injEq, true_and] at hl
  refine Nat.eq_of_testBit_eq fun i => ?_
  by_cases hi : i < 12
  · have hb := map_inj_left.mp hl i (by simpa using hi)
    cases hm' : m.testBit i <;> cases hn' : n.testBit i <;> simp [hm', hn'] at hb ⊢
  · have hp : 2 ^ 12 ≤ 2 ^ i := Nat.pow_le_pow_right (by decide) (by omega)
    rw [Nat.testBit_lt_two_pow (by omega), Nat.testBit_lt_two_pow (by omega)]

theorem sampleKey_alphanum (n : ℕ) : ∀ c ∈ (sampleKey n).toList, c.isAlphanum = true := by
  simp only [sampleKey, String.toList_ofList, mem_cons, mem_map]
  rintro c (rfl | ⟨i, -, rfl⟩)
  · decide
  · split <;> decide

theorem stringSize_sampleKey (n : ℕ) : stringSize (sampleKey n) = 15 := by
  rw [stringSize_of_isShort fun c hc => isShort_of_isAlphanum (sampleKey_alphanum n c hc)]
  simp [sampleKey]

theorem sampleKey_ne_empty (n : ℕ) : sampleKey n ≠ "" := by
  intro h
  have := congrArg String.toList h
  simp [sampleKey] at this

def sampleFence : String := "ssh-managed-dropin"

def sampleRequest (verb : Verb) (n : ℕ) : Request :=
  { protocolVersion, capabilityRevision, bootID := "boot", role := "panel", verb,
    requestID := sampleKey n, operationID := sampleKey n, idempotencyKey := sampleKey n,
    fence := ⟨sampleFence, .ofNat (n + 1), digest []⟩, deadlineAt := 2,
    payloadDigest := digest [123, 125], payload := [123, 125] }

theorem sampleRequest_short {verb : Verb} (hv : stringSize verb ≤ 24) (n : ℕ) :
    (sampleRequest verb n).Short 24 := by
  have hk := stringSize_sampleKey n
  refine ⟨?_, ?_, ?_, hv, ?_, (stringSize_digest _).le⟩
  · exact hk.le.trans (by decide)
  · exact hk.le.trans (by decide)
  · exact hk.le.trans (by decide)
  · exact (show stringSize sampleFence ≤ 24 by decide)

/-! ## Rounds -/

def samplePeer : PeerIdentity := ⟨digest []⟩

def sampleResponse (verb : Verb) (payload : Option Value) (n : ℕ) : Response :=
  { successResponse (sampleRequest verb n) with
    payload, payloadDigest := payload.elim "" fun payload => digest (marshal payload) }

theorem sampleResponse_answers (verb : Verb) {payload : Option Value} (n : ℕ)
    (he : payload.map Value.escapeHTML = payload) :
    (sampleResponse verb payload n).Answers (sampleRequest verb n) :=
  ⟨rfl, rfl, rfl, rfl, show stringSize capabilityRevision ≤ 25 by decide, rfl, rfl, rfl, rfl, rfl,
    he⟩

def sampleMutation (verb : Verb) (n : ℕ) : String :=
  completedMutationKey (sampleKey n) verb sampleFence

theorem sampleMutation_inj {verb : Verb} {m n : ℕ} (hm : m < 4096) (hn : n < 4096)
    (h : sampleMutation verb m = sampleMutation verb n) : m = n := by
  refine sampleKey_inj hm hn ?_
  simpa [sampleMutation, completedMutationKey, String.append_assoc, String.append_left_inj] using h

/-- A completion of the rounds. -/
structure SampleRow (verb : Verb) (retain : Bool) (payload : Option Value) (n : ℕ)
    (row : JournalRow) : Prop where
  phase : row.phase = "complete"
  key : row.idempotencyKey = sampleKey n
  succeeded : row.response.any (·.ok) = true
  mutation : row.receipt.map Receipt.mutationKey = some (sampleMutation verb n)
  retain : row.retainUntilRelease = some retain
  releases : row.releases = none
  payload : row.payload = payload

/-- The journal after the first `n` rounds. -/
structure Pairs (verb : Verb) (retain : Bool) (payload : Option Value) (m n : ℕ) (w : World)
    (s : IndexLoop) : Prop where
  boot : w.journal.bootID = "boot"
  synced : w.Synced
  indexed : indexRows w.journal.rows = .ok s
  indexes : w.journal.indexes = s.indexes
  noState : s.hasState = false
  sequence : s.indexes.sequence = .ofNat n
  previous : if n = 0 then s.indexes.previous = "" else digestPattern s.indexes.previous = true
  fences : s.indexes.fences = if n = 0 then ∅ else (∅ : StringMap UInt64).insert sampleFence (.ofNat n)
  resolved : s.indexes.unresolved = ∅
  completions : ∀ row ∈ w.journal.rows, row.phase = "complete" →
    ∃ k < n, SampleRow verb retain payload k row
  distinct : w.journal.rows.Pairwise fun a b => a.phase = "complete" → b.phase = "complete" →
    a.receipt.map Receipt.mutationKey ≠ b.receipt.map Receipt.mutationKey
  count : w.journal.rows.countP (fun row => row.phase == "complete") = n
  length : w.journal.rows.length = 2 * n
  bytes : (fileOf w.journal.rows).length ≤ n * (3700 + m)

theorem Pairs.init (verb : Verb) (retain : Bool) (payload : Option Value) (m : ℕ) :
    Pairs verb retain payload m 0 ⟨{ bootID := "boot" }, {}⟩ {} :=
  ⟨rfl, ⟨⟨[], ⟨rfl, by simp, by simp⟩, fun _ _ => rfl⟩, by simp, rfl, {}, rfl, rfl⟩, rfl, rfl, rfl,
    rfl, rfl, rfl, rfl, by simp, .nil, rfl, rfl, by simp⟩

section Round

variable {verb : Verb} {retain : Bool} {payload : Option Value} {m n : ℕ} {w : World}
  {s : IndexLoop}

theorem toNat_ofNat_small (hn : n ≤ 4096) : (UInt64.ofNat n).toNat = n :=
  UInt64.toNat_ofNat_of_lt' (hn.trans_lt (by decide))

theorem ofNat_lt_ofNat_succ (hn : n < 4096) : UInt64.ofNat n < UInt64.ofNat (n + 1) := by
  rw [UInt64.lt_iff_toNat_lt, toNat_ofNat_small hn.le, toNat_ofNat_small hn]
  omega

theorem Pairs.fence_eq (h : Pairs verb retain payload m n w s) :
    s.indexes.fences.getD sampleFence 0 = .ofNat n := by
  rw [h.fences]
  split_ifs with hn
  · simp [hn]
  · simp

theorem Pairs.admits (h : Pairs verb retain payload m n w s) (hn : n < 4096) :
    s.indexes.Admits (sampleRequest verb n) := by
  refine ⟨?_, ?_, ?_⟩
  · have hnn : last? (replayEvent (sampleKey n)) w.journal.rows = none := by
      refine last_eq_none.mpr fun row hr => ?_
      unfold replayEvent
      rw [if_neg]
      rintro ⟨hky, hp⟩
      obtain ⟨k, hk, hs⟩ := h.completions row hr hp
      have := sampleKey_inj (by omega) hn (hs.key.symm.trans hky)
      omega
    rw [show (sampleRequest verb n).idempotencyKey = sampleKey n from rfl, replays_eq h.indexed,
      hnn]
    rfl
  · rw [h.resolved]
    rfl
  · rw [show (sampleRequest verb n).fence.resource = sampleFence from rfl, h.fence_eq]
    exact ofNat_lt_ofNat_succ hn

theorem Pairs.previous_size (h : Pairs verb retain payload m n w s) :
    stringSize w.journal.indexes.previous ≤ 66 := by
  have hp := h.previous
  rw [h.indexes]
  split_ifs at hp
  · rw [hp]
    decide
  · exact (stringSize_of_digestPattern hp).le

/-- The receipt and the row of the next admission. -/
def sampleReceipt (verb : Verb) (n : ℕ) (w : World) : Receipt :=
  w.receiptFor (sampleRequest verb n) samplePeer 1

def sampleActive (verb : Verb) (n : ℕ) (w : World) : JournalRow :=
  activeRow (sampleRequest verb n) (requestDigest (sampleRequest verb n)) (sampleReceipt verb n w)

theorem sampleActive_phase (verb : Verb) (n : ℕ) (w : World) :
    (sampleActive verb n w).phase ≠ "complete" :=
  show "active" ≠ "complete" by decide

theorem Pairs.receipt_short (h : Pairs verb retain payload m n w s) (hv : stringSize verb ≤ 24) :
    (sampleReceipt verb n w).Short 24 :=
  receiptFor_short 1 (sampleRequest_short hv n)
    (by rw [h.boot]; decide) (stringSize_digest _).le h.previous_size

theorem Pairs.active_size (h : Pairs verb retain payload m n w s) (hv : stringSize verb ≤ 24) :
    (sampleActive verb n w).toValue.size ≤ 1190 :=
  activeRow_size (h.receipt_short hv) (sampleRequest_short hv n) (digestPattern_digest _)

/-- The rows with an admission after the first `n` rounds. -/
structure Begun (verb : Verb) (n : ℕ) (w : World) (s₁ : IndexLoop) : Prop where
  indexed : indexRows (w.journal.rows ++ [sampleActive verb n w]) = .ok s₁
  noState : s₁.hasState = false
  last : s₁.lastSequence = (sampleReceipt verb n w).sequence
  issued : (sampleReceipt verb n w).sequence = .ofNat (n + 1)
  sequence : s₁.indexes.sequence = .ofNat (n + 1)
  previous : s₁.indexes.previous = (sampleReceipt verb n w).receiptDigest
  fences : s₁.indexes.fences = (∅ : StringMap UInt64).insert sampleFence (.ofNat (n + 1))
  unresolved : s₁.indexes.unresolved =
    (∅ : StringMap Receipt).insert (sampleKey n) (sampleReceipt verb n w)

theorem Pairs.receipt_sequence (h : Pairs verb retain payload m n w s) :
    (sampleReceipt verb n w).sequence = .ofNat (n + 1) := by
  change w.journal.indexes.sequence + 1 = _
  rw [h.indexes, h.sequence]
  simp

theorem Pairs.sequence_lt (h : Pairs verb retain payload m n w s) (hn : n < 4096) :
    s.indexes.sequence.toNat + 1 < 2 ^ 64 := by
  rw [h.sequence, toNat_ofNat_small hn.le]
  omega

theorem Pairs.begun (h : Pairs verb retain payload m n w s) (hn : n < 4096) :
    Begun verb n w (s.active (sampleActive verb n w) (sampleReceipt verb n w)) := by
  have hs := h.receipt_sequence
  have hi : (s.active (sampleActive verb n w) (sampleReceipt verb n w)).indexes =
      ((s.indexes.advance (sampleReceipt verb n w)).raiseFence (sampleActive verb n w)).activate
        (sampleActive verb n w) (sampleReceipt verb n w) := by
    rw [← IndexLoop.receive_of_advances (.inl h.noState)]
    rfl
  refine ⟨?_, h.noState, rfl, hs, ?_, ?_, ?_, ?_⟩
  · exact indexRows_active h.indexed h.indexes (sampleKey_ne_empty n) (digestPattern_digest _)
      (h.sequence_lt hn)
  · rw [hi]
    simp only [JournalIndexes.activate, JournalIndexes.raiseFence_sequence, JournalIndexes.advance,
      hs, h.sequence, gt_iff_lt, ofNat_lt_ofNat_succ hn, if_true]
  · rw [hi]
    simp only [JournalIndexes.activate, JournalIndexes.raiseFence_previous, JournalIndexes.advance]
  · have hr : (sampleActive verb n w).fenceSequence > (s.indexes.advance
        (sampleReceipt verb n w)).fences.getD (sampleActive verb n w).fenceResource 0 := by
      change s.indexes.fences.getD sampleFence 0 < UInt64.ofNat (n + 1)
      rw [h.fence_eq]
      exact ofNat_lt_ofNat_succ hn
    rw [hi]
    simp only [JournalIndexes.activate, JournalIndexes.raiseFence, hr, if_true]
    change s.indexes.fences.insert sampleFence (.ofNat (n + 1)) = _
    rw [h.fences]
    ext1 key
    split_ifs <;> simp only [Std.ExtTreeMap.getElem?_insert]
    split_ifs <;> rfl
  · rw [hi]
    simp only [JournalIndexes.activate, JournalIndexes.raiseFence_unresolved,
      JournalIndexes.advance, h.resolved]
    rfl

/-! The completion that follows. -/

def sampleDone (verb : Verb) (payload : Option Value) (n : ℕ) (w w₁ : World) : Receipt :=
  completeReceipt w₁.journal (sampleReceipt verb n w) (sampleResponse verb payload n) 1

def sampleComplete (verb : Verb) (retain : Bool) (payload : Option Value) (n : ℕ) (w w₁ : World) :
    JournalRow :=
  completeRow (sampleRequest verb n) (sampleDone verb payload n w w₁)
    (sampleResponse verb payload n) ⟨retain, ""⟩

/-- The loop after both rows. -/
def sampleLoop (verb : Verb) (retain : Bool) (payload : Option Value) (n : ℕ) (w w₁ : World)
    (s₁ : IndexLoop) : IndexLoop :=
  s₁.complete (sampleComplete verb retain payload n w w₁) (sampleDone verb payload n w w₁)
    { sampleResponse verb payload n with
      payload := none, receipt := some (sampleDone verb payload n w w₁) }

variable {w₁ : World}

theorem sampleComplete_sample :
    SampleRow verb retain payload n (sampleComplete verb retain payload n w w₁) :=
  ⟨rfl, rfl, rfl, rfl, by simp [sampleComplete, completeRow, sampleResponse, successResponse],
    by simp [sampleComplete, completeRow], rfl⟩

theorem sampleComplete_size (hp : stringSize w₁.journal.indexes.previous ≤ 66)
    (hr : (sampleReceipt verb n w).Short 24) (hv : stringSize verb ≤ 24)
    (he : payload.map Value.escapeHTML = payload) (hpy : ∀ v ∈ payload, v.size ≤ m) :
    (sampleComplete verb retain payload n w w₁).toValue.size ≤ m + 2438 := by
  have hs := completeRow_size retain (sampleResponse_answers verb n he) (sampleRequest_short hv n)
    (completeReceipt_short (sampleResponse verb payload n) 1 hr hp) hpy
  exact hs.trans (by omega)

theorem erase_singleton {α : Type} (ky : String) (v : α) :
    ((∅ : StringMap α).insert ky v).erase ky = ∅ := by
  ext1 k
  simp only [Std.ExtTreeMap.getElem?_erase, Std.ExtTreeMap.getElem?_insert,
    Std.ExtTreeMap.getElem?_empty]
  split_ifs <;> rfl

/-- The indexes after both rows. -/
structure Ended (n : ℕ) (done : Receipt) (s₂ : IndexLoop) : Prop where
  noState : s₂.hasState = false
  sequence : s₂.indexes.sequence = .ofNat (n + 1)
  previous : s₂.indexes.previous = done.receiptDigest
  fences : s₂.indexes.fences = (∅ : StringMap UInt64).insert sampleFence (.ofNat (n + 1))
  resolved : s₂.indexes.unresolved = ∅

theorem Begun.ended {s₁ : IndexLoop} (h : Begun verb n w s₁) (retain : Bool)
    (payload : Option Value) (w₁ : World) :
    Ended n (sampleDone verb payload n w w₁) (sampleLoop verb retain payload n w w₁ s₁) := by
  have hrc := @IndexLoop.receive_of_advances _ (sampleDone verb payload n w w₁)
    (.inl h.noState) (sampleComplete verb retain payload n w w₁)
  have hf : ¬((sampleComplete verb retain payload n w w₁).fenceSequence >
      s₁.indexes.fences.getD sampleFence 0) := by
    rw [h.fences]
    simp [sampleComplete, completeRow, sampleRequest]
  refine ⟨h.noState, ?_, ?_, ?_, ?_⟩ <;>
    simp only [sampleLoop, IndexLoop.complete, JournalIndexes.complete_sequence, hrc,
      JournalIndexes.complete_previous, JournalIndexes.complete_fences,
      JournalIndexes.complete_unresolved, JournalIndexes.raiseFence_sequence,
      JournalIndexes.raiseFence_previous, JournalIndexes.raiseFence_unresolved]
  · have hs : (sampleDone verb payload n w w₁).sequence = .ofNat (n + 1) := h.issued
    simp [JournalIndexes.advance, hs, h.sequence]
  · rfl
  · have hr : (s₁.indexes.advance (sampleDone verb payload n w w₁)).raiseFence
        (sampleComplete verb retain payload n w w₁) = s₁.indexes.advance _ := if_neg hf
    rw [hr]
    exact h.fences
  · simp only [JournalIndexes.advance, h.unresolved]
    exact erase_singleton _ _

/-! ## One round -/

/-- The journal between the two rows of a round. -/
structure Halfway (verb : Verb) (n : ℕ) (w w₁ : World) (s₁ : IndexLoop) : Prop where
  boot : w₁.journal.bootID = "boot"
  synced : w₁.Synced
  begun : Begun verb n w s₁
  rows : w₁.journal.rows = w.journal.rows ++ [sampleActive verb n w]
  indexes : w₁.journal.indexes = s₁.indexes
  receipt : (sampleReceipt verb n w).Short 24
  bytes : (fileOf w₁.journal.rows).length ≤ (fileOf w.journal.rows).length + 1191

theorem Pairs.begin (h : Pairs verb retain payload m n w s) (hv : stringSize verb ≤ 24)
    (hn : n < 2048) (hr : (fileOf w.journal.rows).length + 1191 ≤ maxJournalBytes) :
    ∃ w₁,
      w.beginCall {} (sampleRequest verb n) samplePeer (requestDigest (sampleRequest verb n)) 1 =
        (w₁, .ok (.active (sampleReceipt verb n w))) ∧
      Halfway verb n w w₁ (s.active (sampleActive verb n w) (sampleReceipt verb n w)) := by
  have hac := h.active_size hv
  have hl := h.length
  have hb := begin_appends h.indexed samplePeer 1 h.indexes
    (h.admits (by omega)) (sampleKey_ne_empty n) (digestPattern_digest _)
    (h.sequence_lt (by omega)) (hac.trans (by decide))
    (needsCompaction_eq_false (by
      rw [h.synced.bytes]
      exact (Nat.add_le_add_left (Nat.succ_le_succ hac) _).trans hr) le_rfl
      (by simp only [maxJournalRows]; omega))
  obtain ⟨-, -, ha⟩ := beginCall_active hb
  obtain ⟨(he : (sampleActive verb n w).Encodes), hok⟩ := append_ok ha
  refine ⟨_, hb, h.boot, append_synced h.synced.drawn ⟨he, rfl⟩ hok, h.begun (by omega), rfl,
    rfl, h.receipt_short hv, ?_⟩
  change (fileOf (w.journal.rows ++ [sampleActive verb n w])).length ≤ _
  rw [fileOf_concat he, length_append, length_lineOf he]
  exact Nat.add_le_add_left (Nat.succ_le_succ hac) _

theorem Halfway.commit {s₁ : IndexLoop} (h : Halfway verb n w w₁ s₁) (retain : Bool)
    (hvr : stringSize verb ≤ 24) (he : payload.map Value.escapeHTML = payload)
    (hpy : ∀ v ∈ payload, v.size ≤ m) (hm : m ≤ maxResponseBytes)
    (hl : w₁.journal.rows.length < maxJournalRows)
    (hr : (fileOf w₁.journal.rows).length + m + 2439 ≤ maxJournalBytes) :
    let row := sampleComplete verb retain payload n w w₁
    let s₂ := sampleLoop verb retain payload n w w₁ s₁
    ∃ reply, w₁.commitCall {} (sampleRequest verb n) (some (sampleReceipt verb n w))
        (sampleResponse verb payload n) ⟨retain, ""⟩ 1 = (w₁.appended row s₂, .ok reply) ∧
      (w₁.appended row s₂).Synced ∧ indexRows (w₁.journal.rows ++ [row]) = .ok s₂ ∧
      (fileOf (w₁.journal.rows ++ [row])).length ≤ (fileOf w₁.journal.rows).length + m + 2439 := by
  intro row s₂
  have hp : stringSize w₁.journal.indexes.previous ≤ 66 := by
    rw [h.indexes, h.begun.previous]
    exact (stringSize_digest _).le
  have hs : row.toValue.size ≤ m + 2438 := sampleComplete_size hp h.receipt hvr he hpy
  have hb : w₁.journal.fileBytes + (row.toValue.size + 1) ≤ maxJournalBytes := by
    rw [h.synced.bytes]
    omega
  have hi : indexRows w₁.journal.rows = .ok s₁ := by
    rw [h.rows]
    exact h.begun.indexed
  have hc := commit_appends hi retain (UInt64.le_of_eq h.begun.last)
    (sampleResponse_answers verb n he) (receiptFor_issuedFor _ _ _ _) (sampleKey_ne_empty n)
    (show (1 : Int64) ≠ 0 by decide) (fun v hv => (hpy v hv).trans hm)
    (hs.trans (by simp only [maxResponseBytes, maxJournalRowBytes] at hm ⊢; omega))
    (needsCompaction_eq_false hb (Nat.zero_le _) hl)
  obtain ⟨-, ha⟩ := commitCall_ok hc
  obtain ⟨(hen : row.Encodes), hok⟩ := append_ok ha
  refine ⟨_, hc, append_synced h.synced ⟨hen, he⟩ hok, ?_, ?_⟩
  · exact indexRows_complete hi retain (UInt64.le_of_eq h.begun.last)
      (sampleResponse_answers verb n he) (receiptFor_issuedFor _ _ _ _) (sampleKey_ne_empty n)
      (by decide) (fun v hv => (hpy v hv).trans hm)
  · rw [fileOf_concat hen, length_append, length_lineOf hen]
    omega

/-- One more round, as long as there is room. -/
theorem Pairs.next (h : Pairs verb retain payload m n w s) (hv : stringSize verb ≤ 24)
    (hes : payload.map Value.escapeHTML = payload) (hpy : ∀ v ∈ payload, v.size ≤ m)
    (hm : m ≤ maxResponseBytes) (hn : n < 2048) (hrm : (n + 1) * (3700 + m) ≤ maxJournalBytes) :
    ∃ w₁ reply w₂ s₂,
      w.beginCall {} (sampleRequest verb n) samplePeer (requestDigest (sampleRequest verb n)) 1 =
        (w₁, .ok (.active (sampleReceipt verb n w))) ∧
      w₁.commitCall {} (sampleRequest verb n) (some (sampleReceipt verb n w))
        (sampleResponse verb payload n) ⟨retain, ""⟩ 1 = (w₂, .ok reply) ∧
      Pairs verb retain payload m (n + 1) w₂ s₂ := by
  have hby := h.bytes
  have hl := h.length
  rw [Nat.add_one_mul] at hrm
  obtain ⟨w₁, hbg, hh⟩ := h.begin hv hn (by omega)
  have hb₁ := hh.bytes
  have hl₁ : w₁.journal.rows.length = 2 * n + 1 := by simp [hh.rows, hl]
  obtain ⟨reply, hc, hs, hi, hb₂⟩ := hh.commit retain hv
    hes hpy hm (by simp only [maxJournalRows]; omega) (by omega)
  have he := hh.begun.ended retain payload w₁
  set row := sampleComplete verb retain payload n w w₁ with hro
  have hsm : SampleRow verb retain payload n row := sampleComplete_sample
  have hrw (s' : IndexLoop) : (w₁.appended row s').journal.rows =
      w.journal.rows ++ [sampleActive verb n w] ++ [row] := congrArg (· ++ [row]) hh.rows
  refine ⟨w₁, reply, _, _, hbg, hc, hh.boot, hs, hi, rfl, he.noState,
    he.sequence, ?_, ?_, he.resolved, ?_, ?_, ?_, ?_, ?_⟩
  · rw [if_neg n.succ_ne_zero, he.previous]
    exact digestPattern_digest _
  · rw [if_neg n.succ_ne_zero, he.fences]
  · intro r hr hp
    rw [hrw, mem_append, mem_append, mem_singleton, mem_singleton] at hr
    rcases hr with (hr | rfl) | rfl
    · obtain ⟨k, hk, ho⟩ := h.completions r hr hp
      exact ⟨k, by omega, ho⟩
    · exact absurd hp (sampleActive_phase verb n w)
    · exact ⟨n, n.lt_succ_self, hsm⟩
  · rw [hrw, pairwise_append, pairwise_append]
    refine ⟨⟨h.distinct, pairwise_singleton .., ?_⟩, pairwise_singleton .., ?_⟩
    · rintro a - b hb - hp
      rw [mem_singleton.mp hb] at hp
      exact absurd hp (sampleActive_phase verb n w)
    · rintro a ha b hb hp -
      rw [mem_append, mem_singleton] at ha
      rw [mem_singleton.mp hb, hsm.mutation]
      rcases ha with ha | rfl
      · obtain ⟨k, hk, ho⟩ := h.completions a ha hp
        rw [ho.mutation]
        intro heq
        have := sampleMutation_inj (by omega) (by omega) (Option.some.inj heq)
        omega
      · exact absurd hp (sampleActive_phase verb n w)
  · rw [hrw, countP_append, countP_append, h.count]
    rfl
  · rw [hrw]
    simp [hl]
    omega
  · refine hb₂.trans ?_
    rw [Nat.add_one_mul]
    omega

/-- The rounds up to the `n`th; `R` is kept by every round. -/
theorem Pairs.rounds (verb : Verb) (retain : Bool) (payload : Option Value) {R : World → Prop}
    (hv : stringSize verb ≤ 24) (he : payload.map Value.escapeHTML = payload)
    (hpy : ∀ v ∈ payload, v.size ≤ m) (hm : m ≤ maxResponseBytes) (hn : n ≤ 2048)
    (hrm : n * (3700 + m) ≤ maxJournalBytes) (hi : R ⟨{ bootID := "boot" }, {}⟩)
    (hrn : ∀ k w w₁ reply w₂, R w →
      w.beginCall {} (sampleRequest verb k) samplePeer (requestDigest (sampleRequest verb k)) 1 =
        (w₁, .ok (.active (sampleReceipt verb k w))) →
      w₁.commitCall {} (sampleRequest verb k) (some (sampleReceipt verb k w))
        (sampleResponse verb payload k) ⟨retain, ""⟩ 1 = (w₂, .ok reply) → R w₂) :
    ∃ w s, R w ∧ Pairs verb retain payload m n w s := by
  induction n with
  | zero => exact ⟨_, _, hi, .init verb retain payload m⟩
  | succ n ih =>
    obtain ⟨w, s, hr, hp⟩ := ih (by omega)
      ((Nat.mul_le_mul_right _ n.le_succ).trans hrm)
    obtain ⟨w₁, reply, w₂, s₂, hb, hc, hp'⟩ := hp.next hv he hpy hm (by omega) hrm
    exact ⟨w₂, s₂, hrn n w w₁ reply w₂ hr hb hc, hp'⟩

end Round

/-! ## The snapshot of the rounds -/

/-- The snapshot with one fence is a small row. -/
theorem snapshot_encodes {i : JournalIndexes} {f : UInt64} (hsq : i.sequence ≠ 0)
    (hp : digestPattern i.previous = true)
    (hfn : i.fences = (∅ : StringMap UInt64).insert sampleFence f) (hf : f ≠ 0) :
    (snapshot i).Encodes ∧ (lineOf (snapshot i)).length ≤ 400 := by
  have hv : (snapshot i).Valid := by
    refine .authority ⟨rfl, fun h => absurd h hsq, fun _ => hp, fun e he => ?_⟩
    have hg : i.fences[e.1]? = some e.2 := Std.ExtTreeMap.mem_toList_iff_getElem?_eq_some.mp he
    rw [hfn, Std.ExtTreeMap.getElem?_insert] at hg
    split_ifs at hg with hk
    · have hn : sampleFence = e.1 := by simpa using hk
      exact ⟨hn ▸ by decide, Option.some.inj hg ▸ hf⟩
    · simp at hg
  have hr : (snapshot i).toValue.size ≤ 347 := by
    have hs := snapshot_size_le hv
    rw [hfn, Std.ExtTreeMap.size_insert] at hs
    simpa using hs
  have hen : (snapshot i).Encodes := encodes_of_size hv (hr.trans (by decide))
  refine ⟨hen, ?_⟩
  rw [length_lineOf hen]
  exact Nat.succ_le_succ (hr.trans (by decide))

end Solovey.Broker
