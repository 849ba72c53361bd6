import Solovey.Json.Size
import Solovey.Broker.Server
import Solovey.Broker.Sync

/-!
# Calls that go through

When an admission or a commit succeeds. A request with short identifiers gives short rows
(`activeRow_size`, `completeRow_size`), and rows that follow the others are appended or, when
the journal is full, compacted (`append_appends`, `append_compacts`).
-/

namespace Solovey.Broker

open Solovey.Text Solovey.Json Solovey.Data List

/-! ## Sizes of rows -/

theorem stringSize_of_digestPattern {s : String} (h : digestPattern s = true) :
    stringSize s = 66 := by
  simp only [digestPattern, Bool.and_eq_true, decide_eq_true_eq, all_eq_true] at h
  rw [stringSize_of_isShort, h.1]
  exact fun c hc => isShort_of_isAlphanum (Hash.isAlphanum_of_isLowerHex (h.2 c hc))

theorem stringSize_digest (vl : Bytes) : stringSize (digest vl) = 66 :=
  stringSize_of_digestPattern (digestPattern_digest vl)

theorem stringSize_of_safeIdentifier {vl : String} (h : safeIdentifier vl = true) :
    stringSize vl ≤ 130 := by
  have hs {c : Char} (hc : (c.isAlphanum || "._:@+-".toList.contains c) = true) :
      isShort c = true := by
    rcases Bool.or_eq_true_iff.mp hc with hc | hc
    · exact isShort_of_isAlphanum hc
    · have hm : c ∈ ['.', '_', ':', '@', '+', '-'] := by simpa using hc
      simp only [mem_cons, not_mem_nil, or_false] at hm
      rcases hm with rfl | rfl | rfl | rfl | rfl | rfl <;> decide
  unfold safeIdentifier at h
  split at h
  · cases h
  rename_i c rest hv
  simp only [Bool.and_eq_true, decide_eq_true_eq, all_eq_true] at h
  rw [stringSize_of_isShort, hv, length_cons]
  · omega
  · rw [hv, forall_mem_cons]
    exact ⟨isShort_of_isAlphanum h.1.1, fun c hc => hs (h.2 c hc)⟩

/-- A snapshot grows with the number of its fences. -/
theorem snapshot_size_le {i : JournalIndexes} (hv : (snapshot i).Valid) :
    (snapshot i).toValue.size ≤ 195 + 152 * i.fences.size := by
  have hs := authorityRow_isAuthority hv
  have hp : stringSize i.previous ≤ 66 := by
    by_cases hsq : i.sequence = 0
    · rw [show i.previous = "" from hs.chain_zero hsq]
      decide
    · exact (stringSize_of_digestPattern (hs.chain hsq)).le
  have hm : ∀ x ∈ omitMap i.fences, x.size ≤ 152 * i.fences.size + 2 := by
    unfold omitMap
    split_ifs
    · simp
    refine some_size_le ?_
    rw [← Std.ExtTreeMap.length_toList, Value.ofMap, ← length_map]
    refine Value.ofEntries_size_le_mul fun e he => ?_
    obtain ⟨f, hf, rfl⟩ := mem_map.mp he
    have hn := stringSize_of_safeIdentifier (hs.fences f hf).1
    have hnm := Value.size_ofUInt64_le f.2
    simp only [Entry.size]
    omega
  have ha : (JournalAuthorityState.mk i.sequence i.previous i.fences).toValue.size ≤
      130 + 152 * i.fences.size := by
    refine Value.ofEntries_size_le [10 + 2 + 20, 16 + 2 + 66, 8 + 2 + (152 * i.fences.size + 2)] ?_
      (by simp only [sum_cons, sum_nil]; omega)
    refine .cons (Entry.some_le (Value.size_ofUInt64_le _) rfl) ?_
    refine .cons (Entry.size_le rfl (omitString_size_le hp)) ?_
    exact .cons (Entry.size_le rfl hm) .nil
  refine Value.ofEntries_size_le [8 + 2 + 20, 7 + 2 + 11, 0, 0, 0, 0, 0, 0, 0, 0,
    11 + 2 + (130 + 152 * i.fences.size), 0, 0] ?_ (by simp only [sum_cons, sum_nil]; omega)
  simp only [JournalRow.entries, snapshot, authorityRow, forall₂_cons, Option.map_none,
    Option.map_some]
  refine ⟨?_, ?_, Nat.zero_le _, Nat.zero_le _, Nat.zero_le _, Nat.zero_le _, Nat.zero_le _,
    Nat.zero_le _, Nat.zero_le _, Nat.zero_le _, ?_, Nat.zero_le _, Nat.zero_le _, .nil⟩
  · exact Entry.some_le (Value.size_ofInt64_le _) rfl
  · exact Entry.some_le (by decide) rfl
  · exact Entry.some_le ha rfl

/-- Bounds on the strings of a receipt: `n` for its identifiers, and the length of a digest. -/
structure Receipt.Short (r : Receipt) (n : ℕ) : Prop where
  requestID : stringSize r.requestID ≤ n
  operationID : stringSize r.operationID ≤ n
  idempotencyKey : stringSize r.idempotencyKey ≤ n
  verb : stringSize r.verb ≤ n
  fenceResource : stringSize r.fenceResource ≤ n
  brokerBootID : stringSize r.brokerBootID ≤ n
  outcome : stringSize r.outcome ≤ 11
  fenceTokenDigest : stringSize r.fenceTokenDigest ≤ 66
  payloadDigest : stringSize r.payloadDigest ≤ 66
  responseDigest : stringSize r.responseDigest ≤ 66
  peerRevision : stringSize r.peerRevision ≤ 66
  previousDigest : stringSize r.previousDigest ≤ 66
  receiptDigest : stringSize r.receiptDigest ≤ 66

variable {n : ℕ}

theorem Receipt.Short.size_le {r : Receipt} (h : r.Short n) : r.toValue.size ≤ 6 * n + 750 := by
  refine Value.ofEntries_size_le [10 + 2 + 20, 11 + 2 + n, 13 + 2 + n, 16 + 2 + n, 6 + 2 + n,
    15 + 2 + n, 15 + 2 + 20, 18 + 2 + 66, 15 + 2 + 66, 16 + 2 + 66, 14 + 2 + 66, 14 + 2 + n,
    16 + 2 + 66, 9 + 2 + 11, 11 + 2 + 20, 13 + 2 + 20, 15 + 2 + 66] ?_
    (by simp only [sum_cons, sum_nil]; omega)
  simp only [Receipt.entries, forall₂_cons]
  refine ⟨?_, ?_, ?_, ?_, ?_, ?_, ?_, ?_, ?_, ?_, ?_, ?_, ?_, ?_, ?_, ?_, ?_, .nil⟩
  · exact Entry.some_le (Value.size_ofUInt64_le _) rfl
  · exact Entry.some_le h.requestID rfl
  · exact Entry.some_le h.operationID rfl
  · exact Entry.some_le h.idempotencyKey rfl
  · exact Entry.some_le h.verb rfl
  · exact Entry.some_le h.fenceResource rfl
  · exact Entry.some_le (Value.size_ofUInt64_le _) rfl
  · exact Entry.some_le h.fenceTokenDigest rfl
  · exact Entry.some_le h.payloadDigest rfl
  · exact Entry.some_le h.responseDigest rfl
  · exact Entry.some_le h.peerRevision rfl
  · exact Entry.some_le h.brokerBootID rfl
  · exact Entry.size_le rfl (omitString_size_le h.previousDigest)
  · exact Entry.some_le h.outcome rfl
  · exact Entry.some_le (Value.size_ofInt64_le _) rfl
  · exact Entry.some_le (Value.size_ofInt64_le _) rfl
  · exact Entry.some_le h.receiptDigest rfl

/-- Bounds on the strings of a request. -/
structure Request.Short (r : Request) (n : ℕ) : Prop where
  requestID : stringSize r.requestID ≤ n
  operationID : stringSize r.operationID ≤ n
  idempotencyKey : stringSize r.idempotencyKey ≤ n
  verb : stringSize r.verb ≤ n
  fenceResource : stringSize r.fence.resource ≤ n
  payloadDigest : stringSize r.payloadDigest ≤ 66

variable {w : World} {request : Request}

theorem receiptFor_short {p : PeerIdentity} (no : Int64) (h : request.Short n)
    (hb : stringSize w.journal.bootID ≤ n) (hp : stringSize p.revision ≤ 66)
    (hpr : stringSize w.journal.indexes.previous ≤ 66) :
    (w.receiptFor request p no).Short n :=
  ⟨h.requestID, h.operationID, h.idempotencyKey, h.verb, h.fenceResource, hb,
    show stringSize "active" ≤ 11 by decide, (stringSize_digest _).le, h.payloadDigest,
    show stringSize "" ≤ 66 by decide, hp, hpr, (stringSize_digest _).le⟩

variable {receipt : Receipt}

theorem completeReceipt_short {j : FileJournal} (response : Response) (no : Int64)
    (h : receipt.Short n) (hp : stringSize j.indexes.previous ≤ 66) :
    (completeReceipt j receipt response no).Short n := by
  refine ⟨h.requestID, h.operationID, h.idempotencyKey, h.verb, h.fenceResource, h.brokerBootID,
    ?_, h.fenceTokenDigest, h.payloadDigest, (stringSize_digest _).le, h.peerRevision, hp,
    (stringSize_digest _).le⟩
  cases hok : response.ok <;> simp only [completeReceipt, hok] <;> decide

theorem activeRow_size {rd : String} (h : receipt.Short n) (hr : request.Short n)
    (hd : digestPattern rd = true) :
    (activeRow request rd receipt).toValue.size ≤ 8 * n + 998 := by
  refine Value.ofEntries_size_le [8 + 2 + 20, 7 + 2 + 8, 16 + 2 + n, 15 + 2 + 66, 15 + 2 + n,
    15 + 2 + 20, 11 + 2 + 20, 0, 9 + 2 + (6 * n + 750), 0, 0, 0, 0] ?_
    (by simp only [sum_cons, sum_nil]; omega)
  simp only [JournalRow.entries, activeRow, forall₂_cons, Option.map_none, Option.map_some]
  refine ⟨?_, ?_, ?_, ?_, ?_, ?_, ?_, Nat.zero_le _, ?_, Nat.zero_le _, Nat.zero_le _,
    Nat.zero_le _, Nat.zero_le _, .nil⟩
  · exact Entry.some_le (Value.size_ofInt64_le _) rfl
  · exact Entry.some_le (by decide) rfl
  · exact Entry.size_le rfl (omitString_size_le hr.idempotencyKey)
  · exact Entry.size_le rfl (omitString_size_le (stringSize_of_digestPattern hd).le)
  · exact Entry.size_le rfl (omitString_size_le hr.fenceResource)
  · exact Entry.size_le rfl (omitUInt64_size_le _)
  · exact Entry.size_le rfl (omitInt64_size_le _)
  · exact Entry.some_le h.size_le rfl

/-- A success without message, before its payload is split off. -/
structure Response.Answers (response : Response) (request : Request) : Prop where
  ok : response.ok = true
  requestID : response.requestID = request.requestID
  operationID : response.operationID = request.operationID
  verb : response.verb = request.verb
  capabilityRevision : stringSize response.capabilityRevision ≤ 25
  code : response.code = ""
  message : response.message = ""
  replay : response.replay = false
  receipt : response.receipt = none
  payloadDigest : response.payloadDigest =
    response.payload.elim "" fun payload => digest (marshal payload)
  escaped : response.payload.map Value.escapeHTML = response.payload

variable {response : Response}

theorem Response.Answers.size_le (h : response.Answers request) (hr : request.Short n)
    (hrc : receipt.Short n) :
    { response with payload := none, receipt := some receipt }.toValue.size ≤ 9 * n + 980 := by
  have hd : stringSize response.payloadDigest ≤ 66 := by
    rw [h.payloadDigest]
    cases response.payload with
    | none => decide
    | some payload => exact (stringSize_digest _).le
  refine Value.ofEntries_size_le [17 + 2 + 20, 20 + 2 + 25, 11 + 2 + n, 13 + 2 + n, 6 + 2 + n,
    4 + 2 + 5, 0, 0, 0, 9 + 2 + (6 * n + 750), 15 + 2 + 66, 0] ?_
    (by simp only [sum_cons, sum_nil]; omega)
  simp only [Response.entries, forall₂_cons, Option.map_none, Option.map_some, h.code,
    h.message, h.replay]
  refine ⟨?_, ?_, ?_, ?_, ?_, ?_, Nat.zero_le _, Nat.zero_le _, Nat.zero_le _, ?_, ?_,
    Nat.zero_le _, .nil⟩
  · exact Entry.some_le (Value.size_ofInt64_le _) rfl
  · exact Entry.some_le h.capabilityRevision rfl
  · exact Entry.some_le (h.requestID ▸ hr.requestID) rfl
  · exact Entry.some_le (h.operationID ▸ hr.operationID) rfl
  · exact Entry.some_le (h.verb ▸ hr.verb) rfl
  · exact Entry.some_le (Value.size_bool_le _) rfl
  · exact Entry.some_le hrc.size_le rfl
  · exact Entry.size_le rfl (omitString_size_le hd)

theorem completeRow_size (rn : Bool) {m : ℕ} (h : response.Answers request) (hr : request.Short n)
    (hrc : receipt.Short n) (hp : ∀ v ∈ response.payload, v.size ≤ m) :
    (completeRow request receipt response ⟨rn, ""⟩).toValue.size ≤ 17 * n + m + 2030 := by
  refine Value.ofEntries_size_le [8 + 2 + 20, 7 + 2 + 10, 16 + 2 + n, 15 + 2 + 66, 15 + 2 + n,
    15 + 2 + 20, 11 + 2 + 20, 10 + 2 + (9 * n + 980), 9 + 2 + (6 * n + 750), 9 + 2 + m, 0,
    20 + 2 + 5, 0] ?_
    (by simp only [sum_cons, sum_nil]; omega)
  simp only [JournalRow.entries, completeRow, forall₂_cons, Option.map_none, Option.map_some,
    h.escaped, ne_eq, not_true_eq_false, and_false, if_false]
  refine ⟨?_, ?_, ?_, ?_, ?_, ?_, ?_, ?_, ?_, ?_, Nat.zero_le _, ?_, Nat.zero_le _, .nil⟩
  · exact Entry.some_le (Value.size_ofInt64_le _) rfl
  · exact Entry.some_le (by decide) rfl
  · exact Entry.size_le rfl (omitString_size_le hr.idempotencyKey)
  · exact Entry.size_le rfl (omitString_size_le (stringSize_digest _).le)
  · exact Entry.size_le rfl (omitString_size_le hr.fenceResource)
  · exact Entry.size_le rfl (omitUInt64_size_le _)
  · exact Entry.size_le rfl (omitInt64_size_le _)
  · exact Entry.some_le (h.size_le hr hrc) rfl
  · exact Entry.some_le hrc.size_le rfl
  · exact Entry.size_le rfl hp
  · exact Entry.some_le (Value.size_bool_le _) rfl

/-! ## Rows that are accepted -/

variable {nw : Int64}

theorem activeRow_isActive {p : PeerIdentity} {rd : String} (hk : request.idempotencyKey ≠ "")
    (hd : digestPattern rd = true) :
    (activeRow request rd (w.receiptFor request p nw)).IsActive (w.receiptFor request p nw) := by
  refine ⟨rfl, rfl, rfl, ?_, rfl, rfl, rfl, rfl, rfl, rfl, rfl, rfl⟩
  have hs : digestPattern (w.receiptFor request p nw).receiptDigest = true := digestPattern_digest _
  simp only [receiptMatches, activeRow, hd, hs, Bool.and_true]
  simp [World.receiptFor, activeReceipt, receiptDigest, hk]

/-- The receipt was issued for the request. -/
structure Receipt.IssuedFor (receipt : Receipt) (request : Request) : Prop where
  requestID : receipt.requestID = request.requestID
  operationID : receipt.operationID = request.operationID
  idempotencyKey : receipt.idempotencyKey = request.idempotencyKey
  verb : receipt.verb = request.verb
  fenceResource : receipt.fenceResource = request.fence.resource
  fenceSequence : receipt.fenceSequence = request.fence.sequence

theorem receiptFor_issuedFor (w : World) (request : Request) (p : PeerIdentity) (nw : Int64) :
    (w.receiptFor request p nw).IssuedFor request :=
  ⟨rfl, rfl, rfl, rfl, rfl, rfl⟩

theorem completeRow_isComplete {j : FileJournal} (rn : Bool) (h : response.Answers request)
    (hrc : receipt.IssuedFor request) (hk : request.idempotencyKey ≠ "") (hnw : nw ≠ 0)
    (hp : ∀ v ∈ response.payload, v.size ≤ maxResponseBytes) :
    (completeRow request (completeReceipt j receipt response nw) response
      ⟨rn, ""⟩).IsComplete (completeReceipt j receipt response nw)
      { response with payload := none,
                      receipt := some (completeReceipt j receipt response nw) } := by
  have hsg : digestPattern (completeReceipt j receipt response nw).receiptDigest = true :=
    digestPattern_digest _
  have hr : ({ response with payload := none } : Response).toValue =
      responseAuthority { response with
        payload := none, receipt := some (completeReceipt j receipt response nw) } := by
    simp [responseAuthority, ← h.receipt]
  refine ⟨rfl, rfl, rfl, ?_, rfl, rfl, rfl, h.requestID.trans hrc.requestID.symm,
    h.operationID.trans hrc.operationID.symm, h.verb.trans hrc.verb.symm, rfl, ?_, ?_, ?_,
    rfl, hnw, ?_, ?_, ?_⟩
  · simp only [receiptMatches, completeRow, hsg, Bool.and_true]
    simp [completeReceipt, receiptDigest, requestDigest, hk, hrc.idempotencyKey,
      hrc.fenceResource, hrc.fenceSequence]
  · cases hv : response.payload with
    | none => simp [completeRow, hv, payloadBytes]
    | some v => simpa [completeRow, hv, payloadBytes, marshal, Value.size] using hp v (by simp [hv])
  · intro hn
    simpa [show response.payload = none from hn] using h.payloadDigest
  · intro hs
    obtain ⟨v, hv⟩ := Option.isSome_iff_exists.mp hs
    simpa [completeRow, show response.payload = some v from hv, payloadBytes] using h.payloadDigest
  · intro hf
    simp [h.ok] at hf
  · have hn : (completeRow request (completeReceipt j receipt response nw) response
        ⟨rn, ""⟩).releases = none := by
      simp only [completeRow, ne_eq, not_true_eq_false, and_false, if_false]
    rw [hn]
    rintro _ ⟨⟩
  · rw [← hr]
    rfl

theorem indexRows_activeRow {rows : List JournalRow} {d : String} {s' : IndexLoop}
    (h : indexRows (rows ++ [activeRow request d receipt]) = .ok s') :
    ∃ s, indexRows rows = .ok s ∧ s' = s.active (activeRow request d receipt) receipt := by
  obtain ⟨s, hs, hrw⟩ := indexRows_concat.mp h
  rcases indexRow_ok.mp hrw with ⟨st, hr, -⟩ | ⟨receipt', hr, -, rfl⟩ | ⟨_, _, hr, -⟩
  · exact absurd hr.row_eq (by simp [activeRow])
  · obtain rfl : receipt = receipt' := Option.some.inj hr.receipt_eq
    exact ⟨s, hs, rfl⟩
  · exact absurd hr.phase (by simp [activeRow])

theorem indexRows_completeRow {rows : List JournalRow} {p : CompletionPolicy} {s' : IndexLoop}
    (h : indexRows (rows ++ [completeRow request receipt response p]) = .ok s') :
    ∃ s, indexRows rows = .ok s ∧ s' = s.complete (completeRow request receipt response p)
      receipt { response with payload := none, receipt := some receipt } := by
  obtain ⟨s, hs, hrw⟩ := indexRows_concat.mp h
  rcases indexRow_ok.mp hrw with ⟨st, hr, -⟩ | ⟨_, hr, -⟩ | ⟨receipt', response', hr, -, rfl⟩
  · exact absurd hr.row_eq (by simp [completeRow])
  · exact absurd hr.phase (by simp [completeRow])
  · obtain rfl : receipt = receipt' := Option.some.inj hr.receipt_eq
    obtain rfl : _ = response' := Option.some.inj hr.response_eq
    exact ⟨s, hs, rfl⟩

/-! ## Appends -/

variable {row : JournalRow} {rb rr : ℕ} {s : IndexLoop}

theorem append_appends (he : row.Encodes) (hs : indexRows (w.journal.rows ++ [row]) = .ok s)
    (hsm : needsCompaction (w.journal.fileBytes + (lineOf row).length)
      (w.journal.rows.length + 1) rb rr = false) :
    append {} w row rb rr = (w.appended row s, .ok ()) := by
  have hl : encodeJournalRow row = .ok (lineOf row) :=
    encodeJournalRow_ok.mpr ⟨he.1, he.2, lineOf_eq he⟩
  unfold append
  simp [hl, hsm, buildJournalIndexes_ok.mpr ⟨s, hs, rfl⟩, writeLine, World.appended]

variable {ie : JournalIndexes}

theorem append_compacts {k : List JournalRow} {o : Bytes} (he : row.Encodes)
    (hl : needsCompaction (w.journal.fileBytes + (lineOf row).length)
      (w.journal.rows.length + 1) rb rr = true)
    (hp : retainedJournalProjection (w.journal.rows ++ [row]) (some w.journal.rows.length)
      rb rr = .ok (k, ie, o)) :
    append {} w row rb rr = (w.compacted k ie o, .ok ()) := by
  have hln : encodeJournalRow row = .ok (lineOf row) :=
    encodeJournalRow_ok.mpr ⟨he.1, he.2, lineOf_eq he⟩
  unfold append
  simp [hln, hl, compact, hp, writeTemporary, World.compacted]

/-! ## Compactions -/

/-- The rows without their snapshot. -/
def receiptRows (rows : List JournalRow) : List JournalRow :=
  rows.filter fun row => row.phase != "authority"

theorem length_fileOf {rows : List JournalRow} (he : ∀ row ∈ rows, row.Encodes) :
    (fileOf rows).length = (rows.map fun row => (lineOf row).length).sum := by
  rw [fileOf, ← flatMap_lineOf he, length_flatMap]

theorem length_receiptRows_le {rows : List JournalRow} (he : ∀ row ∈ rows, row.Encodes) :
    (fileOf (receiptRows rows)).length ≤ (fileOf rows).length := by
  rw [receiptRows, length_fileOf he, length_fileOf fun row hr => he row (mem_of_mem_filter hr)]
  exact (filter_sublist.map _).sum_le_sum fun _ _ => Nat.zero_le _

theorem selectRequired_succeeds (r : ℕ → Bool) {es : List (JournalRow × ℕ)}
    (hen : ∀ e ∈ es, e.1.Encodes) (sl : Selection) :
    ∃ sl', es.foldlM (selectRequired r) sl = .ok sl' ∧
      sl'.indices.length ≤ sl.indices.length + es.countP (fun e => r e.2) ∧
      sl'.encodedBytes ≤ sl.encodedBytes +
        ((receiptRows (es.map Prod.fst)).map fun row => (lineOf row).length).sum := by
  induction es generalizing sl with
  | nil => exact ⟨sl, rfl, by simp, by simp⟩
  | cons e es ih =>
    have hr : ∀ e ∈ es, e.1.Encodes := fun e he => hen e (by simp [he])
    by_cases hrq : (r e.2 && e.1.phase != "authority") = true
    · have he := hen e (by simp)
      have hl : encodeJournalRow e.1 = .ok (lineOf e.1) :=
        encodeJournalRow_ok.mpr ⟨he.1, he.2, lineOf_eq he⟩
      have hs : selectRequired r sl e = .ok (sl.add e.2 (lineOf e.1)) := by
        rw [selectRequired, if_pos hrq, hl]
        rfl
      obtain ⟨sl', hs', hln, hb⟩ := ih hr (sl.add e.2 (lineOf e.1))
      refine ⟨sl', by rw [foldlM_cons, hs]; exact hs', ?_, ?_⟩
      · rw [countP_cons_of_pos (by simpa using (Bool.and_eq_true_iff.mp hrq).1)]
        simp only [Selection.add, length_cons] at hln
        omega
      · rw [map_cons, receiptRows, filter_cons, if_pos (Bool.and_eq_true_iff.mp hrq).2,
          map_cons, sum_cons]
        simp only [Selection.add, receiptRows] at hb
        omega
    · have hs : selectRequired r sl e = .ok sl := by rw [selectRequired, if_neg hrq]
      obtain ⟨sl', hs', hln, hb⟩ := ih hr sl
      refine ⟨sl', by rw [foldlM_cons, hs]; exact hs', ?_, ?_⟩
      · rw [countP_cons]
        omega
      · refine hb.trans (Nat.add_le_add_left ?_ _)
        rw [receiptRows, receiptRows, map_cons]
        exact (((sublist_cons_self _ _).filter _).map _).sum_le_sum fun _ _ => Nat.zero_le _

theorem selectOptional_succeeds {es : List (JournalRow × ℕ)} (hen : ∀ e ∈ es, e.1.Encodes)
    (sl : Selection) {l : ℕ} (hl : targetJournalRows ≤ l) (hsl : 1 + sl.indices.length + rr ≤ l) :
    ∃ sl', es.foldlM (selectOptional ie rb rr) sl = .ok sl' ∧ 1 + sl'.indices.length + rr ≤ l := by
  induction es generalizing sl with
  | nil => exact ⟨sl, rfl, hsl⟩
  | cons e es ih =>
    have hr : ∀ e ∈ es, e.1.Encodes := fun e he => hen e (by simp [he])
    have he := hen e (by simp)
    have hln : encodeJournalRow e.1 = .ok (lineOf e.1) :=
      encodeJournalRow_ok.mpr ⟨he.1, he.2, lineOf_eq he⟩
    obtain ⟨s₁, hs, hs₁⟩ : ∃ s₁, selectOptional ie rb rr sl e = .ok s₁ ∧
          1 + s₁.indices.length + rr ≤ l := by
      unfold selectOptional
      split_ifs
      · exact ⟨sl, rfl, hsl⟩
      · rw [hln]
        refine ⟨_, rfl, ?_⟩
        dsimp only
        split_ifs with hf
        · exact hsl
        · simp only [Selection.add, length_cons]
          omega
    obtain ⟨sl', hs', hle⟩ := ih hr s₁ hs₁
    exact ⟨sl', by rw [foldlM_cons, hs]; exact hs', hle⟩

/-- A compaction goes through when its rows, all together, fit into the file and the required
ones are few enough. -/
theorem retainedJournalProjection_succeeds {rows : List JournalRow} (ri : Option ℕ) (rb rr : ℕ)
    (hs : indexRows rows = .ok s) (hec : ∀ row ∈ rows, row.Encodes)
    (hsn : (snapshot s.indexes).Encodes)
    (hb : (lineOf (snapshot s.indexes)).length + (fileOf (receiptRows rows)).length +
      rb ≤ maxJournalFileBytes) (l : ℕ) (hl : targetJournalRows ≤ l) (hm : l ≤ maxJournalRows)
    (hrq : 1 + rows.zipIdx.countP
      (fun e => requiredRow rows s.indexes ri e.2) + rr ≤ l) :
    ∃ k ie o, retainedJournalProjection rows ri rb rr = .ok (k, ie, o) ∧ k.length + rr ≤ l := by
  have hid : (buildJournalIndexes rows).mapError BrokerError.internal = .ok s.indexes :=
    mapError_ok.mpr (buildJournalIndexes_ok.mpr ⟨s, hs, rfl⟩)
  have hst : encodeJournalRow (snapshot s.indexes) = .ok (lineOf (snapshot s.indexes)) :=
    encodeJournalRow_ok.mpr ⟨hsn.1, hsn.2, lineOf_eq hsn⟩
  have hen : ∀ e ∈ rows.zipIdx, e.1.Encodes := fun e he =>
    hec e.1 (mem_of_getElem? (mem_zipIdx_iff_getElem?.mp he))
  have hrc : ∀ row ∈ receiptRows rows, row.Encodes := fun row hrw => hec row (mem_of_mem_filter hrw)
  obtain ⟨s₀, hs₀, hc₀, hb₀⟩ := selectRequired_succeeds (requiredRow rows s.indexes ri) hen
    ⟨[], (lineOf (snapshot s.indexes)).length⟩
  rw [zipIdx_map_fst, ← length_fileOf hrc] at hb₀
  simp only [length_nil, Nat.zero_add] at hc₀ hb₀
  have hrv : ∀ e ∈ rows.zipIdx.reverse, e.1.Encodes := fun e he => hen e (mem_reverse.mp he)
  have hrm : 1 + s₀.indices.length + rr ≤ l := by omega
  obtain ⟨sl, hsl, hc⟩ : ∃ sl, rows.zipIdx.reverse.foldlM
      (selectOptional s.indexes rb rr) s₀ = .ok sl ∧ 1 + sl.indices.length + rr ≤ l :=
    selectOptional_succeeds hrv s₀ hl hrm
  -- the kept rows are receipts
  obtain ⟨hw₀, -⟩ := selectRequired_ok hs₀
  obtain ⟨hw, -, -⟩ := selectOptional_ok (fun _ row => row.phase ≠ "authority") hsl ⟨fun i hi => by
      obtain ⟨row, hrw, hr, -, hp⟩ := hw₀.positions i hi
      exact ⟨row, hrw, hr, hp⟩, hw₀.bytes⟩
    (fun i row ho => by
      intro hp
      simp [optionalRow, hp] at ho)
  let kept := pick (fun ix => decide (ix ∈ sl.indices)) rows
  have hp : ∀ row ∈ kept, row.phase ≠ "authority" := by
    intro row hrw
    obtain ⟨i, hi, hmm⟩ := mem_pick.mp hrw
    obtain ⟨row', hr', -, hp⟩ := hw.positions i (by simpa using hmm)
    rw [hi] at hr'
    exact Option.some.inj hr' ▸ hp
  have hsb : kept.Sublist rows := pick_sublist _ _
  obtain ⟨s', hs'⟩ := indexRows_behind_snapshot (authorityRow_isAuthority hsn.1)
    (fun row hrw => (hec row (hsb.subset hrw)).1) hp ((indexRows_inOrder hs).sublist hsb)
  have hln : kept.length ≤ sl.indices.length := by
    have := pick_sum_le (fun _ => 1) rows sl.indices (fun _ => 1) (fun _ _ _ => rfl)
    simpa using this
  have hot : (kept.flatMap lineOf).length ≤ (fileOf (receiptRows rows)).length := by
    have hk : kept.Sublist (receiptRows rows) := by
      have hf := hsb.filter fun row => row.phase != "authority"
      rwa [filter_eq_self.mpr (by simpa using hp)] at hf
    rw [length_fileOf hrc, length_flatMap]
    exact (hk.map _).sum_le_sum fun _ _ => Nat.zero_le _
  refine ⟨snapshot s.indexes :: kept, s'.indexes,
    lineOf (snapshot s.indexes) ++ kept.flatMap lineOf, ?_, by rw [length_cons]; omega⟩
  refine bind_ok.mpr ⟨s.indexes, hid, bind_ok.mpr ⟨_, hst, bind_ok.mpr ⟨s₀, hs₀,
    bind_ok.mpr ⟨(), failIf_ok.mpr ?_, bind_ok.mpr ⟨sl, hsl, bind_ok.mpr ⟨(), failIf_ok.mpr ?_,
    bind_ok.mpr ⟨s'.indexes, mapError_ok.mpr (buildJournalIndexes_ok.mpr ⟨s', hs', rfl⟩), rfl⟩⟩⟩⟩⟩⟩⟩
  · omega
  · simp only [length_append, length_cons]
    change ¬(_ + (kept.flatMap lineOf).length + _ > _ ∨ kept.length + 1 + _ > _)
    omega

/-- A compaction writes the snapshot and some of the rows. -/
theorem Projection.output_le_rows {rows k : List JournalRow} {ri : Option ℕ} {sl : ℕ → Bool}
    {o : Bytes} (hp : Projection rows ri rb rr s sl k ie o) (he : ∀ row ∈ rows, row.Encodes) :
    o.length ≤ (lineOf (snapshot s.indexes)).length + (fileOf rows).length := by
  rw [hp.output_eq, ← flatMap_lineOf hp.encodes, hp.keep_eq, flatMap_cons,
    length_append, fileOf, ← flatMap_lineOf he, length_flatMap, length_flatMap]
  exact Nat.add_le_add_left (((pick_sublist sl rows).map _).sum_le_sum fun _ _ => Nat.zero_le _) _

theorem beginCall_eq (f : CallFaults) (p : PeerIdentity) (rd : String) (nw : Int64)
    (ha : w.journal.indexes.Admits request) :
    w.beginCall f request p rd nw =
      finishCall f (.active (w.receiptFor request p nw)) (append f w.drawn
        (activeRow request rd (w.receiptFor request p nw)) maxJournalRowLineSize 1) := by
  have hn : w.journal.indexes.unresolved.contains request.idempotencyKey = false := by
    rw [Std.ExtTreeMap.isEmpty_iff.mp ha.resolved]
    simp
  unfold World.beginCall
  simp only [ha.fresh, hn, ha.resolved, Bool.false_eq_true, if_false, Bool.not_true,
    UInt64.not_le.mpr ha.fence]
  rfl

theorem beginCall_admits {w' : World} (p : PeerIdentity) (rd : String) (nw : Int64)
    (had : w.journal.indexes.Admits request) (ha : append {} w.drawn
      (activeRow request rd (w.receiptFor request p nw)) maxJournalRowLineSize 1 = (w', .ok ())) :
    w.beginCall {} request p rd nw = (w', .ok (.active (w.receiptFor request p nw))) := by
  rw [beginCall_eq {} p rd nw had, ha]
  rfl

theorem commitCall_commits {w' : World} {p : CompletionPolicy} (hv : p.releasesVerb = "")
    (ha : append {} w (completeRow request (completeReceipt w.journal receipt response nw)
      response p) 0 0 = (w', .ok ())) :
    w.commitCall {} request (some receipt) response p nw =
      (w', .ok { response with
        receipt := some (completeReceipt w.journal receipt response nw) }) := by
  simp only [World.commitCall, hv, ne_eq, not_true_eq_false, false_and, if_false]
  exact congrArg (finishCall {} _) ha

theorem length_lineOf (h : row.Encodes) : (lineOf row).length = row.toValue.size + 1 := by
  simp [lineOf_eq h, marshal, Value.size]

theorem encodes_of_size (hv : row.Valid) (hs : row.toValue.size ≤ maxJournalRowBytes) :
    row.Encodes :=
  ⟨hv, by simpa [marshal, Value.size] using hs⟩

section Appending

variable {w : World} {s : IndexLoop} {r : Request} {nw : Int64}
  (hs : indexRows w.journal.rows = .ok s)

include hs

/-- The row of an admission follows the others. -/
theorem indexRows_active {p : PeerIdentity} {rd : String} (hi : w.journal.indexes = s.indexes)
    (hk : r.idempotencyKey ≠ "") (hd : digestPattern rd = true)
    (hsq : s.indexes.sequence.toNat + 1 < 2 ^ 64) :
    let receipt := w.receiptFor r p nw
    let row := activeRow r rd receipt
    indexRows (w.journal.rows ++ [row]) = .ok (s.active row receipt) := by
  intro receipt row
  refine indexRows_concat.mpr ⟨s, hs, indexRow_ok.mpr (.inr (.inl ⟨receipt, ?_, ?_, rfl⟩))⟩
  · exact activeRow_isActive hk hd
  · have hl := (indexRows_last hs).1
    have hr : receipt.sequence = s.indexes.sequence + 1 := by
      rw [← hi]
      rfl
    rw [hr, UInt64.le_iff_toNat_le] at *
    rw [UInt64.toNat_add]
    simp only [UInt64.toNat_one]
    omega

/-- An admission is appended when there is room for its row. -/
theorem begin_appends (p : PeerIdentity) (nw : Int64) {rd : String}
    (hi : w.journal.indexes = s.indexes) (ha : s.indexes.Admits r) (hk : r.idempotencyKey ≠ "")
    (hd : digestPattern rd = true) (hsq : s.indexes.sequence.toNat + 1 < 2 ^ 64) :
    let receipt := w.receiptFor r p nw
    let row := activeRow r rd receipt
    row.toValue.size ≤ maxJournalRowBytes →
    needsCompaction (w.journal.fileBytes + (row.toValue.size + 1)) (w.journal.rows.length + 1)
      maxJournalRowLineSize 1 = false →
    w.beginCall {} r p rd nw =
      (w.drawn.appended row (s.active row receipt), .ok (.active receipt)) := by
  intro receipt row hsz hsm
  have he : row.Encodes := encodes_of_size (.active (activeRow_isActive hk hd)) hsz
  refine beginCall_admits p rd nw (hi ▸ ha) (append_appends he ?_ ?_)
  · exact indexRows_active hs hi hk hd hsq
  · rw [length_lineOf he]
    exact hsm

variable {receipt : Receipt} {rs : Response} (rt : Bool)
  (hsq : s.lastSequence ≤ receipt.sequence) (ha : rs.Answers r)
  (hi : receipt.IssuedFor r) (hk : r.idempotencyKey ≠ "") (hn : nw ≠ 0)
  (hp : ∀ v ∈ rs.payload, v.size ≤ maxResponseBytes)
include hsq ha hi hk hn hp

/-- So does the row of its completion. -/
theorem indexRows_complete :
    let receipt' := completeReceipt w.journal receipt rs nw
    let row := completeRow r receipt' rs ⟨rt, ""⟩
    indexRows (w.journal.rows ++ [row]) = .ok (s.complete row receipt'
      { rs with payload := none, receipt := some receipt' }) := by
  intro receipt' row
  have hc := completeRow_isComplete (j := w.journal) rt ha hi hk hn hp
  exact indexRows_concat.mpr ⟨s, hs, indexRow_ok.mpr (.inr (.inr ⟨receipt', _, hc, hsq, rfl⟩))⟩

/-- A commit is appended when there is room for its row. -/
theorem commit_appends :
    let receipt' := completeReceipt w.journal receipt rs nw
    let row := completeRow r receipt' rs ⟨rt, ""⟩
    row.toValue.size ≤ maxJournalRowBytes →
    needsCompaction (w.journal.fileBytes + (row.toValue.size + 1)) (w.journal.rows.length + 1)
      0 0 = false →
    w.commitCall {} r (some receipt) rs ⟨rt, ""⟩ nw = (w.appended row (s.complete row receipt'
        { rs with payload := none, receipt := some receipt' }),
        .ok { rs with receipt := some receipt' }) := by
  intro receipt' row hsz hsm
  have hc := completeRow_isComplete (j := w.journal) rt ha hi hk hn hp
  have he : row.Encodes := encodes_of_size (.complete hc) hsz
  refine commitCall_commits rfl (append_appends he ?_ ?_)
  · exact indexRows_complete hs rt hsq ha hi hk hn hp
  · rw [length_lineOf he]
    exact hsm

end Appending

end Solovey.Broker
