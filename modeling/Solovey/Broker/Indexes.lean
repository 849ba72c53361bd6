import Solovey.Broker.Row
import Solovey.Data.LastEvent

/-!
# Journal indexes

`buildJournalIndexes` reads the rows in order and builds what the journal decides on. `indexRow` is
the body of its loop; `indexRow_ok` says what one row can do.

Every map is a cell per key that some rows set and the others leave alone, so its content is given
by the last row that sets it (`unresolved_eq`, `replays_eq`, `completed_eq` and so on).
-/

namespace Solovey.Broker

open Solovey.Json Solovey.Data List

structure ReplayRecord where
  requestDigest : String
  response : Response

structure JournalIndexes where
  sequence : UInt64 := 0
  previous : String := ""
  replays : StringMap ReplayRecord := ∅
  fences : StringMap UInt64 := ∅
  unresolved : StringMap Receipt := ∅
  completed : StringMap JournalRow := ∅
  liveCompleted : StringMap JournalRow := ∅
  released : StringMap Unit := ∅

def journalRowRetained (row : JournalRow) : Bool :=
  match row.retainUntilRelease with
  | some retain => retain
  | none =>
    -- rows from before the retention field existed
    row.receipt.any (·.verb == verbSSHStage) && row.response.any (·.ok)

def Receipt.mutationKey (r : Receipt) : String :=
  completedMutationKey r.operationID r.verb r.fenceResource

def CompletedMutationReference.mutationKey (r : CompletedMutationReference) : String :=
  completedMutationKey r.operationID r.verb r.fenceResource

namespace JournalIndexes

def installAuthority (i : JournalIndexes) (state : JournalAuthorityState) : JournalIndexes :=
  { i with
    sequence := state.sequence
    previous := state.previousDigest
    fences := state.fences.toList.foldl (fun m e => m.insert e.1 e.2) i.fences }

/-- A receipt moves the chain head. -/
def advance (i : JournalIndexes) (receipt : Receipt) : JournalIndexes :=
  { i with
    sequence := if receipt.sequence > i.sequence then receipt.sequence else i.sequence
    previous := receipt.receiptDigest }

def raiseFence (i : JournalIndexes) (row : JournalRow) : JournalIndexes :=
  if row.fenceSequence > i.fences.getD row.fenceResource 0 then
    { i with fences := i.fences.insert row.fenceResource row.fenceSequence }
  else i

def activate (i : JournalIndexes) (row : JournalRow) (receipt : Receipt) : JournalIndexes :=
  { i with unresolved := i.unresolved.insert row.idempotencyKey receipt }

def recordReplay (i : JournalIndexes) (row : JournalRow) (response : Response) : JournalIndexes :=
  { i with
    replays := i.replays.insert row.idempotencyKey
      ⟨row.requestDigest, { response with payload := row.payload }⟩
    unresolved := i.unresolved.erase row.idempotencyKey }

/-- A successful completion. -/
def recordCompleted (i : JournalIndexes) (row : JournalRow) (receipt : Receipt) : JournalIndexes :=
  { i with
    released := i.released.erase receipt.mutationKey
    completed := i.completed.insert receipt.mutationKey row
    liveCompleted :=
      if journalRowRetained row then i.liveCompleted.insert receipt.mutationKey row
      else i.liveCompleted }

def release (i : JournalIndexes) (key : String) : JournalIndexes :=
  { i with
    released := i.released.insert key ()
    completed := i.completed.erase key
    liveCompleted := i.liveCompleted.erase key }

def complete (i : JournalIndexes) (row : JournalRow) (receipt : Receipt) (response : Response) :
    JournalIndexes :=
  let i := i.recordReplay row response
  if response.ok then
    let i := i.recordCompleted row receipt
    match row.releases with
    | some released => i.release released.mutationKey
    | none => i
  else i

end JournalIndexes

/-- The variables of the loop over the rows. -/
structure IndexLoop where
  indexes : JournalIndexes := {}
  stateSequence : UInt64 := 0
  hasState : Bool := false
  lastSequence : UInt64 := 0
  index : ℕ := 0

namespace IndexLoop

def authority (s : IndexLoop) (state : JournalAuthorityState) : IndexLoop :=
  { s with
    indexes := s.indexes.installAuthority state
    stateSequence := state.sequence
    hasState := true
    index := s.index + 1 }

/-- What an active and a complete row have in common. -/
def receive (s : IndexLoop) (row : JournalRow) (receipt : Receipt) : IndexLoop :=
  { s with
    indexes :=
      (if !s.hasState || receipt.sequence > s.stateSequence then s.indexes.advance receipt
        else s.indexes).raiseFence row
    lastSequence := receipt.sequence
    index := s.index + 1 }

def active (s : IndexLoop) (row : JournalRow) (receipt : Receipt) : IndexLoop :=
  let s := s.receive row receipt
  { s with indexes := s.indexes.activate row receipt }

def complete (s : IndexLoop) (row : JournalRow) (receipt : Receipt) (response : Response) :
    IndexLoop :=
  let s := s.receive row receipt
  { s with indexes := s.indexes.complete row receipt response }

end IndexLoop

/-- The body of the loop. A validated row has the parts that its phase needs. -/
def indexRow (s : IndexLoop) (row : JournalRow) : Except String IndexLoop :=
  match validateJournalRow row with
  | .error text => .error text
  | .ok () =>
    if row.phase = "authority" then
      if s.index ≠ 0 ∨ s.hasState then
        .error "broker journal authority snapshot is misplaced"
      else .ok (s.authority (row.authority.getD {}))
    else
      let receipt := row.receipt.getD {}
      if receipt.sequence < s.lastSequence then
        .error "broker journal receipt sequence is not monotonic"
      else if row.phase = "active" then .ok (s.active row receipt)
      else if row.phase = "complete" then .ok (s.complete row receipt (row.response.getD {}))
      else .ok (s.receive row receipt)

def indexRows (rows : List JournalRow) : Except String IndexLoop := rows.foldlM indexRow {}

def buildJournalIndexes (rows : List JournalRow) : Except String JournalIndexes :=
  (indexRows rows).map IndexLoop.indexes

variable {s s' : IndexLoop} {row : JournalRow}

/-- What one row can do to the loop. -/
theorem indexRow_ok : indexRow s row = .ok s' ↔
      (∃ state, row.IsAuthority state ∧ s.index = 0 ∧ s.hasState = false ∧ s' = s.authority state) ∨
      (∃ receipt, row.IsActive receipt ∧ s.lastSequence ≤ receipt.sequence ∧
        s' = s.active row receipt) ∨
      (∃ receipt rp, row.IsComplete receipt rp ∧ s.lastSequence ≤ receipt.sequence ∧
        s' = s.complete row receipt rp) := by
  constructor
  · intro h
    unfold indexRow at h
    split at h
    · cases h
    rename_i hv
    rcases validateJournalRow_ok.mp hv with @⟨state, hr⟩ | @⟨receipt, hr⟩ | @⟨receipt, rp, hr⟩
    · have heq := hr.row_eq
      rw [heq] at h
      simp only [if_true, Option.getD_some] at h
      split_ifs at h with hp
      rw [not_or, not_not, Bool.not_eq_true] at hp
      exact .inl ⟨state, hr, hp.1, hp.2, (Except.ok.inj h).symm⟩
    · simp only [hr.phase, hr.receipt_eq, Option.getD_some, String.reduceEq, if_false, if_true] at h
      split_ifs at h with hsq
      exact .inr (.inl ⟨receipt, hr, UInt64.not_lt.mp hsq, (Except.ok.inj h).symm⟩)
    · simp only [hr.phase, hr.receipt_eq, hr.response_eq, Option.getD_some, String.reduceEq,
        if_false, if_true] at h
      split_ifs at h with hsq
      exact .inr (.inr ⟨receipt, rp, hr, UInt64.not_lt.mp hsq, (Except.ok.inj h).symm⟩)
  · rintro (⟨state, hr, hi, hs, rfl⟩ | ⟨receipt, hr, hsq, rfl⟩ | ⟨receipt, rp, hr, hsq, rfl⟩)
    · have hv := validateJournalRow_ok.mpr (.authority hr)
      have heq := hr.row_eq
      subst heq
      simp [indexRow, hv, hi, hs]
    · simp [indexRow, validateJournalRow_ok.mpr (.active hr), hr.phase, hr.receipt_eq,
        UInt64.not_lt.mpr hsq]
    · simp [indexRow, validateJournalRow_ok.mpr (.complete hr), hr.phase, hr.receipt_eq,
        hr.response_eq, UInt64.not_lt.mpr hsq]

/-! ## Induction over the rows -/

@[simp] theorem indexRows_nil : indexRows [] = .ok {} := rfl

variable {rows : List JournalRow}

theorem indexRows_concat :
    indexRows (rows ++ [row]) = .ok s' ↔ ∃ s, indexRows rows = .ok s ∧ indexRow s row = .ok s' :=
  foldlM_concat_ok

theorem buildJournalIndexes_ok {i : JournalIndexes} :
    buildJournalIndexes rows = .ok i ↔ ∃ s, indexRows rows = .ok s ∧ s.indexes = i := by
  unfold buildJournalIndexes
  cases indexRows rows <;> simp [Except.map]

theorem buildJournalIndexes_error {t : String} (h : buildJournalIndexes rows = .error t) :
    t ∉ contractErrors := by
  have hr {s : IndexLoop} {row : JournalRow} (h : indexRow s row = .error t) :
      t ∉ contractErrors := by
    unfold indexRow at h
    cases hv : validateJournalRow row with
    | error t' =>
      rw [hv] at h
      cases h
      exact validateJournalRow_error hv
    | ok =>
      simp only [hv] at h
      split_ifs at h <;> cases h <;> decide
  unfold buildJournalIndexes indexRows at h
  generalize ({} : IndexLoop) = s at h
  induction rows generalizing s with
  | nil => cases h
  | cons row rows ih =>
    rw [foldlM_cons] at h
    cases hs : indexRow s row with
    | error t' =>
      rw [hs] at h
      cases h
      exact hr hs
    | ok s' =>
      rw [hs] at h
      exact ih s' h

/-! ## What a receipt leaves alone -/

namespace JournalIndexes

variable (i : JournalIndexes) (rw : JournalRow)

@[simp] theorem raiseFence_sequence : (i.raiseFence rw).sequence = i.sequence := by
  unfold raiseFence; split <;> rfl

@[simp] theorem raiseFence_previous : (i.raiseFence rw).previous = i.previous := by
  unfold raiseFence; split <;> rfl

@[simp] theorem raiseFence_replays : (i.raiseFence rw).replays = i.replays := by
  unfold raiseFence; split <;> rfl

@[simp] theorem raiseFence_unresolved : (i.raiseFence rw).unresolved = i.unresolved := by
  unfold raiseFence; split <;> rfl

@[simp] theorem raiseFence_liveCompleted : (i.raiseFence rw).liveCompleted = i.liveCompleted := by
  unfold raiseFence; split <;> rfl

/-! The maps after a completion. -/

variable (r : Receipt) (rs : Response) (k : String)

@[simp] theorem complete_sequence : (i.complete rw r rs).sequence = i.sequence := by
  unfold complete; split_ifs
  · cases rw.releases <;> rfl
  · rfl

@[simp] theorem complete_previous : (i.complete rw r rs).previous = i.previous := by
  unfold complete; split_ifs
  · cases rw.releases <;> rfl
  · rfl

@[simp] theorem complete_fences : (i.complete rw r rs).fences = i.fences := by
  unfold complete; split_ifs
  · cases rw.releases <;> rfl
  · rfl

@[simp] theorem complete_unresolved :
    (i.complete rw r rs).unresolved = i.unresolved.erase rw.idempotencyKey := by
  unfold complete; split_ifs
  · cases rw.releases <;> rfl
  · rfl

@[simp] theorem complete_replays : (i.complete rw r rs).replays = i.replays.insert rw.idempotencyKey
      ⟨rw.requestDigest, { rs with payload := rw.payload }⟩ := by
  unfold complete; split_ifs
  · cases rw.releases <;> rfl
  · rfl

theorem complete_liveCompleted (hok : rs.ok = true) : (i.complete rw r rs).liveCompleted[k]? =
      if rw.releases.any (·.mutationKey == k) then none
      else if r.mutationKey = k ∧ journalRowRetained rw = true then some rw
      else i.liveCompleted[k]? := by
  cases hr : rw.releases <;> cases hrt : journalRowRetained rw <;>
    simp [complete, hok, hr, hrt, recordReplay, recordCompleted, release,
      Std.ExtTreeMap.getElem?_insert, Std.ExtTreeMap.getElem?_erase]

theorem complete_failed (hok : rs.ok = false) : i.complete rw r rs = i.recordReplay rw rs := by
  simp [complete, hok]

end JournalIndexes

namespace IndexLoop

variable (s : IndexLoop) (ro : JournalRow) (rc : Receipt)

@[simp] theorem receive_replays : (s.receive ro rc).indexes.replays = s.indexes.replays := by
  simp only [receive, JournalIndexes.raiseFence_replays]; split <;> rfl

@[simp] theorem receive_unresolved :
    (s.receive ro rc).indexes.unresolved = s.indexes.unresolved := by
  simp only [receive, JournalIndexes.raiseFence_unresolved]; split <;> rfl

@[simp] theorem receive_liveCompleted :
    (s.receive ro rc).indexes.liveCompleted = s.indexes.liveCompleted := by
  simp only [receive, JournalIndexes.raiseFence_liveCompleted]; split <;> rfl

end IndexLoop

/-! ## The cells and their events -/

/-- The row is the successful completion of the mutation with this key. -/
def JournalRow.succeededAs (row : JournalRow) (key : String) : Bool :=
  row.phase == "complete" && row.response.any (·.ok) && row.receipt.any (·.mutationKey == key)

/-- The row is a successful completion that releases the mutation with this key. -/
def JournalRow.releasesAs (row : JournalRow) (key : String) : Bool :=
  row.phase == "complete" && row.response.any (·.ok) && row.releases.any (·.mutationKey == key)

def unresolvedEvent (key : String) (row : JournalRow) : Option (Option Receipt) :=
  if row.idempotencyKey = key then
    if row.phase = "active" then some row.receipt
    else if row.phase = "complete" then some none else none
  else none

def replayEvent (key : String) (row : JournalRow) : Option (Option ReplayRecord) :=
  if row.idempotencyKey = key ∧ row.phase = "complete" then
    some (some ⟨row.requestDigest, { row.response.getD {} with payload := row.payload }⟩)
  else none

/-- A completion that is not retained leaves an older live one in place. -/
def liveCompletedEvent (key : String) (row : JournalRow) : Option (Option JournalRow) :=
  if row.releasesAs key then some none
  else if row.succeededAs key && journalRowRetained row then some (some row) else none

variable {receipt : Receipt}

theorem unresolvedEvent_some {ke : String} (h : unresolvedEvent ke row = some (some receipt)) :
    row.idempotencyKey = ke ∧ row.phase = "active" ∧ row.receipt = some receipt := by
  unfold unresolvedEvent at h
  split_ifs at h with hk ha
  · exact ⟨hk, ha, Option.some.inj h⟩
  · simp at h

/-- A cell that every row sets or leaves alone holds what the last event wrote. -/
theorem cell_eq {γ : Type} (c : IndexLoop → Option γ) {e : JournalRow → Option (Option γ)}
    (it : c {} = none) (step : ∀ s row s', indexRow s row = .ok s' → c s' = (e row).getD (c s))
    (h : indexRows rows = .ok s) :
    c s = (last? e rows).join := by
  refine foldlM_induction (P := fun rows s => c s = (last? e rows).join) it ?_ h
  intro rows s row s' _ ih hr
  rw [step s row s' hr, last_concat, ih]
  cases e row <;> rfl

section Cells

variable {rww : List JournalRow} {s : IndexLoop} (h : indexRows rww = .ok s) (ky : String)

include h

theorem unresolved_eq : s.indexes.unresolved[ky]? = (last? (unresolvedEvent ky) rww).join := by
  refine cell_eq (fun s => s.indexes.unresolved[ky]?) rfl ?_ h
  intro s row s' hrw
  rcases indexRow_ok.mp hrw with ⟨state, hr, -, -, rfl⟩ | ⟨receipt, hr, -, rfl⟩ |
    ⟨receipt, response, hr, -, rfl⟩
  · rw [hr.row_eq]
    simp [unresolvedEvent, IndexLoop.authority, JournalIndexes.installAuthority]
  · simp only [unresolvedEvent, hr.phase, hr.receipt_eq, IndexLoop.active, JournalIndexes.activate,
      IndexLoop.receive_unresolved, Std.ExtTreeMap.getElem?_insert]
    split_ifs with h1 h2 h2 <;> simp_all
  · simp only [unresolvedEvent, hr.phase, IndexLoop.complete, JournalIndexes.complete_unresolved,
      IndexLoop.receive_unresolved, Std.ExtTreeMap.getElem?_erase]
    split_ifs with h1 h2 <;> simp_all

theorem replays_eq : s.indexes.replays[ky]? = (last? (replayEvent ky) rww).join := by
  refine cell_eq (fun s => s.indexes.replays[ky]?) rfl ?_ h
  intro s row s' hrw
  rcases indexRow_ok.mp hrw with ⟨state, hr, -, -, rfl⟩ | ⟨receipt, hr, -, rfl⟩ |
    ⟨receipt, response, hr, -, rfl⟩
  · rw [hr.row_eq]
    simp [replayEvent, IndexLoop.authority, JournalIndexes.installAuthority]
  · simp [replayEvent, hr.phase, IndexLoop.active, JournalIndexes.activate]
  · simp only [replayEvent, hr.phase, hr.response_eq, IndexLoop.complete,
      JournalIndexes.complete_replays, IndexLoop.receive_replays, Std.ExtTreeMap.getElem?_insert]
    split_ifs with h1 h2 <;> simp_all

theorem liveCompleted_eq :
    s.indexes.liveCompleted[ky]? = (last? (liveCompletedEvent ky) rww).join := by
  refine cell_eq (fun s => s.indexes.liveCompleted[ky]?) rfl ?_ h
  intro s row s' hrw
  rcases indexRow_ok.mp hrw with ⟨state, hr, -, -, rfl⟩ | ⟨receipt, hr, -, rfl⟩ |
    ⟨receipt, response, hr, -, rfl⟩
  · rw [hr.row_eq]
    simp [liveCompletedEvent, JournalRow.releasesAs, JournalRow.succeededAs, IndexLoop.authority,
      JournalIndexes.installAuthority]
  · simp [liveCompletedEvent, JournalRow.releasesAs, JournalRow.succeededAs, hr.phase,
      IndexLoop.active, JournalIndexes.activate]
  · cases hok : response.ok with
    | false =>
      simp [liveCompletedEvent, JournalRow.releasesAs, JournalRow.succeededAs, hr.phase,
        hr.response_eq, hok, IndexLoop.complete, JournalIndexes.complete_failed,
        JournalIndexes.recordReplay]
    | true =>
      simp only [liveCompletedEvent, JournalRow.releasesAs, JournalRow.succeededAs, hr.phase,
        hr.response_eq, hr.receipt_eq, IndexLoop.complete,
        JournalIndexes.complete_liveCompleted _ _ _ _ _ hok, IndexLoop.receive_liveCompleted]
      split_ifs <;> simp_all

end Cells

/-! ## Completed mutations -/

/-! ## Sequence and fences -/

namespace JournalIndexes

variable (i : JournalIndexes) (row : JournalRow)

theorem le_raiseFence (r : String) : i.fences.getD r 0 ≤ (i.raiseFence row).fences.getD r 0 := by
  unfold raiseFence
  split_ifs with h
  · simp only [Std.ExtTreeMap.getD_insert]
    split_ifs with hr
    · rw [← Std.LawfulEqCmp.eq_of_compare hr]
      exact UInt64.le_of_lt h
    · exact UInt64.le_refl _
  · exact UInt64.le_refl _

theorem fence_le_raiseFence :
    row.fenceSequence ≤ (i.raiseFence row).fences.getD row.fenceResource 0 := by
  unfold raiseFence
  split_ifs with h
  · simp
  · exact UInt64.not_lt.mp h

theorem raiseFence_eq_self (h : row.fenceSequence ≤ i.fences.getD row.fenceResource 0) :
    i.raiseFence row = i := by
  rw [raiseFence, if_neg (UInt64.not_lt.mpr h)]

end JournalIndexes

/-- Rows and loop variables of a journal that was indexed without error. -/
structure IndexLoop.Covers (s : IndexLoop) (rows : List JournalRow) : Prop where
  index : s.index = rows.length
  valid : ∀ row ∈ rows, row.Valid
  state_le : s.hasState = true → s.stateSequence ≤ s.indexes.sequence
  sequence_le : ∀ row ∈ rows, ∀ r ∈ row.receipt, r.sequence ≤ s.indexes.sequence
  last_le : ∀ row ∈ rows, ∀ r ∈ row.receipt, r.sequence ≤ s.lastSequence
  fence_le : ∀ row ∈ rows, row.fenceSequence ≤ s.indexes.fences.getD row.fenceResource 0

/-- The receipt is newer than the snapshot and moves the chain head. -/
def IndexLoop.Advances (s : IndexLoop) (receipt : Receipt) : Prop :=
  s.hasState = false ∨ s.stateSequence < receipt.sequence

theorem IndexLoop.receive_of_advances (h : s.Advances receipt) (row : JournalRow) :
    (s.receive row receipt).indexes = (s.indexes.advance receipt).raiseFence row := by
  have hc : (!s.hasState || decide (receipt.sequence > s.stateSequence)) = true := by
    simpa [IndexLoop.Advances] using h
  simp only [receive, hc, if_true]

theorem IndexLoop.receive_of_not_advances (h : ¬s.Advances receipt) (row : JournalRow) :
    (s.receive row receipt).indexes = s.indexes.raiseFence row := by
  have hc : (!s.hasState || decide (receipt.sequence > s.stateSequence)) = false := by
    simpa [IndexLoop.Advances] using h
  simp only [receive, hc]
  rfl

theorem IndexLoop.receive_sequence (s : IndexLoop) (row : JournalRow) (receipt : Receipt)
    (hs : s.hasState = true → s.stateSequence ≤ s.indexes.sequence) :
    s.indexes.sequence ≤ (s.receive row receipt).indexes.sequence ∧
      receipt.sequence ≤ (s.receive row receipt).indexes.sequence := by
  simp only [receive, JournalIndexes.raiseFence_sequence]
  split_ifs with h
  · simp only [JournalIndexes.advance]
    split_ifs with hgt
    · exact ⟨UInt64.le_of_lt hgt, UInt64.le_refl _⟩
    · exact ⟨UInt64.le_refl _, UInt64.not_lt.mp hgt⟩
  · simp only [Bool.or_eq_true, Bool.not_eq_true', decide_eq_true_eq, not_or, Bool.not_eq_false,
      gt_iff_lt, UInt64.not_lt] at h
    exact ⟨UInt64.le_refl _, UInt64.le_trans h.2 (hs h.1)⟩

theorem IndexLoop.receive_fence (s : IndexLoop) (row : JournalRow) (receipt : Receipt) :
    (∀ r, s.indexes.fences.getD r 0 ≤ (s.receive row receipt).indexes.fences.getD r 0) ∧
    row.fenceSequence ≤ (s.receive row receipt).indexes.fences.getD row.fenceResource 0 := by
  have hf : ∀ b : Bool, (if b then s.indexes.advance receipt else s.indexes).fences =
      s.indexes.fences := by
    intro b
    cases b <;> rfl
  constructor
  · intro r
    have := JournalIndexes.le_raiseFence
      (if !s.hasState || receipt.sequence > s.stateSequence then s.indexes.advance receipt
        else s.indexes) row r
    rwa [hf] at this
  · exact JournalIndexes.fence_le_raiseFence _ row

/-- An active or complete row keeps the bounds and comes under them. -/
theorem IndexLoop.Covers.receive (hs : s.Covers rows) (hv : row.Valid)
    (hrc : row.receipt = some receipt) (hsq : s.lastSequence ≤ receipt.sequence) :
    (s.receive row receipt).Covers (rows ++ [row]) := by
  obtain ⟨hle, hn⟩ := s.receive_sequence row receipt hs.state_le
  obtain ⟨hf, hf'⟩ := s.receive_fence row receipt
  refine ⟨?_, ?_, fun h => UInt64.le_trans (hs.state_le h) hle, ?_, ?_, ?_⟩
  · simp [IndexLoop.receive, hs.index]
  all_goals
    simp only [mem_append, mem_singleton]
    rintro r (hr | rfl)
  · exact hs.valid r hr
  · exact hv
  · exact fun x hx => UInt64.le_trans (hs.sequence_le r hr x hx) hle
  · simpa [hrc] using hn
  · exact fun x hx => UInt64.le_trans (hs.last_le r hr x hx) hsq
  · simp [hrc, IndexLoop.receive]
  · exact UInt64.le_trans (hs.fence_le r hr) (hf _)
  · exact hf'

theorem indexRows_covers (h : indexRows rows = .ok s) : s.Covers rows := by
  refine foldlM_induction (P := fun rows s => s.Covers rows) ?_ ?_ h
  · exact ⟨rfl, by simp, by simp, by simp, by simp, by simp⟩
  · intro rows s row s' _ ih hrw
    rcases indexRow_ok.mp hrw with ⟨state, hr, hi, -, rfl⟩ | ⟨receipt, hr, hs, rfl⟩ |
      ⟨receipt, response, hr, hs, rfl⟩
    · -- the snapshot is the first row
      obtain rfl : rows = [] := eq_nil_of_length_eq_zero (ih.index ▸ hi)
      have hrw := hr.row_eq
      refine ⟨by simp [IndexLoop.authority, hi], ?_, fun _ => UInt64.le_refl _, ?_, ?_, ?_⟩ <;>
        simp only [nil_append, mem_singleton, forall_eq]
      · exact .authority hr
      all_goals simp [hrw]
    · have := ih.receive (.active hr) hr.receipt_eq hs
      exact ⟨this.index, this.valid, this.state_le, this.sequence_le, this.last_le, this.fence_le⟩
    · have := ih.receive (.complete hr) hr.receipt_eq hs
      refine ⟨this.index, this.valid, ?_, ?_, this.last_le, ?_⟩
      · simpa [IndexLoop.complete] using this.state_le
      · simpa [IndexLoop.complete] using this.sequence_le
      · simpa [IndexLoop.complete] using this.fence_le

/-! ## Rows behind a snapshot -/

/-- The row of an authority snapshot. -/
def authorityRow (state : JournalAuthorityState) : JournalRow :=
  { schema := 1, phase := "authority", authority := some state }

variable {state : JournalAuthorityState}

theorem authorityRow_isAuthority (h : (authorityRow state).Valid) :
    (authorityRow state).IsAuthority state := by
  rcases h with @⟨state', h⟩ | ⟨h⟩ | ⟨h⟩
  · have hs : some state = some state' := congrArg JournalRow.authority h.row_eq
    rwa [← Option.some.inj hs] at h
  · exact absurd h.phase (by simp [authorityRow])
  · exact absurd h.phase (by simp [authorityRow])

theorem indexRow_authorityRow (h : indexRow s (authorityRow state) = .ok s') :
    s' = s.authority state := by
  rcases indexRow_ok.mp h with ⟨state', hr, -, -, rfl⟩ | ⟨receipt, hr, -, rfl⟩ |
    ⟨receipt, response, hr, -, rfl⟩
  · have hs : some state = some state' := congrArg JournalRow.authority hr.row_eq
    rw [Option.some.inj hs]
  · exact absurd hr.phase (by simp [authorityRow])
  · exact absurd hr.phase (by simp [authorityRow])

/-- Rows that the snapshot already counts change neither the chain head nor the fences. -/
theorem indexRows_snapshot (h : indexRows (authorityRow state :: rows) = .ok s)
    (hs : ∀ row ∈ rows, ∀ r ∈ row.receipt, r.sequence ≤ state.sequence)
    (hfn : ∀ row ∈ rows, row.fenceSequence ≤ state.fences.getD row.fenceResource 0) :
    s.indexes.sequence = state.sequence ∧ s.indexes.previous = state.previousDigest ∧
      s.indexes.fences = state.fences := by
  suffices hin : s.hasState = true ∧ s.stateSequence = state.sequence ∧
      s.indexes.sequence = state.sequence ∧ s.indexes.previous = state.previousDigest ∧
      s.indexes.fences = state.fences from ⟨hin.2.2.1, hin.2.2.2.1, hin.2.2.2.2⟩
  induction rows using List.reverseRecOn generalizing s with
  | nil =>
    obtain ⟨s₀, h₀, hrw⟩ := (@indexRows_concat _ _ []).mp h
    cases h₀
    rw [indexRow_authorityRow hrw]
    exact ⟨rfl, rfl, rfl, rfl, foldl_insert_toList state.fences⟩
  | append_singleton rows row ih =>
    rw [← cons_append] at h
    obtain ⟨s₀, h₀, hrw⟩ := indexRows_concat.mp h
    obtain ⟨hh, hst, hsq, hp, hf⟩ := ih h₀ (fun r hr => hs r (by simp [hr]))
      (fun r hr => hfn r (by simp [hr]))
    have hrc (receipt : Receipt) (hr : row.receipt = some receipt) :
        (s₀.receive row receipt).indexes = s₀.indexes := by
      have hle : receipt.sequence ≤ state.sequence := hs row (by simp) receipt (by simp [hr])
      have hc : (!s₀.hasState || decide (receipt.sequence > s₀.stateSequence)) = false := by
        simpa [hh, hst] using hle
      simp only [IndexLoop.receive, hc]
      exact JournalIndexes.raiseFence_eq_self _ _ (hf ▸ hfn row (by simp))
    rcases indexRow_ok.mp hrw with ⟨state', hr, hi, -, rfl⟩ | ⟨receipt, hr, -, rfl⟩ |
      ⟨receipt, response, hr, -, rfl⟩
    · have := (indexRows_covers h₀).index
      simp [hi] at this
    · simp only [IndexLoop.active, hrc receipt hr.receipt_eq, JournalIndexes.activate]
      exact ⟨hh, hst, hsq, hp, hf⟩
    · simp only [IndexLoop.complete, hrc receipt hr.receipt_eq,
        JournalIndexes.complete_sequence, JournalIndexes.complete_previous,
        JournalIndexes.complete_fences]
      exact ⟨hh, hst, hsq, hp, hf⟩

theorem indexRows_state (h : indexRows (authorityRow state :: rows) = .ok s) :
    s.hasState = true ∧ s.stateSequence = state.sequence := by
  induction rows using List.reverseRecOn generalizing s with
  | nil =>
    obtain ⟨s₀, -, hr⟩ := (@indexRows_concat _ _ []).mp h
    rw [indexRow_authorityRow hr]
    exact ⟨rfl, rfl⟩
  | append_singleton rows row ih =>
    rw [← cons_append] at h
    obtain ⟨s₀, h₀, hr⟩ := indexRows_concat.mp h
    rcases indexRow_ok.mp hr with ⟨state', -, hi, -, rfl⟩ | ⟨receipt, -, -, rfl⟩ |
      ⟨receipt, response, -, -, rfl⟩
    · have := (indexRows_covers h₀).index
      simp [hi] at this
    · exact ih (s := s₀) h₀
    · exact ih (s := s₀) h₀

/-! ## Rows in order -/

theorem indexRows_last (h : indexRows rows = .ok s) : s.lastSequence ≤ s.indexes.sequence ∧
      (s.lastSequence = 0 ∨ ∃ row ∈ rows, ∃ r ∈ row.receipt, r.sequence = s.lastSequence) := by
  refine foldlM_induction (P := fun rows (s : IndexLoop) =>
    s.lastSequence ≤ s.indexes.sequence ∧
      (s.lastSequence = 0 ∨ ∃ row ∈ rows, ∃ r ∈ row.receipt, r.sequence = s.lastSequence)) ?_ ?_ h
  · exact ⟨UInt64.le_refl _, .inl rfl⟩
  · intro rows s row s' hs ih hrw
    have hc := indexRows_covers hs
    rcases indexRow_ok.mp hrw with ⟨state, hr, hi, -, rfl⟩ | ⟨receipt, hr, -, rfl⟩ |
      ⟨receipt, response, hr, -, rfl⟩
    · obtain rfl : rows = [] := eq_nil_of_length_eq_zero (hc.index ▸ hi)
      cases hs
      exact ⟨UInt64.zero_le, .inl rfl⟩
    · exact ⟨(s.receive_sequence row receipt hc.state_le).2,
        .inr ⟨row, by simp, receipt, hr.receipt_eq, rfl⟩⟩
    · refine ⟨?_, .inr ⟨row, by simp, receipt, hr.receipt_eq, rfl⟩⟩
      simp only [IndexLoop.complete, JournalIndexes.complete_sequence]
      exact (s.receive_sequence row receipt hc.state_le).2

def InOrder (a b : JournalRow) : Prop := ∀ r ∈ a.receipt, ∀ r' ∈ b.receipt, r.sequence ≤ r'.sequence

theorem indexRows_inOrder (h : indexRows rows = .ok s) : rows.Pairwise InOrder := by
  refine foldlM_induction (P := fun rows _ => rows.Pairwise InOrder) ?_ ?_ h
  · exact .nil
  · intro rows s row s' hs ih hrw
    refine pairwise_append.mpr ⟨ih, pairwise_singleton _ _, ?_⟩
    simp only [mem_singleton, forall_eq]
    intro a ha r hr r' hr'
    have hle := (indexRows_covers hs).last_le a ha r hr
    rcases indexRow_ok.mp hrw with ⟨state, hat, -⟩ | ⟨receipt, hac, hsq, -⟩ |
      ⟨receipt, response, hc, hsq, -⟩
    · simp [hat.row_eq] at hr'
    · rw [hac.receipt_eq] at hr'
      cases hr'
      exact UInt64.le_trans hle hsq
    · rw [hc.receipt_eq] at hr'
      cases hr'
      exact UInt64.le_trans hle hsq

/-- Valid rows in order can be indexed behind a snapshot. -/
theorem indexRows_behind_snapshot (hst : (authorityRow state).IsAuthority state)
    (hv : ∀ row ∈ rows, row.Valid) (hp : ∀ row ∈ rows, row.phase ≠ "authority")
    (ho : rows.Pairwise InOrder) :
    ∃ s, indexRows (authorityRow state :: rows) = .ok s := by
  induction rows using List.reverseRecOn with
  | nil => exact ⟨_, (@indexRows_concat _ _ []).mpr ⟨{}, rfl, indexRow_ok.mpr
      (.inl ⟨state, hst, rfl, rfl, rfl⟩)⟩⟩
  | append_singleton rows row ih =>
    obtain ⟨ho, -, hl⟩ := pairwise_append.mp ho
    obtain ⟨s, hs⟩ := ih (fun r hr => hv r (by simp [hr])) (fun r hr => hp r (by simp [hr]))
      ho
    have hsq : ∀ receipt, row.receipt = some receipt → s.lastSequence ≤ receipt.sequence := by
      intro receipt hrc
      rcases (indexRows_last hs).2 with hz | ⟨a, ha, r, hr, hr'⟩
      · rw [hz]
        exact UInt64.zero_le
      · rw [← hr']
        rcases mem_cons.mp ha with rfl | ha
        · simp [authorityRow] at hr
        · exact hl a ha row (by simp) r hr receipt hrc
    rw [← cons_append]
    rcases hv row (by simp) with ⟨h⟩ | ⟨h⟩ | ⟨h⟩
    · exact absurd (by rw [h.row_eq]) (hp row (by simp))
    · exact ⟨_, indexRows_concat.mpr ⟨s, hs, indexRow_ok.mpr
        (.inr (.inl ⟨_, h, hsq _ h.receipt_eq, rfl⟩))⟩⟩
    · exact ⟨_, indexRows_concat.mpr ⟨s, hs, indexRow_ok.mpr
        (.inr (.inr ⟨_, _, h, hsq _ h.receipt_eq, rfl⟩))⟩⟩

end Solovey.Broker
