import Solovey.Broker.Protocol

/-!
# Journal rows

The rows of the broker journal: an authority snapshot, the active receipt of an admitted
request, or its completion. `validateJournalRow` is the check that both the writer and the
reader make; `JournalRow.Valid` says in one place what a row that passes it looks like.
-/

namespace Solovey.Broker

open Solovey.Text Solovey.Json List

def maxJournalBytes : ℕ := 8 * 1024 * 1024
def maxJournalFileBytes : ℕ := maxJournalBytes * 2
def maxJournalRows : ℕ := 4096
def targetJournalRows : ℕ := maxJournalRows / 2
def maxJournalRowBytes : ℕ := maxResponseBytes * 2
def maxJournalRowLineSize : ℕ := maxJournalRowBytes + 1

structure CompletedMutationReference where
  operationID : String := ""
  verb : Verb := ""
  fenceResource : String := ""
deriving DecidableEq, Repr

def CompletedMutationReference.valid (r : CompletedMutationReference) : Bool :=
  safeIdentifier r.operationID && validVerb r.verb && safeIdentifier r.fenceResource

def completedMutationKey (operationID : String) (verb : Verb) (fenceResource : String) : String :=
  operationID ++ "\x00" ++ verb ++ "\x00" ++ fenceResource

structure JournalAuthorityState where
  sequence : UInt64 := 0
  previousDigest : String := ""
  fences : StringMap UInt64 := ∅

structure JournalRow where
  schema : Int64 := 0
  phase : String := ""
  idempotencyKey : String := ""
  requestDigest : String := ""
  fenceResource : String := ""
  fenceSequence : UInt64 := 0
  startedAt : Int64 := 0
  response : Option Response := none
  receipt : Option Receipt := none
  payload : Option Value := none
  authority : Option JournalAuthorityState := none
  retainUntilRelease : Option Bool := none
  releases : Option CompletedMutationReference := none

instance : Inhabited JournalRow := ⟨{}⟩

/-! ## JSON form -/

def CompletedMutationReference.entries (r : CompletedMutationReference) : List Entry :=
  [("operationId", some (.ofString r.operationID)),
   ("verb", some (.ofString r.verb)),
   ("fenceResource", some (.ofString r.fenceResource))]

def CompletedMutationReference.toValue (r : CompletedMutationReference) : Value :=
  .ofEntries r.entries

def CompletedMutationReference.read : Reader CompletedMutationReference :=
  readStruct (CompletedMutationReference.entries {} |>.map Prod.fst) fun ms cur => do
    let operationID ← readField "operationId" readString cur.operationID ms
    let verb ← readField "verb" readString cur.verb ms
    let fenceResource ← readField "fenceResource" readString cur.fenceResource ms
    return { operationID, verb, fenceResource }

def omitMap (m : StringMap UInt64) : Option Value :=
  if m.isEmpty then none else some (.ofMap .ofUInt64 m)

def JournalAuthorityState.entries (s : JournalAuthorityState) : List Entry :=
  [("sequence", some (.ofUInt64 s.sequence)),
   ("previousDigest", omitString s.previousDigest),
   ("fences", omitMap s.fences)]

def JournalAuthorityState.toValue (s : JournalAuthorityState) : Value := .ofEntries s.entries

def JournalAuthorityState.read : Reader JournalAuthorityState :=
  readStruct (JournalAuthorityState.entries {} |>.map Prod.fst) fun ms cur => do
    let sequence ← readField "sequence" readUInt64 cur.sequence ms
    let previousDigest ← readField "previousDigest" readString cur.previousDigest ms
    let fences ← readField "fences" (readMap 0 readUInt64) cur.fences ms
    return { sequence, previousDigest, fences }

def JournalRow.entries (row : JournalRow) : List Entry :=
  [("schema", some (.ofInt64 row.schema)),
   ("phase", some (.ofString row.phase)),
   ("idempotencyKey", omitString row.idempotencyKey),
   ("requestDigest", omitString row.requestDigest),
   ("fenceResource", omitString row.fenceResource),
   ("fenceSequence", omitUInt64 row.fenceSequence),
   ("startedAt", omitInt64 row.startedAt),
   ("response", row.response.map Response.toValue),
   ("receipt", row.receipt.map Receipt.toValue),
   ("payload", row.payload.map Value.escapeHTML),
   ("authority", row.authority.map JournalAuthorityState.toValue),
   ("retainUntilRelease", row.retainUntilRelease.map Value.bool),
   ("releases", row.releases.map CompletedMutationReference.toValue)]

def JournalRow.toValue (row : JournalRow) : Value := .ofEntries row.entries

def JournalRow.read : Reader JournalRow :=
  readStruct (JournalRow.entries {} |>.map Prod.fst) fun ms cur => do
    let schema ← readField "schema" readInt64 cur.schema ms
    let phase ← readField "phase" readString cur.phase ms
    let idempotencyKey ← readField "idempotencyKey" readString cur.idempotencyKey ms
    let requestDigest ← readField "requestDigest" readString cur.requestDigest ms
    let fenceResource ← readField "fenceResource" readString cur.fenceResource ms
    let fenceSequence ← readField "fenceSequence" readUInt64 cur.fenceSequence ms
    let startedAt ← readField "startedAt" readInt64 cur.startedAt ms
    let response ← readField "response" (readPointer {} Response.read) cur.response ms
    let receipt ← readField "receipt" (readPointer {} Receipt.read) cur.receipt ms
    let payload ← readField "payload" readRaw cur.payload ms
    let authority ← readField "authority" (readPointer {} JournalAuthorityState.read)
      cur.authority ms
    let retainUntilRelease ← readField "retainUntilRelease" (readPointer false readBool)
      cur.retainUntilRelease ms
    let releases ← readField "releases" (readPointer {} CompletedMutationReference.read)
      cur.releases ms
    return { schema, phase, idempotencyKey, requestDigest, fenceResource, fenceSequence, startedAt,
             response, receipt, payload, authority, retainUntilRelease, releases }

theorem CompletedMutationReference.entries_nodup (r : CompletedMutationReference) :
    (r.entries.map fun e => foldName e.1).Nodup := by
  simp only [entries, map_cons, map_nil]
  decide

theorem CompletedMutationReference.read_toValue (r : CompletedMutationReference) :
    CompletedMutationReference.read r.toValue {} = some r := by
  have hf {α : Type} (read : Reader α) (cur : α) (name : String) :=
    readField_lookup read cur r.entries_nodup name
  rw [CompletedMutationReference.read, toValue, readStruct_ofEntries (by simp [entries])]
  repeat rw [hf]
  · simp [entries, List.lookup]
  all_goals simp [entries, List.lookup]

theorem omitMap_read (m : StringMap UInt64) :
    (omitMap m).elim (some ∅) (fun v => readMap 0 readUInt64 v ∅) = some m := by
  unfold omitMap
  split_ifs with h
  · rw [Std.ExtTreeMap.isEmpty_iff.mp h]
    rfl
  · exact readMap_ofMap (fun n => readUInt64_ofUInt64 n 0) m

theorem JournalAuthorityState.entries_nodup (s : JournalAuthorityState) :
    (s.entries.map fun e => foldName e.1).Nodup := by
  simp only [entries, map_cons, map_nil]
  decide

theorem JournalAuthorityState.read_toValue (s : JournalAuthorityState) :
    JournalAuthorityState.read s.toValue {} = some s := by
  have hf {α : Type} (read : Reader α) (cur : α) (name : String) :=
    readField_lookup read cur s.entries_nodup name
  rw [JournalAuthorityState.read, toValue, readStruct_ofEntries (by simp [entries])]
  repeat rw [hf]
  · simp [entries, List.lookup, omitMap_read]
  all_goals simp [entries, List.lookup]

theorem JournalRow.entries_nodup (row : JournalRow) :
    (row.entries.map fun e => foldName e.1).Nodup := by
  simp only [entries, map_cons, map_nil]
  decide

variable {row : JournalRow}

/-- A row is read back from its JSON form. -/
theorem JournalRow.read_toValue (hp : row.payload.map Value.escapeHTML = row.payload)
    (hrs : ∀ r ∈ row.response, r.payload = none) :
    JournalRow.read row.toValue {} = some row := by
  have hf {α : Type} (read : Reader α) (cur : α) (name : String) :=
    readField_lookup read cur row.entries_nodup name
  have h1 := pointer_read ({} : Response) Response.read Response.toValue (fun _ => nofun)
    fun r hr => Response.read_toValue (hrs r hr)
  have h2 := Receipt.pointer_read row.receipt
  have h3 := pointer_read ({} : JournalAuthorityState) JournalAuthorityState.read
    JournalAuthorityState.toValue (fun _ => nofun) (p := row.authority) fun s _ => s.read_toValue
  have h4 := pointer_read false readBool Value.bool (fun _ => nofun)
    (p := row.retainUntilRelease) fun _ _ => rfl
  have h5 := pointer_read ({} : CompletedMutationReference) CompletedMutationReference.read
    CompletedMutationReference.toValue (fun _ => nofun) (p := row.releases)
    fun r _ => r.read_toValue
  rw [JournalRow.read, toValue, readStruct_ofEntries (by simp [entries])]
  repeat rw [hf]
  · simp [entries, List.lookup, hp, h1, h2, h3, h4, h5]
  all_goals simp [entries, List.lookup]

/-! ## Validation -/

/-- The bytes of a raw payload, none when it is absent. -/
def payloadBytes (payload : Option Value) : Bytes := payload.elim [] marshal

/-- The response part that the receipt of a completion signs. -/
def responseAuthority (response : Response) : Value :=
  { response with receipt := none, payload := none }.toValue

def validateAuthority (row : JournalRow) (state : JournalAuthorityState) : Except String Unit :=
  if row.idempotencyKey ≠ "" ∨ row.requestDigest ≠ "" ∨ row.fenceResource ≠ "" ∨
      row.fenceSequence ≠ 0 ∨ row.startedAt ≠ 0 ∨ row.response.isSome ∨ row.receipt.isSome ∨
      row.payload.isSome ∨ row.retainUntilRelease.isSome ∨ row.releases.isSome then
    .error "broker journal authority snapshot is invalid"
  else if state.sequence = 0 ∧ state.previousDigest ≠ "" ∨
      state.sequence ≠ 0 ∧ digestPattern state.previousDigest = false then
    .error "broker journal chain authority is invalid"
  else if state.fences.toList.any fun e => !safeIdentifier e.1 || e.2 == 0 then
    .error "broker journal fence authority is invalid"
  else .ok ()

def validateActive (row : JournalRow) (receipt : Receipt) : Except String Unit :=
  if row.response.isSome ∨ row.payload.isSome ∨ receipt.outcome ≠ "active" ∨
      receipt.completedAt ≠ 0 ∨ receipt.responseDigest ≠ "" ∨ row.authority.isSome ∨
      row.retainUntilRelease.isSome ∨ row.releases.isSome then
    .error "broker active journal row is invalid"
  else .ok ()

def validateComplete (row : JournalRow) (receipt : Receipt) (response : Response) :
    Except String Unit :=
  if response.receipt ≠ some receipt ∨ response.requestID ≠ receipt.requestID ∨
      response.operationID ≠ receipt.operationID ∨ response.verb ≠ receipt.verb ∨
      response.payload.isSome ∨ (payloadBytes row.payload).length > maxResponseBytes ∨
      row.authority.isSome ∨ row.payload.isNone ∧ response.payloadDigest ≠ "" ∨
      row.payload.isSome ∧ response.payloadDigest ≠ digest (payloadBytes row.payload) ∨
      response.ok ∧ receipt.outcome ≠ "succeeded" ∨ ¬response.ok ∧ receipt.outcome ≠ "failed" ∨
      receipt.completedAt = 0 then
    .error "broker completed journal row is invalid"
  else if ¬response.ok ∧ (row.retainUntilRelease = some true ∨ row.releases.isSome) then
    .error "failed broker mutation carries completion lifecycle authority"
  else if row.releases.any fun r => !r.valid || r.operationID != receipt.operationID ||
      r.fenceResource != receipt.fenceResource then
    .error "broker completed release authority is invalid"
  else if receipt.responseDigest ≠
      digest (marshal (responseAuthority response) ++ payloadBytes row.payload) then
    .error "broker completed response authority is invalid"
  else .ok ()

def receiptMatches (row : JournalRow) (receipt : Receipt) : Bool :=
  row.idempotencyKey != "" && digestPattern row.requestDigest &&
    receipt.idempotencyKey == row.idempotencyKey && receipt.fenceResource == row.fenceResource &&
    receipt.fenceSequence == row.fenceSequence && digestPattern receipt.receiptDigest &&
    receipt.receiptDigest == receiptDigest receipt

def validateJournalRow (row : JournalRow) : Except String Unit :=
  if row.schema ≠ 1 then .error "broker journal schema is invalid"
  else if row.phase = "authority" then
    match row.authority with
    | none => .error "broker journal authority snapshot is invalid"
    | some state => validateAuthority row state
  else
    match row.receipt with
    | none => .error "broker journal receipt is invalid"
    | some receipt =>
      if receiptMatches row receipt = false then .error "broker journal receipt is invalid"
      else if row.phase = "active" then validateActive row receipt
      else if row.phase = "complete" then
        match row.response with
        | none => .error "broker completed journal row is invalid"
        | some response => validateComplete row receipt response
      else .error "broker journal phase is invalid"

/-- An authority snapshot: nothing but the state. -/
structure JournalRow.IsAuthority (row : JournalRow) (state : JournalAuthorityState) : Prop where
  row_eq : row = { schema := 1, phase := "authority", authority := some state }
  chain_zero : state.sequence = 0 → state.previousDigest = ""
  chain : state.sequence ≠ 0 → digestPattern state.previousDigest = true
  fences : ∀ e ∈ state.fences.toList, safeIdentifier e.1 = true ∧ e.2 ≠ 0

/-- The row of an admitted request. -/
structure JournalRow.IsActive (row : JournalRow) (receipt : Receipt) : Prop where
  schema : row.schema = 1
  phase : row.phase = "active"
  receipt_eq : row.receipt = some receipt
  signed : receiptMatches row receipt = true
  response : row.response = none
  payload : row.payload = none
  authority : row.authority = none
  retain : row.retainUntilRelease = none
  releases : row.releases = none
  outcome : receipt.outcome = "active"
  completedAt : receipt.completedAt = 0
  responseDigest : receipt.responseDigest = ""

/-- The row of a completed request with its response. -/
structure JournalRow.IsComplete (row : JournalRow) (receipt : Receipt) (response : Response) :
    Prop where
  schema : row.schema = 1
  phase : row.phase = "complete"
  receipt_eq : row.receipt = some receipt
  signed : receiptMatches row receipt = true
  response_eq : row.response = some response
  authority : row.authority = none
  response_receipt : response.receipt = some receipt
  requestID : response.requestID = receipt.requestID
  operationID : response.operationID = receipt.operationID
  verb : response.verb = receipt.verb
  response_payload : response.payload = none
  payload_le : (payloadBytes row.payload).length ≤ maxResponseBytes
  payload_none : row.payload = none → response.payloadDigest = ""
  payload_some : row.payload.isSome → response.payloadDigest = digest (payloadBytes row.payload)
  outcome : receipt.outcome = if response.ok then "succeeded" else "failed"
  completedAt : receipt.completedAt ≠ 0
  failed : response.ok = false → row.retainUntilRelease ≠ some true ∧ row.releases = none
  releases : ∀ r ∈ row.releases, r.valid = true ∧ r.operationID = receipt.operationID ∧
    r.fenceResource = receipt.fenceResource
  responseDigest : receipt.responseDigest =
    digest (marshal (responseAuthority response) ++ payloadBytes row.payload)

/-- What a row that passes validation looks like. -/
inductive JournalRow.Valid (row : JournalRow) : Prop
  | authority {state : JournalAuthorityState} (h : row.IsAuthority state)
  | active {receipt : Receipt} (h : row.IsActive receipt)
  | complete {receipt : Receipt} {response : Response} (h : row.IsComplete receipt response)

theorem validateAuthority_ok {s : JournalAuthorityState} (hsc : row.schema = 1)
    (hp : row.phase = "authority") (hs : row.authority = some s) :
    validateAuthority row s = .ok () ↔ row.IsAuthority s := by
  obtain ⟨sc, phase, key, requestDigest, rs, sq, sa, rp, r,
    payload, authority, retain, releases⟩ := row
  simp only at hsc hp hs
  subst hsc hp hs
  unfold validateAuthority
  split_ifs with hem hc hf
  · refine iff_of_false nofun fun h => ?_
    have := h.row_eq
    simp_all
  · refine iff_of_false nofun fun h => ?_
    rcases hc with ⟨h0, hne⟩ | ⟨h0, hb⟩
    · exact hne (h.chain_zero h0)
    · simp [h.chain h0] at hb
  · refine iff_of_false nofun fun h => ?_
    obtain ⟨e, he, hb⟩ := any_eq_true.mp hf
    obtain ⟨hsf, hps⟩ := h.fences e he
    simp [hsf, hps] at hb
  · refine iff_of_true rfl ⟨?_, ?_, ?_, ?_⟩
    · simp_all
    · intro h0
      by_contra hne
      exact hc (.inl ⟨h0, hne⟩)
    · intro h0
      by_contra hne
      exact hc (.inr ⟨h0, by simpa using hne⟩)
    · intro e he
      by_contra hb
      refine hf (any_eq_true.mpr ⟨e, he, ?_⟩)
      rw [Bool.or_eq_true, Bool.not_eq_true', beq_iff_eq]
      by_contra hor
      rw [not_or, Bool.not_eq_false] at hor
      exact hb hor

theorem validateActive_ok {r : Receipt} (hsc : row.schema = 1) (hp : row.phase = "active")
    (hrc : row.receipt = some r) (hs : receiptMatches row r = true) :
    validateActive row r = .ok () ↔ row.IsActive r := by
  unfold validateActive
  split_ifs with hb
  · refine iff_of_false nofun fun h => ?_
    simp [h.response, h.payload, h.outcome, h.completedAt, h.responseDigest, h.authority, h.retain,
      h.releases] at hb
  · simp only [not_or, Option.not_isSome_iff_eq_none, ne_eq, not_not] at hb
    obtain ⟨hr, hpy, ho, hc, hd, ha, hrt, hrl⟩ := hb
    exact iff_of_true rfl ⟨hsc, hp, hrc, hs, hr, hpy, ha, hrt, hrl, ho, hc, hd⟩

theorem validateComplete_ok {rc : Receipt} {rs : Response} (hsc : row.schema = 1)
    (hph : row.phase = "complete") (hrc : row.receipt = some rc)
    (hsg : receiptMatches row rc = true) (hrs : row.response = some rs) :
    validateComplete row rc rs = .ok () ↔ row.IsComplete rc rs := by
  unfold validateComplete
  split_ifs with hb hf hrel hd
  · refine iff_of_false nofun fun h => ?_
    have hpy := h.payload_none
    have hp' := h.payload_some
    have hle := h.payload_le
    have ho := h.outcome
    simp only [h.response_receipt, h.requestID, h.operationID, h.verb, h.response_payload,
      h.authority, h.completedAt, Nat.not_lt.mpr hle, Option.isSome_none] at hb
    cases hok : rs.ok <;> cases hp : row.payload <;> simp_all
  · refine iff_of_false nofun fun h => ?_
    obtain ⟨hrt, hrl⟩ := h.failed (by simpa using hf.1)
    simp [hrt, hrl] at hf
  · refine iff_of_false nofun fun h => ?_
    obtain ⟨r, hr, hb⟩ := (Option.any_eq_true _ _).mp hrel
    obtain ⟨hv, hop, hre⟩ := h.releases r hr
    simp [hv, hop, hre] at hb
  · exact iff_of_false nofun fun h => hd h.responseDigest
  · refine iff_of_true rfl ?_
    simp only [not_or, not_and, ne_eq, not_not, not_lt, gt_iff_lt, Bool.not_eq_true,
      Option.isSome_eq_false_iff, Option.isNone_iff_eq_none] at hb hf hd
    obtain ⟨hr', hid, hop, hvr, hn, hle, ha, hpn, hps, hs, hfl, hc⟩ := hb
    refine ⟨hsc, hph, hrc, hsg, hrs, ha, hr', hid, hop, hvr, hn, hle, ?_, hps, ?_, hc, hf, ?_, hd⟩
    · exact hpn
    · cases hok : rs.ok with
      | true => simpa using hs hok
      | false => simpa using hfl hok
    · intro r hr
      by_contra hne
      refine hrel ((Option.any_eq_true _ _).mpr ⟨r, hr, ?_⟩)
      simp only [Bool.or_eq_true, Bool.not_eq_true', bne_iff_ne, ne_eq]
      by_contra hor
      simp only [not_or, Bool.not_eq_false, not_not] at hor
      exact hne ⟨hor.1.1, hor.1.2, hor.2⟩

theorem validateJournalRow_ok : validateJournalRow row = .ok () ↔ row.Valid := by
  constructor
  · intro h
    unfold validateJournalRow at h
    split at h
    · cases h
    rename_i hsc
    rw [ne_eq, not_not] at hsc
    split at h
    · rename_i hp
      split at h
      · cases h
      · exact .authority ((validateAuthority_ok hsc hp ‹_›).mp h)
    split at h
    · cases h
    rename_i receipt hr
    split at h
    · cases h
    rename_i hs
    rw [Bool.not_eq_false] at hs
    split at h
    · exact .active ((validateActive_ok hsc ‹_› hr hs).mp h)
    split at h
    · rename_i hp
      split at h
      · cases h
      · exact .complete ((validateComplete_ok hsc hp hr hs ‹_›).mp h)
    · cases h
  · rintro (h | h | h)
    · have hrw := h.row_eq
      have hok := (validateAuthority_ok (by rw [hrw]) (by rw [hrw]) (by rw [hrw])).mpr h
      rw [hrw] at hok ⊢
      simpa [validateJournalRow] using hok
    · have hok := (validateActive_ok h.schema h.phase h.receipt_eq h.signed).mpr h
      simpa [validateJournalRow, h.schema, h.phase, h.receipt_eq, h.signed] using hok
    · have hok := (validateComplete_ok h.schema h.phase h.receipt_eq h.signed h.response_eq).mpr h
      simpa [validateJournalRow, h.schema, h.phase, h.receipt_eq, h.signed, h.response_eq] using hok

theorem validateJournalRow_error {t : String} (h : validateJournalRow row = .error t) :
    t ∉ contractErrors := by
  unfold validateJournalRow validateAuthority validateActive validateComplete at h
  repeat' split at h
  all_goals cases h
  all_goals decide

/-! ## Lines -/

/-- The line of a row, with its newline. -/
def encodeJournalRow (row : JournalRow) : Except BrokerError Bytes :=
  match validateJournalRow row with
  | .error text => .error (.internal text)
  | .ok () =>
    let data := marshal row.toValue
    if data.length > maxJournalRowBytes then
      .error (.internal "broker journal row exceeds its bounded contract")
    else .ok (data ++ [newline])

/-- The row of a line; `none` is an invalid committed record. -/
def decodeJournalRow (line : Bytes) : Option JournalRow :=
  (decodeStrict {} JournalRow.read line).bind fun row =>
    match validateJournalRow row with
    | .ok () => some row
    | .error _ => none

end Solovey.Broker
