import Solovey.Hash.Sha256
import Solovey.Json.Fields

/-!
# The broker protocol

The wire types of `privilegedbroker/protocol.go` that the journal stores, their JSON form, and the
strict reader `decodeStrict` with its limits on nesting, members and keys.

A struct is written in the order of its fields and read back with unknown fields refused. A Go
string is a valid UTF-8 text here, and a raw payload is kept as the JSON value it holds.
-/

namespace Solovey.Broker

open Solovey.Text Solovey.Json List

def maxResponseBytes : ℕ := 256 * 1024
def maxArtifactBytes : ℕ := 512 * 1024
def maxJSONDepth : ℕ := 64
def maxJSONMembers : ℕ := 4096

abbrev Verb := String
abbrev ErrorCode := String
abbrev Role := String

def verbSSHStage : Verb := "ssh.dropin.stage"

def codeIdempotency : ErrorCode := "idempotency_conflict"
def codeFence : ErrorCode := "stale_fence"
def codeRecoveryRequired : ErrorCode := "recovery_required"

/-- What a broker call fails with: a failure that is reported to the client, an internal
error, or a failed file operation. -/
inductive BrokerError
  | failure (code : ErrorCode) (safe : String)
  | internal (text : String)
  | file (operation : String)
  | notExist
deriving DecidableEq, Repr

/-- The texts that report an exceeded bound of the journal. -/
def contractErrors : List String :=
  ["broker journal row exceeds its bounded contract",
   "broker live journal authority exceeds its bounded contract",
   "broker compacted journal exceeds its bounded contract",
   "broker receipt journal row exceeds its bounded contract"]

def BrokerError.exceedsContract : BrokerError → Bool
  | .internal text => contractErrors.contains text
  | _ => false

/-! ## Patterns and digests -/

/-- `^[A-Za-z0-9][A-Za-z0-9._:@+-]{0,127}$` -/
def safeIdentifier (value : String) : Bool :=
  match value.toList with
  | [] => false
  | c :: rest =>
    c.isAlphanum && decide (rest.length ≤ 127) &&
      rest.all fun c => c.isAlphanum || "._:@+-".toList.contains c

/-- `^[a-z][a-z0-9_.-]{2,95}$` -/
def validVerb (value : String) : Bool :=
  match value.toList with
  | [] => false
  | c :: rest =>
    c.isLower && decide (2 ≤ rest.length ∧ rest.length ≤ 95) &&
      rest.all fun c => c.isLower || c.isDigit || "_.-".toList.contains c

/-- `^[a-f0-9]{64}$` -/
def digestPattern (value : String) : Bool :=
  decide (value.toList.length = 64) && value.toList.all Hash.isLowerHex

def digest (value : Bytes) : String := String.ofList (Hash.hexDigest value)

@[simp] theorem digestPattern_digest (v : Bytes) : digestPattern (digest v) = true := by
  simp only [digestPattern, digest, String.toList_ofList, Hash.hexDigest_length, decide_true,
    Bool.true_and, all_eq_true]
  exact Hash.hexDigest_lowerHex v

theorem digestPattern_ne_empty {v : String} (h : digestPattern v = true) : v ≠ "" := by
  rintro rfl
  exact absurd h (by decide)

@[simp] theorem digest_ne_empty (v : Bytes) : digest v ≠ "" :=
  digestPattern_ne_empty (digestPattern_digest v)

/-- The bytes of a value as the encoder writes it. -/
def marshal (v : Value) : Bytes := encodeUtf8 v.text

/-! ## Wire types -/

structure Fence where
  resource : String := ""
  sequence : UInt64 := 0
  token : String := ""
deriving DecidableEq, Repr

structure Revisions where
  provider : String := ""
  binary : String := ""
  service : String := ""
  configuration : String := ""
deriving DecidableEq, Repr

structure Request where
  protocolVersion : Int64 := 0
  capabilityRevision : String := ""
  bootID : String := ""
  role : Role := ""
  verb : Verb := ""
  requestID : String := ""
  operationID : String := ""
  idempotencyKey : String := ""
  fence : Fence := {}
  expected : Revisions := {}
  deadlineAt : Int64 := 0
  purpose : String := ""
  recoveryRef : String := ""
  payloadDigest : String := ""
  payload : Bytes := []
deriving DecidableEq

/-- The part of the attested peer that the journal records. -/
structure PeerIdentity where
  revision : String := ""
deriving DecidableEq, Repr

structure Receipt where
  sequence : UInt64 := 0
  requestID : String := ""
  operationID : String := ""
  idempotencyKey : String := ""
  verb : Verb := ""
  fenceResource : String := ""
  fenceSequence : UInt64 := 0
  fenceTokenDigest : String := ""
  payloadDigest : String := ""
  responseDigest : String := ""
  peerRevision : String := ""
  brokerBootID : String := ""
  previousDigest : String := ""
  outcome : String := ""
  startedAt : Int64 := 0
  completedAt : Int64 := 0
  receiptDigest : String := ""
deriving DecidableEq, Repr, Inhabited

structure Response where
  protocolVersion : Int64 := 0
  capabilityRevision : String := ""
  requestID : String := ""
  operationID : String := ""
  verb : Verb := ""
  ok : Bool := false
  code : ErrorCode := ""
  message : String := ""
  replay : Bool := false
  receipt : Option Receipt := none
  payloadDigest : String := ""
  payload : Option Value := none

instance : Inhabited Response := ⟨{}⟩

/-! ## JSON form -/

def Fence.entries (f : Fence) : List Entry :=
  [("resource", some (.ofString f.resource)),
   ("sequence", some (.ofUInt64 f.sequence)),
   ("token", some (.ofString f.token))]

def Revisions.entries (r : Revisions) : List Entry :=
  [("provider", omitString r.provider),
   ("binary", omitString r.binary),
   ("service", omitString r.service),
   ("configuration", omitString r.configuration)]

/-- The authority part of a request: everything but the payload, which is `null`. -/
def Request.authorityEntries (r : Request) : List Entry :=
  [("protocolVersion", some (.ofInt64 r.protocolVersion)),
   ("capabilityRevision", some (.ofString r.capabilityRevision)),
   ("bootId", some (.ofString r.bootID)),
   ("role", some (.ofString r.role)),
   ("verb", some (.ofString r.verb)),
   ("requestId", some (.ofString r.requestID)),
   ("operationId", some (.ofString r.operationID)),
   ("idempotencyKey", omitString r.idempotencyKey),
   ("fence", some (.ofEntries r.fence.entries)),
   ("expected", some (.ofEntries r.expected.entries)),
   ("deadlineAt", some (.ofInt64 r.deadlineAt)),
   ("purpose", omitString r.purpose),
   ("recoveryRef", omitString r.recoveryRef),
   ("payloadDigest", some (.ofString r.payloadDigest)),
   ("payload", some .null)]

def canonicalRequestAuthority (request : Request) : Bytes :=
  marshal (.ofEntries request.authorityEntries)

/-- The digest under which a request is journaled. -/
def requestDigest (request : Request) : String :=
  digest (canonicalRequestAuthority request ++ request.payload)

def Receipt.entries (r : Receipt) : List Entry :=
  [("sequence", some (.ofUInt64 r.sequence)),
   ("requestId", some (.ofString r.requestID)),
   ("operationId", some (.ofString r.operationID)),
   ("idempotencyKey", some (.ofString r.idempotencyKey)),
   ("verb", some (.ofString r.verb)),
   ("fenceResource", some (.ofString r.fenceResource)),
   ("fenceSequence", some (.ofUInt64 r.fenceSequence)),
   ("fenceTokenDigest", some (.ofString r.fenceTokenDigest)),
   ("payloadDigest", some (.ofString r.payloadDigest)),
   ("responseDigest", some (.ofString r.responseDigest)),
   ("peerRevision", some (.ofString r.peerRevision)),
   ("brokerBootId", some (.ofString r.brokerBootID)),
   ("previousDigest", omitString r.previousDigest),
   ("outcome", some (.ofString r.outcome)),
   ("startedAt", some (.ofInt64 r.startedAt)),
   ("completedAt", some (.ofInt64 r.completedAt)),
   ("receiptDigest", some (.ofString r.receiptDigest))]

def Receipt.toValue (r : Receipt) : Value := .ofEntries r.entries

def Receipt.read : Reader Receipt :=
  readStruct (Receipt.entries {} |>.map Prod.fst) fun ms cur => do
    let sequence ← readField "sequence" readUInt64 cur.sequence ms
    let requestID ← readField "requestId" readString cur.requestID ms
    let operationID ← readField "operationId" readString cur.operationID ms
    let idempotencyKey ← readField "idempotencyKey" readString cur.idempotencyKey ms
    let verb ← readField "verb" readString cur.verb ms
    let fenceResource ← readField "fenceResource" readString cur.fenceResource ms
    let fenceSequence ← readField "fenceSequence" readUInt64 cur.fenceSequence ms
    let fenceTokenDigest ← readField "fenceTokenDigest" readString cur.fenceTokenDigest ms
    let payloadDigest ← readField "payloadDigest" readString cur.payloadDigest ms
    let responseDigest ← readField "responseDigest" readString cur.responseDigest ms
    let peerRevision ← readField "peerRevision" readString cur.peerRevision ms
    let brokerBootID ← readField "brokerBootId" readString cur.brokerBootID ms
    let previousDigest ← readField "previousDigest" readString cur.previousDigest ms
    let outcome ← readField "outcome" readString cur.outcome ms
    let startedAt ← readField "startedAt" readInt64 cur.startedAt ms
    let completedAt ← readField "completedAt" readInt64 cur.completedAt ms
    let receiptDigest ← readField "receiptDigest" readString cur.receiptDigest ms
    return { sequence, requestID, operationID, idempotencyKey, verb, fenceResource, fenceSequence,
             fenceTokenDigest, payloadDigest, responseDigest, peerRevision, brokerBootID,
             previousDigest, outcome, startedAt, completedAt, receiptDigest }

/-- The chain digest of a receipt; its own digest field is left empty. -/
def receiptDigest (receipt : Receipt) : String :=
  digest (marshal { receipt with receiptDigest := "" }.toValue)

/-- A payload is copied with the encoder's HTML escapes. -/
def Response.entries (r : Response) : List Entry :=
  [("protocolVersion", some (.ofInt64 r.protocolVersion)),
   ("capabilityRevision", some (.ofString r.capabilityRevision)),
   ("requestId", some (.ofString r.requestID)),
   ("operationId", some (.ofString r.operationID)),
   ("verb", some (.ofString r.verb)),
   ("ok", some (.bool r.ok)),
   ("code", omitString r.code),
   ("message", omitString r.message),
   ("replay", omitBool r.replay),
   ("receipt", r.receipt.map Receipt.toValue),
   ("payloadDigest", omitString r.payloadDigest),
   ("payload", r.payload.map Value.escapeHTML)]

def Response.toValue (r : Response) : Value := .ofEntries r.entries

def Response.read : Reader Response :=
  readStruct (Response.entries {} |>.map Prod.fst) fun ms cur => do
    let protocolVersion ← readField "protocolVersion" readInt64 cur.protocolVersion ms
    let capabilityRevision ← readField "capabilityRevision" readString cur.capabilityRevision ms
    let requestID ← readField "requestId" readString cur.requestID ms
    let operationID ← readField "operationId" readString cur.operationID ms
    let verb ← readField "verb" readString cur.verb ms
    let ok ← readField "ok" readBool cur.ok ms
    let code ← readField "code" readString cur.code ms
    let message ← readField "message" readString cur.message ms
    let replay ← readField "replay" readBool cur.replay ms
    let receipt ← readField "receipt" (readPointer {} Receipt.read) cur.receipt ms
    let payloadDigest ← readField "payloadDigest" readString cur.payloadDigest ms
    let payload ← readField "payload" readRaw cur.payload ms
    return { protocolVersion, capabilityRevision, requestID, operationID, verb, ok, code, message,
             replay, receipt, payloadDigest, payload }

theorem Receipt.entries_nodup (r : Receipt) : (r.entries.map fun e => foldName e.1).Nodup := by
  simp only [entries, map_cons, map_nil]
  decide

theorem Response.entries_nodup (r : Response) : (r.entries.map fun e => foldName e.1).Nodup := by
  simp only [entries, map_cons, map_nil]
  decide

/-- A receipt is read back from its JSON form. -/
theorem Receipt.read_toValue (r : Receipt) : Receipt.read r.toValue {} = some r := by
  have hf {α : Type} (read : Reader α) (cur : α) (name : String) :=
    readField_lookup read cur r.entries_nodup name
  rw [Receipt.read, toValue, readStruct_ofEntries (by simp [entries])]
  repeat rw [hf]
  · simp [entries, List.lookup]
  all_goals simp [entries, List.lookup]

theorem Receipt.pointer_read (p : Option Receipt) :
    (p.map toValue).elim (some none) (fun v => readPointer {} read v none) = some p :=
  Json.pointer_read ({} : Receipt) read toValue (fun _ => nofun) (fun r _ => r.read_toValue)

/-- A response without payload is read back from its JSON form. -/
theorem Response.read_toValue {r : Response} (hr : r.payload = none) :
    Response.read r.toValue {} = some r := by
  have hf {α : Type} (read : Reader α) (cur : α) (name : String) :=
    readField_lookup read cur r.entries_nodup name
  have hrc := Receipt.pointer_read r.receipt
  have hp : (r.payload.map Value.escapeHTML).elim (some none) (fun v => readRaw v none) =
      some r.payload := by
    rw [hr]
    rfl
  rw [Response.read, toValue, readStruct_ofEntries (by simp [entries])]
  repeat rw [hf]
  · simp [entries, List.lookup, hrc, hp]
  all_goals simp [entries, List.lookup]

/-! ## The strict reader -/

/-- Counts one more member. -/
def countMember (count : ℕ) : Option ℕ :=
  if count + 1 > maxJSONMembers then none else some (count + 1)

/-- The checks on a token before its value is looked into. -/
def enterValue (depth count : ℕ) : Option ℕ :=
  if depth > maxJSONDepth then none else countMember count

/-- The checks on an object key, given the keys before it. -/
def enterKey (seen : List (List Char)) (key : List Char) (count : ℕ) : Option ℕ :=
  if utf8Len key > 128 then none else if key ∈ seen then none else countMember count

mutual

/-- `walkJSON` over the values of the text in order. `count` is the number of members seen so
far; the result is the number after this value. -/
def walkJSON (depth count : ℕ) : Value → Option ℕ
  | .str s => (enterValue depth count).bind fun count =>
    if utf8Len (StrLit.chars s) > maxArtifactBytes * 2 then none else some count
  | .arr items => (enterValue depth count).bind fun count => walkItems depth count items
  | .obj ms => (enterValue depth count).bind fun count => walkMembers depth count [] ms
  | .null | .bool _ | .num _ => enterValue depth count

def walkItems (depth count : ℕ) : Items → Option ℕ
  | .nil => some count
  | .cons v rest => (walkJSON (depth + 1) count v).bind fun count => walkItems depth count rest

def walkMembers (depth count : ℕ) (seen : List (List Char)) : Members → Option ℕ
  | .nil => some count
  | .cons key v rest => (enterKey seen (StrLit.chars key) count).bind fun count =>
    (walkJSON (depth + 1) count v).bind fun count =>
      walkMembers depth count (StrLit.chars key :: seen) rest

end

def validateJSON (v : Value) : Bool := (walkJSON 0 0 v).isSome

/-- One JSON value and nothing after it, within the limits and without unknown fields. -/
def decodeStrict {α : Type} (zero : α) (read : Reader α) (data : Bytes) : Option α := do
  let v ← parse (decodeUtf8 data)
  if validateJSON v then read v zero else none

/-- Reading a marshalled value is reading the value, provided it is within the limits. -/
theorem decodeStrict_marshal {α : Type} (zero : α) (r : Reader α) (v : Value) :
    decodeStrict zero r (marshal v) = if validateJSON v then r v zero else none := by
  simp [decodeStrict, marshal, parse_text]

end Solovey.Broker
