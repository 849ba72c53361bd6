import Solovey.Hash.Sha256
import Solovey.Json.Value
import Solovey.Net.Address

/-!
# Graylist states

`components/server-protection/domain`: the state that the graylist policy keeps of one subject on
one endpoint, the check it has to pass, and the canonical order of the lists in it. An instant is the
number of nanoseconds after the zero time of the source, so that `0` is the time that is not set.
-/

namespace Solovey.Graylist

open Solovey.Text Solovey.Net

abbrev Time := ℤ

abbrev Duration := ℤ

def minute : Duration := 60 * 10 ^ 9

def hour : Duration := 60 * minute

def day : Duration := 24 * hour

/-! ## Identifiers -/

def maxContractIDBytes : ℕ := 256

def isContractIDChar (c : Char) : Bool := c.isAlphanum || "._:@+-".toList.contains c

def validContractID (value : Str) (limit : ℕ) : Bool :=
  let value := trimSpace value
  let limit := if limit = 0 ∨ maxContractIDBytes < limit then maxContractIDBytes else limit
  !value.isEmpty && decide (utf8Len value ≤ limit) &&
    !value.any ("/\\?#&=\x7b\x7d[]<>\"'\r\n\t ".toList.contains ·) && value.all isContractIDChar

def validSHA256 (value : Str) : Bool :=
  value.length == 64 && value == toLower value && value.all isHexDigit

def maxReasonCodes : ℕ := 32

def maxReasonCodeBytes : ℕ := 64

def validateReasonCodes (values : List Str) : Bool :=
  decide (values.length ≤ maxReasonCodes) &&
    values.all (validContractID · maxReasonCodeBytes) && decide values.Nodup

/-- Whether every value comes before the next one. -/
def sortedUniqueStrings (values : List Str) : Bool := decide (values.IsChain (· < ·))

def sortedUniqueSHA256 (values : List Str) : Bool :=
  values.all validSHA256 && sortedUniqueStrings values

/-! ## Subjects -/

structure SignalSubject where
  type : Str
  value : Str
  deriving DecidableEq

def accountPrefix : Str := "account:".toList

def validateSubject (subject : SignalSubject) : Except String Unit :=
  if subject.type = "ip".toList then
    match readAddr subject.value with
    | some address =>
      if address.unmap.text = subject.value then .ok ()
      else .error "signal IP subject is invalid or non-canonical"
    | none => .error "signal IP subject is invalid or non-canonical"
  else if subject.type = "prefix".toList then
    if (readCanonical subject.value).isSome then .ok ()
    else .error "signal prefix subject is invalid or non-canonical"
  else if subject.type = "endpoint".toList ∨ subject.type = "service".toList then
    if validContractID subject.value 256 then .ok () else .error "signal subject is invalid"
  else if subject.type = "account_pseudonym".toList then
    if accountPrefix.isPrefixOf subject.value && validSHA256 (trimPrefix accountPrefix subject.value)
    then .ok () else .error "signal account subject is not a bounded pseudonym"
  else .error "signal subject type is invalid"

/-! ## The state

The enumerations of the source are strings: a value outside of them is `other`, which the check
rejects. -/

inductive Band
  | observe
  | graylist
  | rateCandidate
  | cooldown
  | other (text : Str)
  deriving DecidableEq

inductive Lifecycle
  | active
  | cooldown
  | expired
  | superseded
  | legacyStale
  | other (text : Str)
  deriving DecidableEq

inductive EvidenceClass
  | strongTrusted
  | weak
  | external
  | other (text : Str)
  deriving DecidableEq

inductive ResponseIntent
  | observe
  | softGraylist
  | rateLimit
  | routeToDecoy
  | temporaryQuarantine
  | temporaryBlock
  | manualHardBlock
  | other (text : Str)
  deriving DecidableEq

inductive ActionState
  | notApplied
  | applied
  | expired
  | rolledBack
  | other (text : Str)
  deriving DecidableEq

def Band.known : Band → Bool
  | .other _ => false
  | _ => true

def Lifecycle.known : Lifecycle → Bool
  | .other _ => false
  | _ => true

def EvidenceClass.known : EvidenceClass → Bool
  | .other _ => false
  | _ => true

def validIntent : ResponseIntent → Bool
  | .other _ => false
  | _ => true

def ActionState.known : ActionState → Bool
  | .other _ => false
  | _ => true

structure EvidenceRef where
  signalID : Str
  evidenceClass : EvidenceClass
  expiresAt : Time
  deriving DecidableEq

structure GraylistState where
  schema : Str
  stateID : Str
  revision : UInt64
  subject : SignalSubject
  resourceID : Str
  endpointID : Str
  transport : Str
  score : ℤ
  confidenceBP : ℤ
  policyRevision : Str
  strategyRevision : Str
  capabilityRevision : Str
  signalRefs : List Str
  evidenceRefs : List EvidenceRef
  sourceClasses : List Str
  band : Band
  lifecycle : Lifecycle
  enteredAt : Time
  lastSignalAt : Time
  expiresAt : Time
  selectedResponse : ResponseIntent
  desiredAction : ResponseIntent
  actualActionState : ActionState
  appliedActionRefID : Str
  reasonCodes : List Str
  createdAt : Time
  updatedAt : Time
  deriving DecidableEq

def graylistStateSchema : Str := "solovey-ui/graylist-state/v2".toList

def maxGraylistSignalRefs : ℕ := 64

/-! ### Its identity -/

def member (key : String) (value : Json.Value) (rest : Json.Members) : Json.Members :=
  .cons (Json.StrLit.quote key) value rest

def textMember (key : String) (value : Str) (rest : Json.Members) : Json.Members :=
  member key (.str (value.map Json.Piece.ofChar)) rest

/-- What the identity of a state hashes: its subject, its scope and its revisions. -/
def GraylistState.identityPayload (state : GraylistState) : Json.Value :=
  .obj <| member "subject"
      (.obj <| textMember "type" state.subject.type <|
        textMember "value" state.subject.value .nil) <|
    textMember "resource_id" state.resourceID <|
    textMember "endpoint_id" state.endpointID <|
    textMember "transport" state.transport <|
    textMember "policy_revision" state.policyRevision <|
    textMember "strategy_revision" state.strategyRevision <|
    textMember "capability_revision" state.capabilityRevision .nil

def GraylistState.finalizeID (state : GraylistState) : GraylistState :=
  { state with stateID := Hash.hexDigest (encodeUtf8 state.identityPayload.text) }

/-! ### Its check -/

/-- The check of one reference to evidence. -/
def EvidenceRef.valid (evidence : EvidenceRef) : Bool :=
  validSHA256 evidence.signalID && evidence.expiresAt != 0 && evidence.evidenceClass.known

def validEvidence (evidence : List EvidenceRef) : Bool :=
  evidence.all EvidenceRef.valid && sortedUniqueStrings (evidence.map EvidenceRef.signalID)

def GraylistState.validIdentity (state : GraylistState) : Bool :=
  state.schema == graylistStateSchema && validSHA256 state.stateID && state.revision != 0 &&
    validContractID state.resourceID 256 && validContractID state.endpointID 256 &&
    (state.transport == "tcp".toList || state.transport == "udp".toList) &&
    validContractID state.policyRevision 128 && validContractID state.strategyRevision 128 &&
    validContractID state.capabilityRevision 128

def GraylistState.validBounds (state : GraylistState) : Bool :=
  decide (0 ≤ state.score ∧ state.score ≤ 100 ∧ 0 ≤ state.confidenceBP ∧
    state.confidenceBP ≤ 10000 ∧ state.signalRefs.length ≤ maxGraylistSignalRefs) &&
    !state.sourceClasses.isEmpty && decide (state.sourceClasses.length ≤ 2) &&
    validateReasonCodes state.reasonCodes

def GraylistState.validTimestamps (state : GraylistState) : Bool :=
  state.createdAt != 0 && state.enteredAt != 0 && state.lastSignalAt != 0 &&
    state.updatedAt != 0 && state.expiresAt != 0 &&
    decide (state.createdAt ≤ state.enteredAt ∧ state.enteredAt ≤ state.lastSignalAt ∧
      state.lastSignalAt ≤ state.updatedAt ∧ state.enteredAt < state.expiresAt ∧
      state.expiresAt ≤ state.enteredAt + day)

/-- The rest of the check, of a state whose identity, bounds and references are right. -/
def GraylistState.validateStanding (state : GraylistState) : Except String Unit :=
  if !state.sourceClasses.all (["external".toList, "native".toList].contains ·) then
    .error "graylist source class is invalid"
  else if !state.validTimestamps then .error "graylist timestamps are invalid"
  else if !validIntent state.selectedResponse || !validIntent state.desiredAction then
    .error "graylist response is invalid"
  else if !state.band.known then .error "graylist band is invalid"
  else if !state.lifecycle.known then .error "graylist lifecycle is invalid"
  else if state.band = .cooldown ∧ state.lifecycle ≠ .cooldown ∧ state.lifecycle ≠ .expired ∧
      state.lifecycle ≠ .superseded then
    .error "graylist cooldown band has an incompatible lifecycle"
  else if !state.actualActionState.known then .error "graylist actual action state is invalid"
  else if state.actualActionState = .applied ∧ !validSHA256 state.appliedActionRefID then
    .error "graylist APPLIED projection lacks exact executor evidence"
  else if state.actualActionState ≠ .applied ∧ state.appliedActionRefID ≠ [] then
    .error "graylist non-applied projection carries applied evidence"
  else .ok ()

def GraylistState.validate (state : GraylistState) : Except String Unit :=
  if !state.validIdentity then .error "graylist identity or revision is invalid"
  else if state.finalizeID.stateID ≠ state.stateID then
    .error "graylist identity does not match its semantic key"
  else
    match validateSubject state.subject with
    | .error reason => .error reason
    | .ok () =>
      if !state.validBounds then .error "graylist bounds are invalid"
      else if !sortedUniqueSHA256 state.signalRefs || !sortedUniqueStrings state.sourceClasses ||
          !sortedUniqueStrings state.reasonCodes then
        .error "graylist references or reasons are not canonical"
      else if maxGraylistSignalRefs < state.evidenceRefs.length then
        .error "graylist evidence exceeds its bound"
      else if !validEvidence state.evidenceRefs then
        .error "graylist evidence is invalid or non-canonical"
      else state.validateStanding

/-! ## Canonical lists -/

def sortStrings (values : List Str) : List Str := values.insertionSort (· ≤ ·)

/-- One reason as it is recorded, if it can be. -/
def normalReason (value : Str) : Option Str :=
  let value := toLower (trimSpace value)
  if value.isEmpty || !validContractID value 128 then none else some value

def normalizeActionReasons (values : List Str) : List Str :=
  sortStrings ((values.filterMap normalReason).eraseDups.take 32)

def canonicalBoundedReasons (values : List Str) : List Str :=
  (normalizeActionReasons values).take maxReasonCodes

def normalSignalID (value : Str) : Option Str :=
  let value := toLower (trimSpace value)
  if validSHA256 value then some value else none

def canonicalSignalRefs (values : List Str) : List Str :=
  (sortStrings (values.filterMap normalSignalID).eraseDups).take maxGraylistSignalRefs

def EvidenceRef.normal (value : EvidenceRef) : Option EvidenceRef :=
  let signalID := toLower (trimSpace value.signalID)
  if !validSHA256 signalID || value.expiresAt == 0 then none
  else some { value with signalID := signalID }

/-- One pass of the loop that keeps for each signal the reference with the last expiry. -/
def keepLatest (kept : List EvidenceRef) (value : EvidenceRef) : List EvidenceRef :=
  match kept.find? (·.signalID == value.signalID) with
  | none => kept ++ [value]
  | some current =>
    if current.expiresAt < value.expiresAt then
      kept.map fun evidence => if evidence.signalID = value.signalID then value else evidence
    else kept

def canonicalEvidenceRefs (values : List EvidenceRef) : List EvidenceRef :=
  (((values.filterMap EvidenceRef.normal).foldl keepLatest []).insertionSort
    fun a b => a.signalID ≤ b.signalID).take maxGraylistSignalRefs

end Solovey.Graylist
