import Solovey.Graylist.State

/-!
# Graylist evaluation

`service/graylist/state.go`: `Evaluate` takes the state of a subject, if there is one, and an
accepted signal, if there is one, to the next state. An evaluation without a signal is a timer. The
system clock, read when no time is given, is an argument.
-/

namespace Solovey.Graylist

open Solovey.Text

/-! ## Policies -/

structure Policy where
  revision : Str
  enterScore : ℤ
  exitScore : ℤ
  rateScore : ℤ
  rateConfidenceBP : ℤ
  maxScore : ℤ
  decayInterval : Duration
  ttl : Duration
  deriving DecidableEq

def defaultPolicy : Policy where
  revision := "graylist-policy-v2".toList
  enterScore := 20
  exitScore := 10
  rateScore := 40
  rateConfidenceBP := 5000
  maxScore := 100
  decayInterval := 10 * minute
  ttl := hour

def Policy.valid (policy : Policy) : Bool :=
  validContractID policy.revision 128 && decide (0 ≤ policy.exitScore ∧
    policy.exitScore < policy.enterScore ∧ policy.enterScore < policy.rateScore ∧
    policy.rateScore ≤ policy.maxScore ∧ policy.maxScore ≤ 100 ∧ 0 ≤ policy.rateConfidenceBP ∧
    policy.rateConfidenceBP ≤ 10000 ∧ 0 < policy.decayInterval ∧ minute ≤ policy.ttl ∧
    policy.ttl ≤ day)

/-! ## Inputs -/

/-- What an evaluation reads of a signal. -/
structure Signal where
  signalID : Str
  sourceClass : Str
  subject : SignalSubject
  targetResourceID : Str
  endpointID : Str
  transport : Str
  policyRevision : Str
  confidenceBP : ℤ
  observedAt : Time
  expiresAt : Time
  deriving DecidableEq

structure AcceptedSignal where
  signal : Signal
  delta : ℤ
  weak : Bool
  evidenceClass : Option EvidenceClass
  deriving DecidableEq

structure EvaluateInput where
  existing : Option GraylistState
  accepted : Option AcceptedSignal
  policy : Policy
  strategyRevision : Str
  capabilityRevision : Str
  allowlisted : Bool
  management : Bool
  recoveryProtected : Bool
  trustedSource : Bool
  manualClear : Bool
  now : Time

structure EvaluateResult where
  state : GraylistState
  changed : Bool
  deriving DecidableEq

variable (state : GraylistState) (input : EvaluateInput)

/-- The time of an evaluation: the clock's when none is given. -/
def EvaluateInput.time (clock : Time) : Time :=
  if input.now = 0 then clock else input.now

def EvaluateInput.currentPolicy : Policy :=
  if input.policy.revision = [] then defaultPolicy else input.policy

/-- Whether the state was made under other revisions than the current ones. -/
def EvaluateInput.drifted (state : GraylistState) : Bool :=
  state.policyRevision != input.currentPolicy.revision ||
    state.strategyRevision != input.strategyRevision ||
    state.capabilityRevision != input.capabilityRevision

/-- The reason for which a policy of higher precedence ends the state. -/
def EvaluateInput.precedence : Option Str :=
  if input.allowlisted then some "allowlist_precedence".toList
  else if input.management then some "management_precedence".toList
  else if input.recoveryProtected then some "recovery_precedence".toList
  else if input.trustedSource then some "trusted_source_precedence".toList
  else if input.manualClear then some "manual_clear".toList
  else none

/-! ## Scores and evidence -/

/-- The result of 64-bit arithmetic. -/
def wrap (n : ℤ) : ℤ := n.bmod (2 ^ 64)

/-- `Time.Sub`: the difference, at most the longest duration. -/
def elapsed (now since : Time) : Duration := min (now - since) (2 ^ 63 - 1)

def decayedScore (score : ℤ) (since now : Time) (policy : Policy) : ℤ :=
  if since = 0 ∨ now ≤ since then min (max score 0) policy.maxScore
  else max 0 (wrap (min score policy.maxScore - (elapsed now since).tdiv policy.decayInterval))

def evidenceClass (accepted : AcceptedSignal) : EvidenceClass :=
  match accepted.evidenceClass with
  | some given => given
  | none =>
    if accepted.signal.sourceClass = "external".toList then .external
    else if accepted.weak then .weak
    else .strongTrusted

def hasActiveStrongEvidence (values : List EvidenceRef) (now : Time) : Bool :=
  values.any fun value => value.evidenceClass == .strongTrusted && decide (now < value.expiresAt)

def canonicalSourceClasses (values : List Str) : List Str :=
  ["external".toList, "native".toList].filter (values.contains ·)

/-! ## Ends of an evaluation -/

/-- The state with its lists in canonical order. -/
def GraylistState.canonical : GraylistState :=
  { state with
    signalRefs := canonicalSignalRefs state.signalRefs
    evidenceRefs := canonicalEvidenceRefs state.evidenceRefs
    reasonCodes := canonicalBoundedReasons state.reasonCodes }

def validated (changed : Bool) : Except String EvaluateResult :=
  match state.canonical.validate with
  | .error reason => .error reason
  | .ok () => .ok ⟨state.canonical, changed⟩

def supersede (now : Time) (reason : Str) :
    Except String EvaluateResult :=
  if state.lifecycle = .superseded ∧ state.reasonCodes.contains reason then .ok ⟨state, false⟩
  else validated
    { state with
      lifecycle := .superseded
      selectedResponse := .observe
      desiredAction := .observe
      actualActionState := .notApplied
      appliedActionRefID := []
      reasonCodes := canonicalBoundedReasons (state.reasonCodes ++ [reason])
      updatedAt := max now state.lastSignalAt
      revision := state.revision + 1 } true

def expire (now : Time) : Except String EvaluateResult :=
  if state.lifecycle = .expired then .ok ⟨state, false⟩
  else validated
    { state with
      band := .cooldown
      lifecycle := .expired
      selectedResponse := .observe
      desiredAction := .observe
      updatedAt := now
      revision := state.revision + 1
      reasonCodes := canonicalBoundedReasons (state.reasonCodes ++ ["exact_expiry".toList]) } true

/-- The band, the lifecycle and the action that the score and the evidence call for. -/
def nextStanding (policy : Policy) (now : Time) :
    Band × Lifecycle × ResponseIntent :=
  let effective := decayedScore state.score state.lastSignalAt now policy
  if !hasActiveStrongEvidence state.evidenceRefs now then (.observe, .active, .observe)
  else if policy.rateScore ≤ effective ∧ policy.rateConfidenceBP ≤ state.confidenceBP then
    (.rateCandidate, .active, .rateLimit)
  else if policy.enterScore ≤ effective then (.graylist, .active, .softGraylist)
  else if (state.band = .graylist ∨ state.band = .rateCandidate ∨ state.band = .cooldown) ∧
      effective < policy.exitScore then
    (.cooldown, .cooldown, .observe)
  else (state.band, state.lifecycle, .observe)

/-- The state with its standing brought up to date. -/
def rescore (policy : Policy) (now : Time) (signalled : Bool) :
    Except String EvaluateResult :=
  let next := nextStanding state policy now
  let changed := signalled || next.1 != state.band || next.2.1 != state.lifecycle ||
    next.2.2 != state.desiredAction
  validated
    { state with
      score := decayedScore state.score state.lastSignalAt now policy
      band := next.1
      lifecycle := next.2.1
      desiredAction := next.2.2
      selectedResponse := .observe
      actualActionState := .notApplied
      appliedActionRefID := []
      revision := if changed then state.revision + 1 else state.revision
      updatedAt := if changed then max now state.lastSignalAt else state.updatedAt } changed

/-- The end of an evaluation, when the signal, if any, has been taken in. -/
def conclude (now : Time) (state : GraylistState) :
    Except String EvaluateResult :=
  match input.precedence with
  | some reason => supersede state now reason
  | none =>
    if state.expiresAt ≤ now then expire state now
    else rescore state input.currentPolicy now input.accepted.isSome

/-! ## Signals -/

/-- The state of a subject that has none yet. -/
def fresh (signal : Signal) : GraylistState :=
  GraylistState.finalizeID
    { schema := graylistStateSchema
      stateID := []
      revision := 1
      subject := signal.subject
      resourceID := signal.targetResourceID
      endpointID := signal.endpointID
      transport := signal.transport
      score := 0
      confidenceBP := 0
      policyRevision := input.currentPolicy.revision
      strategyRevision := input.strategyRevision
      capabilityRevision := input.capabilityRevision
      signalRefs := []
      evidenceRefs := []
      sourceClasses := [signal.sourceClass]
      band := .observe
      lifecycle := .active
      enteredAt := signal.observedAt
      lastSignalAt := signal.observedAt
      expiresAt := min (signal.observedAt + input.currentPolicy.ttl) (signal.observedAt + day)
      selectedResponse := .observe
      desiredAction := .observe
      actualActionState := .notApplied
      appliedActionRefID := []
      reasonCodes := []
      createdAt := signal.observedAt
      updatedAt := signal.observedAt }

/-- An expired state that a new signal enters again. -/
def reenter (policy : Policy) (signal : Signal) : GraylistState :=
  { state with
    score := 0
    confidenceBP := 0
    signalRefs := []
    evidenceRefs := []
    sourceClasses := [signal.sourceClass]
    band := .observe
    lifecycle := .active
    enteredAt := signal.observedAt
    expiresAt := min (signal.observedAt + policy.ttl) (signal.observedAt + day)
    reasonCodes := canonicalBoundedReasons ["fresh_signal_reentry".toList] }

/-- The state that a signal is taken into: the one given, entered again if it has expired. -/
def entered (policy : Policy) (signal : Signal) : GraylistState :=
  if state.lifecycle = .expired then reenter state policy signal else state

/-- The state with a signal taken in. -/
def fold (policy : Policy) (now : Time) (accepted : AcceptedSignal) :
    GraylistState :=
  let signal := accepted.signal
  let score := decayedScore state.score state.lastSignalAt signal.observedAt policy
  { state with
    score := min policy.maxScore (wrap (score + accepted.delta))
    confidenceBP := max state.confidenceBP signal.confidenceBP
    signalRefs := canonicalSignalRefs (state.signalRefs ++ [signal.signalID])
    evidenceRefs := canonicalEvidenceRefs (state.evidenceRefs ++
      [⟨signal.signalID, evidenceClass accepted, signal.expiresAt⟩])
    sourceClasses := canonicalSourceClasses (state.sourceClasses ++ [signal.sourceClass])
    lastSignalAt := signal.observedAt
    expiresAt := min (signal.observedAt + policy.ttl) (state.enteredAt + day)
    updatedAt := max now signal.observedAt }

def sameIdentity (signal : Signal) (state : GraylistState) : Bool :=
  signal.subject == state.subject && signal.targetResourceID == state.resourceID &&
    signal.endpointID == state.endpointID && signal.transport == state.transport

/-- An evaluation with a signal, on a state that the current revisions made. The source looks for
drift once more here, which `evaluate` has excluded. -/
def receive (now : Time) (accepted : AcceptedSignal)
    (state : GraylistState) : Except String EvaluateResult :=
  let signal := accepted.signal
  if !sameIdentity signal state then .error "accepted signal crosses graylist identity"
  else if state.lifecycle = .superseded then
    .error "superseded graylist state cannot be reactivated"
  else
    let state := entered state input.currentPolicy signal
    if state.signalRefs.contains signal.signalID then .ok ⟨state, false⟩
    else if signal.observedAt < state.lastSignalAt then .error "signal_out_of_order"
    else if maxGraylistSignalRefs ≤ state.signalRefs.length then
      .error "graylist signal reference capacity exceeded"
    else conclude input now (fold state input.currentPolicy now accepted)

/-! ## Evaluation -/

/-- An evaluation of a state that the current revisions made; `none` is a subject without a
state. -/
def evaluateCurrent (now : Time) (state : Option GraylistState) :
    Except String EvaluateResult :=
  match input.accepted, state with
  | some accepted, _ =>
    if accepted.signal.policyRevision ≠ input.currentPolicy.revision then
      .error "signal policy attribution does not match current policy"
    else receive input now accepted (state.getD (fresh input accepted.signal))
  | none, some state => conclude input now state
  | none, none => .error "new graylist state requires an accepted signal"

def evaluate (clock : Time) (input : EvaluateInput) : Except String EvaluateResult :=
  let now := input.time clock
  if !input.currentPolicy.valid then .error "graylist policy is invalid"
  else if !validContractID input.strategyRevision 128 ||
      !validContractID input.capabilityRevision 128 then
    .error "strategy or capability revision is invalid"
  else
    match input.existing with
    | none => evaluateCurrent input now none
    | some state =>
      match state.validate with
      | .error reason => .error reason
      | .ok () =>
        if input.drifted state then supersede state now "revision_drift".toList
        else evaluateCurrent input now (some state)

end Solovey.Graylist
