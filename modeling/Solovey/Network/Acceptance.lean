import Solovey.Network.Identity

/-!
# Accepted plans

`network/planner`: a plan is compiled from an intent and the facts of the host, accepted with the
digest of its candidate, and checked against new facts before it is used: its intent is compiled
again and the revisions are compared. A revision covers the facts in their canonical order, so a
plan that is still current was compiled from the same facts.
-/

namespace Solovey.Network

open Solovey.Text Solovey.Data List

/-- `Intent`: the binding of an owner, with the resources that it is bound to. -/
structure PlanIntent where
  binding : Intent
  configurationRevision : Str
  resources : List ResourceBinding

structure Plan where
  intent : PlanIntent
  facts : ObservedFacts
  revision : Str

structure Accepted where
  plan : Plan
  candidateDigest : Str

inductive Refusal
  | conflict (reason : Reason)
  | stalePlan
  | candidateChanged

section

variable (revisions : Revisions)

def canonicalIntent (intent : PlanIntent) : PlanIntent :=
  { intent with resources := sortBy revisions.binding intent.resources }

/-- What the revision of a plan is the hash of. -/
def PlanIntent.identity (intent : PlanIntent) (facts : ObservedFacts) : Identity :=
  ⟨intent.binding, intent.configurationRevision, intent.resources, facts⟩

/-- `Compile` -/
def compilePlan (intent : PlanIntent) (facts : ObservedFacts) : Except Refusal Plan :=
  let intent := canonicalIntent revisions intent
  let facts := canonicalFacts revisions facts
  if intent.configurationRevision ≠ [] ∧ !digest intent.configurationRevision then
    .error (.conflict .invalidIntent)
  else
    match compile intent.binding intent.resources facts.facts with
    | .error reason => .error (.conflict reason)
    | .ok () => .ok ⟨intent, facts, revisions.plan (intent.identity facts)⟩

def checkCurrent (plan : Plan) (current : ObservedFacts) : Except Refusal Unit :=
  if !digest plan.revision then .error (.conflict .invalidIntent)
  else
    match compilePlan revisions plan.intent current with
    | .error refusal => .error refusal
    | .ok next => if next.revision ≠ plan.revision then .error .stalePlan else .ok ()

def accept (plan : Plan) (current : ObservedFacts) (validatedCandidateDigest : Str) :
    Except Refusal Accepted :=
  match checkCurrent revisions plan current with
  | .error refusal => .error refusal
  | .ok () =>
    if !digest validatedCandidateDigest then .error .candidateChanged
    else .ok ⟨plan, validatedCandidateDigest⟩

def checkAccepted (accepted : Accepted) (current : ObservedFacts) (candidateDigest : Str) :
    Except Refusal Unit :=
  if accepted.candidateDigest = [] ∨ accepted.candidateDigest ≠ candidateDigest then
    .error .candidateChanged
  else checkCurrent revisions accepted.plan current

end

/-! ## What the checks leave -/

variable {revisions : Revisions} {intent : PlanIntent} {facts current : ObservedFacts} {plan : Plan}

theorem canonicalFacts_permutes (facts : ObservedFacts) :
    facts.Permutes (canonicalFacts revisions facts) :=
  ⟨rfl, rfl, rfl, rfl, rfl, rfl, rfl, perm_insertionSort _ _, perm_insertionSort _ _,
    perm_insertionSort _ _⟩

theorem ObservedFacts.Permutes.trans {facts facts' facts'' : ObservedFacts}
    (h : facts.Permutes facts') (h' : facts'.Permutes facts'') : facts.Permutes facts'' :=
  ⟨h'.hostRef.trans h.hostRef, h'.revision.trans h.revision,
    h'.capabilityRevision.trans h.capabilityRevision, h'.available.trans h.available,
    h'.backend.trans h.backend, h'.reason.trans h.reason,
    h'.inventoryComplete.trans h.inventoryComplete, h'.resources.trans h.resources,
    h'.allocations.trans h.allocations, h'.continuity.trans h.continuity⟩

theorem compile_bindings {b : Intent} {rs : List ResourceBinding} {facts : Facts}
    (h : compile b rs facts = .ok ()) : checkBindings facts rs [] = .ok () := by
  unfold compile at h
  split at h
  · cases h
  split at h
  · cases h
  split at h
  · cases h
  split at h
  · cases h
  · assumption

/-- What a compiled plan consists of, and that its bindings were found. -/
theorem compilePlan_ok (h : compilePlan revisions intent facts = .ok plan) :
    plan = ⟨canonicalIntent revisions intent, canonicalFacts revisions facts,
      revisions.plan ((canonicalIntent revisions intent).identity
        (canonicalFacts revisions facts))⟩ ∧
    checkBindings (canonicalFacts revisions facts).facts
      (canonicalIntent revisions intent).resources [] = .ok () := by
  simp only [compilePlan] at h
  split at h
  · cases h
  split at h
  · cases h
  next hc =>
    cases h
    exact ⟨rfl, compile_bindings hc⟩

theorem checkManagement_ok {facts : Facts} {b : ResourceBinding}
    (h : checkManagement facts b = .ok ()) :
    (∃ e ∈ facts.continuity, e.resourceRef = b.resourceRef ∧
      e.endpointRevision = b.endpointRevision ∧ e.status = "VERIFIED".toList) ∧
    ∀ e ∈ facts.continuity, e.resourceRef = b.resourceRef →
      e.endpointRevision = b.endpointRevision → e.status ≠ "BLOCKED".toList := by
  simp only [checkManagement] at h
  split at h
  · cases h
  next hb =>
    split at h
    next hv =>
      simp only [any_eq_true, mem_filter, Bool.and_eq_true, beq_iff_eq] at hv hb
      obtain ⟨e, ⟨hm, hr, hrv⟩, hs⟩ := hv
      exact ⟨⟨e, hm, hr, hrv, hs⟩, fun e hm hr hrv hs => hb ⟨e, ⟨hm, hr, hrv⟩, hs⟩⟩
    · cases h

/-- A plan that is still current: it compiles from the new facts to the same revision. -/
theorem checkCurrent_ok (h : checkCurrent revisions plan current = .ok ()) :
    ∃ next, compilePlan revisions plan.intent current = .ok next ∧
      next.revision = plan.revision := by
  unfold checkCurrent at h
  split at h
  · cases h
  split at h
  · cases h
  next next hn =>
    split at h
    · cases h
    next hr => exact ⟨next, hn, not_not.mp hr⟩

/-- A plan that was accepted and passes its check is bound to its facts. -/
theorem accepted_bound (hplan : compilePlan revisions intent facts = .ok plan)
    {seen : ObservedFacts} {validated candidate : Str} {accepted : Accepted}
    (haccept : accept revisions plan seen validated = .ok accepted)
    (hcheck : checkAccepted revisions accepted current candidate = .ok ()) :
    facts.Permutes current ∧ (∀ binding ∈ intent.resources, binding ∈ current.resources) ∧
    ∀ binding ∈ intent.resources, binding.management = true →
      (∃ entry ∈ current.continuity, entry.resourceRef = binding.resourceRef ∧
        entry.endpointRevision = binding.endpointRevision ∧ entry.status = "VERIFIED".toList) ∧
      ∀ entry ∈ current.continuity, entry.resourceRef = binding.resourceRef →
        entry.endpointRevision = binding.endpointRevision → entry.status ≠ "BLOCKED".toList := by
  have hs : accepted.plan = plan := by
    unfold accept at haccept
    split at haccept
    · cases haccept
    split at haccept
    · cases haccept
    · cases haccept
      rfl
  have hcr : checkCurrent revisions plan current = .ok () := by
    unfold checkAccepted at hcheck
    split at hcheck
    · cases hcheck
    · rwa [hs] at hcheck
  obtain ⟨next, hn, hr⟩ := checkCurrent_ok hcr
  obtain ⟨rfl, -⟩ := compilePlan_ok hplan
  obtain ⟨rfl, hb⟩ := compilePlan_ok hn
  -- The revisions agree, so the canonical facts do.
  have hf : canonicalFacts revisions current = canonicalFacts revisions facts :=
    congrArg Identity.facts (revisions.plan_injective hr)
  have hp : current.Permutes (canonicalFacts revisions current) := canonicalFacts_permutes current
  have hfn : ∀ binding ∈ intent.resources,
      binding ∈ (canonicalIntent revisions (canonicalIntent revisions intent)).resources := by
    intro binding hm
    simpa [canonicalIntent, sortBy] using hm
  obtain ⟨hc, -⟩ := checkBindings_eq_ok.mp hb
  refine ⟨(canonicalFacts_permutes facts).trans (hf ▸ hp.symm), fun binding hm => ?_,
    fun binding hm hmn => ?_⟩
  · exact hp.resources.mem_iff.mp (hc binding (hfn binding hm)).2.2.2.2.1
  · obtain ⟨⟨entry, he, hv⟩, hbl⟩ :=
      checkManagement_ok ((hc binding (hfn binding hm)).2.2.2.2.2 hmn)
    exact ⟨⟨entry, hp.continuity.mem_iff.mp he, hv⟩,
      fun entry he => hbl entry (hp.continuity.mem_iff.mpr he)⟩

namespace Sample

/-- The panel's own socket, which must stay reachable. -/
def panel : ResourceBinding := { binding "panel:https" 'b' with management := true }

def panelIntent : PlanIntent := ⟨(Sample.intent []).binding, [], [panel]⟩

def panelFacts : ObservedFacts :=
  { observed with
    resources := [panel]
    continuity := [⟨panel.resourceRef, panel.endpointRevision, "VERIFIED".toList⟩] }

/-- Revisions that give one identity the form of a digest. -/
theorem exists_revisions_digest (i : Identity) :
    ∃ revisions : Revisions, revisions.plan i = revision 'a' := by
  obtain ⟨revisions⟩ := exists_revisions
  refine ⟨{ revisions with
    plan := fun other => Equiv.swap (revisions.plan i) (revision 'a') (revisions.plan other)
    plan_injective := (Equiv.injective _).comp revisions.plan_injective }, ?_⟩
  exact Equiv.swap_apply_left _ _

end Sample

theorem accepted_bound_panel : ∃ (revisions : Revisions) (plan : Plan) (accepted : Accepted),
    compilePlan revisions Sample.panelIntent Sample.panelFacts = .ok plan ∧
    accept revisions plan Sample.panelFacts (Sample.revision 'd') = .ok accepted ∧
    checkAccepted revisions accepted Sample.panelFacts (Sample.revision 'd') = .ok () ∧
    Sample.panel ∈ Sample.panelFacts.resources := by
  obtain ⟨revisions, hr⟩ :=
    Sample.exists_revisions_digest (Sample.panelIntent.identity Sample.panelFacts)
  let plan : Plan := ⟨Sample.panelIntent, Sample.panelFacts, Sample.revision 'a'⟩
  have hch : compile Sample.panelIntent.binding Sample.panelIntent.resources
      Sample.panelFacts.facts = .ok () := by rfl
  have hplan : compilePlan revisions Sample.panelIntent Sample.panelFacts = .ok plan := by
    have hi : canonicalIntent revisions Sample.panelIntent = Sample.panelIntent := rfl
    have hf : canonicalFacts revisions Sample.panelFacts = Sample.panelFacts := rfl
    simp only [compilePlan, hi, hf, hch, hr]
    rfl
  have hcr : checkCurrent revisions plan Sample.panelFacts = .ok () := by
    have hd : digest plan.revision = true := by decide +kernel
    simp only [checkCurrent, hd]
    rw [show plan.intent = Sample.panelIntent from rfl, hplan]
    simp
  have ha : accept revisions plan Sample.panelFacts (Sample.revision 'd') =
      .ok ⟨plan, Sample.revision 'd'⟩ := by
    have hd : digest (Sample.revision 'd') = true := by decide +kernel
    simp [accept, hcr, hd]
  have hc : checkAccepted revisions ⟨plan, Sample.revision 'd'⟩ Sample.panelFacts
      (Sample.revision 'd') = .ok () := by
    have hne : Sample.revision 'd' ≠ [] := by decide
    simp [checkAccepted, hne, hcr]
  exact ⟨revisions, plan, _, hplan, ha, hc,
    (accepted_bound hplan ha hc).2.1 Sample.panel mem_cons_self⟩

end Solovey.Network
