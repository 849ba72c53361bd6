import Solovey.Network.Enforcement
import Solovey.Network.Order

/-!
# The identity of a plan

`CompileProtection` and `RenderProtection` on whole intents and facts, with the revision that names
a plan. Revisions are hashes of JSON texts, taken to tell apart what they hash. The plan does not
depend on the order of the lists exactly if the sort keys of the canonical order separate the
endpoints and the exemptions.
-/

namespace Solovey.Network

open Solovey.Text Solovey.Net Solovey.Data List

/-! ## Intents, facts and revisions -/

/-- An intent with the lists of the legacy table. -/
@[ext]
structure EnforcementIntent extends ProtectionEnforcementIntent where
  allowTCPPorts : List ℤ
  allowUDPPorts : List ℤ
  graylistCIDRs : List Str
  deriving DecidableEq

structure ObservedAllocation extends Allocation where
  purpose : Str
  identityMismatch : Bool

/-- The facts of a host with everything that the identity of a plan covers. -/
structure ObservedFacts where
  hostRef : HostRef
  revision : Str
  capabilityRevision : Str
  available : Bool
  backend : Str
  reason : Str
  inventoryComplete : Bool
  resources : List ResourceBinding
  allocations : List ObservedAllocation
  continuity : List Continuity

/-- The part that is checked. -/
def ObservedFacts.facts (observed : ObservedFacts) : Facts where
  hostRef := observed.hostRef
  revision := observed.revision
  capabilityRevision := observed.capabilityRevision
  available := observed.available
  backend := observed.backend
  inventoryComplete := observed.inventoryComplete
  resources := observed.resources
  allocations := observed.allocations.map ObservedAllocation.toAllocation
  continuity := observed.continuity

/-- What the revision of a plan covers. -/
structure Identity where
  intent : Intent
  configurationRevision : Str
  resources : List ResourceBinding
  facts : ObservedFacts

/-- `revision` at the types it is used at: the digest of the JSON text of a value. Both are taken as
injective. For the digest this is its collision resistance. The JSON text is injective on texts that
are valid UTF-8 only: `json.Marshal` writes U+FFFD for every invalid byte. -/
structure Revisions where
  source : TimedSource → Str
  binding : ResourceBinding → Str
  allocation : ObservedAllocation → Str
  continuity : Continuity → Str
  configuration : EnforcementIntent → Str
  plan : Identity → Str
  source_injective : Function.Injective source
  binding_injective : Function.Injective binding
  allocation_injective : Function.Injective allocation
  continuity_injective : Function.Injective continuity
  configuration_injective : Function.Injective configuration
  plan_injective : Function.Injective plan

/-! ## Compiling -/

def Intent.zero : Intent := ⟨⟨[], []⟩, [], [], [], [], []⟩

section

variable (revisions : Revisions)

/-- `canonicalProtection`. -/
def canonicalEnforcement (intent : EnforcementIntent) : EnforcementIntent where
  toProtectionEnforcementIntent :=
    canonicalProtection revisions.source intent.toProtectionEnforcementIntent
  allowTCPPorts := intent.allowTCPPorts.insertionSort fun a b => id a ≤ id b
  allowUDPPorts := intent.allowUDPPorts.insertionSort fun a b => id a ≤ id b
  graylistCIDRs := sortBy id intent.graylistCIDRs

def canonicalFacts (facts : ObservedFacts) : ObservedFacts :=
  { facts with
    resources := sortBy revisions.binding facts.resources
    allocations := sortBy revisions.allocation facts.allocations
    continuity := sortBy revisions.continuity facts.continuity }

structure ProtectionPlan where
  revision : Str
  intent : EnforcementIntent

/-- What a plan is named by: the configuration without its binding, the bindings of the endpoints
and the facts, each in canonical order. -/
def planIdentity (intent : EnforcementIntent) (facts : ObservedFacts) : Identity where
  intent := intent.binding
  configurationRevision := revisions.configuration { intent with binding := .zero }
  resources := sortBy revisions.binding (intent.endpoints.map ProtectionEndpoint.binding)
  facts := facts

/-- `CompileProtection`. The bindings are checked in the order of the endpoints; with the order of
their revisions another one of several conflicts may be reported. -/
def compileEnforcement (intent : EnforcementIntent) (facts : ObservedFacts) :
    Except Reason ProtectionPlan :=
  let canonical := canonicalEnforcement revisions intent
  let facts := canonicalFacts revisions facts
  match compileProtection revisions.source intent.toProtectionEnforcementIntent facts.facts with
  | .error reason => .error reason
  | .ok _ => .ok ⟨revisions.plan (planIdentity revisions canonical facts), canonical⟩

end

/-! ## Rendering -/

def commaList (values : List Str) : Str := ", ".toList.intercalate values

def portSetText (name : String) (ports : List ℤ) : Str :=
  "  set ".toList ++ name.toList ++
    " \x7b\n    type inet_service\n    flags interval\n    elements = \x7b ".toList ++
    commaList (ports.map integer) ++ " \x7d\n  \x7d\n".toList

def addressSetText (name addressType : String) (values : List Str) : Str :=
  "  set ".toList ++ name.toList ++ " \x7b\n    type ".toList ++ addressType.toList ++
    "\n    flags interval\n    elements = \x7b ".toList ++ commaList values ++
    " \x7d\n  \x7d\n".toList

def cidrSetsText (cidrs : List Str) : Str :=
  addressSetText "solovey_graylist4" "ipv4_addr" (cidrs.filter fun cidr => !cidr.contains ':') ++
    addressSetText "solovey_graylist6" "ipv6_addr" (cidrs.filter fun cidr => cidr.contains ':')

/-- `renderLegacyProtection` -/
def renderLegacyProtection (intent : EnforcementIntent) (managed : Bool) : Str :=
  "table inet solovey_protection \x7b\n".toList ++
    (if managed then "  comment ".toList ++ revisionWord intent.artifactRevision ++ "\n".toList
      else []) ++
    portSetText "solovey_allow_tcp_ports" intent.allowTCPPorts ++
    portSetText "solovey_allow_udp_ports" intent.allowUDPPorts ++
    cidrSetsText intent.graylistCIDRs ++
    "  chain solovey_input_precheck \x7b\n".toList ++
    "    type filter hook input priority filter; policy accept;\n".toList ++
    (if intent.allowTCPPorts.isEmpty then []
      else "    meta l4proto tcp tcp dport @solovey_allow_tcp_ports counter accept\n".toList) ++
    (if intent.allowUDPPorts.isEmpty then []
      else "    meta l4proto udp udp dport @solovey_allow_udp_ports counter accept\n".toList) ++
    "  \x7d\n".toList ++
    "  chain solovey_tcp_public \x7b\n    counter accept\n  \x7d\n".toList ++
    "  chain solovey_udp_public \x7b\n    counter accept\n  \x7d\n".toList ++ "\x7d\n".toList

/-- `RenderProtection` in both modes. -/
def renderEnforcement (revisions : Revisions) (intent : EnforcementIntent) (managed : Bool)
    (at_ : Option ℤ) : Str :=
  let canonical := canonicalEnforcement revisions intent
  if canonical.mode = .endpointManaged then
    (renderEndpointManaged canonical.toProtectionEnforcementIntent managed at_).text
  else renderLegacyProtection canonical managed

/-! ## Other orders -/

/-- The same endpoint, with its contributions in another order. -/
structure ProtectionEndpoint.Permutes (endpoint endpoint' : ProtectionEndpoint) : Prop where
  binding : endpoint'.binding = endpoint.binding
  key : endpoint'.key = endpoint.key
  udpNew : endpoint'.udpNew = endpoint.udpNew
  contributions : endpoint'.contributions.Perm endpoint.contributions

/-- The same intent, with its lists in another order. -/
structure EnforcementIntent.Permutes (intent intent' : EnforcementIntent) : Prop where
  binding : intent'.binding = intent.binding
  artifactRevision : intent'.artifactRevision = intent.artifactRevision
  mode : intent'.mode = intent.mode
  limits : intent'.limits = intent.limits
  rates : intent'.rates = intent.rates
  endpoints : ∃ endpoints : List ProtectionEndpoint, endpoints.Perm intent.endpoints ∧
    List.Forall₂ ProtectionEndpoint.Permutes endpoints intent'.endpoints
  exemptions : intent'.managementExemptions.Perm intent.managementExemptions
  tcpPorts : intent'.allowTCPPorts.Perm intent.allowTCPPorts
  udpPorts : intent'.allowUDPPorts.Perm intent.allowUDPPorts
  cidrs : intent'.graylistCIDRs.Perm intent.graylistCIDRs

/-- The same facts, with their lists in another order. -/
structure ObservedFacts.Permutes (facts facts' : ObservedFacts) : Prop where
  hostRef : facts'.hostRef = facts.hostRef
  revision : facts'.revision = facts.revision
  capabilityRevision : facts'.capabilityRevision = facts.capabilityRevision
  available : facts'.available = facts.available
  backend : facts'.backend = facts.backend
  reason : facts'.reason = facts.reason
  inventoryComplete : facts'.inventoryComplete = facts.inventoryComplete
  resources : facts'.resources.Perm facts.resources
  allocations : facts'.allocations.Perm facts.allocations
  continuity : facts'.continuity.Perm facts.continuity

variable {revisions : Revisions}

variable {facts' : ObservedFacts}

theorem canonicalFacts_perm {facts : ObservedFacts} (h : facts.Permutes facts') :
    canonicalFacts revisions facts' = canonicalFacts revisions facts := by
  have hr : sortBy revisions.binding facts'.resources = sortBy revisions.binding facts.resources :=
    (Separates.of_injective revisions.binding_injective _).keySort_eq h.resources
  have ha : sortBy revisions.allocation facts'.allocations =
      sortBy revisions.allocation facts.allocations :=
    (Separates.of_injective revisions.allocation_injective _).keySort_eq h.allocations
  have hc : sortBy revisions.continuity facts'.continuity =
      sortBy revisions.continuity facts.continuity :=
    (Separates.of_injective revisions.continuity_injective _).keySort_eq h.continuity
  simp only [canonicalFacts, hr, ha, hc, h.hostRef, h.revision,
    h.capabilityRevision, h.available, h.backend, h.reason, h.inventoryComplete]

/-- An endpoint in its canonical form. -/
def ProtectionEndpoint.canonical (revisions : Revisions) (endpoint : ProtectionEndpoint) :
    ProtectionEndpoint :=
  { endpoint with contributions := sortBy revisions.source endpoint.contributions }

theorem ProtectionEndpoint.Permutes.canonical_eq {e e' : ProtectionEndpoint} (h : e.Permutes e') :
    e'.canonical revisions = e.canonical revisions := by
  have hc : sortBy revisions.source e'.contributions = sortBy revisions.source e.contributions :=
    (Separates.of_injective revisions.source_injective _).keySort_eq h.contributions
  simp only [ProtectionEndpoint.canonical, hc, h.binding, h.key, h.udpNew]

theorem canonical_endpoints (intent : EnforcementIntent) :
    (canonicalEnforcement revisions intent).endpoints = sortBy ProtectionEndpoint.sortKey
        (intent.endpoints.map (ProtectionEndpoint.canonical revisions)) :=
  map_insertionSort _ _ _ _ fun _ _ _ _ => Iff.rfl

theorem canonical_exemptions (intent : EnforcementIntent) :
    (canonicalEnforcement revisions intent).managementExemptions =
      sortBy ProtectionExemption.sortKey intent.managementExemptions := rfl

theorem canonical_map_eq {es es' : List ProtectionEndpoint}
    (h : List.Forall₂ ProtectionEndpoint.Permutes es es') :
    es'.map (ProtectionEndpoint.canonical revisions) =
      es.map (ProtectionEndpoint.canonical revisions) := by
  induction h with
  | nil => rfl
  | cons hf _ ih => rw [map_cons, map_cons, hf.canonical_eq, ih]

variable {intent' : EnforcementIntent}

theorem EnforcementIntent.Permutes.canonical_perm {intent : EnforcementIntent}
    (h : intent.Permutes intent') :
    (intent'.endpoints.map (ProtectionEndpoint.canonical revisions)).Perm
      (intent.endpoints.map (ProtectionEndpoint.canonical revisions)) := by
  obtain ⟨es, hp, hs⟩ := h.endpoints
  rw [canonical_map_eq hs]
  exact hp.map _

/-- The canonical forms differ in the order of endpoints and exemptions at most. -/
theorem EnforcementIntent.Permutes.reordered {intent : EnforcementIntent}
    (h : intent.Permutes intent') :
    (canonicalEnforcement revisions intent).toProtectionEnforcementIntent.Reordered
      (canonicalEnforcement revisions intent').toProtectionEnforcementIntent := by
  refine ⟨h.binding, h.artifactRevision, h.mode, h.limits, h.rates, ?_, ?_⟩
  · rw [canonical_endpoints, canonical_endpoints]
    exact ((perm_insertionSort _ _).trans h.canonical_perm).trans (perm_insertionSort _ _).symm
  · exact ((perm_insertionSort _ _).trans h.exemptions).trans (perm_insertionSort _ _).symm

variable {plan : ProtectionPlan}

theorem compileEnforcement_ok {intent : EnforcementIntent} {facts : ObservedFacts}
    (h : compileEnforcement revisions intent facts = .ok plan) :
    (∃ checked, compileProtection revisions.source intent.toProtectionEnforcementIntent
      (canonicalFacts revisions facts).facts = .ok checked) ∧
    plan = ⟨revisions.plan (planIdentity revisions (canonicalEnforcement revisions intent)
      (canonicalFacts revisions facts)), canonicalEnforcement revisions intent⟩ := by
  simp only [compileEnforcement] at h
  split at h
  · cases h
  next checked hc => exact ⟨⟨checked, hc⟩, (Except.ok.inj h).symm⟩

/-- An intent is accepted in every order or in none. -/
theorem compileEnforcement_perm {intent : EnforcementIntent} {facts : ObservedFacts}
    (hi : intent.Permutes intent') (hf : facts.Permutes facts')
    (h : compileEnforcement revisions intent facts = .ok plan) :
    compileEnforcement revisions intent' facts' =
      .ok ⟨revisions.plan (planIdentity revisions (canonicalEnforcement revisions intent')
        (canonicalFacts revisions facts)), canonicalEnforcement revisions intent'⟩ := by
  obtain ⟨⟨checked, hc⟩, -⟩ := compileEnforcement_ok h
  obtain ⟨checked', hc'⟩ := compileProtection_reordered hi.reordered hc
  simp only [compileEnforcement, canonicalFacts_perm hf, hc']

theorem ProtectionEndpoint.Permutes.refl (e : ProtectionEndpoint) :
    e.Permutes e := ⟨rfl, rfl, rfl, .refl _⟩

theorem ProtectionEndpoint.Permutes.symm {e e' : ProtectionEndpoint} (h : e.Permutes e') :
    e'.Permutes e :=
  ⟨h.binding.symm, h.key.symm, h.udpNew.symm, h.contributions.symm⟩

theorem EnforcementIntent.Permutes.symm {intent : EnforcementIntent} (h : intent.Permutes intent') :
    intent'.Permutes intent := by
  refine ⟨h.binding.symm, h.artifactRevision.symm, h.mode.symm, h.limits.symm, h.rates.symm, ?_,
    h.exemptions.symm, h.tcpPorts.symm, h.udpPorts.symm, h.cidrs.symm⟩
  obtain ⟨es, hp, hs⟩ := h.endpoints
  obtain ⟨es', hs', hp'⟩ := perm_comp_forall₂ hp.symm hs
  exact ⟨es', hp', hs'.flip.imp fun _ _ hb => hb.symm⟩

theorem ObservedFacts.Permutes.symm {facts : ObservedFacts} (h : facts.Permutes facts') :
    facts'.Permutes facts :=
  ⟨h.hostRef.symm, h.revision.symm, h.capabilityRevision.symm, h.available.symm, h.backend.symm,
    h.reason.symm, h.inventoryComplete.symm, h.resources.symm, h.allocations.symm,
    h.continuity.symm⟩

/-! ## Separated intents -/

/-- The sort keys tell the endpoints apart, and the exemptions. -/
structure EnforcementIntent.Separated (intent : EnforcementIntent) : Prop where
  endpoints : Separates ProtectionEndpoint.sortKey intent.endpoints
  exemptions : Separates ProtectionExemption.sortKey intent.managementExemptions

theorem EnforcementIntent.Separated.canonical_eq {intent : EnforcementIntent}
    (hsp : intent.Separated) (h : intent.Permutes intent') :
    canonicalEnforcement revisions intent' = canonicalEnforcement revisions intent := by
  have hk : Separates ProtectionEndpoint.sortKey
      (intent.endpoints.map (ProtectionEndpoint.canonical revisions)) := by
    intro _ hf _ hs heq
    obtain ⟨a, ha, rfl⟩ := mem_map.mp hf
    obtain ⟨b, hb, rfl⟩ := mem_map.mp hs
    rw [hsp.endpoints a ha b hb heq]
  have hep : (canonicalEnforcement revisions intent').endpoints =
      (canonicalEnforcement revisions intent).endpoints := by
    rw [canonical_endpoints, canonical_endpoints]
    exact hk.keySort_eq h.canonical_perm
  have he : (canonicalEnforcement revisions intent').managementExemptions =
      (canonicalEnforcement revisions intent).managementExemptions :=
    hsp.exemptions.keySort_eq h.exemptions
  have ht : (canonicalEnforcement revisions intent').allowTCPPorts =
      (canonicalEnforcement revisions intent).allowTCPPorts :=
    (Separates.of_injective Function.injective_id _).keySort_eq h.tcpPorts
  have hu : (canonicalEnforcement revisions intent').allowUDPPorts =
      (canonicalEnforcement revisions intent).allowUDPPorts :=
    (Separates.of_injective Function.injective_id _).keySort_eq h.udpPorts
  have hc : (canonicalEnforcement revisions intent').graylistCIDRs =
      (canonicalEnforcement revisions intent).graylistCIDRs :=
    (Separates.of_injective Function.injective_id _).keySort_eq h.cidrs
  exact EnforcementIntent.ext h.binding h.artifactRevision h.mode hep he h.limits h.rates ht hu hc

/-- The revision of a plan determines its canonical intent. -/
theorem planIdentity_injective {c c' : EnforcementIntent} {facts : ObservedFacts}
    (h : revisions.plan (planIdentity revisions c' facts) =
      revisions.plan (planIdentity revisions c facts)) :
    c'.endpoints = c.endpoints ∧ c'.managementExemptions = c.managementExemptions := by
  have hc := revisions.configuration_injective
    (congrArg Identity.configurationRevision (revisions.plan_injective h))
  simp only [EnforcementIntent.mk.injEq, ProtectionEnforcementIntent.mk.injEq] at hc
  exact ⟨hc.1.2.2.2.1, hc.1.2.2.2.2.1⟩

theorem EnforcementIntent.Permutes.of_endpoints (intent : EnforcementIntent)
    {es : List ProtectionEndpoint} (h : es.Perm intent.endpoints) :
    intent.Permutes { intent with endpoints := es } :=
  ⟨rfl, rfl, rfl, rfl, rfl, ⟨es, h, forall₂_same.mpr fun endpoint _ => .refl endpoint⟩,
    .refl _, .refl _, .refl _, .refl _⟩

theorem EnforcementIntent.Permutes.of_exemptions (intent : EnforcementIntent)
    {es : List ProtectionExemption} (h : es.Perm intent.managementExemptions) :
    intent.Permutes { intent with managementExemptions := es } :=
  ⟨rfl, rfl, rfl, rfl, rfl,
    ⟨_, .refl _, forall₂_same.mpr fun endpoint _ => .refl endpoint⟩, h, .refl _, .refl _, .refl _⟩

theorem ObservedFacts.Permutes.refl (facts : ObservedFacts) : facts.Permutes facts :=
  ⟨rfl, rfl, rfl, rfl, rfl, rfl, rfl, .refl _, .refl _, .refl _⟩

/-- If the revision of an accepted plan is the same in every order, the intent is separated. -/
theorem EnforcementIntent.separated_of_revision {intent : EnforcementIntent} {facts : ObservedFacts}
    (h : compileEnforcement revisions intent facts = .ok plan)
    (hs : ∀ intent' plan', intent.Permutes intent' →
      compileEnforcement revisions intent' facts = .ok plan' → plan'.revision = plan.revision) :
    intent.Separated := by
  obtain ⟨⟨checked, hc⟩, rfl⟩ := compileEnforcement_ok h
  have hcn : ∀ intent', intent.Permutes intent' →
      (canonicalEnforcement revisions intent').endpoints =
        (canonicalEnforcement revisions intent).endpoints ∧
      (canonicalEnforcement revisions intent').managementExemptions =
        (canonicalEnforcement revisions intent).managementExemptions := fun intent' hp =>
    planIdentity_injective (hs intent' _ hp (compileEnforcement_perm hp (.refl facts) h))
  constructor
  · intro a ha b hb heq
    have hk : ∀ endpoint : ProtectionEndpoint,
        (endpoint.canonical revisions).sortKey = endpoint.sortKey := fun _ => rfl
    have he : a.canonical revisions = b.canonical revisions :=
      eq_of_keySort hk (fun es hp => (hcn _ (.of_endpoints intent hp)).1) ha hb heq
    have hn := congrArg ProtectionEndpoint.name he
    exact inj_on_of_nodup_map (compileProtection_names hc) ha hb hn
  · intro a ha b hb heq
    have hk : ∀ e : ProtectionExemption, (id e).sortKey = e.sortKey := fun _ => rfl
    refine eq_of_keySort hk (fun ex hp => ?_) ha hb heq
    rw [List.map_id, List.map_id]
    exact (hcn _ (.of_exemptions intent hp)).2

/-- The plan and the table of an intent are the same in every order. -/
def OrderFree (revisions : Revisions) (intent : EnforcementIntent) (facts : ObservedFacts)
    (plan : ProtectionPlan) : Prop :=
  ∀ intent' facts', intent.Permutes intent' → facts.Permutes facts' →
    (∃ plan', compileEnforcement revisions intent' facts' = .ok plan' ∧
      plan'.revision = plan.revision) ∧
    ∀ managed at_, renderEnforcement revisions intent' managed at_ =
      renderEnforcement revisions intent managed at_

/-! ## Samples -/

theorem find?_sortBy_cons {α : Type} (k : α → Str) (a : α) (l : List α) :
    (sortBy k (a :: l)).find? (fun b => k b == k a) = some a :=
  find?_keySort_cons (fun b => by simp) l

instance charCountable : Countable Char :=
  Function.Injective.countable fun _ _ h => Char.toNat_inj.mp h

instance uint16Countable : Countable UInt16 :=
  Function.Injective.countable fun _ _ h => UInt16.toNat_inj.mp h

deriving instance Countable for SetClass, TimedSource, ResourceBinding, HostRef, Allocation,
  ObservedAllocation, Continuity, Protocol, Family, PublicEndpointKey, PacketLimit,
  ProtectionLimits, ProtectionRates, ProtectionEndpoint, ProtectionExemption, Intent, Mode,
  ProtectionEnforcementIntent, EnforcementIntent, ObservedFacts, Identity

theorem exists_revision (α : Type) [Countable α] : ∃ f : α → Str, Function.Injective f := by
  obtain ⟨f, hf⟩ := exists_injective_nat α
  refine ⟨fun a => List.replicate (f a) 'a', fun a b h => hf ?_⟩
  simpa using congrArg List.length h

theorem exists_revisions : Nonempty Revisions := by
  obtain ⟨source, hs⟩ := exists_revision TimedSource
  obtain ⟨binding, hb⟩ := exists_revision ResourceBinding
  obtain ⟨a, ha⟩ := exists_revision ObservedAllocation
  obtain ⟨cn, hc⟩ := exists_revision Continuity
  obtain ⟨c, hcn⟩ := exists_revision EnforcementIntent
  obtain ⟨plan, hplan⟩ := exists_revision Identity
  exact ⟨source, binding, a, cn, c, plan, hs, hb, ha, hc, hcn, hplan⟩

namespace Sample

/-- An exemption on a recovery path that ends at an instant. -/
def recovery (expiresAt : ℤ) : ProtectionExemption :=
  ⟨⟨.tcp, .ipv4, "203.0.113.5".toList, 443⟩, "198.51.100.7/32".toList, expiresAt, "ssh".toList⟩

theorem recovery_sortKey (expiresAt expiresAt' : ℤ) :
    (recovery expiresAt).sortKey = (recovery expiresAt').sortKey := rfl

def enforcement (exemptions : List ProtectionExemption) : EnforcementIntent where
  toProtectionEnforcementIntent := { intent [exact] with managementExemptions := exemptions }
  allowTCPPorts := []
  allowUDPPorts := []
  graylistCIDRs := []

def observed : ObservedFacts where
  hostRef := .thisHost
  revision := revision 'e'
  capabilityRevision := revision 'f'
  available := true
  backend := "nft".toList
  reason := []
  inventoryComplete := true
  resources := [binding "inbound:2" 'b']
  allocations := []
  continuity := []

/-- One contribution is in order under every revision. -/
theorem compile_recovery (revisions : Revisions) {es : List ProtectionExemption}
    (h : (compileProtection (fun _ => []) (enforcement es).toProtectionEnforcementIntent
      observed.facts).isOk = true) :
    ∃ plan, compileEnforcement revisions (enforcement es) observed = .ok plan := by
  have hc : canonicalProtection revisions.source (enforcement es).toProtectionEnforcementIntent =
      canonicalProtection (fun _ => []) (enforcement es).toProtectionEnforcementIntent := rfl
  have hf : (canonicalFacts revisions observed).facts = observed.facts := rfl
  cases hch : compileProtection (fun _ => [])
      (enforcement es).toProtectionEnforcementIntent observed.facts with
  | error r =>
    rw [hch] at h
    cases h
  | ok checked =>
    simp only [compileProtection] at hch
    simp only [compileEnforcement, compileProtection, hc, hf, hch]
    exact ⟨_, rfl⟩

end Sample

/-- Whether an intent is accepted does not depend on the order of its lists and of the lists of the
facts. The revision of its plan and the text of its table do not depend on them exactly if the sort
keys of the canonical order separate its endpoints and its exemptions. -/
theorem plan_identity (revisions : Revisions) (intent : EnforcementIntent) (facts : ObservedFacts) :
    (∀ intent' facts', intent.Permutes intent' → facts.Permutes facts' →
      ((∃ plan, compileEnforcement revisions intent' facts' = .ok plan) ↔
        ∃ plan, compileEnforcement revisions intent facts = .ok plan)) ∧
    (∀ plan, compileEnforcement revisions intent facts = .ok plan →
      (OrderFree revisions intent facts plan ↔ intent.Separated)) ∧
    (intent.Separated → ∀ intent', intent.Permutes intent' → ∀ managed at_,
      renderEnforcement revisions intent' managed at_ =
        renderEnforcement revisions intent managed at_) := by
  have ht : intent.Separated → ∀ intent', intent.Permutes intent' → ∀ managed at_,
      renderEnforcement revisions intent' managed at_ =
        renderEnforcement revisions intent managed at_ := by
    intro hs intent' hp managed at_
    simp only [renderEnforcement, hs.canonical_eq hp]
  refine ⟨fun intent' facts' hi hf => ⟨?_, ?_⟩, fun plan hplan => ⟨?_, ?_⟩, ht⟩
  · rintro ⟨plan, hplan⟩
    exact ⟨_, compileEnforcement_perm hi.symm hf.symm hplan⟩
  · rintro ⟨plan, hplan⟩
    exact ⟨_, compileEnforcement_perm hi hf hplan⟩
  · intro hfr
    refine EnforcementIntent.separated_of_revision hplan fun intent' plan' hp hp' => ?_
    obtain ⟨⟨other, ho, hr⟩, -⟩ := hfr intent' facts hp (.refl facts)
    rw [hp'] at ho
    cases ho
    exact hr
  · intro hs intent' facts' hi hf
    refine ⟨⟨_, compileEnforcement_perm hi hf hplan, ?_⟩, ht hs intent' hi⟩
    rw [hs.canonical_eq hi, (compileEnforcement_ok hplan).2]

/-- Two exemptions on different recovery paths: the other order is accepted too, and names the same
plan. -/
theorem plan_identity_recovery :
    ∃ revisions plan plan', ∃ exemptions : List ProtectionExemption, exemptions.Nodup ∧
      compileEnforcement revisions (Sample.enforcement exemptions) Sample.observed = .ok plan ∧
      exemptions.reverse ≠ exemptions ∧
      compileEnforcement revisions (Sample.enforcement exemptions.reverse) Sample.observed =
        .ok plan' ∧ plan'.revision = plan.revision := by
  obtain ⟨revisions⟩ := exists_revisions
  let console : ProtectionExemption :=
    { Sample.recovery 1900000600 with recoveryPathID := "console".toList }
  have hac : ∃ plan, compileEnforcement revisions
      (Sample.enforcement [Sample.recovery 1900000000, console]) Sample.observed = .ok plan :=
    Sample.compile_recovery revisions (by decide +kernel)
  obtain ⟨plan, hplan⟩ := hac
  have hseparated :
      (Sample.enforcement [Sample.recovery 1900000000, console]).Separated := by
    refine ⟨?_, ?_⟩
    · intro a ha b hb _
      rw [mem_singleton.mp ha, mem_singleton.mp hb]
    · unfold Separates
      decide +kernel
  have hfree := ((plan_identity revisions _ _).2.1 plan hplan).mpr hseparated
  obtain ⟨⟨plan', hplan', hrevision⟩, -⟩ := hfree (Sample.enforcement _) Sample.observed
    (.of_exemptions _ (reverse_perm _)) (.refl _)
  exact ⟨revisions, plan, plan', _, by decide, hplan, by decide, hplan', hrevision⟩

/-- Two exemptions on one recovery path that end at different instants: the two orders are accepted
and name different plans. -/
theorem plan_identity_ordered :
    Nonempty Revisions ∧ ∀ revisions : Revisions, ∃ intent intent' facts plan plan',
      intent.Permutes intent' ∧ compileEnforcement revisions intent facts = .ok plan ∧
      compileEnforcement revisions intent' facts = .ok plan' ∧
      plan'.revision ≠ plan.revision := by
  refine ⟨exists_revisions, fun revisions => ?_⟩
  have ha : ∃ plan, compileEnforcement revisions
      (Sample.enforcement [Sample.recovery 1900000000, Sample.recovery 1900000600])
      Sample.observed = .ok plan := Sample.compile_recovery revisions (by decide +kernel)
  obtain ⟨plan, hplan⟩ := ha
  have hp : (Sample.enforcement [Sample.recovery 1900000000,
      Sample.recovery 1900000600]).Permutes (Sample.enforcement [Sample.recovery 1900000600,
      Sample.recovery 1900000000]) := .of_exemptions _ (List.Perm.swap _ _ _)
  refine ⟨_, _, _, plan, _, hp, hplan, compileEnforcement_perm hp (.refl _) hplan, ?_⟩
  rw [(compileEnforcement_ok hplan).2]
  intro hr
  have hex := (planIdentity_injective hr).2
  rw [canonical_exemptions, canonical_exemptions] at hex
  -- The stable order leaves each exemption in front that came first.
  have hl := find?_sortBy_cons ProtectionExemption.sortKey (Sample.recovery 1900000600)
    [Sample.recovery 1900000000]
  have he := find?_sortBy_cons ProtectionExemption.sortKey (Sample.recovery 1900000000)
    [Sample.recovery 1900000600]
  rw [Sample.recovery_sortKey 1900000600 1900000000] at hl
  have hs := (congrArg (List.find? _) hex).symm.trans hl
  have hep := congrArg ProtectionExemption.expiresAt (Option.some.inj (he.symm.trans hs))
  exact absurd hep (by decide)

end Solovey.Network
