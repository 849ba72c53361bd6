import Solovey.Net.Address

/-!
# Protection plans

`network/planner`: the enforcement intent of the server protection, brought into its canonical order
and checked against the facts of the host. The socket of an endpoint is a `PublicEndpointKey` of
`componenthost/resources`, whose bind address is normalised whenever it is read. Revisions are
functions of what they hash.
-/

namespace Solovey.Network

open Solovey.Text Solovey.Net List

/-! ## Socket keys -/

inductive Protocol
  | tcp
  | udp
  | other (text : Str)
  deriving DecidableEq

def Protocol.text : Protocol → Str
  | .tcp => "tcp".toList
  | .udp => "udp".toList
  | .other text => text

inductive Family
  | ipv4
  | ipv6
  | other (text : Str)
  deriving DecidableEq

def Family.text : Family → Str
  | .ipv4 => "ipv4".toList
  | .ipv6 => "ipv6".toList
  | .other text => text

inductive ListenClass
  | wildcard
  | ipv4Wildcard
  | ipv6Wildcard
  | loopback
  | publicExact
  | hostname
  deriving DecidableEq

structure NormalizedListen where
  value : Str
  kind : ListenClass

def NormalizedListen.wildcard (listen : NormalizedListen) : Bool :=
  listen.kind == .wildcard || listen.kind == .ipv4Wildcard || listen.kind == .ipv6Wildcard

def normalizeListen (value : Str) : NormalizedListen :=
  let value := trimSpace value
  if value = [] ∨ value = "*".toList then ⟨"*".toList, .wildcard⟩
  else
    let value := trimPrefix "[".toList (trimSuffix "]".toList value)
    let lower := toLower (trimSuffix ".".toList value)
    if lower = "0.0.0.0".toList then ⟨lower, .ipv4Wildcard⟩
    else if lower = "::".toList then ⟨lower, .ipv6Wildcard⟩
    else if lower = "localhost".toList then ⟨lower, .loopback⟩
    else
      match readAddr lower with
      | some addr =>
        ⟨addr.unmap.text, if addr.unmap.isLoopback then .loopback else .publicExact⟩
      | none => ⟨lower, .hostname⟩

structure PublicEndpointKey where
  network : Protocol
  addressFamily : Family
  bindAddress : Str
  port : UInt16
  deriving DecidableEq

/-- The text by which keys are compared and sorted. -/
def endpointKeyText (key : PublicEndpointKey) : Str :=
  key.network.text ++ '\x00' :: key.addressFamily.text ++
    '\x00' :: (normalizeListen key.bindAddress).value ++ '\x00' :: decimal key.port.toNat

def validEndpoint (key : PublicEndpointKey) : Bool :=
  if key.port = 0 ∨ key.network ≠ .tcp ∧ key.network ≠ .udp ∨
      key.addressFamily ≠ .ipv4 ∧ key.addressFamily ≠ .ipv6 then false
  else if (normalizeListen key.bindAddress).wildcard then true
  else
    match readAddr (normalizeListen key.bindAddress).value with
    | some address =>
      decide ('%' ∉ (normalizeListen key.bindAddress).value) &&
        address.is4 == decide (key.addressFamily = .ipv4)
    | none => false

/-! ## Intents -/

inductive SetClass
  | gray
  | rate
  | quarantine
  | block
  | other (text : Str)
  deriving DecidableEq

def SetClass.text : SetClass → Str
  | .gray => "gray".toList
  | .rate => "rate".toList
  | .quarantine => "quarantine".toList
  | .block => "block".toList
  | .other text => text

structure TimedSource where
  subject : Str
  kind : SetClass
  expiresAt : ℤ
  ttlSeconds : ℤ
  deriving DecidableEq

structure ProtectionLimits where
  maxElements : ℤ
  defaultTTLSeconds : ℤ
  maxTTLSeconds : ℤ
  deriving DecidableEq

structure PacketLimit where
  rate : ℤ
  burst : ℤ
  deriving DecidableEq

structure ProtectionRates where
  gray : PacketLimit
  rate : PacketLimit
  quarantine : PacketLimit
  deriving DecidableEq

structure ResourceBinding where
  resourceRef : Str
  owner : Str
  desiredRevision : Str
  endpointRevision : Str
  management : Bool
  deriving DecidableEq

structure ProtectionEndpoint where
  binding : ResourceBinding
  key : PublicEndpointKey
  contributions : List TimedSource
  udpNew : Option PacketLimit := none
  deriving DecidableEq

structure ProtectionExemption where
  key : PublicEndpointKey
  sourcePrefix : Str
  expiresAt : ℤ
  recoveryPathID : Str
  deriving DecidableEq

def trustedSource : Str := "trusted-source".toList

structure HostRef where
  kind : Str
  id : Str
  deriving DecidableEq

def HostRef.thisHost : HostRef := ⟨"LOCAL".toList, "local".toList⟩

/-- The binding of an intent to its owner and its revisions. -/
structure Intent where
  hostRef : HostRef
  owner : Str
  resourceRef : Str
  desiredRevision : Str
  inputRevision : Str
  purpose : Str
  deriving DecidableEq

inductive Mode
  | legacy
  | endpointManaged
  | other
  deriving DecidableEq

structure ProtectionEnforcementIntent where
  binding : Intent
  artifactRevision : Str
  mode : Mode
  endpoints : List ProtectionEndpoint
  managementExemptions : List ProtectionExemption
  limits : ProtectionLimits
  rates : ProtectionRates
  deriving DecidableEq

structure Allocation where
  hostRef : HostRef
  owner : Str
  resourceRef : Str
  planRevision : Str
  kind : Str
  allocation : Str
  proven : Bool

structure Continuity where
  resourceRef : Str
  endpointRevision : Str
  status : Str

structure Facts where
  hostRef : HostRef
  revision : Str
  capabilityRevision : Str
  available : Bool
  backend : Str
  inventoryComplete : Bool
  resources : List ResourceBinding
  allocations : List Allocation
  continuity : List Continuity

inductive Reason
  | invalidIntent
  | resourceConflict
  | resourceGone
  | endpointChanged
  | capabilityUnavailable
  | observationUnknown
  | managementUnknown
  | managementBlocked
  | allocationUnavailable
  deriving DecidableEq

/-! ## Canonical order -/

def ProtectionEndpoint.sortKey (endpoint : ProtectionEndpoint) : Str :=
  endpointKeyText endpoint.key ++ '\x00' :: endpoint.binding.resourceRef

def ProtectionExemption.sortKey (exemption : ProtectionExemption) : Str :=
  endpointKeyText exemption.key ++ '\x00' :: exemption.sourcePrefix ++
    '\x00' :: exemption.recoveryPathID

/-- The list in the order of its keys. -/
def sortBy {α : Type} (key : α → Str) (l : List α) : List α :=
  l.insertionSort fun a b => key a ≤ key b

/-- `sourceRevision` is the hash that orders the contributions of an endpoint. -/
def canonicalProtection (sourceRevision : TimedSource → Str)
    (intent : ProtectionEnforcementIntent) : ProtectionEnforcementIntent :=
  { intent with
    endpoints := (sortBy ProtectionEndpoint.sortKey intent.endpoints).map fun endpoint =>
      { endpoint with contributions := sortBy sourceRevision endpoint.contributions },
    managementExemptions := sortBy ProtectionExemption.sortKey intent.managementExemptions }

/-! ## Checks -/

def digest (value : Str) : Bool :=
  value.length == 64 && value.all fun c => c.isDigit || ('a' ≤ c && c ≤ 'f')

def token (value : Str) (limit : ℕ) : Bool :=
  !value.isEmpty && decide (value.length ≤ limit) &&
    value.all fun c => c.isAlphanum || "._:/@+-".toList.contains c

/-- The rest of a binding's check: the continuity of management. -/
def checkManagement (facts : Facts) (binding : ResourceBinding) : Except Reason Unit :=
  let own := facts.continuity.filter fun continuity =>
    continuity.resourceRef == binding.resourceRef &&
      continuity.endpointRevision == binding.endpointRevision
  if own.any (·.status == "BLOCKED".toList) then .error .managementBlocked
  else if own.any (·.status == "VERIFIED".toList) then .ok ()
  else .error .managementUnknown

def checkBindings (facts : Facts) : List ResourceBinding → List (Str × Str) → Except Reason Unit
  | [], _ => .ok ()
  | binding :: rest, seen =>
    if !token binding.resourceRef 256 || !token binding.owner 64 ||
        !digest binding.desiredRevision || !digest binding.endpointRevision ||
        decide ((binding.resourceRef, binding.endpointRevision) ∈ seen) then .error .invalidIntent
    else if !facts.resources.any fun current =>
        current.resourceRef == binding.resourceRef && current.owner == binding.owner then
      .error .resourceGone
    else if binding ∉ facts.resources then .error .endpointChanged
    else
      match if binding.management then checkManagement facts binding else .ok () with
      | .error reason => .error reason
      | .ok () =>
        checkBindings facts rest ((binding.resourceRef, binding.endpointRevision) :: seen)

def protectionAllocation : Str := "inet:solovey_protection".toList

def protectionResourceRef : Str := "managed-table:inet:solovey_protection".toList

/-- `Compile`: the intent's binding against the facts of the host. -/
def compile (intent : Intent) (resources : List ResourceBinding) (facts : Facts) :
    Except Reason Unit :=
  if intent.hostRef ≠ .thisHost ∨ !token intent.owner 64 ∨ !token intent.resourceRef 256 ∨
      !digest intent.desiredRevision ∨ !digest intent.inputRevision ∨
      !token intent.purpose 96 ∨ 4096 < resources.length then .error .invalidIntent
  else if facts.hostRef ≠ .thisHost ∨ !digest facts.revision ∨ !facts.inventoryComplete ∨
      4096 < facts.resources.length ∨ 8192 < facts.allocations.length ∨
      4096 < facts.continuity.length then .error .observationUnknown
  else if !facts.available ∨ !token facts.backend 96 ∨ !digest facts.capabilityRevision then
    .error .capabilityUnavailable
  else
    match checkBindings facts resources [] with
    | .error reason => .error reason
    | .ok () =>
      if facts.allocations.any fun allocation =>
          allocation.allocation == protectionAllocation &&
            (!allocation.proven || allocation.hostRef != intent.hostRef ||
              allocation.owner != intent.owner || allocation.resourceRef != intent.resourceRef ||
              allocation.kind != "filter_table".toList || !digest allocation.planRevision) then
        .error .resourceConflict
      else .ok ()

/-- Is a text the canonical form of a prefix of the key's family? -/
def validSource (key : PublicEndpointKey) (source : Str) : Bool :=
  match readCanonical source with
  | some p => p.addr.is4 == decide (key.addressFamily = .ipv4)
  | none => false

def validContribution (limits : ProtectionLimits) (key : PublicEndpointKey)
    (source : TimedSource) : Bool :=
  validSource key source.subject && (source.kind matches .gray | .rate | .quarantine | .block) &&
    decide (1 ≤ source.ttlSeconds) && decide (source.ttlSeconds ≤ limits.maxTTLSeconds) &&
    decide (0 < source.expiresAt)

def checkEndpoints (limits : ProtectionLimits) :
    List ProtectionEndpoint → List Str → Except Reason Unit
  | [], _ => .ok ()
  | endpoint :: rest, names =>
    if !digest endpoint.binding.endpointRevision || !validEndpoint endpoint.key ||
        decide (limits.maxElements < endpoint.contributions.length) ||
        endpoint.udpNew.any (fun limit => limit != ⟨200, 400⟩ || endpoint.key.network != .udp) then
      .error .invalidIntent
    else if names.contains (endpoint.binding.endpointRevision.take 12) then
      .error .allocationUnavailable
    else if !endpoint.contributions.all (validContribution limits endpoint.key) then
      .error .invalidIntent
    else checkEndpoints limits rest (endpoint.binding.endpointRevision.take 12 :: names)

def validExemption (exemption : ProtectionExemption) : Bool :=
  validEndpoint exemption.key && validSource exemption.key exemption.sourcePrefix &&
    decide (exemption.recoveryPathID = trustedSource ∨ 0 < exemption.expiresAt)

def validLimits (limits : ProtectionLimits) (rates : ProtectionRates) : Bool :=
  decide (1 ≤ limits.maxElements) && decide (limits.maxElements ≤ 4096) &&
    decide (1 ≤ limits.defaultTTLSeconds) && decide (limits.maxTTLSeconds ≤ 86400) &&
    decide (limits.defaultTTLSeconds ≤ limits.maxTTLSeconds) &&
    rates.gray == ⟨5, 10⟩ && rates.rate == ⟨20, 40⟩ && rates.quarantine == ⟨2, 4⟩

/-- `CompileProtection`: the canonical intent, when every part of it is valid. -/
def compileProtection (sourceRevision : TimedSource → Str) (intent : ProtectionEnforcementIntent)
    (facts : Facts) : Except Reason ProtectionEnforcementIntent :=
  let intent := canonicalProtection sourceRevision intent
  if !digest intent.artifactRevision ∨ intent.binding.resourceRef ≠ protectionResourceRef ∨
      4096 < intent.endpoints.length ∨ 4096 < intent.managementExemptions.length ∨
      intent.mode = .other then .error .invalidIntent
  else if intent.mode = .endpointManaged ∧ !validLimits intent.limits intent.rates then
    .error .invalidIntent
  else
    match checkEndpoints intent.limits intent.endpoints [] with
    | .error reason => .error reason
    | .ok () =>
      if !intent.managementExemptions.all validExemption then .error .invalidIntent
      else
        match compile intent.binding (intent.endpoints.map ProtectionEndpoint.binding) facts with
        | .error reason => .error reason
        | .ok () => .ok intent

/-! ## Compiled plans -/

/-- What the checks leave of an endpoint. -/
structure ProtectionEndpoint.Valid (limits : ProtectionLimits) (endpoint : ProtectionEndpoint) :
    Prop where
  revision : digest endpoint.binding.endpointRevision = true
  key : validEndpoint endpoint.key = true
  udpNew : ∀ limit ∈ endpoint.udpNew, limit = ⟨200, 400⟩
  contributions : ∀ source ∈ endpoint.contributions,
    validContribution limits endpoint.key source = true

/-- An accepted endpoint-mode plan. -/
structure Compiled (plan : ProtectionEnforcementIntent) : Prop where
  artifactRevision : digest plan.artifactRevision = true
  limits : validLimits plan.limits plan.rates = true
  endpoints : ∀ endpoint ∈ plan.endpoints, endpoint.Valid plan.limits
  names : (plan.endpoints.map fun endpoint => endpoint.binding.endpointRevision.take 12).Nodup
  exemptions : ∀ exemption ∈ plan.managementExemptions, validExemption exemption = true

theorem checkEndpoints_ok {ls : ProtectionLimits} {es : List ProtectionEndpoint} {ns : List Str}
    (h : checkEndpoints ls es ns = .ok ()) :
    (∀ endpoint ∈ es, endpoint.Valid ls ∧ endpoint.binding.endpointRevision.take 12 ∉ ns) ∧
      (es.map fun endpoint => endpoint.binding.endpointRevision.take 12).Nodup := by
  induction es generalizing ns with
  | nil => simp
  | cons endpoint rest ih =>
    simp only [checkEndpoints] at h
    split at h
    · cases h
    next hf =>
    split at h
    · cases h
    next hnm =>
    split at h
    · cases h
    next hc =>
    rw [contains_iff_mem] at hnm
    obtain ⟨hr, hn⟩ := ih h
    simp only [Bool.or_eq_true, not_or, Bool.not_eq_true', Bool.not_eq_false, Option.any_eq_true,
      not_exists, not_and, bne_iff_ne, ne_eq, not_not] at hf
    obtain ⟨⟨⟨hrv, hk⟩, -⟩, hu⟩ := hf
    rw [Bool.not_eq_true, Bool.not_eq_false', all_eq_true] at hc
    constructor
    · intro other ho
      rcases mem_cons.mp ho with rfl | ho
      · exact ⟨⟨hrv, hk, fun limit hl => (hu limit hl).1, hc⟩, hnm⟩
      · exact ⟨(hr other ho).1, fun hm => (hr other ho).2 (mem_cons_of_mem _ hm)⟩
    · rw [map_cons, nodup_cons]
      refine ⟨fun hm => ?_, hn⟩
      obtain ⟨other, ho, heq⟩ := mem_map.mp hm
      exact (hr other ho).2 (heq ▸ mem_cons_self)

theorem compileProtection_ok {sr : TimedSource → Str} {i p : ProtectionEnforcementIntent}
    {fs : Facts} (h : compileProtection sr i fs = .ok p) (hm : i.mode = .endpointManaged) :
    p = canonicalProtection sr i ∧ Compiled p := by
  simp only [compileProtection] at h
  split at h
  · cases h
  next hf =>
  split at h
  · cases h
  next hl =>
  split at h
  · cases h
  next hep =>
  split at h
  · cases h
  next he =>
  split at h
  · cases h
  cases h
  have hd : digest (canonicalProtection sr i).artifactRevision = true := by
    by_contra hne
    exact hf (.inl (by simpa using hne))
  have hv : validLimits (canonicalProtection sr i).limits
      (canonicalProtection sr i).rates = true := by
    by_contra hne
    exact hl ⟨hm, by simpa using hne⟩
  rw [Bool.not_eq_true, Bool.not_eq_false', all_eq_true] at he
  obtain ⟨ha, hn⟩ := checkEndpoints_ok hep
  exact ⟨rfl, hd, hv, fun endpoint hmm => (ha endpoint hmm).1, hn, he⟩

end Solovey.Network
