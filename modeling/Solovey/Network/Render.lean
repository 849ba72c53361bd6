import Solovey.Network.Plan

/-!
# The managed table

`network/nftables/render_endpoint.go`: the table that an endpoint-mode intent is rendered to, as
sets, rules and chains, and its text. A line of the text is its indentation and its words.
-/

namespace Solovey.Network

open Solovey.Text Solovey.Net

/-! ## Rules -/

/-- The socket and source a rule of the input chain matches. -/
structure SocketMatch where
  family : Family
  source : Option Str
  destination : Option Addr
  network : Protocol
  port : UInt16

inductive InputRule
  | exempt (socket : SocketMatch) (deadline : Option ℤ)
  | loopback
  | established
  | jump (socket : SocketMatch) (chain : Str)

inductive EndpointRule
  | udpNew (limit : PacketLimit)
  | limited (family : Family) (set : Str) (limit : PacketLimit)
  | drop (family : Family) (set : Str)
  | accept

/-- A member of a timeout set; `remaining` is in milliseconds. -/
structure Element where
  source : Str
  ttl : ℤ
  remaining : Option ℤ

structure SetDecl where
  name : Str
  family : Family
  size : ℤ
  timeout : ℤ
  elements : List Element

structure Chain where
  name : Str
  rules : List EndpointRule

structure Table where
  revision : Option Str
  sets : List SetDecl
  input : List InputRule
  chains : List Chain

/-! ## Rendering an intent -/

/-- `none` is the empty rule, which is not written. -/
def endpointMatch (key : PublicEndpointKey) (source : Option Str) : Option SocketMatch :=
  if key.network ≠ .tcp ∧ key.network ≠ .udp ∨
      key.addressFamily ≠ .ipv4 ∧ key.addressFamily ≠ .ipv6 ∨ key.port = 0 then none
  else if source.any fun text => !validSource key text then none
  else if (normalizeListen key.bindAddress).wildcard then
    some ⟨key.addressFamily, source, none, key.network, key.port⟩
  else
    match readAddr (normalizeListen key.bindAddress).value with
    | some address =>
      if address.is4 = decide (key.addressFamily = .ipv4) then
        some ⟨key.addressFamily, source, some address, key.network, key.port⟩
      else none
    | none => none

def shortRevision (value : Str) : Str :=
  let value := toLower (trimSpace value)
  if value.length < 12 then List.replicate 12 '0' else value.take 12

def endpointSetName (kind : SetClass) (endpoint : ProtectionEndpoint) : Str :=
  "solovey_".toList ++ kind.text ++
    (if endpoint.key.addressFamily = .ipv6 then "6_".toList else "4_".toList) ++
    shortRevision endpoint.binding.endpointRevision

def endpointChainName (endpoint : ProtectionEndpoint) : Str :=
  "solovey_endpoint_".toList ++ shortRevision endpoint.binding.endpointRevision

/-- Is the subject a canonical prefix of the key's family? -/
def subjectOfFamily (key : PublicEndpointKey) (source : TimedSource) : Bool :=
  match readCanonical source.subject with
  | some p => !(decide (key.addressFamily = .ipv4) && !p.addr.is4 ||
      decide (key.addressFamily = .ipv6) && p.addr.is4)
  | none => false

/-- The contributions of a class that become elements: the canonical prefixes of the endpoint's
family, in the order of their texts. -/
def endpointElements (limits : ProtectionLimits) (key : PublicEndpointKey)
    (contributions : List TimedSource) (kind : SetClass) : List TimedSource :=
  sortBy (fun source => source.subject ++ '\x00' :: integer source.ttlSeconds)
    ((contributions.filter fun source => source.kind == kind && subjectOfFamily key source).map
      fun source =>
      { source with ttlSeconds := min (max 1 source.ttlSeconds) limits.maxTTLSeconds })

/-- An instant in nanoseconds, and its whole seconds. -/
def unix (at_ : ℤ) : ℤ := at_ / 10 ^ 9

/-- The element of a contribution, dated when there is an observation time. -/
def elementAt (at_ : Option ℤ) (source : TimedSource) : Element where
  source := source.subject
  ttl := source.ttlSeconds
  remaining := at_.map fun instant =>
    min (source.expiresAt * 10 ^ 9 - instant) (2 ^ 63 - 1) / 10 ^ 6

/-- The contributions still alive at an observation time. -/
def activeAt (at_ : Option ℤ) (contributions : List TimedSource) : List TimedSource :=
  match at_ with
  | none => contributions
  | some instant => contributions.filter fun source => decide (unix instant < source.expiresAt)

def setClasses : List SetClass := [.gray, .rate, .quarantine, .block]

def endpointSets (limits : ProtectionLimits) (at_ : Option ℤ) (endpoint : ProtectionEndpoint) :
    List SetDecl :=
  (setClasses.filter fun kind =>
    !(endpointElements limits endpoint.key endpoint.contributions kind).isEmpty).map fun kind =>
    { name := endpointSetName kind endpoint
      family := endpoint.key.addressFamily
      size := limits.maxElements
      timeout := limits.defaultTTLSeconds
      elements := (endpointElements limits endpoint.key (activeAt at_ endpoint.contributions)
        kind).map (elementAt at_) }

/-- The rule for one class of contributions, when the endpoint has any. -/
def classRule (limits : ProtectionLimits) (endpoint : ProtectionEndpoint) (kind : SetClass)
    (rule : Family → Str → EndpointRule) : List EndpointRule :=
  if (endpointElements limits endpoint.key endpoint.contributions kind).isEmpty then []
  else [rule endpoint.key.addressFamily (endpointSetName kind endpoint)]

def endpointChain (limits : ProtectionLimits) (rates : ProtectionRates)
    (endpoint : ProtectionEndpoint) : Chain where
  name := endpointChainName endpoint
  rules := endpoint.udpNew.toList.map .udpNew ++
    classRule limits endpoint .gray (.limited · · rates.gray) ++
    classRule limits endpoint .rate (.limited · · rates.rate) ++
    classRule limits endpoint .quarantine (.limited · · rates.quarantine) ++
    classRule limits endpoint .block .drop ++ [.accept]

def exemptionRule (exemption : ProtectionExemption) : Option InputRule :=
  (endpointMatch exemption.key
      (if exemption.sourcePrefix = [] then none else some exemption.sourcePrefix)).map
    (.exempt · (if exemption.recoveryPathID = trustedSource then none
      else some exemption.expiresAt))

def jumpRule (endpoint : ProtectionEndpoint) : Option InputRule :=
  (endpointMatch endpoint.key none).map (.jump · (endpointChainName endpoint))

def renderEndpointManaged (intent : ProtectionEnforcementIntent) (managed : Bool)
    (at_ : Option ℤ) : Table where
  revision := if managed then some intent.artifactRevision else none
  sets := intent.endpoints.flatMap (endpointSets intent.limits at_)
  input := intent.managementExemptions.filterMap exemptionRule ++ [.loopback, .established] ++
    intent.endpoints.filterMap jumpRule
  chains := intent.endpoints.map (endpointChain intent.limits intent.rates)

/-! ## The text -/

structure Line where
  indent : ℕ
  words : List Str

def Line.text (line : Line) : Str := List.replicate line.indent ' ' ++ unwords line.words

def familyKeyword (family : Family) : Str :=
  if family = .ipv6 then "ip6".toList else "ip".toList

def SocketMatch.words (socket : SocketMatch) : List Str :=
  ["meta".toList, "nfproto".toList,
    if socket.family = .ipv4 then "ipv4".toList else "ipv6".toList] ++
  (socket.source.toList.flatMap fun source =>
    [familyKeyword socket.family, "saddr".toList, source]) ++
  (socket.destination.toList.flatMap fun address =>
    [familyKeyword socket.family, "daddr".toList, address.text]) ++
  ["meta".toList, "l4proto".toList, socket.network.text, socket.network.text, "dport".toList,
    decimal socket.port.toNat]

def counterAccept : List Str := ["counter".toList, "accept".toList]

def counterDrop : List Str := ["counter".toList, "drop".toList]

def InputRule.words : InputRule → List Str
  | .exempt socket deadline => socket.words ++
      (deadline.toList.flatMap fun instant =>
        ["meta".toList, "time".toList, "<".toList, integer instant]) ++ counterAccept
  | .loopback => ["iifname".toList, "\"lo\"".toList] ++ counterAccept
  | .established => ["ct".toList, "state".toList, "established,related".toList] ++ counterAccept
  | .jump socket chain => socket.words ++ ["jump".toList, chain]

def PacketLimit.words (limit : PacketLimit) : List Str :=
  ["limit".toList, "rate".toList, "over".toList, integer limit.rate ++ "/second".toList,
    "burst".toList, integer limit.burst, "packets".toList]

def EndpointRule.words : EndpointRule → List Str
  | .udpNew limit => ["ct".toList, "state".toList, "new".toList] ++ limit.words ++ counterDrop
  | .limited family set limit =>
    [familyKeyword family, "saddr".toList, '@' :: set] ++ limit.words ++ counterDrop
  | .drop family set => [familyKeyword family, "saddr".toList, '@' :: set] ++ counterDrop
  | .accept => counterAccept

def Element.words (element : Element) : List Str :=
  [element.source, "timeout".toList, integer element.ttl ++ "s".toList] ++
    element.remaining.toList.flatMap fun milliseconds =>
      ["expires".toList, integer milliseconds ++ "ms".toList]

/-- The elements with a comma after each but the last. -/
def elementWords : List Element → List Str
  | [] => []
  | [element] => element.words
  | element :: rest =>
    element.words.dropLast ++ [(element.words.getLastD []) ++ ",".toList] ++ elementWords rest

def SetDecl.lines (set : SetDecl) : List Line :=
  [⟨2, ["set".toList, set.name, "\x7b".toList]⟩,
    ⟨4, ["type".toList,
      if set.family = .ipv6 then "ipv6_addr".toList else "ipv4_addr".toList]⟩,
    ⟨4, ["flags".toList, "interval,timeout".toList]⟩,
    ⟨4, ["size".toList, integer set.size]⟩,
    ⟨4, ["timeout".toList, integer set.timeout ++ "s".toList]⟩] ++
  (if set.elements.isEmpty then []
    else [⟨4, ["elements".toList, "=".toList, "\x7b".toList] ++ elementWords set.elements ++
      ["\x7d".toList]⟩]) ++
  [⟨2, ["\x7d".toList]⟩]

def Chain.lines (chain : Chain) : List Line :=
  [⟨2, ["chain".toList, chain.name, "\x7b".toList]⟩] ++
    chain.rules.map (fun rule => ⟨4, rule.words⟩) ++ [⟨2, ["\x7d".toList]⟩]

def revisionWord (revision : Str) : Str :=
  "\"solovey-revision:".toList ++ revision ++ "\"".toList

def Table.lines (table : Table) : List Line :=
  [⟨0, ["table".toList, "inet".toList, "solovey_protection".toList, "\x7b".toList]⟩] ++
    (table.revision.toList.map fun revision => ⟨2, ["comment".toList, revisionWord revision]⟩) ++
    table.sets.flatMap SetDecl.lines ++
    [⟨2, ["chain".toList, "solovey_input".toList, "\x7b".toList]⟩,
      ⟨4, ["type".toList, "filter".toList, "hook".toList, "input".toList, "priority".toList,
        "-5;".toList, "policy".toList, "accept;".toList]⟩] ++
    table.input.map (fun rule => ⟨4, rule.words⟩) ++ [⟨2, ["\x7d".toList]⟩] ++
    table.chains.flatMap Chain.lines ++ [⟨0, ["\x7d".toList]⟩]

def Table.text (table : Table) : Str := table.lines.flatMap fun line => line.text ++ ['\n']

/-- `RenderProtection` for an endpoint-mode intent; no observation time is the zero time. -/
def renderProtection (sourceRevision : TimedSource → Str) (intent : ProtectionEnforcementIntent)
    (managed : Bool) (at_ : Option ℤ) : Table :=
  renderEndpointManaged (canonicalProtection sourceRevision intent) managed at_

end Solovey.Network
