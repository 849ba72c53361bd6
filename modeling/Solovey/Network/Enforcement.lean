import Solovey.Data.Lists
import Solovey.Network.Packets

/-!
# Enforcement of a compiled plan

For an accepted plan the verdict on a packet is computed from the plan alone: exemptions, loopback
and known connections are accepted, and then the first endpoint that the packet is for decides; its
chain ends in an accept.
-/

namespace Solovey.Network

open Solovey.Text Solovey.Net List

/-! ## Names -/

theorem isSpace_lowerHex {c : Char} (h : (c.isDigit || ('a' ≤ c && c ≤ 'f')) = true) :
    isSpace c = false ∧ c.toLower = c := by
  have hr : 48 ≤ c.toNat ∧ c.toNat ≤ 57 ∨ 97 ≤ c.toNat ∧ c.toNat ≤ 102 := by
    simp only [Char.isDigit, Bool.or_eq_true, Bool.and_eq_true, decide_eq_true_eq, ge_iff_le,
      Char.le_def, UInt32.le_iff_toNat_le] at h
    exact h
  exact ⟨isSpace_visible (by omega) (by omega), toLower_of_not_upper (by omega)⟩

theorem shortRevision_digest {v : Str} (h : digest v = true) : shortRevision v = v.take 12 := by
  simp only [digest, Bool.and_eq_true, beq_iff_eq, all_eq_true] at h
  obtain ⟨hln, hch⟩ := h
  have ht : trimSpace v = v := by
    apply trimSpace_of_ends
    · exact fun c hc => (isSpace_lowerHex (hch c (mem_of_mem_head? hc))).1
    · exact fun c hc => (isSpace_lowerHex (hch c (mem_of_mem_getLast? hc))).1
  have hl : toLower v = v := by
    rw [toLower]
    conv_rhs => rw [← List.map_id v]
    exact map_congr_left fun c hc => (isSpace_lowerHex (hch c hc)).2
  rw [shortRevision, ht, hl, if_neg (by omega)]

section

variable {p : ProtectionEnforcementIntent} (hplan : Compiled p)
include hplan

theorem Compiled.shortRevision {e : ProtectionEndpoint} (h : e ∈ p.endpoints) :
    shortRevision e.binding.endpointRevision = e.binding.endpointRevision.take 12 :=
  shortRevision_digest (hplan.endpoints e h).revision

/-- Endpoints of a plan have different short revisions. -/
theorem Compiled.eq_of_shortRevision {a b : ProtectionEndpoint} (ha : a ∈ p.endpoints)
    (hb : b ∈ p.endpoints) (h : Network.shortRevision a.binding.endpointRevision =
      Network.shortRevision b.binding.endpointRevision) : a = b := by
  rw [hplan.shortRevision ha, hplan.shortRevision hb] at h
  exact inj_on_of_nodup_map hplan.names ha hb h

theorem Compiled.chain {e : ProtectionEndpoint} (h : e ∈ p.endpoints) (m : Bool) (a : Option ℤ) :
    (renderEndpointManaged p m a).chains.find? (·.name == endpointChainName e) =
      some (endpointChain p.limits p.rates e) := by
  have hf : p.endpoints.find? (fun other => (endpointChain p.limits p.rates other).name ==
        endpointChainName e) = some e := by
    refine Data.find?_eq_some_of_unique h (BEq.rfl) fun other ho hn => ?_
    have hs : endpointChainName other = endpointChainName e := eq_of_beq hn
    exact hplan.eq_of_shortRevision ho h (append_cancel_left hs)
  simp only [renderEndpointManaged, find?_map, Function.comp_def, hf, Option.map_some]

end

/-! ## Members of sets -/

variable {limits : ProtectionLimits} {key : PublicEndpointKey}

theorem validContribution_family {s : TimedSource} (h : validContribution limits key s = true)
    (hf : key.addressFamily = .ipv4 ∨ key.addressFamily = .ipv6) :
    subjectOfFamily key s = true := by
  simp only [validContribution, Bool.and_eq_true, validSource] at h
  obtain ⟨⟨⟨⟨hs, -⟩, -⟩, -⟩, -⟩ := h
  split at hs
  · rw [subjectOfFamily]
    rcases hf with hf | hf <;> simp_all
  · cases hs

theorem validContribution_ttl {s : TimedSource} (h : validContribution limits key s = true) :
    { s with ttlSeconds := min (max 1 s.ttlSeconds) limits.maxTTLSeconds } = s := by
  simp only [validContribution, Bool.and_eq_true, decide_eq_true_eq] at h
  obtain ⟨⟨⟨-, hl⟩, hh⟩, -⟩ := h
  rw [max_eq_right hl, min_eq_left hh]

/-- The elements of valid contributions are the contributions of the class. -/
theorem endpointElements_perm {cs : List TimedSource} (k : SetClass)
    (hfm : key.addressFamily = .ipv4 ∨ key.addressFamily = .ipv6)
    (hv : ∀ source ∈ cs, validContribution limits key source = true) :
    (endpointElements limits key cs k).Perm (cs.filter (·.kind == k)) := by
  have hf : (cs.filter fun source => source.kind == k &&
      subjectOfFamily key source) = cs.filter (·.kind == k) :=
    filter_congr fun source hs => by
      rw [validContribution_family (hv source hs) hfm, Bool.and_true]
  have hm : ((cs.filter (·.kind == k)).map fun source =>
      { source with ttlSeconds := min (max 1 source.ttlSeconds) limits.maxTTLSeconds }) =
      cs.filter (·.kind == k) := by
    conv_rhs => rw [← List.map_id (cs.filter (·.kind == k))]
    exact map_congr_left fun source hs => validContribution_ttl (hv source (mem_of_mem_filter hs))
  rw [endpointElements, hf, hm]
  exact perm_insertionSort _ _

theorem activeAt_subset (a : Option ℤ) (cs : List TimedSource) : activeAt a cs ⊆ cs := by
  cases a with
  | none => exact fun _ h => h
  | some i => exact filter_subset_self _

/-- Does the source of a packet stand in the endpoint's set of a class? -/
def ProtectionEndpoint.holds (endpoint : ProtectionEndpoint) (at_ : Option ℤ) (kernel : Kernel)
    (packet : Packet) (kind : SetClass) : Bool :=
  (activeAt at_ endpoint.contributions).any fun source => source.kind == kind &&
    (kernel.alive (endpointSetName kind endpoint) (elementAt at_ source) &&
      sourceIn packet source.subject)

theorem SetClass.text_inj {a b : SetClass} (ha : a ∈ setClasses) (hb : b ∈ setClasses)
    (h : a.text = b.text) : a = b := by
  simp only [setClasses, mem_cons, not_mem_nil, or_false] at ha hb
  rcases ha with rfl | rfl | rfl | rfl <;> rcases hb with rfl | rfl | rfl | rfl <;>
    first | rfl | exact absurd h (by decide)

section

variable {pl : ProtectionEnforcementIntent} (hplan : Compiled pl)
include hplan

theorem Compiled.family {e : ProtectionEndpoint} (h : e ∈ pl.endpoints) :
    e.key.addressFamily = .ipv4 ∨ e.key.addressFamily = .ipv6 :=
  (validEndpoint_fields (hplan.endpoints e h).key).2.1

theorem Compiled.setName_inj {a b : ProtectionEndpoint} (ha : a ∈ pl.endpoints)
    (hb : b ∈ pl.endpoints) {j k : SetClass} (hj : j ∈ setClasses) (hk : k ∈ setClasses)
    (h : endpointSetName j a = endpointSetName k b) : a = b ∧ j = k := by
  have hl : ∀ endpoint ∈ pl.endpoints,
      (Network.shortRevision endpoint.binding.endpointRevision).length = 12 := by
    intro endpoint hm
    have hd := (hplan.endpoints endpoint hm).revision
    simp only [digest, Bool.and_eq_true, beq_iff_eq] at hd
    rw [hplan.shortRevision hm, length_take, hd.1]
    rfl
  obtain ⟨hf, hbc⟩ := append_inj' h ((hl a ha).trans (hl b hb).symm)
  have hab := hplan.eq_of_shortRevision ha hb hbc
  subst hab
  refine ⟨rfl, SetClass.text_inj hj hk ?_⟩
  exact append_cancel_left (append_cancel_right hf)

/-- A set that a rule names holds what its endpoint contributes to it. -/
theorem Compiled.inSet {e : ProtectionEndpoint} (hm : e ∈ pl.endpoints) {kn : SetClass}
    (hk : kn ∈ setClasses) (m : Bool) (a : Option ℤ) (k : Kernel) {p : Packet}
    (hfm : e.key.addressFamily = p.route.family) :
    (renderEndpointManaged pl m a).inSet k p e.key.addressFamily
      (endpointSetName kn e) = e.holds a k p kn := by
  have hv := (hplan.endpoints e hm).contributions
  have hp := endpointElements_perm kn (hplan.family hm)
    fun source hs => hv source (activeAt_subset a _ hs)
  have ha := endpointElements_perm kn (hplan.family hm) hv
  rw [Bool.eq_iff_iff]
  simp only [Table.inSet, hfm, BEq.rfl, Bool.true_and, renderEndpointManaged,
    ProtectionEndpoint.holds, any_eq_true, mem_flatMap, Bool.and_eq_true, beq_iff_eq,
    endpointSets, mem_map, mem_filter]
  constructor
  · rintro ⟨set, ⟨other, ho, kn', ⟨hk', -⟩, rfl⟩, hn, element, he, hin⟩
    obtain ⟨rfl, rfl⟩ := hplan.setName_inj ho hm hk' hk hn
    obtain ⟨source, hs, rfl⟩ := mem_map.mp he
    have hf := mem_filter.mp (hp.mem_iff.mp hs)
    exact ⟨source, hf.1, beq_iff_eq.mp hf.2, hin⟩
  · rintro ⟨source, hs, rfl, hin⟩
    refine ⟨_, ⟨e, hm, source.kind, ⟨hk, ?_⟩, rfl⟩, rfl, elementAt a source, ?_, hin⟩
    · have hps : source ∈ endpointElements pl.limits e.key e.contributions source.kind :=
        ha.mem_iff.mpr (mem_filter.mpr ⟨activeAt_subset a _ hs, BEq.rfl⟩)
      simpa using ne_nil_of_mem hps
    · exact mem_map.mpr ⟨source, hp.mem_iff.mpr (mem_filter.mpr ⟨hs, BEq.rfl⟩), rfl⟩

end

/-! ## Verdicts -/

/-- Is the source in the set of a class while the class's limit is exceeded? -/
def ProtectionEndpoint.throttles (endpoint : ProtectionEndpoint) (at_ : Option ℤ)
    (kernel : Kernel) (packet : Packet) (kind : SetClass) (limit : PacketLimit) : Bool :=
  endpoint.holds at_ kernel packet kind && kernel.exceeded (endpointChainName endpoint)
    (.limited endpoint.key.addressFamily (endpointSetName kind endpoint) limit)

/-- Does an endpoint of the plan drop a packet that reaches its chain? -/
def ProtectionEndpoint.drops (endpoint : ProtectionEndpoint) (rates : ProtectionRates)
    (at_ : Option ℤ) (kernel : Kernel) (packet : Packet) : Bool :=
  endpoint.udpNew.any (fun limit => packet.state == .new &&
      kernel.exceeded (endpointChainName endpoint) (.udpNew limit)) ||
    (endpoint.throttles at_ kernel packet .gray rates.gray ||
      (endpoint.throttles at_ kernel packet .rate rates.rate ||
        (endpoint.throttles at_ kernel packet .quarantine rates.quarantine ||
          endpoint.holds at_ kernel packet .block)))

theorem exemptionRule_valid {e : ProtectionExemption} (h : validExemption e = true) :
    ∃ socket d, exemptionRule e = some (.exempt socket d) ∧
      ∀ (k : Kernel) (p : Packet), (socket.matches p && d.all fun i => decide (k.now < i)) =
          e.matches k.now p := by
  simp only [validExemption, Bool.and_eq_true] at h
  obtain ⟨⟨hk, hsr⟩, -⟩ := h
  have hne : e.sourcePrefix ≠ [] := by
    intro hn
    rw [hn] at hsr
    cases hsr
  have hs : ∀ text ∈ some e.sourcePrefix, validSource e.key text = true := by simpa using hsr
  obtain ⟨socket, hsc, hm⟩ := endpointMatch_valid hk hs
  refine ⟨socket, _, by rw [exemptionRule, if_neg hne, hsc]; rfl, fun k p => ?_⟩
  rw [hm, ProtectionExemption.matches, Option.all_some]
  by_cases ht : e.recoveryPathID = trustedSource <;> simp [ht]

section

variable {pn : ProtectionEnforcementIntent} (hplan : Compiled pn)
include hplan

variable {en : ProtectionEndpoint}

/-- The rule of a class decides for the members of the endpoint's set, and only for them. -/
theorem Compiled.classRule_verdict (hm : en ∈ pn.endpoints) {kn : SetClass} (hk : kn ∈ setClasses)
    (m : Bool) (a : Option ℤ) (k : Kernel) {p : Packet}
    (hfm : en.key.addressFamily = p.route.family) {r : Family → Str → EndpointRule} {c : Str}
    {l : Bool} (hr : (renderEndpointManaged pn m a).endpointVerdict k p c
        (r en.key.addressFamily (endpointSetName kn en)) =
      if (renderEndpointManaged pn m a).inSet k p en.key.addressFamily
          (endpointSetName kn en) && l then some .drop else none) :
    (classRule pn.limits en kn r).findSome? ((renderEndpointManaged pn m a).endpointVerdict k p c) =
      if en.holds a k p kn && l then some .drop else none := by
  rw [hplan.inSet hm hk m a k hfm] at hr
  rw [classRule]
  split
  next he =>
    have ha := endpointElements_perm kn (hplan.family hm) (hplan.endpoints en hm).contributions
    rw [List.isEmpty_iff.mp he] at ha
    have hh : en.holds a k p kn = false := by
      rw [ProtectionEndpoint.holds, any_eq_false]
      intro source hs hin
      simp only [Bool.and_eq_true] at hin
      have hf := ha.mem_iff.mpr (mem_filter.mpr ⟨activeAt_subset a _ hs, hin.1⟩)
      exact absurd hf not_mem_nil
    simp [hh]
  next =>
    rw [findSome?_cons, hr]
    cases en.holds a k p kn && l <;> rfl

theorem Compiled.chain_verdict (hm : en ∈ pn.endpoints) (m : Bool) (a : Option ℤ) (k : Kernel)
    {p : Packet} (hf : en.key.addressFamily = p.route.family) :
    (endpointChain pn.limits pn.rates en).rules.findSome?
        ((renderEndpointManaged pn m a).endpointVerdict k p (endpointChainName en)) =
      some (if en.drops pn.rates a k p then .drop else .accept) := by
  have hl : ∀ kn ∈ setClasses, ∀ limit, (classRule pn.limits en kn (.limited · · limit)).findSome?
        ((renderEndpointManaged pn m a).endpointVerdict k p (endpointChainName en)) =
      if en.throttles a k p kn limit then some .drop else none :=
    fun kn hk limit => hplan.classRule_verdict hm hk m a k hf rfl
  have hb : (classRule pn.limits en .block .drop).findSome?
        ((renderEndpointManaged pn m a).endpointVerdict k p (endpointChainName en)) =
      if en.holds a k p .block && true then some .drop else none :=
    hplan.classRule_verdict hm (by decide) m a k hf
      (by rw [Bool.and_true]; rfl)
  have hu : (en.udpNew.toList.map EndpointRule.udpNew).findSome?
        ((renderEndpointManaged pn m a).endpointVerdict k p (endpointChainName en)) =
      if en.udpNew.any (fun limit => p.state == .new &&
        k.exceeded (endpointChainName en) (.udpNew limit)) then some .drop else none := by
    cases en.udpNew with
    | none => rfl
    | some limit =>
      rw [Option.toList_some, map_singleton, findSome?_singleton, Option.any_some]
      rfl
  simp only [endpointChain, findSome?_append, hu, hb, Bool.and_true,
    hl .gray (by decide), hl .rate (by decide), hl .quarantine (by decide)]
  rw [ProtectionEndpoint.drops]
  cases en.udpNew.any _ with
  | true => rfl
  | false =>
    cases en.throttles a k p .gray pn.rates.gray with
    | true => rfl
    | false =>
      cases en.throttles a k p .rate pn.rates.rate with
      | true => rfl
      | false =>
        cases en.throttles a k p .quarantine pn.rates.quarantine with
        | true => rfl
        | false => cases en.holds a k p .block <;> rfl

theorem Compiled.exemption_verdict {e : ProtectionExemption} (hmm : e ∈ pn.managementExemptions)
    (t : Table) (k : Kernel) (p : Packet) :
    (exemptionRule e).bind (t.inputVerdict k p) =
      if e.matches k.now p then some .accept else none := by
  obtain ⟨socket, d, hr, hm⟩ := exemptionRule_valid (hplan.exemptions _ hmm)
  rw [hr, Option.bind_some, Table.inputVerdict, hm]

theorem Compiled.jump_verdict (hmm : en ∈ pn.endpoints) (m : Bool) (a : Option ℤ) (k : Kernel)
    (p : Packet) :
    (jumpRule en).bind ((renderEndpointManaged pn m a).inputVerdict k p) =
      if en.key.matches p then
        some (if en.drops pn.rates a k p then .drop else .accept)
      else none := by
  have hn : ∀ text ∈ (none : Option Str), validSource en.key text = true := by simp
  obtain ⟨socket, hs, hm⟩ := endpointMatch_valid (hplan.endpoints en hmm).key hn
  rw [jumpRule, hs, Option.map_some, Option.bind_some, Table.inputVerdict, hm,
    Option.all_none, Bool.and_true]
  split
  next hk =>
    have hf : en.key.addressFamily = p.route.family := by
      simp only [PublicEndpointKey.matches, Bool.and_eq_true, beq_iff_eq] at hk
      exact hk.1.1.1
    rw [hplan.chain hmm m a]
    exact hplan.chain_verdict hmm m a k hf
  next => rfl

/-- The verdict on a packet, computed from the plan. -/
theorem Compiled.verdict (m : Bool) (a : Option ℤ) (k : Kernel) (p : Packet) :
    (renderEndpointManaged pn m a).verdict k p =
      if pn.managementExemptions.any (·.matches k.now p) || p.loopback ||
          p.state == .established || p.state == .related then .accept
      else ((pn.endpoints.find? (·.key.matches p)).map fun first =>
        if first.drops pn.rates a k p then Verdict.drop else .accept).getD .accept := by
  have he : (pn.managementExemptions.filterMap exemptionRule).findSome?
        ((renderEndpointManaged pn m a).inputVerdict k p) =
      if pn.managementExemptions.any (·.matches k.now p) then some .accept
      else none := by
    rw [Data.findSome?_filterMap, ← Data.findSome?_ite]
    exact Data.findSome?_congr fun e hm => hplan.exemption_verdict hm _ k p
  have hj : (pn.endpoints.filterMap jumpRule).findSome?
        ((renderEndpointManaged pn m a).inputVerdict k p) =
      (pn.endpoints.find? (·.key.matches p)).map fun first =>
        if first.drops pn.rates a k p then .drop else .accept := by
    rw [Data.findSome?_filterMap, ← Data.findSome?_guarded]
    exact Data.findSome?_congr fun en hm => hplan.jump_verdict hm m a k p
  have hi : (renderEndpointManaged pn m a).input =
      pn.managementExemptions.filterMap exemptionRule ++ [.loopback, .established] ++
        pn.endpoints.filterMap jumpRule := rfl
  rw [Table.verdict, hi, findSome?_append, findSome?_append, he, hj]
  cases pn.managementExemptions.any (·.matches k.now p) with
  | true => rfl
  | false =>
    simp only [findSome?_cons, Table.inputVerdict]
    cases p.loopback with
    | true => rfl
    | false => cases p.state <;> rfl

end

/-! ## A sample plan

A listener on every address and one on a single address of the host share a port; one source is
blocked on the second. -/

namespace Sample

def revision (c : Char) : Str := List.replicate 64 c

def binding (name : String) (c : Char) : ResourceBinding :=
  ⟨name.toList, "server-protection".toList, revision c, revision c, false⟩

def wildcard : ProtectionEndpoint where
  binding := binding "inbound:1" 'a'
  key := ⟨.tcp, .ipv4, "0.0.0.0".toList, 443⟩
  contributions := []

def exact : ProtectionEndpoint where
  binding := binding "inbound:2" 'b'
  key := ⟨.tcp, .ipv4, "203.0.113.5".toList, 443⟩
  contributions := [⟨"198.51.100.0/24".toList, .block, 2000000000, 600⟩]

def operator : ProtectionExemption :=
  ⟨⟨.tcp, .ipv4, "203.0.113.5".toList, 443⟩, "198.51.100.7/32".toList, 0, trustedSource⟩

def intent (endpoints : List ProtectionEndpoint) : ProtectionEnforcementIntent where
  binding := ⟨.thisHost, "server-protection".toList, protectionResourceRef, revision 'c',
    revision 'c', "endpoint-protection".toList⟩
  artifactRevision := revision 'd'
  mode := .endpointManaged
  endpoints := endpoints
  managementExemptions := [operator]
  limits := ⟨4096, 600, 86400⟩
  rates := ⟨⟨5, 10⟩, ⟨20, 40⟩, ⟨2, 4⟩⟩

def facts : Facts where
  hostRef := .thisHost
  revision := revision 'e'
  capabilityRevision := revision 'f'
  available := true
  backend := "nft".toList
  inventoryComplete := true
  resources := [binding "inbound:1" 'a', binding "inbound:2" 'b']
  allocations := []
  continuity := []

/-- Every element is still in its set and no limit is exceeded. -/
def kernel : Kernel := ⟨1900000000, fun _ _ => true, fun _ _ => false⟩

/-- A new connection to `203.0.113.5:443`. -/
def packetFrom (source : IPv4) : Packet :=
  ⟨.v4 source 0xCB007105#32, .tcp, 443, false, .new⟩

theorem compile_exact :
    compileProtection (fun _ => []) (intent [exact]) facts = .ok (intent [exact]) := by
  decide

theorem compile_both : compileProtection (fun _ => []) (intent [wildcard, exact]) facts =
    .ok (intent [wildcard, exact]) := by
  decide

end Sample

/-! ## What is never dropped -/

/-- Exempted, local and known traffic and traffic to no endpoint is accepted, and the exemptions are
the accept rules in front of the jumps, one for one. -/
theorem rendered_narrow {sourceRevision : TimedSource → Str}
    {intent plan : ProtectionEnforcementIntent} {facts : Facts}
    (hcompile : compileProtection sourceRevision intent facts = .ok plan)
    (hmode : intent.mode = .endpointManaged) (managed : Bool) (at_ : Option ℤ) :
    (∀ (kernel : Kernel) (packet : Packet),
      (∃ exemption ∈ plan.managementExemptions, exemption.matches kernel.now packet = true) ∨
        packet.loopback = true ∨ packet.state = .established ∨ packet.state = .related ∨
        (∀ endpoint ∈ plan.endpoints, endpoint.key.matches packet = false) →
      (renderProtection sourceRevision intent managed at_).verdict kernel packet = .accept) ∧
    ∃ accepts jumps, (renderProtection sourceRevision intent managed at_).input =
        accepts ++ [.loopback, .established] ++ jumps ∧
      List.Forall₂ (fun (exemption : ProtectionExemption) rule => ∃ socket deadline,
        rule = InputRule.exempt socket deadline ∧ ∀ (kernel : Kernel) (packet : Packet),
          (socket.matches packet && deadline.all fun instant => decide (kernel.now < instant)) =
            exemption.matches kernel.now packet) plan.managementExemptions accepts ∧
      ∀ rule ∈ jumps, ∃ socket chain, rule = InputRule.jump socket chain := by
  obtain ⟨hcn, hplan⟩ := compileProtection_ok hcompile hmode
  rw [renderProtection, ← hcn]
  refine ⟨fun kernel packet hc => ?_, _, _, rfl, ?_, ?_⟩
  · rw [hplan.verdict]
    rcases hc with ⟨exemption, hmm, hm⟩ | hlo | hs | hs | hn
    · have ha : plan.managementExemptions.any (·.matches kernel.now packet) = true :=
        any_eq_true.mpr ⟨exemption, hmm, hm⟩
      simp [ha]
    · simp [hlo]
    · simp [hs]
    · simp [hs]
    · have hf : plan.endpoints.find? (·.key.matches packet) = none :=
        find?_eq_none.mpr fun endpoint hmm => by simp [hn endpoint hmm]
      simp [hf]
  · exact Data.forall₂_filterMap fun exemption hmm => by
      obtain ⟨socket, deadline, hr, hm⟩ := exemptionRule_valid (hplan.exemptions _ hmm)
      exact ⟨_, hr, socket, deadline, rfl, hm⟩
  · intro rule hr
    obtain ⟨endpoint, -, hj⟩ := mem_filterMap.mp hr
    obtain ⟨socket, -, rfl⟩ := Option.map_eq_some_iff.mp hj
    exact ⟨socket, _, rfl⟩

/-- The blocked network holds the operator's address, which stays exempted. -/
theorem rendered_narrow_operator :
    Sample.exact.holds none Sample.kernel (Sample.packetFrom 0xC6336407#32) .block = true ∧
      (renderProtection (fun _ => []) (Sample.intent [Sample.exact]) true none).verdict
        Sample.kernel (Sample.packetFrom 0xC6336407#32) = .accept :=
  ⟨by decide, (rendered_narrow Sample.compile_exact rfl true none).1 _ _
    (.inl ⟨Sample.operator, mem_singleton.mpr rfl, by decide⟩)⟩

/-! ## What is dropped -/

/-- A new packet from a blocked source of an endpoint is dropped exactly when no other endpoint
takes it first, or the one that does drops it by its own sets and limits. -/
theorem blocked_dropped_iff {sourceRevision : TimedSource → Str}
    {intent plan : ProtectionEnforcementIntent} {facts : Facts}
    (hcompile : compileProtection sourceRevision intent facts = .ok plan)
    (hmode : intent.mode = .endpointManaged) (managed : Bool) (at_ : Option ℤ) (kernel : Kernel)
    {packet : Packet} {endpoint : ProtectionEndpoint} (hmem : endpoint ∈ plan.endpoints)
    (hmatches : endpoint.key.matches packet = true) (hnew : packet.state = .new)
    (hlo : packet.loopback = false)
    (hexempt : ∀ exemption ∈ plan.managementExemptions,
      exemption.matches kernel.now packet = false)
    (hblock : endpoint.holds at_ kernel packet .block = true) :
    (renderProtection sourceRevision intent managed at_).verdict kernel packet = .drop ↔
      ∀ first, plan.endpoints.find? (·.key.matches packet) = some first →
        first = endpoint ∨ first.drops plan.rates at_ kernel packet = true := by
  obtain ⟨hc, hplan⟩ := compileProtection_ok hcompile hmode
  have ha : plan.managementExemptions.any (·.matches kernel.now packet) = false :=
    any_eq_false.mpr fun exemption hmem => by simp [hexempt exemption hmem]
  have ho : endpoint.drops plan.rates at_ kernel packet = true := by
    simp [ProtectionEndpoint.drops, hblock]
  obtain ⟨first, hf⟩ : ∃ first, plan.endpoints.find? (·.key.matches packet) = some first :=
    Option.isSome_iff_exists.mp (find?_isSome.mpr ⟨endpoint, hmem, hmatches⟩)
  rw [renderProtection, ← hc, hplan.verdict, ha, hlo, hnew, hf]
  constructor
  · rintro hdr other heq
    cases heq
    refine .inr ?_
    by_contra hn
    simp [hn] at hdr
  · intro hal
    rcases hal first rfl with rfl | hd
    · simp [ho]
    · simp [hd]

theorem blocked_dropped_iff_exact :
    (renderProtection (fun _ => []) (Sample.intent [Sample.exact]) true none).verdict
      Sample.kernel (Sample.packetFrom 0xC6336409#32) = .drop :=
  (blocked_dropped_iff Sample.compile_exact rfl true none Sample.kernel (mem_singleton.mpr rfl)
    (by decide) rfl rfl (by decide +kernel) (by decide +kernel)).mpr fun first hf =>
      .inl (mem_singleton.mp (mem_of_find?_eq_some hf))

/-- The same packet is accepted once the wildcard listener stands in front. -/
theorem blocked_accepted_by_wildcard :
    compileProtection (fun _ => []) (Sample.intent [Sample.wildcard, Sample.exact]) Sample.facts =
        .ok (Sample.intent [Sample.wildcard, Sample.exact]) ∧
      Sample.exact.key.matches (Sample.packetFrom 0xC6336409#32) = true ∧
      (Sample.packetFrom 0xC6336409#32).state = .new ∧
      (Sample.packetFrom 0xC6336409#32).loopback = false ∧
      Sample.operator.matches Sample.kernel.now (Sample.packetFrom 0xC6336409#32) = false ∧
      Sample.exact.holds none Sample.kernel (Sample.packetFrom 0xC6336409#32) .block = true ∧
      (renderProtection (fun _ => []) (Sample.intent [Sample.wildcard, Sample.exact]) true
        none).verdict Sample.kernel (Sample.packetFrom 0xC6336409#32) = .accept := by
  refine ⟨Sample.compile_both, ?_, rfl, rfl, ?_, ?_, ?_⟩
  all_goals decide

end Solovey.Network
