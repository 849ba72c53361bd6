import Solovey.Network.Render

/-!
# What the rendered table does to a packet

The kernel takes the rules of a chain in order; a jump enters the endpoint's chain, and the first
verdict ends the evaluation. Members of timeout sets disappear and rate limits have a state of their
own, so the kernel's part is given with the packet: the clock, the members still there, and the
limits exceeded.
-/

namespace Solovey.Network

open Solovey.Text Solovey.Net

inductive Verdict
  | accept
  | drop
  deriving DecidableEq

inductive ConnectionState
  | new
  | established
  | related
  | other
  deriving DecidableEq

inductive Route
  | v4 (source destination : IPv4)
  | v6 (source destination : IPv6)

def Route.source : Route → Addr
  | .v4 source _ => .v4 source
  | .v6 source _ => .v6 source []

def Route.destination : Route → Addr
  | .v4 _ destination => .v4 destination
  | .v6 _ destination => .v6 destination []

def Route.family : Route → Family
  | .v4 _ _ => .ipv4
  | .v6 _ _ => .ipv6

structure Packet where
  route : Route
  network : Protocol
  port : UInt16
  loopback : Bool
  state : ConnectionState

/-- The kernel's own part: the time in seconds, the members a set still has, and for the rules of a
chain whether their limit is exceeded. -/
structure Kernel where
  now : ℤ
  alive : Str → Element → Bool
  exceeded : Str → EndpointRule → Bool

/-! ## Evaluation -/

/-- Is the packet's source inside the prefix a text writes? -/
def sourceIn (packet : Packet) (text : Str) : Bool :=
  (readCanonical text).any (·.contains packet.route.source)

def SocketMatch.matches (socket : SocketMatch) (packet : Packet) : Bool :=
  socket.family == packet.route.family && socket.source.all (sourceIn packet) &&
    socket.destination.all (· == packet.route.destination) &&
    socket.network == packet.network && socket.port == packet.port

namespace Table

variable (table : Table) (kernel : Kernel) (packet : Packet)

/-- `ip saddr @name`. -/
def inSet (family : Family) (name : Str) : Bool :=
  family == packet.route.family && table.sets.any fun set => set.name == name &&
    set.elements.any fun element => kernel.alive name element && sourceIn packet element.source

def endpointVerdict (chain : Str) (rule : EndpointRule) : Option Verdict :=
  match rule with
  | .udpNew _ =>
    if packet.state == .new && kernel.exceeded chain rule then some .drop else none
  | .limited family set _ =>
    if table.inSet kernel packet family set && kernel.exceeded chain rule then some .drop else none
  | .drop family set => if table.inSet kernel packet family set then some .drop else none
  | .accept => some .accept

def inputVerdict : InputRule → Option Verdict
  | .exempt socket deadline =>
    if socket.matches packet && deadline.all (fun instant => decide (kernel.now < instant)) then
      some .accept
    else none
  | .loopback => if packet.loopback then some .accept else none
  | .established =>
    if packet.state == .established || packet.state == .related then some .accept else none
  | .jump socket name =>
    if socket.matches packet then
      match table.chains.find? (·.name == name) with
      | some chain => chain.rules.findSome? (table.endpointVerdict kernel packet name)
      | none => none
    else none

/-- The policy of the input chain is to accept. -/
def verdict : Verdict := (table.input.findSome? (table.inputVerdict kernel packet)).getD .accept

end Table

/-! ## What keys and exemptions are meant to match -/

/-- A packet to the socket of a key. -/
def PublicEndpointKey.matches (key : PublicEndpointKey) (packet : Packet) : Bool :=
  key.addressFamily == packet.route.family && key.network == packet.network &&
    key.port == packet.port && ((normalizeListen key.bindAddress).wildcard ||
      readAddr (normalizeListen key.bindAddress).value == some packet.route.destination)

/-- A packet that an exemption lets through. -/
def ProtectionExemption.matches (exemption : ProtectionExemption) (now : ℤ) (packet : Packet) :
    Bool :=
  exemption.key.matches packet && sourceIn packet exemption.sourcePrefix &&
    decide (exemption.recoveryPathID = trustedSource ∨ now < exemption.expiresAt)

theorem validEndpoint_fields {k : PublicEndpointKey} (h : validEndpoint k = true) :
    (k.network = .tcp ∨ k.network = .udp) ∧
      (k.addressFamily = .ipv4 ∨ k.addressFamily = .ipv6) ∧ k.port ≠ 0 := by
  simp only [validEndpoint] at h
  split at h
  · cases h
  · next hf =>
    by_contra hn
    apply hf
    tauto

/-- A valid key has a rule, and the rule matches the packets to its socket. -/
theorem endpointMatch_valid {k : PublicEndpointKey} (h : validEndpoint k = true) {s : Option Str}
    (hs : ∀ text ∈ s, validSource k text = true) :
    ∃ socket, endpointMatch k s = some socket ∧ ∀ packet,
      socket.matches packet = (k.matches packet && s.all (sourceIn packet)) := by
  obtain ⟨hn, hfm, hp⟩ := validEndpoint_fields h
  have hf : ¬(k.network ≠ .tcp ∧ k.network ≠ .udp ∨
      k.addressFamily ≠ .ipv4 ∧ k.addressFamily ≠ .ipv6 ∨ k.port = 0) := by tauto
  have hno : s.any (fun text => !validSource k text) = false := by
    cases s with
    | none => rfl
    | some text => simp [hs text rfl]
  rw [endpointMatch, if_neg hf, hno, if_neg (by decide)]
  by_cases hw : (normalizeListen k.bindAddress).wildcard = true
  · rw [if_pos hw]
    refine ⟨_, rfl, fun packet => ?_⟩
    simp only [SocketMatch.matches, PublicEndpointKey.matches, hw, Option.all_none,
      Bool.true_or, Bool.and_true]
    ac_rfl
  · rw [if_neg hw]
    simp only [validEndpoint] at h
    rw [if_neg (by tauto), if_neg hw] at h
    cases ha : readAddr (normalizeListen k.bindAddress).value with
    | none =>
      rw [ha] at h
      cases h
    | some a =>
      rw [ha] at h
      simp only [Bool.and_eq_true, beq_iff_eq] at h
      refine ⟨⟨k.addressFamily, s, some a, k.network, k.port⟩, by simp [h.2],
        fun packet => ?_⟩
      simp only [SocketMatch.matches, PublicEndpointKey.matches, hw, ha,
        Option.all_some, Bool.false_or]
      have hd : (some a == some packet.route.destination) = (a == packet.route.destination) := rfl
      rw [hd]
      ac_rfl

end Solovey.Network
