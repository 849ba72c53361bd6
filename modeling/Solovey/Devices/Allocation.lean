import Solovey.Devices.Mutate

/-!
# The address that a device is given

`allocate` of `projection.go` walks through the addresses of the server's prefix and passes over a
whole static prefix where it meets one. `allocate_least`: it finds the least host address that is
free, and an error of the pool exactly when none is.
-/

namespace Solovey.Devices

open Solovey.Net List

/-! ## The search -/

/-- An address that nothing has. -/
def Unused (used : List IPv4) (staticPrefixes : List (Prefix 32)) (address : IPv4) : Prop :=
  address ∉ used ∧ ∀ p ∈ staticPrefixes, p.contains address = false

variable {candidate : ℕ}

/-- Behind an address of a prefix the prefix goes on to its end. -/
theorem contains_of_le {p : Prefix 32} {next : ℕ} (hc : candidate < 2 ^ 32)
    (hh : p.contains (BitVec.ofNat 32 candidate) = true) (hle : candidate ≤ next)
    (he : next ≤ p.range.2) : p.contains (BitVec.ofNat 32 next) = true := by
  have hb := Prefix.bits_le_of_contains hh
  have hn : next < 2 ^ 32 := he.trans_lt (Prefix.range_lt hb)
  rw [Prefix.contains_iff_range hb, BitVec.toNat_ofNat, Nat.mod_eq_of_lt hc] at hh
  rw [Prefix.contains_iff_range hb, BitVec.toNat_ofNat, Nat.mod_eq_of_lt hn]
  exact ⟨hh.1.trans hle, he⟩

/-- What the loop finds from a candidate on. -/
def Finds (used : List IPv4) (staticPrefixes : List (Prefix 32)) (stop candidate : ℕ) :
    Option IPv4 → Prop
  | some address => candidate ≤ address.toNat ∧ address.toNat < stop ∧
      Unused used staticPrefixes address ∧
      ∀ next, candidate ≤ next → next < address.toNat →
        ¬Unused used staticPrefixes (BitVec.ofNat 32 next)
  | none => ∀ next, candidate ≤ next → next < stop →
      ¬Unused used staticPrefixes (BitVec.ofNat 32 next)

variable {u : List IPv4}

/-- Passing over addresses that are used. -/
theorem Finds.pass {ss : List (Prefix 32)} {s next : ℕ} {f : Option IPv4} (h : Finds u ss s next f)
    (hle : candidate ≤ next)
    (hus : ∀ n, candidate ≤ n → n < next → n < s → ¬Unused u ss (BitVec.ofNat 32 n)) :
    Finds u ss s candidate f := by
  cases f with
  | none =>
    intro n hn hs
    by_cases hnx : n < next
    · exact hus n hn hnx hs
    · exact h n (not_lt.mp hnx) hs
  | some a =>
    obtain ⟨hf, hto, hu, hl⟩ := h
    refine ⟨hle.trans hf, hto, hu, fun n hn hb => ?_⟩
    by_cases hnx : n < next
    · exact hus n hn hnx (hb.trans hto)
    · exact hl n (not_lt.mp hnx) hb

theorem search_finds {ss : List (Prefix 32)} {s : ℕ} (hs : s ≤ 2 ^ 32) :
    Finds u ss s candidate (search u ss s candidate) := by
  fun_induction search u ss s candidate with
  | case1 candidate hlt hus ih =>
    refine ih.pass (Nat.le_succ _) fun n hn hnx _ hu => ?_
    obtain rfl : n = candidate := by omega
    exact hu.1 hus
  | case2 candidate hlt hu hc =>
    have ht : (BitVec.ofNat 32 candidate).toNat = candidate := by
      rw [BitVec.toNat_ofNat, Nat.mod_eq_of_lt (hlt.trans_le hs)]
    refine ⟨ht.ge, ht.trans_lt hlt, ⟨hu, fun p hp => ?_⟩, fun n hn hb => ?_⟩
    · simpa using find?_eq_none.mp hc p hp
    · omega
  | case3 candidate hlt hu hit hfn ih =>
    have hh := find?_some hfn
    refine ih.pass (by omega) fun n hn hnx _ hf => ?_
    have he : n ≤ hit.range.2 := by
      have hin := hh
      rw [Prefix.contains_iff_range (Prefix.bits_le_of_contains hh), BitVec.toNat_ofNat,
        Nat.mod_eq_of_lt (hlt.trans_le hs)] at hin
      omega
    have hcn := contains_of_le (hlt.trans_le hs) hh hn he
    exact absurd (hf.2 hit (mem_of_find?_eq_some hfn)) (by simp [hcn])
  | case4 candidate he => exact fun n hn hs' => absurd (hn.trans_lt hs') he

/-! ## The addresses in use -/

/-- The addresses of an endpoint that the records of a client hold until they are released. -/
def Client.held (endpointID : ℕ) (client : Client) : List IPv4 :=
  (client.config.records.filter fun record =>
    record.endpointID == endpointID && !decide (0 < record.releasedAt)).map Record.address

def Database.held (db : Database) (endpointID : ℕ) : List IPv4 :=
  db.clients.flatMap (Client.held endpointID)

theorem collectUsed_eq {endpointID : ℕ} {os : List Client}
    (hl : ∀ client ∈ os, ∃ s, load client.config = .ok s)
    (hc : (u ++ os.flatMap (Client.held endpointID)).length < 4096) :
    collectUsed endpointID os u = .ok (u ++ os.flatMap (Client.held endpointID)) := by
  induction os generalizing u with
  | nil => simp [collectUsed]
  | cons client rest ih =>
    obtain ⟨s, hs⟩ := hl client mem_cons_self
    have hh : reservations endpointID s = Client.held endpointID client := by
      rw [reservations, load_devices hs, Client.held]
    rw [flatMap_cons, ← append_assoc] at hc ⊢
    have hln : (u ++ Client.held endpointID client).length < 4096 := by
      rw [length_append] at hc
      omega
    simp only [collectUsed, hs, hh]
    rw [if_neg (by omega), ih (fun other ho => hl other (mem_cons_of_mem _ ho)) hc]

theorem held_owners {ss : Sizes} {db : Database} {os : List Client} {endpointID : ℕ}
    (h : clients ss db = .ok os) :
    os.flatMap (Client.held endpointID) = db.held endpointID := by
  simp only [clients] at h
  split at h
  · cases h
  · cases h
    unfold Database.held
    induction db.clients with
    | nil => rfl
    | cons client rest ih =>
      -- a client without device state holds nothing
      cases hc : client.config with
      | malformed | plain => simp [Client.held, hc, Config.records, ih]
      | devices s => simp [hc, ih]

/-! ## The allocation -/

/-- A host address of the server's prefix that neither the server nor a device of the endpoint has
and that is in no static prefix. -/
def FreeHost (db : Database) (policy : Policy) (address : IPv4) : Prop :=
  policy.serverPrefix.host address = true ∧ address ≠ policy.serverPrefix.addr ∧
    address ∉ db.held policy.endpointID ∧ ∀ p ∈ policy.staticPrefixes, p.contains address = false

theorem freeHost_iff {db : Database} {p : Policy} {a : IPv4} (hb : p.serverPrefix.bits ≤ 32) :
    FreeHost db p a ↔ p.serverPrefix.range.1 < a.toNat ∧ a.toNat < p.serverPrefix.range.2 ∧
        Unused (p.serverPrefix.addr :: db.held p.endpointID) p.staticPrefixes
          a := by
  simp only [FreeHost, Prefix.host, Bool.and_eq_true, Prefix.contains_iff_range hb, bne_iff_ne,
    Unused, mem_cons, not_or]
  constructor
  · rintro ⟨⟨⟨⟨hfr, hto⟩, hf⟩, hl⟩, hsr, hh, hs⟩
    exact ⟨by omega, by omega, ⟨hsr, hh⟩, hs⟩
  · rintro ⟨hfr, hto, ⟨hsr, hh⟩, hs⟩
    exact ⟨⟨⟨⟨hfr.le, hto.le⟩, hfr.ne'⟩, hto.ne⟩, hsr, hh, hs⟩

/-- Where the clients are within their limits and can be read and the endpoint has fewer than 4096
addresses in use, an allocation gives the least free host address, or the error of the pool when
there is none. -/
theorem allocate_least (sizes : Sizes) (db : Database) (policy : Policy) {owners : List Client}
    (hbits : policy.serverPrefix.bits ≤ 30) (howners : clients sizes db = .ok owners)
    (hload : ∀ client ∈ owners, ∃ state, load client.config = .ok state)
    (hcount : (db.held policy.endpointID).length < 4096) :
    (∀ address, allocate sizes db policy = .ok address ↔
      FreeHost db policy address ∧
        ∀ other, FreeHost db policy other → address.toNat ≤ other.toNat) ∧
    (allocate sizes db policy = .error .pool ↔ ∀ address, ¬FreeHost db policy address) := by
  have hb32 : policy.serverPrefix.bits ≤ 32 := by omega
  have hh : owners.flatMap (Client.held policy.endpointID) = db.held policy.endpointID :=
    held_owners howners
  have hus : collectUsed policy.endpointID owners [] = .ok (db.held policy.endpointID) := by
    rw [collectUsed_eq hload (by simpa [hh] using hcount), nil_append, hh]
  simp only [allocate, if_neg (not_lt.mpr hbits), howners, hus]
  have hfn : Finds (policy.serverPrefix.addr :: db.held policy.endpointID) policy.staticPrefixes
      policy.serverPrefix.range.2 (policy.serverPrefix.range.1 + 1) _ :=
    search_finds (Prefix.range_lt hb32).le
  generalize search (policy.serverPrefix.addr :: db.held policy.endpointID) policy.staticPrefixes
    policy.serverPrefix.range.2 (policy.serverPrefix.range.1 + 1) = found at hfn ⊢
  cases found with
  | none =>
    have hn : ∀ address, ¬FreeHost db policy address := by
      intro address hfe
      obtain ⟨hfm, hto, hu⟩ := (freeHost_iff hb32).mp hfe
      refine hfn address.toNat hfm hto ?_
      rwa [BitVec.ofNat_toNat, BitVec.setWidth_eq]
    simp only [reduceCtorEq, false_iff, not_and, true_iff]
    exact ⟨fun address hfe => absurd hfe (hn address), hn⟩
  | some found =>
    obtain ⟨hfm, hto, hu, hl⟩ := hfn
    have hf : FreeHost db policy found := (freeHost_iff hb32).mpr ⟨hfm, hto, hu⟩
    have hm : ∀ other, FreeHost db policy other → found.toNat ≤ other.toNat := by
      intro other hfe
      obtain ⟨hfm, -, hu⟩ := (freeHost_iff hb32).mp hfe
      by_contra hlt
      refine hl other.toNat hfm (not_le.mp hlt) ?_
      rwa [BitVec.ofNat_toNat, BitVec.setWidth_eq]
    refine ⟨fun address => ⟨?_, ?_⟩, ?_⟩
    · rintro ⟨⟩
      exact ⟨hf, hm⟩
    · rintro ⟨hfe, hfr⟩
      have heq : found.toNat = address.toNat := le_antisymm (hm _ hfe) (hfr _ hf)
      rw [BitVec.toNat_inj.mp heq]
    · simp only [reduceCtorEq, false_iff, not_forall, not_not]
      exact ⟨found, hf⟩

/-- The server at `10.0.0.1/29`, with the addresses `10.0.0.2/31` fixed. -/
def smallPolicy : Policy where
  endpointID := 7
  available := true
  serverPrefix := ⟨0x0A000001#32, 29⟩
  staticPrefixes := [⟨0x0A000002#32, 31⟩]
  deviceLimit := 5

/-- One client, whose device has `10.0.0.4`. -/
def oneDevice : Database where
  clients := [{
    id := 1
    config := .devices { devices := [{
      id := 1, endpointID := 7, name := "phone", address := 0x0A000004#32, keys := ⟨1, "", ""⟩,
      createRequest := [], createdAt := 1, revision := 1 }] } }]
  distinct := by decide

theorem allocate_least_small : allocate ⟨fun _ => 0, fun _ => 0⟩ oneDevice smallPolicy =
    .ok 0x0A000005#32 := by
  have hld : ∀ client ∈ oneDevice.clients, ∃ s, load client.config = .ok s := by
    intro client hcl
    obtain rfl := mem_singleton.mp hcl
    exact ⟨_, rfl⟩
  have hl := allocate_least ⟨fun _ => 0, fun _ => 0⟩ oneDevice smallPolicy (by decide) rfl
    hld (by decide)
  refine (hl.1 _).mpr ⟨⟨by decide, by decide, by decide, by decide⟩, fun other ho => ?_⟩
  have hf : 0x0A000000 < other.toNat := ((freeHost_iff (by decide)).mp ho).1
  by_contra hlt
  have hb : other.toNat < 0x0A000005 := not_le.mp hlt
  have hc : other = 0x0A000001#32 ∨ other = 0x0A000002#32 ∨ other = 0x0A000003#32 ∨
      other = 0x0A000004#32 := by bv_omega
  unfold FreeHost at ho
  rcases hc with rfl | rfl | rfl | rfl <;> exact absurd ho (by decide)

end Solovey.Devices
