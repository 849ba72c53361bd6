import Solovey.Devices.Records

/-!
# Addresses over runs

Transactions on the table of clients: mutations, accounting, and edits of clients by others, which
keep the device state byte for byte. In every table they lead to, the records of an endpoint that
still reserve their address have different addresses, and so have the peers that the runtime is
given.
-/

namespace Solovey.Devices

open Solovey.Net List

/-- One committed transaction; a failed one leaves the table as it was. The policies of the
endpoints may differ from call to call. -/
inductive Step (sizes : Sizes) (db db' : Database) : Prop
  | mutate {policies : Policies} {supply : Supply} {now : ℤ} {request : Request} {changed : List ℕ}
      (hnow : 0 < now) (h : mutate policies sizes supply now db request = .ok (db', changed))
  | account {snapshot : Snapshot} {update : ℕ → Option Error} {deltas : List TrafficDelta}
      (h : account sizes snapshot update db = .ok (db', deltas))
  | edited (h : List.Forall₂ (fun client client' =>
      client'.id = client.id ∧ client'.config = client.config) db.clients db'.clients)

abbrev Run (sizes : Sizes) : Database → Database → Prop := Relation.ReflTransGen (Step sizes)

/-- No client has device state yet. -/
def Database.Fresh (db : Database) : Prop := ∀ client ∈ db.clients, client.config.records = []

section

variable {policies : Policies} {sizes : Sizes}

/-! ## Replacing one row -/

variable {db : Database} {client : Client}

theorem Database.client_split {id : ℕ} (h : db.client id = some client) (s : State) :
    client.id = id ∧ ∃ before after, db.clients = before ++ client :: after ∧
      (db.store client.id s).clients = before ++ { client with config := .devices s } :: after := by
  obtain ⟨hid, before, after, hs, hb⟩ := find?_eq_some_iff_append.mp h
  refine ⟨by simpa using hid, before, after, hs, ?_⟩
  have hd := db.distinct
  rw [hs, map_append, map_cons, nodup_append] at hd
  obtain ⟨-, ha, hap⟩ := hd
  have ho : ∀ rows : List Client, (∀ row ∈ rows, row.id ≠ client.id) →
      rows.map (fun row => if row.id = client.id then { row with config := .devices s }
        else row) = rows := by
    intro rows hrw
    conv_rhs => rw [← List.map_id rows]
    exact map_congr_left fun row hro => if_neg (hrw row hro)
  simp only [Database.store, hs, map_append, map_cons, if_true]
  rw [ho before, ho after]
  · intro row hro hr
    exact (nodup_cons.mp ha).1 (hr ▸ mem_map_of_mem hro)
  · intro row hro hr
    exact hap _ (mem_map_of_mem hro) _ mem_cons_self hr

/-- A creation in the table: one row gets one record more. -/
structure CreatedIn (policies : Policies) (sizes : Sizes) (db db' : Database) (client : Client)
    (state : State) (record : Record) (request : Request) : Prop where
  created : Created policies sizes db state request record
  found : db.client request.clientID = some client
  loaded : load client.config = .ok state
  stored : db' = db.store client.id { state with devices := state.devices ++ [record] }

variable {db' : Database}

theorem Step.rows (h : Step sizes db db') : List.Forall₂ Client.Later db.clients db'.clients ∨
      ∃ policies client s record request,
        CreatedIn policies sizes db db' client s record request := by
  cases h with
  | mutate _ h =>
    obtain ⟨client, s, hcl, hs, ⟨-, rfl, -⟩ | ⟨s', hp, rfl, -⟩⟩ := mutate_ok h
    · exact .inl (forall₂_same.mpr fun client _ => .refl client)
    rcases perform_ok hp with hl | ⟨-, record, rfl, hcr⟩
    · obtain ⟨-, before, after, hr, hst⟩ := Database.client_split hcl s'
      rw [hr, hst]
      refine .inl (rel_append (forall₂_same.mpr fun client _ => .refl client)
        (.cons ⟨rfl, ?_⟩ (forall₂_same.mpr fun client _ => .refl client)))
      rw [← load_devices hs]
      exact hl
    · exact .inr ⟨_, client, s, record, _, hcr, hcl, hs, rfl⟩
  | account h => exact .inl (account_ok h)
  | edited h =>
    exact .inl (h.imp fun client client' hsm => ⟨hsm.1, hsm.2 ▸ Record.Later.forall₂_refl _⟩)

/-! ## Reserved addresses -/

/-- The records of an endpoint that reserve their address. -/
def reservedBy (endpointID : ℕ) (records : List Record) : List Record :=
  records.filter fun record => record.endpointID == endpointID && record.releasedAt == 0

def Database.reserved (db : Database) (endpointID : ℕ) : List Record :=
  db.clients.flatMap fun client => reservedBy endpointID client.config.records

variable {endpointID : ℕ}

theorem reservedBy_sublist {rs l : List Record} (h : List.Forall₂ Record.Later rs l) :
    ((reservedBy endpointID l).map Record.address).Sublist
      ((reservedBy endpointID rs).map Record.address) := by
  induction h with
  | nil => exact .slnil
  | @cons record l rs ls hl _ ih =>
    simp only [reservedBy, filter_cons, hl.endpointID]
    by_cases hr : l.releasedAt = 0
    · rw [hr, hl.unreleased hr]
      split
      · rw [map_cons, map_cons, hl.address]
        exact ih.cons_cons _
      · exact ih
    · rw [if_neg (by simp [hr])]
      split
      · exact ih.cons _
      · exact ih

theorem reserved_sublist {rs l : List Client} (h : List.Forall₂ Client.Later rs l) :
    ((l.flatMap fun client => reservedBy endpointID client.config.records).map
        Record.address).Sublist
      ((rs.flatMap fun client => reservedBy endpointID client.config.records).map
        Record.address) := by
  induction h with
  | nil => exact .slnil
  | cons hl _ ih =>
    simp only [flatMap_cons, map_append]
    exact (reservedBy_sublist hl.2).append ih

/-! ## A fresh address -/

theorem search_unused {u : List IPv4} {ss : List (Prefix 32)} {s c : ℕ} {a : IPv4}
    (h : search u ss s c = some a) :
    a ∉ u := by
  fun_induction search u ss s c with
  | case1 _ _ _ ih => exact ih h
  | case2 c _ hu _ =>
    cases h
    exact hu
  | case3 _ _ _ _ _ ih => exact ih h
  | case4 => cases h

theorem collectUsed_ok {os : List Client} {u u' : List IPv4}
    (h : collectUsed endpointID os u = .ok u') :
    u ⊆ u' ∧ ∀ client ∈ os,
      (reservedBy endpointID client.config.records).map Record.address ⊆ u' := by
  induction os generalizing u with
  | nil =>
    cases h
    simp
  | cons client rest ih =>
    simp only [collectUsed] at h
    split at h
    · cases h
    next state hs =>
    split at h
    · cases h
    obtain ⟨hu, hr⟩ := ih h
    have hcl : (reservedBy endpointID client.config.records).map Record.address ⊆
        reservations endpointID state := by
      rw [reservations, load_devices hs]
      refine map_subset _ (monotone_filter_right _ ?_).subset
      intro record hrc
      simp only [Bool.and_eq_true, beq_iff_eq, Bool.not_eq_true', decide_eq_false_iff_not] at hrc ⊢
      exact ⟨hrc.1, by omega⟩
    refine ⟨fun a ha => hu (mem_append_left _ ha), fun client' hm => ?_⟩
    rcases mem_cons.mp hm with rfl | hm
    · exact fun a ha => hu (mem_append_right _ (hcl ha))
    · exact hr client' hm

/-- An allocated address is reserved by no record of the endpoint. -/
theorem allocate_fresh {p : Policy} {a : IPv4} (h : allocate sizes db p = .ok a) :
    a ∉ (db.reserved p.endpointID).map Record.address := by
  simp only [allocate] at h
  split at h
  · cases h
  split at h
  · cases h
  next owners ho =>
  split at h
  · cases h
  next used hus =>
  split at h
  · next hs =>
    cases h
    have hu := search_unused hs
    rw [mem_cons, not_or] at hu
    intro hm
    obtain ⟨record, hr, ha⟩ := mem_map.mp hm
    obtain ⟨client, hcl, hr⟩ := mem_flatMap.mp hr
    refine hu.2 ((collectUsed_ok hus).2 client ?_ (mem_map.mpr ⟨record, hr, ha⟩))
    simp only [clients] at ho
    split at ho
    · cases ho
    · cases ho
      refine mem_filter.mpr ⟨hcl, ?_⟩
      -- a client without device state has no record
      cases hc : client.config with
      | devices s => rfl
      | malformed | plain => simp [hc, Config.records, reservedBy] at hr
  · cases h

/-! ## The invariant -/

structure Inv (db : Database) : Prop where
  distinct : ∀ endpointID, ((db.reserved endpointID).map Record.address).Nodup
  /-- Only a deleted device has released its address. -/
  deleted : ∀ client ∈ db.clients, ∀ record ∈ client.config.records,
    record.releasedAt ≠ 0 → record.deletedAt ≠ 0

theorem Database.Fresh.inv (h : db.Fresh) : Inv db where
  distinct endpointID := by
    have hn : db.reserved endpointID = [] := by
      rw [Database.reserved, flatMap_eq_nil_iff]
      intro client hcl
      rw [h client hcl, reservedBy, filter_nil]
    rw [hn]
    exact nodup_nil
  deleted client hcl record hr := by
    rw [h client hcl] at hr
    cases hr

theorem Inv.later (hi : Inv db) (hrw : List.Forall₂ Client.Later db.clients db'.clients) :
    Inv db' where
  distinct endpointID := (hi.distinct endpointID).sublist (reserved_sublist hrw)
  deleted client' hc' later hl hrl := by
    obtain ⟨client, hcl, -, hrc⟩ := Data.forall₂_mem_right hrw hc'
    obtain ⟨record, hr, hf⟩ := Data.forall₂_mem_right hrc hl
    have hd : record.deletedAt ≠ 0 := by
      rcases hf.released hrl with h | h
      · exact hi.deleted client hcl record hr h
      · exact h
    rw [hf.deletedAt hd]
    exact hd

theorem Inv.created {s : State} {r : Record} {request : Request} (hi : Inv db)
    (h : CreatedIn policies sizes db db' client s r request) : Inv db' := by
  obtain ⟨policy, hp, ha⟩ := h.created.allocated
  have hf := allocate_fresh ha
  rw [policies.endpointID_eq hp, ← h.created.endpointID] at hf
  have hrc := load_devices h.loaded
  obtain ⟨-, before, after, hr, hs⟩ :=
    Database.client_split h.found { s with devices := s.devices ++ [r] }
  rw [← h.stored] at hs
  constructor
  · intro endpointID
    have hin' := hi.distinct endpointID
    simp only [Database.reserved, hr, hs, flatMap_append, flatMap_cons,
      Config.records, hrc, reservedBy, filter_append, filter_cons, filter_nil,
      map_append] at hin' ⊢
    by_cases hep : r.endpointID = endpointID
    · subst hep
      simp only [Database.reserved, hr, flatMap_append, flatMap_cons, reservedBy, map_append] at hf
      simp only [BEq.rfl, h.created.releasedAt, Bool.and_self, if_true, map_cons, map_nil]
      -- the new address stands between those of the client and those of the rest
      rw [append_assoc, ← append_assoc, singleton_append]
      refine (perm_middle.nodup_iff).mpr (nodup_cons.mpr ⟨?_, ?_⟩)
      · rwa [append_assoc]
      · rwa [append_assoc]
    · simpa [hep] using hin'
  · intro client' hc' r' hr'
    rw [hs] at hc'
    have ho : ∀ client' ∈ before ++ client :: after, ∀ r' ∈ client'.config.records,
        r'.releasedAt ≠ 0 → r'.deletedAt ≠ 0 := by
      rw [← hr]
      exact hi.deleted
    rcases mem_append.mp hc' with hm | hm
    · exact ho client' (mem_append_left _ hm) r' hr'
    rcases mem_cons.mp hm with rfl | hm
    · rcases mem_append.mp hr' with hm | hm
      · rw [hrc] at hm
        exact ho client (by simp) r' hm
      · rw [mem_singleton.mp hm, h.created.releasedAt]
        exact fun h => absurd rfl h
    · exact ho client' (by simp [hm]) r' hr'

theorem Inv.step (hi : Inv db) (h : Step sizes db db') : Inv db' := by
  rcases h.rows with hl | ⟨policies, client, s, record, request, hcr⟩
  · exact hi.later hl
  · exact hi.created hcr

theorem Run.inv {s : Database} (hs : s.Fresh) (hr : Run sizes s db) : Inv db := by
  induction hr with
  | refl => exact hs.inv
  | tail _ hst ih => exact ih.step hst

/-! ## Peers of the runtime -/

theorem collectPeers_addresses {p : Policy} {b : ℕ → Record → Option String}
    {ds : List (ℕ × Record)} {ps r : List Peer} (h : collectPeers p b ds ps = .ok r) :
    r.flatMap Peer.allowedIPs =
      ps.flatMap Peer.allowedIPs ++ ds.map fun device => device.2.address := by
  induction ds generalizing ps with
  | nil =>
    cases h
    simp
  | cons device rest ih =>
    simp only [collectPeers] at h
    split at h
    · cases h
    split at h
    · cases h
    split at h
    · cases h
    split at h
    · cases h
    · rw [ih h]
      simp

variable {now : ℤ}

theorem availableRecord_marks {s : State} {r : Record} (h : availableRecord s r client now = true) :
    r.revokedAt = 0 ∧ r.deletedAt = 0 := by
  simp only [availableRecord, Bool.and_eq_true, beq_iff_eq] at h
  exact ⟨h.1.1.2, h.1.2⟩

theorem availableDevices_sublist
    (hd : ∀ record ∈ client.config.records, record.releasedAt ≠ 0 → record.deletedAt ≠ 0) :
    (availableDevices endpointID now client).Sublist
      (reservedBy endpointID client.config.records) := by
  rw [availableDevices]
  split
  · exact nil_sublist _
  next state hs =>
  rw [← load_devices hs] at hd ⊢
  have hf : (state.devices.filter fun device =>
      device.endpointID == endpointID && availableRecord state device client now) =
      (reservedBy endpointID state.devices).filter fun device =>
        availableRecord state device client now := by
    rw [reservedBy, filter_filter]
    refine filter_congr fun record hr => ?_
    cases ha : availableRecord state record client now with
    | false => simp
    | true =>
      have hu : record.releasedAt = 0 := by
        by_contra hne
        exact hd record hr hne (availableRecord_marks ha).2
      simp [hu]
  rw [hf]
  exact filter_sublist

theorem Inv.runtimePeers (hi : Inv db) {b : ℕ → Record → Option String} {p : Policy}
    {ps : List Peer} (h : runtimePeers sizes b db p now = .ok ps) :
    (ps.flatMap Peer.allowedIPs).Nodup := by
  simp only [Devices.runtimePeers] at h
  split at h
  · cases h
    exact nodup_nil
  split at h
  · cases h
  next owners ho =>
  rw [collectPeers_addresses h, flatMap_nil, nil_append, map_flatMap]
  refine (hi.distinct p.endpointID).sublist ?_
  have ho : owners.Sublist db.clients := by
    simp only [clients] at ho
    split at ho
    · cases ho
    · cases ho
      exact filter_sublist
  rw [Database.reserved, map_flatMap]
  refine (List.Sublist.flatMap_right owners ?_).trans (ho.flatMap _)
  intro client hcl
  rw [List.map_map]
  exact (availableDevices_sublist (hi.deleted client (ho.subset hcl))).map _

/-- Addresses are unique in every table a run leads to: no two records of one endpoint reserve the
same address, and no two peers of one endpoint are given the same address. -/
theorem addresses_unique {start db : Database} (hstart : start.Fresh)
    (hrun : Run sizes start db) :
    (∀ endpointID, ((db.reserved endpointID).map Record.address).Nodup) ∧
      ∀ borrow policy now peers, runtimePeers sizes borrow db policy now = .ok peers →
        (peers.flatMap Peer.allowedIPs).Nodup :=
  ⟨(hrun.inv hstart).distinct, fun _ _ _ _ hp => (hrun.inv hstart).runtimePeers hp⟩

end

namespace Sample

/-- The server has 10.0.0.1 in a network of six hosts, with one static peer at 10.0.0.2. -/
def policy : Policy where
  endpointID := 1
  available := true
  serverPrefix := ⟨0x0a000001, 29⟩
  staticPrefixes := [⟨0x0a000002, 32⟩]
  deviceLimit := 2

def policies : Policies where
  resolve id := if id = 1 then some policy else none
  endpointID_eq h := by
    split at h
    · next hid =>
      cases h
      exact hid.symm
    · cases h

def sizes : Sizes := ⟨fun _ => 0, fun _ => 0⟩

def keys (n : ℕ) : Keys := ⟨.ofNat 256 n, "private", "preshared"⟩

def record (n : ℕ) (address : IPv4) (key : String) : Record where
  id := .ofNat 128 n
  endpointID := 1
  name := "phone"
  address
  keys := keys n
  createRequest := Hash.hexDigest (Text.encodeUtf8 key.toList)
  createdAt := 100
  revision := 1

def grantRequest (clientID : ℕ) (deviceLimit : ℤ) : Request where
  clientID
  endpointID := 1
  operation := .grant
  deviceLimit

def createRequest (clientID : ℕ) (key : String) : Request where
  clientID
  endpointID := 1
  operation := .create
  requestKey := key
  name := "phone"

def supply (n : ℕ) : Supply where
  identity := some (.ofNat 128 n)
  keys := some (keys n)

/-- Two clients, each with its state under `wireguard`. -/
def table (alice bob : Config) : Database where
  clients := [{ id := 1, config := alice }, { id := 2, config := bob }]
  distinct := by simp

def holding (records : List Record) : Config := .devices ⟨[⟨1, 0⟩], records⟩

end Sample

open Sample in
/-- Two clients are granted the endpoint and create a device each. -/
theorem addresses_unique_two :
    ∃ db, Run sizes (table .plain .plain) db ∧
      ((db.reserved 1).map Record.address).Nodup ∧
      (db.reserved 1).map Record.address = [0x0a000003, 0x0a000004] := by
  let alice := record 1 0x0a000003 "request-key-0001"
  let bob := record 2 0x0a000004 "request-key-0002"
  have h₁ : mutate policies sizes {} 100 (table .plain .plain) (grantRequest 1 0) =
      .ok (table (holding []) .plain, [1]) := by decide +kernel
  have h₂ : mutate policies sizes {} 100 (table (holding []) .plain) (grantRequest 2 0) =
      .ok (table (holding []) (holding []), [1]) := by decide +kernel
  have h₃ : mutate policies sizes (supply 1) 100 (table (holding []) (holding []))
      (createRequest 1 "request-key-0001") =
      .ok (table (holding [alice]) (holding []), [1]) := by decide +kernel
  have h₄ : mutate policies sizes (supply 2) 100 (table (holding [alice]) (holding []))
      (createRequest 2 "request-key-0002") =
      .ok (table (holding [alice]) (holding [bob]), [1]) := by decide +kernel
  have hr : Run sizes (table .plain .plain) (table (holding [alice]) (holding [bob])) :=
    (((Relation.ReflTransGen.single (.mutate (by decide) h₁)).tail (.mutate (by decide) h₂)).tail
      (.mutate (by decide) h₃)).tail (.mutate (by decide) h₄)
  have hs : (table .plain .plain).Fresh := by
    intro client hcl
    simp only [table, mem_cons, not_mem_nil, or_false] at hcl
    rcases hcl with rfl | rfl <;> rfl
  exact ⟨_, hr, (addresses_unique hs hr).1 1, by decide +kernel⟩

end Solovey.Devices
