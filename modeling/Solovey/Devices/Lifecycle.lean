import Solovey.Devices.Run

/-!
# The life of a device

Requests may be repeated at any time and in any order. A creation request makes at most one record,
a retired device stays retired, a new device respects the limit in force when it is created, and the
revision counts the changes of a device.
-/

namespace Solovey.Devices

open List

section

variable {policies : Policies} {sizes : Sizes}

/-! ## Reading one client -/

variable {db : Database} {id : ℕ} {client : Client}

theorem Database.client_id (h : db.client id = some client) :
    client.id = id ∧ client ∈ db.clients :=
  ⟨by simpa using find?_some h, mem_of_find?_eq_some h⟩

theorem Database.devices_eq (h : db.client id = some client) :
    db.devices id = client.config.records := by
  rw [Database.devices, h]

variable {db' : Database}

/-- The lists of the clients' records change place by place when the rows do. -/
theorem devices_later (h : List.Forall₂ Client.Later db.clients db'.clients) (id : ℕ) :
    List.Forall₂ Record.Later (db.devices id) (db'.devices id) := by
  have hr : Option.Rel Client.Later (db.client id) (db'.client id) :=
    Data.find?_forall₂ (fun hl => by rw [hl.1]) h
  unfold Database.devices
  generalize db.client id = found, db'.client id = found' at hr ⊢
  cases hr with
  | some hl => exact hl.2
  | none => exact .nil

theorem client_store (h : db.client id = some client) (s : State) (id' : ℕ) :
    (db.store client.id s).devices id' =
      if id' = id then s.devices else db.devices id' := by
  have hid := (Database.client_id h).1
  have hf : (db.store client.id s).client id' = (db.client id').map fun row =>
        if row.id = client.id then { row with config := .devices s } else row := by
    simp only [Database.client, Database.store, find?_map]
    congr 2
    funext row
    rw [Function.comp_apply]
    split <;> rfl
  rw [Database.devices, hf]
  by_cases hs : id' = id
  · rw [hs, h, if_pos rfl]
    simp [Config.records]
  · rw [if_neg hs, Database.devices]
    cases hrw : db.client id' with
    | none => rfl
    | some row =>
      have hr := (Database.client_id hrw).1
      rw [Option.map_some, if_neg (by rw [hr, hid]; exact hs)]

variable {request : Request}

theorem CreatedIn.devices {s : State} {r : Record}
    (h : CreatedIn policies sizes db db' client s r request) (id : ℕ) :
    db'.devices id = if id = request.clientID then db.devices id ++ [r]
      else db.devices id := by
  rw [h.stored, client_store h.found]
  split
  · next hid => rw [hid, Database.devices_eq h.found, ← load_devices h.loaded]
  · rfl

/-! ## Creation requests -/

/-- The records of a client answer different creation requests. -/
def RequestsDistinct (records : List Record) : Prop :=
  (records.map fun record => (record.endpointID, record.createRequest)).Nodup

theorem RequestsDistinct.later {rs l : List Record} (h : RequestsDistinct rs)
    (hl : List.Forall₂ Record.Later rs l) : RequestsDistinct l := by
  have hs : l.map (fun record => (record.endpointID, record.createRequest)) =
      rs.map fun record => (record.endpointID, record.createRequest) := by
    clear h
    induction hl with
    | nil => rfl
    | cons hl _ ih => rw [map_cons, map_cons, ih, hl.endpointID, hl.createRequest]
  rwa [RequestsDistinct, hs]

theorem RequestsDistinct.step (h : Step sizes db db') (hd : ∀ id, RequestsDistinct (db.devices id))
    (id : ℕ) :
    RequestsDistinct (db'.devices id) := by
  rcases h.rows with hl | ⟨policies, client, s, record, request, hcr⟩
  · exact (hd id).later (devices_later hl id)
  · rw [hcr.devices]
    split
    · next hid =>
      rw [RequestsDistinct, map_append, map_singleton, nodup_append]
      refine ⟨hd id, nodup_singleton _, ?_⟩
      intro p hp p' hp' heq
      obtain ⟨other, ho, rfl⟩ := mem_map.mp hp
      rw [mem_singleton.mp hp', Prod.mk.injEq] at heq
      rw [hid, Database.devices_eq hcr.found, ← load_devices hcr.loaded] at ho
      exact hcr.created.fresh other ho heq.1 heq.2
    · exact hd id

theorem Run.requestsDistinct {s : Database} (hs : s.Fresh) (hr : Run sizes s db) (id : ℕ) :
    RequestsDistinct (db.devices id) := by
  induction hr generalizing id with
  | refl =>
    have hn : s.devices id = [] := by
      rw [Database.devices]
      split
      · next client hcl => exact hs client (Database.client_id hcl).2
      · rfl
    rw [hn]
    exact nodup_nil
  | tail _ hst ih => exact RequestsDistinct.step hst ih id

theorem RequestsDistinct.countP_le {rs : List Record} (h : RequestsDistinct rs) (endpointID : ℕ)
    (hash : List Char) :
    (rs.countP fun record =>
      record.endpointID == endpointID && record.createRequest == hash) ≤ 1 := by
  have hc := nodup_iff_count_le_one.mp h (endpointID, hash)
  rw [List.count, countP_map] at hc
  refine le_of_eq_of_le (countP_congr fun record _ => ?_) hc
  simp

/-! ## Records over a run -/

/-- What a run leaves of a record. -/
structure Record.Kept (record kept : Record) : Prop where
  id : kept.id = record.id
  endpointID : kept.endpointID = record.endpointID
  createRequest : kept.createRequest = record.createRequest
  revokedAt : record.revokedAt ≠ 0 → kept.revokedAt = record.revokedAt
  deletedAt : record.deletedAt ≠ 0 → kept.deletedAt = record.deletedAt

theorem Record.Kept.later {r k l : Record} (h : r.Kept k) (hl : k.Later l) : r.Kept l where
  id := hl.id.trans h.id
  endpointID := hl.endpointID.trans h.endpointID
  createRequest := hl.createRequest.trans h.createRequest
  revokedAt hr := (hl.revokedAt (by rwa [h.revokedAt hr])).trans
    (h.revokedAt hr)
  deletedAt hd := (hl.deletedAt (by rwa [h.deletedAt hd])).trans
    (h.deletedAt hd)

/-- One step leaves each record in its place. -/
theorem Step.devices (h : Step sizes db db') {i : ℕ} {r : Record}
    (hr : (db.devices id)[i]? = some r) :
    ∃ later, (db'.devices id)[i]? = some later ∧ r.Later later := by
  rcases h.rows with hl | ⟨policies, client, s, new, request, hcr⟩
  · exact Data.forall₂_getElem? (devices_later hl id) hr
  · refine ⟨r, ?_, .refl r⟩
    rw [hcr.devices]
    split
    · rw [getElem?_append_left (List.getElem?_eq_some_iff.mp hr).1, hr]
    · exact hr

theorem Run.devices (h : Run sizes db db') {i : ℕ} {r : Record}
    (hr : (db.devices id)[i]? = some r) :
    ∃ kept, (db'.devices id)[i]? = some kept ∧ r.Kept kept := by
  induction h with
  | refl => exact ⟨r, hr, rfl, rfl, rfl, fun _ => rfl, fun _ => rfl⟩
  | tail _ hs ih =>
    obtain ⟨kept, hk, hf⟩ := ih
    obtain ⟨later, hl, hfr⟩ := hs.devices hk
    exact ⟨later, hl, hf.later hfr⟩

theorem Record.Kept.unavailable {r k : Record} (h : r.Kept k)
    (hr : r.revokedAt ≠ 0 ∨ r.deletedAt ≠ 0) (s : State) (client : Client) (now : ℤ) :
    availableRecord s k client now = false := by
  by_contra ha
  obtain ⟨hrv, hd⟩ := availableRecord_marks (Bool.not_eq_false _ ▸ ha)
  rcases hr with hne | hne
  · exact hne ((h.revokedAt hne).symm.trans hrv)
  · exact hne ((h.deletedAt hne).symm.trans hd)

/-! ## Retiring a device -/

variable {now : ℤ}

theorem retireRecord_marks (hn : 0 < now) (request : Request) (record : Record) :
    let r := (retireRecord now request record).getD record
    r.revokedAt ≠ 0 ∧ (request.operation = .delete → r.deletedAt ≠ 0) := by
  intro r
  simp only [r, retireRecord]
  split
  · next h =>
    refine ⟨h.1, fun hd => ?_⟩
    simpa [hd] using h.2
  · rw [Option.getD_some]
    constructor
    · dsimp only
      split
      · exact hn.ne'
      · assumption
    · intro hd
      dsimp only
      split
      · exact hn.ne'
      · next h => exact fun hz => h ⟨hd, hz⟩

/-- A call that retires a device succeeds only with the device retired. -/
theorem mutate_retires {supply : Supply} {c : List ℕ} (hnw : 0 < now)
    (ho : request.operation = .revoke ∨ request.operation = .delete)
    (h : mutate policies sizes supply now db request = .ok (db', c)) :
    ∃ (i : ℕ) (r : Record), (db'.devices request.clientID)[i]? = some r ∧
      r.id = request.deviceID ∧ r.endpointID = request.endpointID ∧
      r.revokedAt ≠ 0 ∧ (request.operation = .delete → r.deletedAt ≠ 0) := by
  obtain ⟨client, s, hcl, hs, hc⟩ := mutate_ok h
  have hp : perform policies sizes supply now db client s request =
      changeRecord policies supply now client s request := by
    rcases ho with hop | hop <;> simp [perform, hop]
  have hr : request.operation ≠ .rotate := by rcases ho with hop | hop <;> simp [hop]
  rw [hp, changeRecord] at hc
  simp only [hr, if_false] at hc
  split at hc
  · simp at hc
  next index hi =>
  split at hc
  · simp at hc
  next r hrc =>
  have hn : r.id = request.deviceID ∧ r.endpointID = request.endpointID := by
    obtain ⟨hlt, hf, -⟩ := findIdx?_eq_some_iff_getElem.mp hi
    rw [(List.getElem?_eq_some_iff.mp hrc).2] at hf
    simpa using hf
  have hm := retireRecord_marks hnw request r
  cases hrt : retireRecord now request r with
  | none =>
    rw [hrt] at hc hm
    obtain ⟨-, rfl, -⟩ | ⟨s', hs', -⟩ := hc
    · rw [load_devices hs, ← Database.devices_eq hcl] at hrc
      exact ⟨index, r, hrc, hn.1, hn.2, hm⟩
    · simp at hs'
  | some rt =>
    rw [hrt] at hc hm
    obtain ⟨hnn, -⟩ | ⟨s', hs', rfl, -⟩ := hc
    · simp at hnn
    · have hl := retireRecord_later hrt
      simp only [Except.ok.injEq, Option.some.injEq] at hs'
      refine ⟨index, rt, ?_, hl.id.trans hn.1, hl.endpointID.trans hn.2, hm⟩
      rw [client_store hcl, if_pos rfl, ← hs',
        getElem?_set_self (List.getElem?_eq_some_iff.mp hrc).1]

/-! ## The limit of a creation -/

/-- The device limit in force for a request: the grant's, or else the endpoint's. -/
def Database.effectiveLimit (policies : Policies) (db : Database) (request : Request) :
    Option ℤ :=
  match db.client request.clientID with
  | none => none
  | some client =>
    match load client.config with
    | .error _ => none
    | .ok state =>
      match granted state request.endpointID, policies.resolve request.endpointID with
      | some grant, some policy => some (Devices.effectiveLimit policy grant)
      | _, _ => none

theorem mutate_limited {supply : Supply} {c : List ℕ}
    (h : mutate policies sizes supply now db request = .ok (db', c))
    (ha : (db'.devices request.clientID).length ≠ (db.devices request.clientID).length) :
    ∃ limit, db.effectiveLimit policies request = some limit ∧
      undeleted (db'.devices request.clientID) request.endpointID ≤ limit := by
  obtain ⟨client, s, hcl, hs, ⟨-, rfl, -⟩ | ⟨s', hp, hst, -⟩⟩ := mutate_ok h
  · exact absurd rfl ha
  have hd : db.devices request.clientID = s.devices := by
    rw [Database.devices_eq hcl, load_devices hs]
  rw [hst, client_store hcl, if_pos rfl, hd] at ha
  rw [hst, client_store hcl, if_pos rfl]
  rcases perform_ok hp with hl | ⟨-, record, rfl, hcr⟩
  · exact absurd hl.length_eq.symm ha
  obtain ⟨policy, grant, hpl, hgr, hlm⟩ := hcr.limited
  refine ⟨Devices.effectiveLimit policy grant, ?_, ?_⟩
  · simp only [Database.effectiveLimit, hcl, hs, hgr, hpl]
  · have ho : undeleted (s.devices ++ [record]) request.endpointID =
        undeleted s.devices request.endpointID + 1 := by
      simp [undeleted, countP_append, hcr.endpointID, hcr.deletedAt]
    rw [ho]
    exact_mod_cast hlm

/-! ## The revision -/

theorem lt_nextRevision {r : ℕ} (h : r + 1 < 2 ^ 64) : r < nextRevision r := by
  rw [nextRevision, Nat.mod_eq_of_lt h]
  exact Nat.lt_succ_self r

/-- In every table a run leads to: a client has at most one record for an endpoint and a request
key; records keep their place and identity, and a retired device is never available again; a
creation that adds a record respects the limit; and a change of keys or marks raises the revision,
as long as the counter has room. -/
theorem device_lifecycle {start db : Database} (hstart : start.Fresh)
    (hrun : Run sizes start db) :
    (∀ id endpointID key hash, requestHash key = .ok hash →
      ((db.devices id).countP fun record =>
        record.endpointID == endpointID && record.createRequest == hash) ≤ 1) ∧
    (∀ later (id i : ℕ) (record : Record), Run sizes db later →
      (db.devices id)[i]? = some record →
      ∃ kept, (later.devices id)[i]? = some kept ∧ record.Kept kept ∧
        (record.revokedAt ≠ 0 ∨ record.deletedAt ≠ 0 →
          ∀ state client now, availableRecord state kept client now = false)) ∧
    (∀ policies supply now request db' changed, 0 < now →
      mutate policies sizes supply now db request = .ok (db', changed) →
      (request.operation = .revoke ∨ request.operation = .delete →
        ∃ (i : ℕ) (record : Record), (db'.devices request.clientID)[i]? = some record ∧
          record.id = request.deviceID ∧ record.endpointID = request.endpointID ∧
          record.revokedAt ≠ 0 ∧ (request.operation = .delete → record.deletedAt ≠ 0)) ∧
      (request.operation = .create →
        (db'.devices request.clientID).length ≠ (db.devices request.clientID).length →
        ∃ limit, db.effectiveLimit policies request = some limit ∧
          undeleted (db'.devices request.clientID) request.endpointID ≤ limit)) ∧
    (∀ next (id i : ℕ) (record later : Record), Step sizes db next →
      (db.devices id)[i]? = some record → (next.devices id)[i]? = some later →
      later.keys ≠ record.keys ∨ later.revokedAt ≠ record.revokedAt ∨
        later.deletedAt ≠ record.deletedAt →
      record.revision + 1 < 2 ^ 64 → record.revision < later.revision) := by
  refine ⟨?_, ?_, ?_, ?_⟩
  · intro id endpointID key hash _
    exact (hrun.requestsDistinct hstart id).countP_le endpointID hash
  · intro later id i record hl hrc
    obtain ⟨kept, hk, hf⟩ := hl.devices hrc
    exact ⟨kept, hk, hf, hf.unavailable⟩
  · intro policies supply now request db' changed hn hc
    exact ⟨fun hop => mutate_retires hn hop hc, fun _ ha => mutate_limited hc ha⟩
  · intro next id i record later hs hrc hl hch hr
    obtain ⟨later', hl', hf⟩ := hs.devices hrc
    rw [hl] at hl'
    cases hl'
    rw [hf.revision hch]
    exact lt_nextRevision hr

end

namespace Sample

def aliceHolding (limit : ℤ) (records : List Record) : Database :=
  table (.devices ⟨[⟨1, limit⟩], records⟩) .plain

def phone : Record := record 1 0x0a000003 "request-key-0001"

def laptop : Record := record 2 0x0a000004 "request-key-0002"

theorem fresh_table : (table .plain .plain).Fresh := by
  intro client hcl
  simp only [table, mem_cons, not_mem_nil, or_false] at hcl
  rcases hcl with rfl | rfl <;> rfl

theorem grant_two : mutate policies sizes {} 100 (table .plain .plain) (grantRequest 1 2) =
    .ok (aliceHolding 2 [], [1]) := by decide +kernel

theorem create_phone : mutate policies sizes (supply 1) 100 (aliceHolding 2 [])
    (createRequest 1 "request-key-0001") = .ok (aliceHolding 2 [phone], [1]) := by decide +kernel

theorem run_phone : Run sizes (table .plain .plain) (aliceHolding 2 [phone]) :=
  (Relation.ReflTransGen.single (.mutate (by decide) grant_two)).tail
    (.mutate (by decide) create_phone)

end Sample

open Sample in
/-- A client creates a device and revokes it: it is the only record of its request, and it is never
available again. -/
theorem device_lifecycle_phone :
    ∃ db, Run sizes (table .plain .plain) db ∧
      db.devices 1 = [{ phone with revokedAt := 200, revision := 2 }] ∧
      ((db.devices 1).countP fun record =>
        record.endpointID == 1 && record.createRequest == phone.createRequest) ≤ 1 ∧
      ∀ later, Run sizes db later → ∃ kept, (later.devices 1)[0]? = some kept ∧
        ∀ state client now, availableRecord state kept client now = false := by
  have hr : mutate policies sizes {} 200 (aliceHolding 2 [phone])
      { clientID := 1, endpointID := 1, operation := .revoke, deviceID := 1 } =
      .ok (aliceHolding 2 [{ phone with revokedAt := 200, revision := 2 }], [1]) := by
    decide +kernel
  have hrn := run_phone.tail (.mutate (by decide) hr)
  obtain ⟨hc, hk, -⟩ := device_lifecycle fresh_table hrn
  refine ⟨_, hrn, rfl, hc 1 1 "request-key-0001" _ (by decide +kernel), ?_⟩
  intro later hl
  obtain ⟨kept, hp, -, hu⟩ := hk later 1 0 _ hl rfl
  exact ⟨kept, hp, hu (.inl (by decide))⟩

open Sample in
/-- Two devices are created under a limit of two, the limit is lowered to one, and the first
creation is repeated: the call succeeds and leaves two devices. When the grant is then removed, the
first device turns inactive without a new revision. -/
theorem retried_create_over_limit :
    ∃ db db', Run sizes (table .plain .plain) db ∧
      mutate policies sizes {} 300 db (createRequest 1 "request-key-0001") = .ok (db, []) ∧
      db.effectiveLimit policies (createRequest 1 "request-key-0001") = some 1 ∧
      undeleted (db.devices 1) 1 = 2 ∧
      mutate policies sizes {} 300 db
        { clientID := 1, endpointID := 1, operation := .removeGrant } = .ok (db', [1]) ∧
      (db.devices 1)[0]? = some phone ∧ (db'.devices 1)[0]? = some phone ∧
      (db.client 1).map (fun client => status ⟨[⟨1, 1⟩], db.devices 1⟩ phone client 300) =
        some .eligible ∧
      (db'.client 1).map (fun client => status ⟨[], db'.devices 1⟩ phone client 300) =
        some .inactive := by
  have hlp : mutate policies sizes (supply 2) 100 (aliceHolding 2 [phone])
      (createRequest 1 "request-key-0002") = .ok (aliceHolding 2 [phone, laptop], [1]) := by
    decide +kernel
  have hl : mutate policies sizes {} 200 (aliceHolding 2 [phone, laptop]) (grantRequest 1 1) =
      .ok (aliceHolding 1 [phone, laptop], [1]) := by decide +kernel
  have hr : mutate policies sizes {} 300 (aliceHolding 1 [phone, laptop])
      { clientID := 1, endpointID := 1, operation := .removeGrant } =
      .ok (table (.devices ⟨[], [phone, laptop]⟩) .plain, [1]) := by decide +kernel
  exact ⟨_, _, (run_phone.tail (.mutate (by decide) hlp)).tail (.mutate (by decide) hl),
    by decide +kernel, by decide +kernel, by decide +kernel, hr, by decide +kernel,
    by decide +kernel, by decide +kernel, by decide +kernel⟩

end Solovey.Devices
