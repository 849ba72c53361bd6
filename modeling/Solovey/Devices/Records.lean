import Solovey.Data.Lists
import Solovey.Devices.Account

/-!
# What one call does to the records

A call leaves every record in its place, as itself or as a later form of itself, and a creation
appends one record. Every fact about runs is derived from this.
-/

namespace Solovey.Devices

open Solovey.Net

/-- A record and what calls can make of it. -/
structure Record.Later (record later : Record) : Prop where
  id : later.id = record.id
  endpointID : later.endpointID = record.endpointID
  name : later.name = record.name
  address : later.address = record.address
  createRequest : later.createRequest = record.createRequest
  revokedAt : record.revokedAt ≠ 0 → later.revokedAt = record.revokedAt
  deletedAt : record.deletedAt ≠ 0 → later.deletedAt = record.deletedAt
  unreleased : later.releasedAt = 0 → record.releasedAt = 0
  released : later.releasedAt ≠ 0 → record.releasedAt ≠ 0 ∨ record.deletedAt ≠ 0
  revision : later.keys ≠ record.keys ∨ later.revokedAt ≠ record.revokedAt ∨
    later.deletedAt ≠ record.deletedAt → later.revision = nextRevision record.revision

namespace Record.Later

theorem refl (r : Record) : r.Later r where
  id := rfl
  endpointID := rfl
  name := rfl
  address := rfl
  createRequest := rfl
  revokedAt _ := rfl
  deletedAt _ := rfl
  unreleased h := h
  released h := .inl h
  revision h := by simp at h

theorem forall₂_refl (rs : List Record) : List.Forall₂ Record.Later rs rs :=
  List.forall₂_same.mpr fun record _ => refl record

end Record.Later

/-! ## Mutations -/

variable {state state' : State} {request : Request}

theorem grant_devices {ps : Policies} (h : grant ps state request = .ok (some state')) :
    state'.devices = state.devices := by
  simp only [grant] at h
  repeat' split at h
  all_goals cases h
  all_goals rfl

/-- What a creation has checked, and the record it appends. -/
structure Created (policies : Policies) (sizes : Sizes) (db : Database) (state : State)
    (request : Request) (record : Record) : Prop where
  endpointID : record.endpointID = request.endpointID
  fresh : ∀ other ∈ state.devices, other.endpointID = record.endpointID →
    other.createRequest ≠ record.createRequest
  hash : requestHash request.requestKey = .ok record.createRequest
  allocated : ∃ policy, policies.resolve request.endpointID = some policy ∧
    allocate sizes db policy = .ok record.address
  limited : ∃ policy grant, policies.resolve request.endpointID = some policy ∧
    granted state request.endpointID = some grant ∧
    undeleted state.devices request.endpointID + 1 ≤ effectiveLimit policy grant
  deletedAt : record.deletedAt = 0
  releasedAt : record.releasedAt = 0

variable {now : ℤ} {db : Database} {client : Client}

theorem create_ok {ps : Policies} {ss : Sizes} {s : Supply}
    (h : create ps ss s now db client state request = .ok (some state')) :
    ∃ record, state' = { state with devices := state.devices ++ [record] } ∧
      Created ps ss db state request record ∧
      record.up = 0 ∧ record.down = 0 ∧ record.observation = {} := by
  simp only [create] at h
  split at h
  · cases h
  next policy hp =>
  split at h
  · cases h
  split at h
  · cases h
  next grant hgr =>
  split at h
  · cases h
  next hash hh =>
  split at h
  · cases h
  split at h
  · split at h <;> cases h
  next hf =>
  split at h
  · cases h
  next hl =>
  split at h
  · cases h
  next address ha =>
  split at h
  · next identity keys _ _ =>
    cases h
    refine ⟨_, rfl, ⟨rfl, ?_, hh, ⟨policy, hp, ha⟩,
      ⟨policy, grant, hp, hgr, by omega⟩, rfl, rfl⟩, rfl, rfl, rfl⟩
    intro other ho hep hr
    have := List.find?_eq_none.mp hf other ho
    simp [hep, hr] at this
  · cases h

theorem rotateRecord_ok {ps : Policies} {s : Supply} {r l : Record}
    (h : rotateRecord ps s now client state request r = .ok (some l)) :
    ∃ hash keys, requestHash request.requestKey = .ok hash ∧ hash ≠ r.rotateRequest ∧
      l = { r with
        keys, rotateRequest := hash, revision := nextRevision r.revision } := by
  simp only [rotateRecord] at h
  split at h
  · cases h
  next hash hh =>
  split at h
  · cases h
  next hn =>
  repeat' split at h
  all_goals cases h
  exact ⟨hash, _, hh, hn, rfl⟩

theorem rotateRecord_later {ps : Policies} {s : Supply} {r l : Record}
    (h : rotateRecord ps s now client state request r = .ok (some l)) :
    r.Later l := by
  obtain ⟨hash, keys, -, -, rfl⟩ := rotateRecord_ok h
  exact ⟨rfl, rfl, rfl, rfl, rfl, fun _ => rfl, fun _ => rfl, fun h => h, .inl, fun _ => rfl⟩

theorem retireRecord_later {r l : Record} (h : retireRecord now request r = some l) :
    r.Later l := by
  simp only [retireRecord] at h
  split at h
  · cases h
  · cases h
    refine ⟨rfl, rfl, rfl, rfl, rfl, fun h => if_neg h, fun h => if_neg fun hd => h hd.2,
      fun h => h, .inl, fun _ => rfl⟩

/-- The device that a request names: its place, and its record before and after. -/
structure Changed (policies : Policies) (supply : Supply) (now : ℤ) (client : Client)
    (state : State) (request : Request) (index : ℕ) (record later : Record) : Prop where
  found : state.devices.findIdx? (fun device =>
    device.id == request.deviceID && device.endpointID == request.endpointID) = some index
  place : state.devices[index]? = some record
  change : request.operation = .rotate ∧
      rotateRecord policies supply now client state request record = .ok (some later) ∨
    request.operation ≠ .rotate ∧ retireRecord now request record = some later

theorem changeRecord_ok {ps : Policies} {s : Supply}
    (h : changeRecord ps s now client state request = .ok (some state')) :
    ∃ i record later, state' = { state with devices := state.devices.set i later } ∧
      Changed ps s now client state request i record later := by
  simp only [changeRecord] at h
  split at h
  · cases h
  next i hi =>
  split at h
  · cases h
  next record hrc =>
  split at h
  · cases h
  · cases h
  next later hl =>
  cases h
  refine ⟨i, record, later, rfl, hi, hrc, ?_⟩
  split at hl
  · next hr => exact .inl ⟨hr, hl⟩
  · next ho => exact .inr ⟨ho, Except.ok.inj hl⟩

/-- A record is retired or given new keys in its place. -/
theorem Changed.later {ps : Policies} {s : Supply} {i : ℕ} {r l : Record}
    (h : Changed ps s now client state request i r l) :
    r.Later l := by
  rcases h.change with ⟨-, hrt⟩ | ⟨-, hr⟩
  · exact rotateRecord_later hrt
  · exact retireRecord_later hr

/-- A request keeps the records, appends one or changes one. -/
theorem perform_cases {ps : Policies} {ss : Sizes} {s : Supply}
    (h : perform ps ss s now db client state request = .ok (some state')) :
    request.operation ≠ .rotate ∧ state'.devices = state.devices ∨ (request.operation = .create ∧
        ∃ record, state' = { state with devices := state.devices ++ [record] } ∧
          Created ps ss db state request record ∧
          record.up = 0 ∧ record.down = 0 ∧ record.observation = {}) ∨
      ∃ i record later, state' = { state with devices := state.devices.set i later } ∧
        Changed ps s now client state request i record later := by
  simp only [perform] at h
  split at h
  · next hop => exact .inl ⟨by simp [hop], grant_devices h⟩
  · next hop =>
    cases h
    exact .inl ⟨by simp [hop], rfl⟩
  · next hop => exact .inr (.inl ⟨hop, create_ok h⟩)
  · exact .inr (.inr (changeRecord_ok h))
  · exact .inr (.inr (changeRecord_ok h))
  · exact .inr (.inr (changeRecord_ok h))
  · cases h

theorem perform_ok {ps : Policies} {ss : Sizes} {s : Supply}
    (h : perform ps ss s now db client state request = .ok (some state')) :
    List.Forall₂ Record.Later state.devices state'.devices ∨ request.operation = .create ∧
        ∃ record, state' = { state with devices := state.devices ++ [record] } ∧
          Created ps ss db state request record := by
  rcases perform_cases h with ⟨-, hs⟩ | ⟨hc, record, rfl, hcr, -⟩ | ⟨index, record, later, rfl, hch⟩
  · rw [hs]
    exact .inl (Record.Later.forall₂_refl _)
  · exact .inr ⟨hc, record, rfl, hcr⟩
  · exact .inl (Data.forall₂_set Record.Later.refl hch.place hch.later)

variable {db' : Database}

theorem mutate_ok {ps : Policies} {ss : Sizes} {s : Supply} {c : List ℕ}
    (h : mutate ps ss s now db request = .ok (db', c)) :
    ∃ client state, db.client request.clientID = some client ∧ load client.config = .ok state ∧
      (perform ps ss s now db client state request = .ok none ∧ db' = db ∧ c = [] ∨
        ∃ state', perform ps ss s now db client state request = .ok (some state') ∧
          db' = db.store client.id state' ∧ c = [request.endpointID]) := by
  simp only [mutate] at h
  split at h
  · cases h
  next client hcl =>
  have hcl : db.client request.clientID = some client := by
    split at hcl
    · cases hcl
    · exact hcl
  split at h
  · cases h
  next state hs =>
  split at h
  · cases h
  split at h
  · cases h
  · next hn =>
    cases h
    exact ⟨client, state, hcl, hs, .inl ⟨hn, rfl, rfl⟩⟩
  next state' hs' =>
  simp only [save] at h
  split at h
  · cases h
  next db₁ hsv =>
  cases h
  split at hsv
  · cases hsv
  split at hsv
  · cases hsv
  · cases hsv
    exact ⟨client, state, hcl, hs, .inr ⟨state', hs', rfl, rfl⟩⟩

/-! ## Accounting -/

theorem accountRecord_later {s : Snapshot} {r l : Record} {up d : ℤ}
    (h : accountRecord s r = .ok (l, up, d)) : r.Later l := by
  simp only [accountRecord] at h
  split at h
  · cases h
    exact .refl r
  split at h
  · cases h
    refine ⟨rfl, rfl, rfl, rfl, rfl, fun _ => rfl, fun _ => rfl, ?_, ?_, by simp⟩
    · intro hz
      by_contra hne
      simp [hne] at hz
    · intro hne
      by_cases hd : 0 < r.deletedAt
      · exact .inr hd.ne'
      · exact .inl (by simpa [hd] using hne)
  · split at h
    · cases h
    · cases h
      exact ⟨rfl, rfl, rfl, rfl, rfl, fun _ => rfl, fun _ => rfl, fun h => h, .inl, by simp⟩

theorem accountRecords_later {s : Snapshot} {rs l : List Record} {t t' : ℤ × ℤ}
    (h : accountRecords s rs t = .ok (l, t')) :
    List.Forall₂ Record.Later rs l := by
  induction rs generalizing l t with
  | nil =>
    cases h
    exact .nil
  | cons record rest ih =>
    simp only [accountRecords] at h
    split at h
    · cases h
    next hrc =>
    split at h
    · cases h
    next hr =>
    cases h
    exact .cons (accountRecord_later hrc) (ih hr)

/-- A client and what a call that creates nothing leaves of it. -/
def Client.Later (client later : Client) : Prop :=
  later.id = client.id ∧ List.Forall₂ Record.Later client.config.records later.config.records

theorem Client.Later.refl (client : Client) : client.Later client :=
  ⟨rfl, Record.Later.forall₂_refl _⟩

variable {u : ℕ → Option Error}

theorem accountClient_later {ss : Sizes} {s : Snapshot} {l : Client} {d : Option TrafficDelta}
    (h : accountClient ss s u client = .ok (l, d)) :
    client.Later l := by
  refine ⟨accountClient_id h, ?_⟩
  simp only [accountClient] at h
  split at h
  · next state hc hs =>
    split at h
    · cases h
    next devices up down hr =>
    rw [load_devices hs] at hr
    have hl := accountRecords_later hr
    split at h
    · cases h
      exact Record.Later.forall₂_refl _
    split at h
    · cases h
    split at h
    · cases h
    split at h
    · cases h
    · cases h
      exact hl
  · cases h
    exact Record.Later.forall₂_refl _

variable {ds : List TrafficDelta}

theorem accountClients_later {ss : Sizes} {s : Snapshot} {rs l : List Client}
    (h : accountClients ss s u rs = .ok (l, ds)) :
    List.Forall₂ Client.Later rs l := by
  induction rs generalizing l ds with
  | nil =>
    cases h
    exact .nil
  | cons client rest ih =>
    simp only [accountClients] at h
    split at h
    · cases h
    next hcl =>
    split at h
    · cases h
    next hr =>
    cases h
    exact .cons (accountClient_later hcl) (ih hr)

theorem account_rows {ss : Sizes} {s : Snapshot} (h : account ss s u db = .ok (db', ds)) :
    accountClients ss s u db.clients = .ok (db'.clients, ds) := by
  simp only [account] at h
  split at h
  · cases h
  split at h
  · cases h
  split at h
  · cases h
  · next hr =>
    cases h
    exact hr

theorem account_ok {ss : Sizes} {s : Snapshot} (h : account ss s u db = .ok (db', ds)) :
    List.Forall₂ Client.Later db.clients db'.clients :=
  accountClients_later (account_rows h)

end Solovey.Devices
