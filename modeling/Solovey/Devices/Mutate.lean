import Solovey.Devices.State

/-!
# Changes of a client's devices

`Mutate` of `state.go` with the address search of `projection.go`. A call is one transaction on the
table of clients, and one that fails leaves the table as it was. Random identities, generated keys
and the outcome of the `UPDATE` are inputs of the call, and the lengths of stored texts are
functions of what they hold.
-/

namespace Solovey.Devices

open Solovey.Net

structure Policy where
  endpointID : ℕ
  available : Bool
  serverPrefix : Prefix 32
  staticPrefixes : List (Prefix 32) := []
  deviceLimit : ℤ

/-- `ResolvePolicy` as `ManagedDevicePolicy` gives it: a policy names the endpoint it was asked
for. -/
structure Policies where
  resolve : ℕ → Option Policy
  endpointID_eq : ∀ {id policy}, resolve id = some policy → policy.endpointID = id

/-- The table of clients, in the order of their ids. -/
structure Database where
  clients : List Client
  distinct : (clients.map Client.id).Nodup
  deriving DecidableEq

def Database.client (db : Database) (id : ℕ) : Option Client := db.clients.find? (·.id == id)

/-- The records stored for a client. -/
def Database.devices (db : Database) (id : ℕ) : List Record :=
  match db.client id with
  | some client => client.config.records
  | none => []

/-- Lengths in bytes of the stored texts. -/
structure Sizes where
  state : State → ℕ
  config : Client → ℕ

def maxState : ℕ := 2 ^ 20

def maxConfigs : ℕ := 16 * 2 ^ 20

/-- The clients that have device state. -/
def clients (sizes : Sizes) (db : Database) : Except Error (List Client) :=
  let listed := db.clients.filter fun client => client.config matches .devices _
  if 4096 < listed.length ∨ maxConfigs < (listed.map sizes.config).sum then .error .limit
  else .ok listed

/-! ## Addresses -/

/-- The addresses of an endpoint that a client's records still reserve. -/
def reservations (endpointID : ℕ) (state : State) : List IPv4 :=
  (state.devices.filter fun device =>
    device.endpointID == endpointID && !decide (0 < device.releasedAt)).map Record.address

def collectUsed (endpointID : ℕ) : List Client → List IPv4 → Except Error (List IPv4)
  | [], used => .ok used
  | client :: rest, used =>
    match load client.config with
    | .error _ => .error .unavailable
    | .ok state =>
      if 4096 ≤ (used ++ reservations endpointID state).length then .error .limit
      else collectUsed endpointID rest (used ++ reservations endpointID state)

/-- The loop over candidate addresses; a static prefix is passed over as a whole. -/
def search (used : List IPv4) (staticPrefixes : List (Prefix 32)) (stop candidate : ℕ) :
    Option IPv4 :=
  if candidate < stop then
    if BitVec.ofNat 32 candidate ∈ used then search used staticPrefixes stop (candidate + 1)
    else
      match staticPrefixes.find? (·.contains (BitVec.ofNat 32 candidate)) with
      | none => some (BitVec.ofNat 32 candidate)
      | some hit => search used staticPrefixes stop (max candidate hit.range.2 + 1)
  else none
termination_by stop - candidate

def allocate (sizes : Sizes) (db : Database) (policy : Policy) : Except Error IPv4 :=
  if 30 < policy.serverPrefix.bits then .error .pool
  else
    match clients sizes db with
    | .error e => .error e
    | .ok owners =>
      match collectUsed policy.endpointID owners [] with
      | .error e => .error e
      | .ok used =>
        match search (policy.serverPrefix.addr :: used) policy.staticPrefixes
            policy.serverPrefix.range.2 (policy.serverPrefix.range.1 + 1) with
        | some address => .ok address
        | none => .error .pool

/-! ## Requests -/

inductive Operation
  | grant
  | removeGrant
  | create
  | revoke
  | delete
  | rotate
  | other
  deriving DecidableEq

structure Request where
  clientID : ℕ
  endpointID : ℕ
  operation : Operation
  deviceID : DeviceID := 0
  requestKey : String := ""
  name : String := ""
  expiresAt : ℤ := 0
  deviceLimit : ℤ := 0

/-- What a call draws from outside: sixteen random bytes, generated and sealed keys, and the error
of the `UPDATE`. -/
structure Supply where
  identity : Option DeviceID := none
  keys : Option Keys := none
  update : Option Error := none

/-- What a request asks to store; `none` is a request that has nothing to do. -/
abbrev Outcome := Except Error (Option State)

def grant (policies : Policies) (state : State) (request : Request) : Outcome :=
  match policies.resolve request.endpointID with
  | none => .error .unavailable
  | some policy =>
    if !policy.available then .error .unavailable
    else if request.deviceLimit < 0 ∨ 100 < request.deviceLimit then .error .invalid
    else if state.grants.any (·.endpointID == request.endpointID) then
      .ok (some { state with grants := state.grants.map fun grant =>
        if grant.endpointID = request.endpointID then
          { grant with deviceLimit := request.deviceLimit }
        else grant })
    else if 128 ≤ state.grants.length then .error .limit
    else .ok (some { state with
      grants := state.grants ++ [⟨request.endpointID, request.deviceLimit⟩] })

def removeGrant (state : State) (request : Request) : State :=
  { state with grants := state.grants.eraseP (·.endpointID == request.endpointID) }

/-- The undeleted devices of an endpoint. -/
def undeleted (devices : List Record) (endpointID : ℕ) : ℕ :=
  devices.countP fun device => device.endpointID == endpointID && device.deletedAt == 0

def effectiveLimit (policy : Policy) (grant : Grant) : ℤ :=
  if grant.deviceLimit = 0 then policy.deviceLimit else grant.deviceLimit

def tenYears : ℤ := 10 * 365 * 24 * 3600

def create (policies : Policies) (sizes : Sizes) (supply : Supply) (now : ℤ) (db : Database)
    (client : Client) (state : State) (request : Request) : Outcome :=
  match policies.resolve request.endpointID with
  | none => .error .unavailable
  | some policy =>
    if !policy.available || !active client now then .error .unavailable
    else
      match granted state request.endpointID with
      | none => .error .unavailable
      | some grant =>
        match requestHash request.requestKey with
        | .error _ => .error .invalid
        | .ok hash =>
          if !validateName request.name || decide (request.expiresAt ≠ 0 ∧
              (request.expiresAt ≤ now ∨ now + tenYears < request.expiresAt)) then .error .invalid
          else
            -- a record of the same request decides the call before the limit is looked at
            match state.devices.find? fun device =>
                device.endpointID == request.endpointID && device.createRequest == hash with
            | some device =>
              if device.name ≠ request.name ∨ device.expiresAt ≠ request.expiresAt ∨
                  device.deletedAt ≠ 0 then .error .conflict
              else .ok none
            | none =>
              if effectiveLimit policy grant < 1 ∨ 100 < effectiveLimit policy grant ∨
                  effectiveLimit policy grant ≤ undeleted state.devices request.endpointID ∨
                  512 ≤ state.devices.length then .error .limit
              else
                match allocate sizes db policy with
                | .error e => .error e
                | .ok address =>
                  match supply.identity, supply.keys with
                  | some identity, some keys =>
                    .ok (some { state with devices := state.devices ++ [
                      { id := identity, endpointID := request.endpointID, name := request.name,
                        address, keys, createRequest := hash, createdAt := now,
                        expiresAt := request.expiresAt, revision := 1 }] })
                  | _, _ => .error .unavailable

/-- `device.Revision++` on 64 bits. -/
def nextRevision (revision : ℕ) : ℕ := (revision + 1) % 2 ^ 64

/-- New keys for a device. -/
def rotateRecord (policies : Policies) (supply : Supply) (now : ℤ) (client : Client)
    (state : State) (request : Request) (device : Record) : Except Error (Option Record) :=
  match requestHash request.requestKey with
  | .error e => .error e
  | .ok hash =>
    if hash = device.rotateRequest then .ok none
    else
      match policies.resolve request.endpointID with
      | none => .error .unavailable
      | some policy =>
        if !policy.available || !availableRecord state device client now then .error .unavailable
        else
          match supply.keys with
          | none => .error .unavailable
          | some keys => .ok (some { device with
              keys, rotateRequest := hash, revision := nextRevision device.revision })

/-- The end of a device: a deletion also revokes. -/
def retireRecord (now : ℤ) (request : Request) (device : Record) : Option Record :=
  if device.revokedAt ≠ 0 ∧ (request.operation ≠ .delete ∨ device.deletedAt ≠ 0) then none
  else some { device with
    revokedAt := if device.revokedAt = 0 then now else device.revokedAt
    deletedAt := if request.operation = .delete ∧ device.deletedAt = 0 then now
      else device.deletedAt
    revision := nextRevision device.revision }

def changeRecord (policies : Policies) (supply : Supply) (now : ℤ) (client : Client)
    (state : State) (request : Request) : Outcome :=
  match state.devices.findIdx? fun device =>
      device.id == request.deviceID && device.endpointID == request.endpointID with
  | none => .error .unavailable
  | some index =>
    match state.devices[index]? with
    | none => .error .unavailable
    | some device =>
      match if request.operation = .rotate then
          rotateRecord policies supply now client state request device
        else .ok (retireRecord now request device) with
      | .error e => .error e
      | .ok none => .ok none
      | .ok (some device) => .ok (some { state with devices := state.devices.set index device })

def perform (policies : Policies) (sizes : Sizes) (supply : Supply) (now : ℤ) (db : Database)
    (client : Client) (state : State) (request : Request) : Outcome :=
  match request.operation with
  | .grant => grant policies state request
  | .removeGrant => .ok (some (removeGrant state request))
  | .create => create policies sizes supply now db client state request
  | .revoke | .delete | .rotate => changeRecord policies supply now client state request
  | .other => .error .invalid

/-- The table with another state for one client. -/
def Database.store (db : Database) (id : ℕ) (state : State) : Database where
  clients := db.clients.map fun client =>
    if client.id = id then { client with config := .devices state } else client
  distinct := by
    have hids : (db.clients.map fun client =>
        if client.id = id then { client with config := .devices state } else client).map Client.id =
        db.clients.map Client.id := by
      rw [List.map_map]
      exact List.map_congr_left fun client _ => by
        rw [Function.comp_apply]
        split <;> rfl
    rw [hids]
    exact db.distinct

def save (sizes : Sizes) (supply : Supply) (db : Database) (client : Client) (state : State) :
    Except Error Database :=
  if maxState < sizes.state state then .error .limit
  else
    match supply.update with
    | some e => .error e
    | none => .ok (db.store client.id state)

/-- A call of `Mutate`: the table after it and the endpoints to refresh. -/
def mutate (policies : Policies) (sizes : Sizes) (supply : Supply) (now : ℤ) (db : Database)
    (request : Request) : Except Error (Database × List ℕ) :=
  match if request.clientID = 0 then none else db.client request.clientID with
  | none => .error .unavailable
  | some client =>
    match load client.config with
    | .error e => .error e
    | .ok state =>
      if request.endpointID = 0 then .error .invalid
      else
        match perform policies sizes supply now db client state request with
        | .error e => .error e
        | .ok none => .ok (db, [])
        | .ok (some state) =>
          match save sizes supply db client state with
          | .error e => .error e
          | .ok db => .ok (db, [request.endpointID])

end Solovey.Devices
