import Solovey.Devices.Mutate

/-!
# The runtime's view of the devices

`RuntimePeers` of `projection.go` builds the peers of an endpoint from the available records of all
clients. `Account` of `accounting.go` takes the runtime's samples back: it adds up traffic, and
releases the address of a deleted device once the runtime has no peer of it.
-/

namespace Solovey.Devices

open Solovey.Net

/-! ## Peers of an endpoint -/

structure Peer where
  publicKey : PublicKey
  presharedKey : String
  allowedIPs : List IPv4

/-- The available devices of an endpoint. A client whose state cannot be read has none. -/
def availableDevices (endpointID : ℕ) (now : ℤ) (client : Client) : List Record :=
  match load client.config with
  | .error _ => []
  | .ok state => state.devices.filter fun device =>
      device.endpointID == endpointID && availableRecord state device client now

/-- `borrow` opens the preshared key of a client's record. -/
def collectPeers (policy : Policy) (borrow : ℕ → Record → Option String) :
    List (ℕ × Record) → List Peer → Except Error (List Peer)
  | [], peers => .ok peers
  | (clientID, device) :: rest, peers =>
    if device.address.toNat ≤ policy.serverPrefix.range.1 ∨
        policy.serverPrefix.range.2 ≤ device.address.toNat ∨
        device.address = policy.serverPrefix.addr then .error .invalid
    else if policy.staticPrefixes.any (·.contains device.address) then .error .invalid
    else
      match borrow clientID device with
      | none => .error .unavailable
      | some presharedKey =>
        let peer := ⟨device.keys.publicKey, presharedKey, [device.address]⟩
        if 4096 < (peers ++ [peer]).length then .error .limit
        else collectPeers policy borrow rest (peers ++ [peer])

def runtimePeers (sizes : Sizes) (borrow : ℕ → Record → Option String) (db : Database)
    (policy : Policy) (now : ℤ) : Except Error (List Peer) :=
  if !policy.available then .ok []
  else
    match clients sizes db with
    | .error e => .error e
    | .ok owners =>
      collectPeers policy borrow
        (owners.flatMap fun client =>
          (availableDevices policy.endpointID now client).map (client.id, ·)) []

/-! ## Samples of the runtime -/

def maxInt64 : ℤ := 2 ^ 63 - 1

def addCounter (a b : ℤ) : ℤ :=
  if a < 0 ∨ b < 0 then a else if maxInt64 - a < b then maxInt64 else a + b

def counterDelta (current previous : ℤ) : ℤ :=
  if current < 0 ∨ previous < 0 then 0
  else if current < previous then current
  else current - previous

/-- A snapshot of one endpoint's peers; the samples have distinct keys. -/
structure Snapshot where
  endpointID : ℕ
  generation : String
  observedAt : ℤ
  samples : List (PublicKey × Observation)

structure TrafficDelta where
  userID : ℕ
  up : ℤ
  down : ℤ
  deriving DecidableEq

/-- The observation a record starts from: one of another run of the runtime or of other keys does
not count. -/
def previousObservation (snapshot : Snapshot) (record : Record) : Observation :=
  if record.observation.generation ≠ snapshot.generation ∨
      record.observation.publicKey ≠ some record.keys.publicKey then {}
  else record.observation

/-- One record and the traffic it adds to its client. -/
def accountRecord (snapshot : Snapshot) (record : Record) : Except Error (Record × ℤ × ℤ) :=
  if record.endpointID ≠ snapshot.endpointID then .ok (record, 0, 0)
  else
    match snapshot.samples.lookup record.keys.publicKey with
    | none =>
      .ok ({ record with
        observation := { previousObservation snapshot record with
          generation := snapshot.generation, publicKey := some record.keys.publicKey,
          observedAt := snapshot.observedAt, present := false }
        releasedAt := if 0 < record.deletedAt ∧ record.releasedAt = 0 then snapshot.observedAt
          else record.releasedAt }, 0, 0)
    | some sample =>
      if sample.received < 0 ∨ sample.sent < 0 ∨ sample.lastHandshake < 0 then .error .invalid
      else
        let up := counterDelta sample.received (previousObservation snapshot record).received
        let down := counterDelta sample.sent (previousObservation snapshot record).sent
        .ok ({ record with
          up := addCounter record.up up, down := addCounter record.down down,
          observation := { sample with
            generation := snapshot.generation, publicKey := some record.keys.publicKey,
            observedAt := snapshot.observedAt, present := true } }, up, down)

def accountRecords (snapshot : Snapshot) : List Record → ℤ × ℤ →
    Except Error (List Record × ℤ × ℤ)
  | [], total => .ok ([], total)
  | record :: rest, total =>
    match accountRecord snapshot record with
    | .error e => .error e
    | .ok (record, up, down) =>
      match accountRecords snapshot rest (addCounter total.1 up, addCounter total.2 down) with
      | .error e => .error e
      | .ok (rest, total) => .ok (record :: rest, total)

/-- One client: its row after the call and the traffic to book for it. `update` is the error of
the `UPDATE` of its row. -/
def accountClient (sizes : Sizes) (snapshot : Snapshot) (update : ℕ → Option Error)
    (client : Client) : Except Error (Client × Option TrafficDelta) :=
  match client.config, load client.config with
  | .devices _, .ok state =>
    match accountRecords snapshot state.devices (0, 0) with
    | .error e => .error e
    | .ok (devices, up, down) =>
      if devices = state.devices then .ok (client, none)
      else if maxState < sizes.state { state with devices } then .error .limit
      else
        match update client.id with
        | some e => .error e
        | none =>
          if client.up < 0 ∨ client.down < 0 then .error .invalid
          else
            let up := min up (maxInt64 - client.up)
            let down := min down (maxInt64 - client.down)
            .ok ({ client with config := .devices { state with devices } },
              if 0 < up ∨ 0 < down then some ⟨client.id, up, down⟩ else none)
  | _, _ => .ok (client, none)

def accountClients (sizes : Sizes) (snapshot : Snapshot) (update : ℕ → Option Error) :
    List Client → Except Error (List Client × List TrafficDelta)
  | [] => .ok ([], [])
  | client :: rest =>
    match accountClient sizes snapshot update client with
    | .error e => .error e
    | .ok (client, delta) =>
      match accountClients sizes snapshot update rest with
      | .error e => .error e
      | .ok (rest, deltas) => .ok (client :: rest, delta.toList ++ deltas)

theorem accountClient_id {ss : Sizes} {s : Snapshot} {u : ℕ → Option Error} {c c' : Client}
    {d : Option TrafficDelta} (h : accountClient ss s u c = .ok (c', d)) :
    c'.id = c.id := by
  simp only [accountClient] at h
  repeat' split at h
  all_goals cases h
  all_goals rfl

theorem accountClients_ids {ss : Sizes} {s : Snapshot} {u : ℕ → Option Error} {rs rs' : List Client}
    {ds : List TrafficDelta} (h : accountClients ss s u rs = .ok (rs', ds)) :
    rs'.map Client.id = rs.map Client.id := by
  induction rs generalizing rs' ds with
  | nil =>
    cases h
    rfl
  | cons client rest ih =>
    simp only [accountClients] at h
    split at h
    · cases h
    · next hcl =>
      split at h
      · cases h
      · next hr =>
        cases h
        rw [List.map_cons, List.map_cons, accountClient_id hcl, ih hr]

/-- A call of `Account`: the table after it and the traffic to book. -/
def account (sizes : Sizes) (snapshot : Snapshot) (update : ℕ → Option Error) (db : Database) :
    Except Error (Database × List TrafficDelta) :=
  if snapshot.generation = "" ∨ 128 < snapshot.generation.utf8ByteSize ∨
      snapshot.observedAt ≤ 0 ∨ 4096 < snapshot.samples.length then .error .invalid
  else
    match clients sizes db with
    | .error e => .error e
    | .ok _ =>
      match h : accountClients sizes snapshot update db.clients with
      | .error e => .error e
      | .ok (rows, deltas) =>
        .ok (⟨rows, accountClients_ids h ▸ db.distinct⟩, deltas)

end Solovey.Devices
