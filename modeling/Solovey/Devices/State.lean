import Solovey.Hash.Sha256
import Solovey.Net.Prefix
import Solovey.Text.Strings

/-!
# Device grants and records of a client

`internal/entities/clients/devices/state.go`: what a client's configuration holds under `wireguard`,
how it is read, and which of its devices are available. A stored address is always one IPv4 address
with 32 leading bits, a stored public key 32 bytes, and an identity 16 bytes; they are kept without
their texts.
-/

namespace Solovey.Devices

open Solovey.Text Solovey.Hash Solovey.Net

inductive Error
  | invalid
  | unavailable
  | limit
  | conflict
  | pool
  /-- An error of the database itself. -/
  | database
  deriving DecidableEq, Repr

abbrev DeviceID := BitVec 128

abbrev PublicKey := BitVec 256

structure Grant where
  endpointID : ℕ
  deviceLimit : ℤ := 0
  deriving DecidableEq

structure Observation where
  generation : String := ""
  publicKey : Option PublicKey := none
  received : ℤ := 0
  sent : ℤ := 0
  lastHandshake : ℤ := 0
  observedAt : ℤ := 0
  present : Bool := false
  deriving DecidableEq

/-- What `generateKeys` puts into a record: the public key and the two sealed secrets. -/
structure Keys where
  publicKey : PublicKey
  privateKey : String
  presharedKey : String
  deriving DecidableEq

structure Record where
  id : DeviceID
  endpointID : ℕ
  name : String
  address : IPv4
  keys : Keys
  createRequest : List Char
  rotateRequest : List Char := []
  createdAt : ℤ
  expiresAt : ℤ := 0
  revokedAt : ℤ := 0
  deletedAt : ℤ := 0
  revision : ℕ
  releasedAt : ℤ := 0
  up : ℤ := 0
  down : ℤ := 0
  observation : Observation := {}
  deriving DecidableEq

structure State where
  grants : List Grant := []
  devices : List Record := []
  deriving DecidableEq

/-- The `config` column of a client. -/
inductive Config
  /-- Not a strict JSON object. -/
  | malformed
  /-- An object without the member `wireguard`. -/
  | plain
  | devices (state : State)
  deriving DecidableEq

structure Client where
  id : ℕ
  config : Config
  enable : Bool := true
  accessDisableReason : String := ""
  expiry : ℤ := 0
  volume : ℤ := 0
  up : ℤ := 0
  down : ℤ := 0
  deriving DecidableEq

/-- The records a configuration holds, readable or not. -/
def Config.records : Config → List Record
  | .devices state => state.devices
  | _ => []

def grantsValid (grants : List Grant) : Bool :=
  grants.all (fun grant => grant.endpointID != 0 && decide (0 ≤ grant.deviceLimit) &&
    decide (grant.deviceLimit ≤ 100)) && decide (grants.map Grant.endpointID).Nodup

def recordsValid (devices : List Record) : Bool :=
  devices.all (fun device => device.endpointID != 0 && device.revision != 0) &&
    decide (devices.map Record.id).Nodup

def load : Config → Except Error State
  | .malformed => .error .invalid
  | .plain => .ok {}
  | .devices state =>
    if state.grants.length ≤ 128 ∧ state.devices.length ≤ 512 ∧ grantsValid state.grants ∧
        recordsValid state.devices then
      .ok state
    else .error .unavailable

theorem load_devices {c : Config} {s : State} (h : load c = .ok s) : s.devices = c.records := by
  cases c with
  | malformed => simp [load] at h
  | plain =>
    simp only [load, Except.ok.injEq] at h
    rw [← h]
    rfl
  | devices st =>
    simp only [load] at h
    split at h
    · cases h
      rfl
    · cases h

/-- May the client use the service at all? -/
def active (client : Client) (now : ℤ) : Bool :=
  client.enable && client.accessDisableReason == "" &&
    decide (client.expiry ≤ 0 ∨ now ≤ client.expiry) &&
    decide (0 ≤ client.up) && decide (0 ≤ client.down) &&
    decide (client.volume ≤ 0 ∨ client.up ≤ client.volume ∧ client.down ≤ client.volume ∧
      client.up ≤ client.volume - client.down)

def granted (state : State) (endpointID : ℕ) : Option Grant :=
  state.grants.find? (·.endpointID == endpointID)

def availableRecord (state : State) (record : Record) (client : Client) (now : ℤ) : Bool :=
  (granted state record.endpointID).isSome && active client now && record.revokedAt == 0 &&
    record.deletedAt == 0 && decide (record.expiresAt = 0 ∨ now < record.expiresAt)

/-- The status that `Inspect` shows for a device. -/
inductive Status
  | eligible
  | deleted
  | revoked
  | expired
  | inactive
  deriving DecidableEq

def status (state : State) (record : Record) (client : Client) (now : ℤ) : Status :=
  if record.deletedAt ≠ 0 then .deleted
  else if record.revokedAt ≠ 0 then .revoked
  else if 0 < record.expiresAt ∧ record.expiresAt ≤ now then .expired
  else if availableRecord state record client now then .eligible
  else .inactive

/-- The hash under which a request key is remembered: 16 to 128 visible ASCII characters. -/
def requestHash (value : String) : Except Error (List Char) :=
  if utf8Len value.toList < 16 ∨ 128 < utf8Len value.toList then .error .invalid
  else if value.toList.any fun c => decide (c.toNat < 33 ∨ 126 < c.toNat) then .error .invalid
  else .ok (hexDigest (encodeUtf8 value.toList))

/-- One to 64 characters without blanks at the ends and without control characters. -/
def validateName (value : String) : Bool :=
  !value.toList.head?.any isSpace && !value.toList.getLast?.any isSpace &&
    decide (1 ≤ value.toList.length) && decide (value.toList.length ≤ 64) &&
    !value.toList.any isControl

end Solovey.Devices
