import Solovey.Devices.Lifecycle

/-!
# Rotations of a device's keys

A record remembers the request of its last rotation only. A rotation that is asked for again is
recognised until the keys are rotated for another request, so of two rotations of a device that
follow one another the requests differ.
-/

namespace Solovey.Devices

/-- One call of `Mutate`. -/
structure MutateCall where
  policies : Policies
  supply : Supply
  now : ℤ
  request : Request

/-- A device as requests name it. -/
structure Device where
  clientID : ℕ
  endpointID : ℕ
  id : DeviceID
  deriving DecidableEq

def Request.device (request : Request) : Device :=
  ⟨request.clientID, request.endpointID, request.deviceID⟩

def Device.names (device : Device) (record : Record) : Bool :=
  record.id == device.id && record.endpointID == device.endpointID

namespace MutateCall

def outcome (sizes : Sizes) (db : Database) (call : MutateCall) :
    Except Error (Database × List ℕ) :=
  mutate call.policies sizes call.supply call.now db call.request

/-- The table after the call; a failed call leaves it as it was. -/
def after (sizes : Sizes) (db : Database) (call : MutateCall) : Database :=
  match call.outcome sizes db with
  | .ok (db', _) => db'
  | .error _ => db

/-- The call generates and stores new keys for the device. -/
def regenerates (sizes : Sizes) (db : Database) (device : Device) (call : MutateCall) : Bool :=
  decide (call.request.operation = .rotate ∧ call.request.device = device) &&
    match call.outcome sizes db with
    | .ok (_, changed) => !changed.isEmpty
    | .error _ => false

end MutateCall

/-- The request keys for which calls regenerate the keys of a device, in their order. -/
def regenerations (sizes : Sizes) (device : Device) : Database → List MutateCall → List String
  | _, [] => []
  | db, call :: rest =>
    if call.regenerates sizes db device then
      call.request.requestKey :: regenerations sizes device (call.after sizes db) rest
    else regenerations sizes device (call.after sizes db) rest

/-- The rotation that the record of a device remembers. -/
def Database.rotation (db : Database) (device : Device) : Option (List Char) :=
  ((db.devices device.clientID).find? device.names).map Record.rotateRequest

section

variable {sizes : Sizes} {device : Device} {db : Database}

/-! ## One call -/

/-- Two forms of a record that remember the same rotation if they are of the device. -/
structure SameRotation (device : Device) (record later : Record) : Prop where
  names : device.names later = device.names record
  rotation : device.names record = true → later.rotateRequest = record.rotateRequest

theorem SameRotation.refl (record : Record) : SameRotation device record record :=
  ⟨rfl, fun _ => rfl⟩

theorem retireRecord_sameRotation {now : ℤ} {request : Request} {record later : Record}
    (h : retireRecord now request record = some later) : SameRotation device record later := by
  simp only [retireRecord] at h
  split at h
  · cases h
  · cases h
    exact ⟨rfl, fun _ => rfl⟩

section

variable {ps : Policies} {s : Supply} {n : ℤ} {c : Client} {state : State}
  {r : Request} {i : ℕ} {record l : Record}

section

variable (h : Changed ps s n c state r i record l)
include h

theorem Changed.names : r.device.names record = true :=
  List.find?_some ((Data.find?_eq_getElem? h.found).trans h.place)

/-- A rotation is remembered by the device that it names. -/
theorem Changed.rotation (hr : r.operation = .rotate) :
    ∃ hash o, requestHash r.requestKey = .ok hash ∧
      (state.devices.find? r.device.names).map Record.rotateRequest = some o ∧
      hash ≠ o ∧
      ((state.devices.set i l).find? r.device.names).map Record.rotateRequest = some hash := by
  rcases h.change with ⟨-, hl⟩ | ⟨ho, -⟩
  · obtain ⟨hash, keys, hh, hnw, rfl⟩ := rotateRecord_ok hl
    have hn : r.device.names { record with
        keys, rotateRequest := hash, revision := nextRevision record.revision } = true := h.names
    refine ⟨hash, record.rotateRequest, hh, ?_, hnw, ?_⟩
    · exact congrArg (Option.map Record.rotateRequest)
        ((Data.find?_eq_getElem? h.found).trans h.place)
    · exact congrArg (Option.map Record.rotateRequest) (Data.find?_set h.found hn)
  · exact absurd hr ho

/-- Any other device remembers what it did. -/
theorem Changed.sameRotation (ho : r.operation = .rotate →
      (device.endpointID, device.id) ≠ (r.endpointID, r.deviceID)) :
    List.Forall₂ (SameRotation device) state.devices (state.devices.set i l) := by
  refine Data.forall₂_set SameRotation.refl h.place ?_
  rcases h.change with ⟨hr, hl⟩ | ⟨-, hl⟩
  · obtain ⟨hash, keys, -, -, rfl⟩ := rotateRecord_ok hl
    refine ⟨rfl, fun hd => ?_⟩
    have hn := h.names
    simp only [Device.names, Request.device, Bool.and_eq_true, beq_iff_eq] at hn hd
    exact absurd (by rw [← hn.1, ← hn.2, hd.1, hd.2]) (ho hr)
  · exact retireRecord_sameRotation hl

end

end

/-- What a stored state remembers, when one client's state is replaced. -/
theorem rotation_store {clientID : ℕ} {client : Client} {state state' : State}
    (hcl : db.client clientID = some client) (hs : load client.config = .ok state)
    (hsm : clientID = device.clientID →
      (state'.devices.find? device.names).map Record.rotateRequest =
        (state.devices.find? device.names).map Record.rotateRequest) :
    (db.store client.id state').rotation device = db.rotation device := by
  simp only [Database.rotation, client_store hcl]
  split
  · next hid =>
    rw [hsm hid.symm, hid, Database.devices_eq hcl, load_devices hs]
  · rfl

theorem rotation_eq {clientID : ℕ} {client : Client} {state : State}
    (hcl : db.client clientID = some client)
    (hs : load client.config = .ok state) (hid : clientID = device.clientID) :
    db.rotation device = (state.devices.find? device.names).map Record.rotateRequest := by
  rw [Database.rotation, ← hid, Database.devices_eq hcl, load_devices hs]

theorem SameRotation.find {rs later : List Record}
    (h : List.Forall₂ (SameRotation device) rs later) :
    (later.find? device.names).map Record.rotateRequest =
      (rs.find? device.names).map Record.rotateRequest :=
  Data.find?_map_of_forall₂ (fun hs => ⟨hs.names, hs.rotation⟩) h

/-- A call that regenerates the keys of a device is not the one the record remembers, and is
remembered from then on. -/
theorem MutateCall.rotation_regenerates {call : MutateCall}
    (h : call.regenerates sizes db device = true) :
    ∃ hash o, requestHash call.request.requestKey = .ok hash ∧ db.rotation device = some o ∧
      hash ≠ o ∧ (call.after sizes db).rotation device = some hash := by
  simp only [regenerates, Bool.and_eq_true, decide_eq_true_eq] at h
  obtain ⟨⟨hr, rfl⟩, hcg⟩ := h
  cases hot : call.outcome sizes db with
  | error e => simp [hot] at hcg
  | ok result =>
    obtain ⟨db', c⟩ := result
    rw [hot] at hcg
    obtain ⟨client, state, hcl, hs, ⟨-, -, rfl⟩ | ⟨state', hp, rfl, -⟩⟩ := mutate_ok hot
    · simp at hcg
    rcases perform_cases hp with ⟨ho, -⟩ | ⟨hc, -⟩ | ⟨index, record, later, rfl, hch⟩
    · exact absurd hr ho
    · simp [hr] at hc
    · obtain ⟨hash, o, hh, hol, hne, hn⟩ := hch.rotation hr
      refine ⟨hash, o, hh, (rotation_eq hcl hs rfl).trans hol, hne, ?_⟩
      have hid : call.request.device.clientID = call.request.clientID := rfl
      rw [after, hot, Database.rotation, client_store hcl, if_pos hid, hn]

/-- Any other call leaves what the record of a device remembers. -/
theorem MutateCall.rotation_keeps {call : MutateCall} {o : List Char}
    (h : call.regenerates sizes db device = false) (hol : db.rotation device = some o) :
    (call.after sizes db).rotation device = some o := by
  cases ho : call.outcome sizes db with
  | error e =>
    rw [after, ho]
    exact hol
  | ok result =>
    obtain ⟨db', c⟩ := result
    rw [after, ho, ← hol]
    obtain ⟨client, state, hcl, hs, ⟨-, rfl, -⟩ | ⟨state', hp, rfl, rfl⟩⟩ := mutate_ok ho
    · rfl
    refine rotation_store hcl hs fun hid => ?_
    rcases perform_cases hp with ⟨-, hsm⟩ | ⟨-, record, rfl, -⟩ | ⟨index, record, later, rfl, hc⟩
    · rw [hsm]
    · rw [rotation_eq hcl hs hid] at hol
      obtain ⟨found, hf, -⟩ := Option.map_eq_some_iff.mp hol
      rw [List.find?_append, hf, Option.some_or]
    · refine SameRotation.find (hc.sameRotation fun hr hsm => ?_)
      have hd : call.request.device = device := by
        obtain ⟨hep, hd⟩ := Prod.mk.inj hsm
        rw [Request.device, hid, ← hep, ← hd]
      simp [regenerates, ho, hr, hd] at h

/-! ## Sequences of calls -/

/-- The next rotation is for another request than the one that is remembered. -/
theorem regenerations_head {o : List Char} (cs : List MutateCall)
    (hol : db.rotation device = some o) :
    ∀ key ∈ (regenerations sizes device db cs).head?, requestHash key ≠ .ok o := by
  induction cs generalizing db with
  | nil => simp [regenerations]
  | cons call rest ih =>
    rw [regenerations]
    split
    · next hrg =>
      obtain ⟨hash, r, hh, hr, hne, -⟩ := MutateCall.rotation_regenerates hrg
      rintro key ⟨⟩
      rw [hh]
      rintro ⟨⟩
      exact hne (Option.some.inj (hol.symm.trans hr))
    · next ho =>
      exact ih (MutateCall.rotation_keeps (Bool.not_eq_true _ ▸ ho) hol)

/-- The keys of a device are never regenerated twice in a row for one request: a rotation that is
asked for again regenerates nothing until the keys were rotated for another request. -/
theorem regenerations_alternate (sizes : Sizes) (device : Device) (db : Database)
    (calls : List MutateCall) :
    (regenerations sizes device db calls).IsChain (· ≠ ·) := by
  induction calls generalizing db with
  | nil => exact .nil
  | cons call rest ih =>
    rw [regenerations]
    split
    · next hrg =>
      obtain ⟨hash, -, hh, -, -, hr⟩ := MutateCall.rotation_regenerates hrg
      refine List.isChain_cons.mpr ⟨fun key hk hs => ?_, ih _⟩
      exact regenerations_head rest hr key hk (hs ▸ hh)
    · exact ih _

end

open Sample in
/-- A rotation of the phone's keys, generated as number `n`. -/
def rotatePhone (n : ℕ) (key : String) : MutateCall where
  policies := policies
  supply := supply n
  now := 200
  request := { clientID := 1, endpointID := 1, operation := .rotate, deviceID := 1, requestKey := key }

open Sample in
/-- The first request comes back after a rotation for another one and regenerates the keys a second
time. -/
theorem regenerations_repeat :
    regenerations sizes ⟨1, 1, 1⟩ (aliceHolding 2 [phone])
      [rotatePhone 11 "rotate-key-00001", rotatePhone 12 "rotate-key-00002",
        rotatePhone 13 "rotate-key-00001"] =
      ["rotate-key-00001", "rotate-key-00002", "rotate-key-00001"] := by
  decide +kernel

end Solovey.Devices
