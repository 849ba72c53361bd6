import Solovey.Data.LastEvent
import Solovey.Data.Rows
import Solovey.Tracker.Stats

/-!
# Saving the samples

`saveStatsSamples` writes what a drain took: the traffic of authenticated users to their clients,
and, where the history is enabled, one row for every sample. All of it is one transaction. Each of
its statements, and the commit, can fail. `saveStatsSamples_cases` says what the tables hold after a
call: nothing new with an error, and everything without one.
-/

namespace Solovey.Tracker

open Solovey.Data Std List

/-! ## The tables -/

/-- A row of the traffic history; the user of a sample is not part of it. -/
structure Stats where
  dateTime : Int64
  resource : Resource
  tag : String
  direction : Bool
  traffic : Int64
  deriving DecidableEq

def statsModels (samples : List Stat) : List Stats :=
  samples.map fun sample =>
    { dateTime := sample.dateTime, resource := sample.resource, tag := sample.tag
      direction := sample.direction, traffic := sample.traffic }

/-- The counters of a client. -/
structure Client where
  id : VPNUserID
  up : Int
  down : Int
  deriving DecidableEq

structure Store where
  stats : List Stats := []
  clients : List Client := []
  deriving DecidableEq

/-! ## The traffic of the users -/

structure ClientTrafficDelta where
  up : Int64 := 0
  down : Int64 := 0
  deriving DecidableEq

def ClientTrafficDelta.count (delta : ClientTrafficDelta) (sample : Stat) : ClientTrafficDelta :=
  if sample.direction then { delta with up := delta.up + sample.traffic }
  else { delta with down := delta.down + sample.traffic }

/-- What is added to the clients that a batch names. -/
abbrev Deltas := ExtTreeMap VPNUserID ClientTrafficDelta

/-- The traffic of a user in a set of deltas, zero if there is none. -/
def deltaOf (deltas : Deltas) (id : VPNUserID) : ClientTrafficDelta :=
  deltas[id]?.getD {}

/-- Only samples of an authenticated user are counted for a client. -/
def addSample (deltas : Deltas) (sample : Stat) : Deltas :=
  if sample.resource ≠ .user ∨ sample.vpnUserID = 0 then deltas
  else deltas.insert sample.vpnUserID ((deltaOf deltas sample.vpnUserID).count sample)

def clientDeltas (samples : List Stat) : Deltas :=
  samples.foldl addSample ∅

/-- The names with traffic; the keys of a tree are sorted. -/
def deltaNames (deltas : Deltas) : List VPNUserID :=
  deltas.keys.filter fun name => deltaOf deltas name ≠ {}

def Client.charge (delta : ClientTrafficDelta) (client : Client) : Client :=
  { client with up := client.up + delta.up.toInt, down := client.down + delta.down.toInt }

def updateClientTrafficDeltaBatch (names : List VPNUserID) (deltas : Deltas)
    (clients : List Client) : List Client :=
  updateWhere (fun client => names.contains client.id)
    (fun client => client.charge (deltaOf deltas client.id)) clients

/-! ## The transaction -/

/-- What can fail. -/
inductive Failure
  | flush
  | noDatabase
  | begin
  | update (batch : ℕ)
  | create
  | addresses
  | commit
  deriving DecidableEq

section

variable (fails : Failure → Bool)

/-- A statement that may fail. -/
def attempt (failure : Failure) : Except Failure Unit :=
  if fails failure then .error failure else .ok ()

/-- The names are updated a hundred at a time. -/
def updateClientTrafficDeltas (deltas : Deltas) (clients : List Client) :
    Except Failure (List Client) :=
  let names := deltaNames deltas
  (range ((names.length + 99) / 100)).foldlM (fun clients batch => do
    attempt fails (.update batch)
    return updateClientTrafficDeltaBatch ((names.drop (100 * batch)).take 100) deltas clients) clients

/-- The statements of the transaction; `WriteTo` of the address batch writes another table. -/
def writeSamples (enableTraffic : Bool) (samples : List Stat) (tx : Store) :
    Except Failure Store := do
  let clients ← updateClientTrafficDeltas fails (clientDeltas samples) tx.clients
  if !enableTraffic then
    attempt fails .addresses
    return { tx with clients }
  attempt fails .create
  attempt fails .addresses
  return { stats := tx.stats ++ statsModels samples, clients }

/-- The tables after the call, and its error. A transaction with an error is rolled back. -/
def saveStatsSamples (enableTraffic : Bool) (samples : List Stat) (store : Store) :
    Store × Option Failure :=
  if (statsModels samples).isEmpty then
    (store, if fails .flush then some .flush else none)
  else if fails .noDatabase then (store, some .noDatabase)
  else if fails .begin then (store, some .begin)
  else match writeSamples fails enableTraffic samples store with
    | .error failure => (store, some failure)
    | .ok tx => if fails .commit then (store, some .commit) else (tx, none)

end

/-! ## What is written -/

/-- A sample counts for the client with this id. -/
def Stat.countsFor (id : VPNUserID) (sample : Stat) : Bool :=
  sample.resource = .user ∧ sample.vpnUserID ≠ 0 ∧ sample.vpnUserID = id

/-- The sum of the samples of a client in one direction, as `int64` adds them. -/
def charged (samples : List Stat) (id : VPNUserID) (direction : Bool) : Int64 :=
  ((samples.filter fun sample => sample.countsFor id && sample.direction == direction).map
    Stat.traffic).sum

theorem charged_cons (sample : Stat) (samples : List Stat) (id : VPNUserID) (direction : Bool) :
    charged (sample :: samples) id direction =
      (if sample.countsFor id && sample.direction == direction then sample.traffic else 0) +
        charged samples id direction := by
  rw [charged, filter_cons]
  split
  · rw [map_cons, sum_cons, charged]
  · rw [Int64.zero_add, charged]

theorem deltaOf_addSample (deltas : Deltas) (sample : Stat) (id : VPNUserID) :
    deltaOf (addSample deltas sample) id =
      if sample.countsFor id then (deltaOf deltas id).count sample else deltaOf deltas id := by
  unfold addSample
  by_cases hu : sample.resource ≠ .user ∨ sample.vpnUserID = 0
  · have hn : sample.countsFor id = false := by
      simp only [Stat.countsFor, decide_eq_false_iff_not]
      tauto
    rw [if_pos hu, hn]
    rfl
  · rw [if_neg hu, deltaOf, ExtTreeMap.getElem?_insert]
    rw [not_or, not_not] at hu
    by_cases hid : sample.vpnUserID = id
    · subst hid
      simp [Stat.countsFor, hu]
    · simp [Stat.countsFor, hid, deltaOf]

/-- The deltas of a list of samples are the sums of what they count for each client. -/
theorem deltaOf_clientDeltas (samples : List Stat) (id : VPNUserID) :
    deltaOf (clientDeltas samples) id = ⟨charged samples id true, charged samples id false⟩ := by
  suffices ∀ deltas : Deltas,
      deltaOf (samples.foldl addSample deltas) id =
        ⟨(deltaOf deltas id).up + charged samples id true,
          (deltaOf deltas id).down + charged samples id false⟩ by
    have hn : deltaOf ∅ id = {} := by simp [deltaOf]
    rw [clientDeltas, this, hn, Int64.zero_add, Int64.zero_add]
  induction samples with
  | nil => simp [charged]
  | cons sample samples ih =>
    intro deltas
    rw [foldl_cons, ih, deltaOf_addSample, charged_cons, charged_cons]
    cases sample.countsFor id with
    | false => simp
    | true => cases hd : sample.direction <;> simp [ClientTrafficDelta.count, hd, Int64.add_assoc]

theorem Client.charge_zero (client : Client) : client.charge {} = client := by
  simp [Client.charge]

/-- Two batches with different names update what one batch with all of them does. -/
theorem updateClientTrafficDeltaBatch_append {names others : List VPNUserID}
    (hd : names.Disjoint others) (deltas : Deltas) (clients : List Client) :
    updateClientTrafficDeltaBatch others deltas (updateClientTrafficDeltaBatch names deltas clients) =
      updateClientTrafficDeltaBatch (names ++ others) deltas clients := by
  rw [updateClientTrafficDeltaBatch, updateClientTrafficDeltaBatch, updateWhere, updateWhere,
    List.map_map]
  refine map_congr_left fun client _ => ?_
  simp only [Function.comp_apply, contains_iff_mem, mem_append]
  by_cases hn : client.id ∈ names
  · have ho : client.id ∉ others := fun ho => hd hn ho
    simp [hn, ho, Client.charge]
  · simp [hn]

variable {fails : Failure → Bool}

theorem deltaOf_of_not_mem {deltas : Deltas} {id : VPNUserID} (h : id ∉ deltaNames deltas) :
    deltaOf deltas id = {} := by
  by_contra hne
  refine h (mem_filter.mpr ⟨?_, by simpa using hne⟩)
  rw [ExtTreeMap.mem_keys]
  by_contra hid
  exact hne (by rw [deltaOf, ExtTreeMap.getElem?_eq_none hid]; rfl)

section Batches

variable {deltas : Deltas} {names : List VPNUserID} {clients later : List Client}

/-- After some of the batches, the names up to their end have been updated. -/
theorem foldlM_batches {count : ℕ} (hn : names.Nodup)
    (h : (range count).foldlM (fun clients batch => do
      attempt fails (.update batch)
      return updateClientTrafficDeltaBatch ((names.drop (100 * batch)).take 100) deltas clients)
      clients = .ok later) :
    later = updateClientTrafficDeltaBatch (names.take (100 * count)) deltas clients := by
  induction count generalizing later with
  | zero =>
    cases h
    simp [updateClientTrafficDeltaBatch, updateWhere]
  | succ count ih =>
    rw [range_succ, foldlM_append] at h
    obtain ⟨middle, hm, hl⟩ := bind_ok.mp h
    rw [foldlM_cons] at hl
    obtain ⟨last, hb, hl⟩ := bind_ok.mp hl
    obtain ⟨u, -, hb⟩ := bind_ok.mp hb
    cases hb
    cases hl
    -- The names are distinct, so the new batch has none of those before it.
    have htake : names.take (100 * (count + 1)) =
        names.take (100 * count) ++ (names.drop (100 * count)).take 100 := by
      rw [Nat.mul_succ, take_add]
    have hd : (names.take (100 * count)).Disjoint ((names.drop (100 * count)).take 100) := by
      have hs := hn.sublist (take_sublist (100 * (count + 1)) names)
      rw [htake] at hs
      exact disjoint_of_nodup_append hs
    rw [ih hm, updateClientTrafficDeltaBatch_append hd, htake]

/-- All batches together charge every client its delta. -/
theorem updateClientTrafficDeltas_ok
    (h : updateClientTrafficDeltas fails deltas clients = .ok later) :
    later = clients.map fun client => client.charge (deltaOf deltas client.id) := by
  have hn : (deltaNames deltas).Nodup := ExtTreeMap.nodup_keys.filter _
  rw [foldlM_batches hn h, take_of_length_le (by omega), updateClientTrafficDeltaBatch, updateWhere]
  refine map_congr_left fun client _ => ?_
  split
  · rfl
  · next hc =>
    rw [contains_iff_mem] at hc
    rw [deltaOf_of_not_mem hc, Client.charge_zero]

end Batches

/-- What one committed transaction was given. -/
structure Transaction where
  enableTraffic : Bool
  samples : List Stat

/-- The rows of the history that a transaction adds. -/
def Transaction.rows (transaction : Transaction) : List Stats :=
  if transaction.enableTraffic then statsModels transaction.samples else []

/-- A client after some transactions: its counters have grown by what each of them had for it. -/
def Client.after (transactions : List Transaction) (client : Client) : Client :=
  { client with
    up := client.up + (transactions.map fun t => (charged t.samples client.id true).toInt).sum
    down := client.down + (transactions.map fun t => (charged t.samples client.id false).toInt).sum }

def Store.after (transactions : List Transaction) (store : Store) : Store where
  stats := store.stats ++ transactions.flatMap Transaction.rows
  clients := store.clients.map (Client.after transactions)

theorem Store.after_append (store : Store) (first second : List Transaction) :
    (store.after first).after second = store.after (first ++ second) := by
  simp [Store.after, Client.after, Function.comp_def, add_assoc]

variable {enableTraffic : Bool} {samples : List Stat} {store tx : Store}

theorem writeSamples_ok (h : writeSamples fails enableTraffic samples store = .ok tx) :
    tx = store.after [⟨enableTraffic, samples⟩] := by
  unfold writeSamples at h
  obtain ⟨clients, hc, h⟩ := bind_ok.mp h
  have hclients : clients = store.clients.map (Client.after [⟨enableTraffic, samples⟩]) := by
    rw [updateClientTrafficDeltas_ok hc]
    refine map_congr_left fun client _ => ?_
    simp [deltaOf_clientDeltas, Client.charge, Client.after]
  subst hclients
  cases enableTraffic with
  | false =>
    obtain ⟨u, -, h⟩ := bind_ok.mp h
    cases h
    simp [Store.after, Transaction.rows]
  | true =>
    obtain ⟨u, -, h⟩ := bind_ok.mp h
    obtain ⟨u', -, h⟩ := bind_ok.mp h
    cases h
    simp [Store.after, Transaction.rows]

theorem Store.after_nothing {transactions : List Transaction} (store : Store)
    (h : ∀ t ∈ transactions, t.samples = []) : store.after transactions = store := by
  have hs : transactions.flatMap Transaction.rows = [] :=
    flatMap_eq_nil_iff.mpr fun t ht => by simp [Transaction.rows, statsModels, h t ht]
  have hz : ∀ id d, (transactions.map fun t => (charged t.samples id d).toInt).sum = 0 := by
    refine fun id d => sum_eq_zero fun n hn => ?_
    obtain ⟨t, ht, rfl⟩ := mem_map.mp hn
    rw [h t ht]
    rfl
  have hc : store.clients.map (Client.after transactions) = store.clients :=
    (map_congr_left fun client _ => by simp [Client.after, hz]).trans (map_id' _)
  rw [Store.after, hs, hc, append_nil]

/-- A call returns an error and has written nothing, or it has written everything. -/
theorem saveStatsSamples_cases (fails : Failure → Bool) (enableTraffic : Bool) (samples : List Stat)
    (store : Store) :
    (∃ failure, saveStatsSamples fails enableTraffic samples store = (store, some failure)) ∨
      saveStatsSamples fails enableTraffic samples store =
        (store.after [⟨enableTraffic, samples⟩], none) := by
  unfold saveStatsSamples
  split
  · next he =>
    obtain rfl : samples = [] := by simpa [statsModels] using he
    rw [Store.after_nothing store (by simp)]
    split
    · exact .inl ⟨_, rfl⟩
    · exact .inr rfl
  split
  · exact .inl ⟨_, rfl⟩
  split
  · exact .inl ⟨_, rfl⟩
  split
  · exact .inl ⟨_, rfl⟩
  · next tx hw =>
    rw [writeSamples_ok hw]
    split
    · exact .inl ⟨_, rfl⟩
    · exact .inr rfl

end Solovey.Tracker
