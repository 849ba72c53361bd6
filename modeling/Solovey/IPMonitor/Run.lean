import Solovey.IPMonitor.Monitor

/-!
# Runs of the monitor

A step of the system is one section under the locks, one query of the database, or the commit of one
flush transaction; the steps of different calls interleave in any order. Instants and times of
observations are inputs of the steps, so that cache entries expire at any moment.

The state carries one history: the observations of accepted sources, each with the place that holds
it.
-/

namespace Solovey.IPMonitor

open Std

inductive LoadStage
  | started
  /-- The client is enabled and limited, and its history is still to be read. -/
  | enforced (limit : Int)
  | loaded (entry : Option AllowCacheEntry)

/-- A policy load of `ensureClientPolicy`. -/
structure Load where
  client : String
  revision : ℕ
  stage : LoadStage

/-- A running `WarmUp`, with the entries it has read. -/
structure WarmUp where
  revision : ℕ
  entries : Option (ExtTreeMap String AllowCacheEntry)

/-- A running flush: has its transaction committed? -/
structure Flush where
  written : Bool
  deriving DecidableEq

inductive Place
  | pending
  | batch (id : ℕ)
  | settled
  deriving DecidableEq

structure Observation where
  source : Source
  seenAt : Int
  place : Place

structure State where
  db : Database
  monitor : Monitor := {}
  loads : ExtTreeMap ℕ Load := ∅
  warmUps : ExtTreeMap ℕ WarmUp := ∅
  flushes : ExtTreeMap ℕ Flush := ∅
  observations : List Observation := []

/-- The step names that conditions on a run talk about. -/
inductive Op
  /-- An accepted source is recorded. -/
  | accept (source : Source) (seenAt : Int)
  /-- `Record`: a source is recorded without a decision. -/
  | record (source : Source) (seenAt : Int)
  /-- The transaction of a flush commits. -/
  | write (id : ℕ)
  /-- An administrator changes the clients. -/
  | edit (clients : ExtTreeMap String Client)
  | other

def ClientRead.stage : ClientRead → LoadStage
  | .missing => .loaded none
  | .done entry => .loaded (some entry)
  | .enforced limit => .enforced limit

/-- The observations that a place holds move to another one. -/
def moved (observations : List Observation) (place place' : Place) : List Observation :=
  observations.map fun o => if o.place = place then { o with place := place' } else o

inductive Step (s : State) : Op → State → Prop
  | startLoad {id : ℕ} {client : String} {revision : ℕ} {now : Int} {m : Monitor}
      (fresh : s.loads[id]? = none) (start : s.monitor.startLoad client revision now = some m) :
      Step s .other { s with
        monitor := m
        loads := s.loads.insert id ⟨client, revision, .started⟩ }
  | readClient {id : ℕ} {client : String} {revision : ℕ} (now : Int)
      (load : s.loads[id]? = some ⟨client, revision, .started⟩) :
      Step s .other { s with
        loads := s.loads.insert id ⟨client, revision, (s.db.readClient client now).stage⟩ }
  | readHistory {id : ℕ} {client : String} {revision : ℕ} {limit : Int} (now : Int)
      (load : s.loads[id]? = some ⟨client, revision, .enforced limit⟩) :
      Step s .other { s with
        loads := s.loads.insert id
          ⟨client, revision, .loaded (some (s.db.readHistory client limit now))⟩ }
  /-- A query fails, or the hash of a legacy address cannot be computed. -/
  | failLoad {id : ℕ} {load : Load} (running : s.loads[id]? = some load) :
      Step s .other { s with loads := s.loads.insert id { load with stage := .loaded none } }
  | install {id : ℕ} {client : String} {revision : ℕ} {entry : Option AllowCacheEntry} (now : Int)
      (load : s.loads[id]? = some ⟨client, revision, .loaded entry⟩) :
      Step s .other { s with
        monitor := s.monitor.install client revision entry now
        loads := s.loads.erase id }
  | startWarmUp {id : ℕ} (fresh : s.warmUps[id]? = none) :
      Step s .other { s with warmUps := s.warmUps.insert id ⟨s.monitor.revision, none⟩ }
  | readWarmUp {id revision : ℕ} (now : Int) (warmUp : s.warmUps[id]? = some ⟨revision, none⟩) :
      Step s .other { s with
        warmUps := s.warmUps.insert id ⟨revision, some (s.db.loadActiveEnforceEntries now)⟩ }
  | failWarmUp {id : ℕ} {warmUp : WarmUp} (running : s.warmUps[id]? = some warmUp) :
      Step s .other { s with warmUps := s.warmUps.erase id }
  | installWarmUp {id revision : ℕ} {entries : ExtTreeMap String AllowCacheEntry}
      (warmUp : s.warmUps[id]? = some ⟨revision, some entries⟩) :
      Step s .other { s with
        monitor := s.monitor.installAll revision entries
        warmUps := s.warmUps.erase id }
  /-- `ObserveAndAllow` accepts a source. -/
  | accept {client ip : String} {display : Option String} {revision : ℕ} {now seenAt : Int}
      {m : Monitor}
      (decision : s.monitor.admitPrepared (client, hashIP s.db.installSalt ip) display true revision
        now seenAt = (m, true)) :
      Step s (.accept (client, hashIP s.db.installSalt ip) seenAt) { s with
        monitor := m
        observations := s.observations ++
          [⟨(client, hashIP s.db.installSalt ip), seenAt, .pending⟩] }
  /-- `ObserveAndAllow` rejects a source. -/
  | reject {client ip : String} {display : Option String} {revision : ℕ} {now seenAt : Int}
      {m : Monitor}
      (decision : s.monitor.admitPrepared (client, hashIP s.db.installSalt ip) display true revision
        now seenAt = (m, false)) :
      Step s .other { s with monitor := m }
  /-- `Allow` only asks. -/
  | allow (client ip : String) (display : Option String) (revision : ℕ) (now seenAt : Int) :
      Step s .other { s with
        monitor := (s.monitor.admitPrepared (client, hashIP s.db.installSalt ip) display false
          revision now seenAt).1 }
  | record (client ip : String) (display : Option String) (seenAt : Int) :
      Step s (.record (client, hashIP s.db.installSalt ip) seenAt) { s with
        monitor := s.monitor.record (client, hashIP s.db.installSalt ip) display
          s.monitor.revision seenAt
        observations := s.observations ++
          [⟨(client, hashIP s.db.installSalt ip), seenAt, .pending⟩] }
  | beginFlush {id : ℕ} (fresh : s.flushes[id]? = none) :
      Step s .other { s with
        monitor := s.monitor.beginFlush id
        flushes := s.flushes.insert id ⟨false⟩
        observations := moved s.observations .pending (.batch id) }
  | write {id : ℕ} (flush : s.flushes[id]? = some ⟨false⟩) :
      Step s (.write id) { s with
        db := s.db.flushSnapshot (s.monitor.flushing.getD id ∅)
        flushes := s.flushes.insert id ⟨true⟩ }
  | commit {id : ℕ} (flush : s.flushes[id]? = some ⟨true⟩) :
      Step s .other { s with
        monitor := s.monitor.commit id
        flushes := s.flushes.erase id
        observations := moved s.observations (.batch id) .settled }
  /-- The transaction of the flush has failed. -/
  | requeue {id : ℕ} (flush : s.flushes[id]? = some ⟨false⟩) :
      Step s .other { s with
        monitor := s.monitor.requeue id
        flushes := s.flushes.erase id
        observations := moved s.observations (.batch id) .pending }
  | invalidate (client : String) :
      Step s .other { s with monitor := s.monitor.invalidateCache client }
  | invalidateAll : Step s .other { s with monitor := s.monitor.invalidateAllCache }
  | edit (clients : ExtTreeMap String Client) :
      Step s (.edit clients) { s with db := { s.db with clients } }

/-- The states of runs from a database, with no call running and nothing in memory, in which every
step meets the condition. -/
inductive Reachable (ok : State → Op → Prop) (db : Database) : State → Prop
  | start : Reachable ok db { db }
  | step {s s' : State} {op : Op} : Reachable ok db s → ok s op → Step s op s' →
      Reachable ok db s'

/-! ## Flushes and their batches -/

section Batches

variable {m : Monitor} {fs : ExtTreeMap ℕ Flush} {flushing : ExtTreeMap ℕ Snapshot}
  {P : Snapshot → Prop}

theorem getElem?_beginFlush {id id' : ℕ} (hne : id ≠ id') :
    (m.beginFlush id).flushing[id']? = m.flushing[id']? := by
  unfold Monitor.beginFlush
  dsimp only
  split
  · rfl
  · simp [ExtTreeMap.getElem?_insert, hne]

theorem written_beginFlush (h : ∀ (id : ℕ), fs[id]? = some ⟨true⟩ →
    ∀ snapshot ∈ m.flushing[id]?, P snapshot) (id id' : ℕ)
    (hwr : (fs.insert id ⟨false⟩)[id']? = some ⟨true⟩) :
    ∀ snapshot ∈ (m.beginFlush id).flushing[id']?, P snapshot := by
  have hne : id ≠ id' := by
    rintro rfl
    simp at hwr
  rw [getElem?_beginFlush hne]
  exact h id' (by simpa [ExtTreeMap.getElem?_insert, hne] using hwr)

theorem getElem?_of_insert_eq_none {f : Flush} {id id' : ℕ} (hn : (fs.insert id f)[id']? = none) :
    id ≠ id' ∧ fs[id']? = none := by
  have hne : id ≠ id' := by
    rintro rfl
    simp at hn
  exact ⟨hne, by simpa [ExtTreeMap.getElem?_insert, hne] using hn⟩

theorem owned_beginFlush (h : ∀ (id : ℕ), fs[id]? = none → m.flushing[id]? = none) {f : Flush}
    (id id' : ℕ) (hn : (fs.insert id f)[id']? = none) :
    (m.beginFlush id).flushing[id']? = none := by
  obtain ⟨hne, ho⟩ := getElem?_of_insert_eq_none hn
  rw [getElem?_beginFlush hne]
  exact h id' ho

theorem written_erase (h : ∀ (id : ℕ), fs[id]? = some ⟨true⟩ →
    ∀ snapshot ∈ flushing[id]?, P snapshot) (id id' : ℕ) (hwr : (fs.erase id)[id']? = some ⟨true⟩) :
    ∀ snapshot ∈ (flushing.erase id)[id']?, P snapshot :=
  fun snapshot hs => h id' (Data.mem_of_mem_erase hwr) snapshot (Data.mem_of_mem_erase hs)

theorem owned_erase (h : ∀ (id : ℕ), fs[id]? = none → flushing[id]? = none) (id id' : ℕ)
    (hn : (fs.erase id)[id']? = none) : (flushing.erase id)[id']? = none := by
  rw [ExtTreeMap.getElem?_erase] at hn ⊢
  split
  · rfl
  · next hne =>
    rw [if_neg hne] at hn
    exact h id' hn

end Batches

end Solovey.IPMonitor
