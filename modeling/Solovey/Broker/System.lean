import Solovey.Broker.Sync

/-!
# The journal with its crashes

The runs of a journal on a working disk: `Begin` and `Commit` calls, openings, and crashes inside
and between them. A crash can stop an append or a compaction at every step. What was synced survives
it, a rename has happened or not, and an unsynced line is there up to any of its bytes.

The state carries three histories: the admitted requests, the request of the last admission as long
as its commit has not succeeded, and the rows that were in memory or readable in the file after some
step.
-/

namespace Solovey.Broker

open Solovey.Text Solovey.Json Solovey.Data

/-! ## Crashes -/

/-- The disk after a crash inside a compaction. -/
inductive CrashCompact (w : World) (candidate : List JournalRow) (requiredIndex : Option ℕ)
    (reserveBytes reserveRows : ℕ) : Disk → Prop
  | before : CrashCompact w candidate requiredIndex reserveBytes reserveRows w.disk
  | removed {result : List JournalRow × JournalIndexes × Bytes}
      (hprojection : retainedJournalProjection candidate requiredIndex reserveBytes reserveRows =
        .ok result) :
      CrashCompact w candidate requiredIndex reserveBytes reserveRows
        { w.disk with temporary := none }
  | writing {keep : List JournalRow} {indexes : JournalIndexes} {encoded : Bytes}
      (hprojection : retainedJournalProjection candidate requiredIndex reserveBytes reserveRows =
        .ok (keep, indexes, encoded)) (n : ℕ) :
      CrashCompact w candidate requiredIndex reserveBytes reserveRows
        { w.disk with temporary := some (encoded.take n) }
  | published {keep : List JournalRow} {indexes : JournalIndexes} {encoded : Bytes}
      (hprojection : retainedJournalProjection candidate requiredIndex reserveBytes reserveRows =
        .ok (keep, indexes, encoded)) :
      CrashCompact w candidate requiredIndex reserveBytes reserveRows ⟨some encoded, none⟩

/-- The disk after a crash inside an append. -/
inductive CrashAppend (w : World) (row : JournalRow) (reserveBytes reserveRows : ℕ) : Disk → Prop
  | before : CrashAppend w row reserveBytes reserveRows w.disk
  | line {line : Bytes} (hline : encodeJournalRow row = .ok line)
      (hsmall : needsCompaction (w.journal.fileBytes + line.length) (w.journal.rows.length + 1)
        reserveBytes reserveRows = false) (n : ℕ) :
      CrashAppend w row reserveBytes reserveRows
        { w.disk with main := some (w.disk.main.getD [] ++ line.take n) }
  | compaction {line : Bytes} {disk : Disk} (hline : encodeJournalRow row = .ok line)
      (hlarge : needsCompaction (w.journal.fileBytes + line.length) (w.journal.rows.length + 1)
        reserveBytes reserveRows = true)
      (hcrash : CrashCompact w (w.journal.rows ++ [row]) (some w.journal.rows.length) reserveBytes
        reserveRows disk) :
      CrashAppend w row reserveBytes reserveRows disk

/-- The file that is read when a journal is opened; only the main file may have a torn tail. -/
def Disk.source : Disk → Option (Bytes × Bool)
  | ⟨some data, _⟩ => some (data, true)
  | ⟨none, some staged⟩ => some (staged, false)
  | ⟨none, none⟩ => none

/-- The disk after a crash inside an opening. -/
inductive CrashOpen (disk : Disk) : Disk → Prop
  | before : CrashOpen disk disk
  | removed {data : Bytes} {loaded : LoadedJournal} (hmain : disk.main = some data)
      (hread : readJournalFile false (some data) true = .ok loaded) :
      CrashOpen disk { disk with temporary := none }
  | recovered {data : Bytes} {recoverTail : Bool} {loaded : LoadedJournal}
      (hsource : disk.source = some (data, recoverTail))
      (hread : readJournalFile false (some data) recoverTail = .ok loaded) :
      CrashOpen disk ⟨some (data.take loaded.fileBytes), none⟩
  | compaction {data : Bytes} {recoverTail : Bool} {loaded : LoadedJournal} {disk' : Disk}
      (hsource : disk.source = some (data, recoverTail))
      (hread : readJournalFile false (some data) recoverTail = .ok loaded) (j : FileJournal)
      (hlarge : loaded.rows.length > maxJournalRows ∨ loaded.fileBytes > maxJournalBytes)
      (hcrash : CrashCompact ⟨j, ⟨some (data.take loaded.fileBytes), none⟩⟩ loaded.rows none 0 0
        disk') :
      CrashOpen disk disk'

/-! ## States and steps -/

/-- An admission: the request with its digest, and the receipt that `Begin` returned. -/
structure Admitted where
  request : Request
  digest : String
  receipt : Receipt

structure State where
  disk : Disk := {}
  running : Option FileJournal := none
  /-- the last admission, until its commit succeeds -/
  pending : Option Admitted := none
  /-- the pending receipt is in the memory of the process -/
  held : Bool := false
  admitted : List Admitted := []
  seen : List JournalRow := []

/-- The rows that a reader finds in the file. -/
def Disk.readable (disk : Disk) : List JournalRow :=
  match disk.main with
  | none => []
  | some data =>
    match parseJournal data true with
    | .ok loaded => loaded.rows
    | .error _ => []

namespace State

/-- The rows in memory and in the file are noted. -/
def observe (s : State) : State :=
  { s with seen := s.seen ++ (s.running.elim [] (·.rows) ++ s.disk.readable) }

def begun (s : State) (j : FileJournal) (request : Request) (peer : PeerIdentity)
    (digest : String) (now : Int64) : State :=
  let (w, reply) := World.beginCall {} ⟨j, s.disk⟩ request peer digest now
  let s := { s with disk := w.disk, running := some w.journal }
  match reply with
  | .ok (.active receipt) =>
    let admission : Admitted := ⟨request, digest, receipt⟩
    { s with pending := some admission, held := true,
             admitted := s.admitted ++ [admission] }.observe
  | _ => s.observe

def committed (s : State) (j : FileJournal) (admission : Admitted) (request : Request)
    (response : Response) (policy : CompletionPolicy) (now : Int64) : State :=
  let (w, reply) :=
    World.commitCall {} ⟨j, s.disk⟩ request (some admission.receipt) response policy now
  let s := { s with disk := w.disk, running := some w.journal }
  match reply with
  | .ok _ => { s with pending := none, held := false }.observe
  | _ => s.observe

def crashed (s : State) (disk : Disk) : State :=
  { s with disk, running := none, held := false }.observe

def opened (s : State) (bootID : String) : State :=
  match openFileJournal {} bootID s.disk with
  | (w, .ok ()) => { s with disk := w.disk, running := some w.journal }.observe
  | (w, .error _) => { s with disk := w.disk }.observe

end State

/-- The requests that a caller begins, with their digests, and its commits of an admission;
the flag of a commit says whether the process that admitted the request still runs. -/
structure Caller where
  begins : Request → String → Prop
  commits : Bool → Admitted → Request → Response → CompletionPolicy → Prop
  /-- payloads come from `MarshalPayload` -/
  marshals : ∀ {held : Bool} {a : Admitted} {r : Request} {response : Response}
    {p : CompletionPolicy}, commits held a r response p →
      response.payload.map Value.escapeHTML = response.payload

/-- A receipt is committed once: it is shared with the rows after that. -/
inductive Step (c : Caller) : State → State → Prop
  | begin {s : State} {j : FileJournal} (hj : s.running = some j) {request : Request}
      {digest : String} (hb : c.begins request digest) (peer : PeerIdentity) (now : Int64) :
      Step c s (s.begun j request peer digest now)
  | commit {s : State} {j : FileJournal} (hj : s.running = some j) {a : Admitted}
      (ha : s.pending = some a) {request : Request} {response : Response}
      {policy : CompletionPolicy} (hc : c.commits s.held a request response policy)
      (now : Int64) :
      Step c s (s.committed j a request response policy now)
  | crash {s : State} {j : FileJournal} (hj : s.running = some j) : Step c s (s.crashed s.disk)
  | crashBegin {s : State} {j : FileJournal} (hj : s.running = some j) {request : Request}
      {digest : String} (hb : c.begins request digest) (peer : PeerIdentity) (now : Int64)
      (hadmits : j.indexes.Admits request) {disk : Disk}
      (hcrash : CrashAppend (World.mk j s.disk).drawn
        (activeRow request digest ((World.mk j s.disk).receiptFor request peer now))
        maxJournalRowLineSize 1 disk) :
      Step c s (s.crashed disk)
  | crashCommit {s : State} {j : FileJournal} (hj : s.running = some j) {a : Admitted}
      (ha : s.pending = some a) {request : Request} {response : Response}
      {policy : CompletionPolicy} (hc : c.commits s.held a request response policy)
      (now : Int64) {disk : Disk}
      (hcrash : CrashAppend ⟨j, s.disk⟩
        (completeRow request (completeReceipt j a.receipt response now) response policy) 0 0
        disk) :
      Step c s (s.crashed disk)
  | opening {s : State} (hstopped : s.running = none) (bootID : String) :
      Step c s (s.opened bootID)
  | crashOpening {s : State} (hstopped : s.running = none) {disk : Disk}
      (hcrash : CrashOpen s.disk disk) : Step c s (s.crashed disk)

/-- The states of the runs that start on an empty disk. -/
def Reachable (c : Caller) (s : State) : Prop := Relation.ReflTransGen (Step c) {} s

/-! ## Runs of given calls -/

section Runs

variable {c : Caller} {s : State} {j : FileJournal} {w : World}

theorem reachable_opened (c : Caller) (bi : String) :
    ∃ s, Reachable c s ∧ s.running = some { bootID := bi } ∧ s.disk = {} ∧ s.admitted = [] :=
  ⟨_, .single (.opening rfl bi), rfl, rfl, rfl⟩

theorem Reachable.begun (h : Reachable c s) (hj : s.running = some j) {r : Request}
    {p : PeerIdentity} {d : String} {n : Int64} {rc : Receipt} (hb : c.begins r d)
    (hc : World.beginCall {} ⟨j, s.disk⟩ r p d n = (w, .ok (.active rc))) :
    ∃ s', Reachable c s' ∧ s'.running = some w.journal ∧ s'.disk = w.disk ∧ s'.held = true ∧
      s'.pending = some ⟨r, d, rc⟩ ∧
      s'.admitted = s.admitted ++ [⟨r, d, rc⟩] := by
  refine ⟨_, h.tail (.begin hj hb p n), ?_⟩
  simp [State.begun, hc, State.observe]

theorem Reachable.committed (h : Reachable c s) (hj : s.running = some j) {a : Admitted}
    (ha : s.pending = some a) {r : Request} (rs : Response) {rp : Response} {p : CompletionPolicy}
    {n : Int64} (hc : c.commits s.held a r rs p)
    (hcl : World.commitCall {} ⟨j, s.disk⟩ r (some a.receipt) rs p n = (w, .ok rp)) :
    ∃ s', Reachable c s' ∧ s'.running = some w.journal ∧ s'.disk = w.disk ∧
      s'.pending = none ∧ s'.admitted = s.admitted := by
  refine ⟨_, h.tail (.commit hj ha hc n), ?_⟩
  simp [State.committed, hcl, State.observe]

end Runs

end Solovey.Broker
