import Solovey.Broker.Projection

/-!
# The file journal

`FileJournal` over its two files: the journal and the temporary file of a compaction. Every file
operation can fail; a `Faults` record says which ones do in a call, and how many bytes a failing
write leaves behind. A call returns its reply with the new state; a failed append is reported with
the result of the reload that follows it.
-/

namespace Solovey.Broker

open Solovey.Text Solovey.Json

/-! ## State -/

structure FileJournal where
  bootID : String := ""
  rows : List JournalRow := []
  indexes : JournalIndexes := {}
  fileBytes : ℕ := 0

def FileJournal.installRows (j : FileJournal) (rows : List JournalRow) (indexes : JournalIndexes)
    (fileBytes : ℕ) : FileJournal :=
  { j with rows, indexes, fileBytes }

structure Disk where
  main : Option Bytes := none
  temporary : Option Bytes := none

structure World where
  journal : FileJournal := {}
  disk : Disk := {}

/-! ## Reading -/

structure LoadedJournal where
  rows : List JournalRow
  indexes : JournalIndexes
  fileBytes : ℕ
  tailOffset : Option ℕ

def parseLine (line : Bytes) : Except BrokerError JournalRow :=
  if line.length > maxJournalRowBytes then
    .error (.internal "broker receipt journal row exceeds its bounded contract")
  else
    match decodeJournalRow line with
    | some row => .ok row
    | none => .error (.internal "broker receipt journal contains an invalid committed record")

/-- The rows of the lines; only the last line, after the last newline, may be empty. -/
def parseLines : List Bytes → Except BrokerError (List JournalRow)
  | [] => .ok []
  | line :: rest =>
    if line = [] then
      if rest = [] then .ok []
      else .error (.internal "broker receipt journal contains an empty committed record")
    else do
      let row ← parseLine line
      let rows ← parseLines rest
      return row :: rows

/-- The file does not end with a newline. -/
def torn (data : Bytes) : Bool := data != [] && data.getLast? != some newline

def parseJournal (data : Bytes) (recoverTail : Bool) : Except BrokerError LoadedJournal := do
  failIf (torn data = true ∧ recoverTail = false)
    "broker compaction contains an unterminated record"
  let complete := if torn data then completeLines data else data
  let rows ← parseLines (lines complete)
  let indexes ← (buildJournalIndexes rows).mapError .internal
  return ⟨rows, indexes, complete.length, if torn data then some complete.length else none⟩

/-- `fails` stands for a failing open, stat, read or close. -/
def readJournalFile (fails : Bool) (file : Option Bytes) (recoverTail : Bool) :
    Except BrokerError LoadedJournal :=
  if fails then .error (.file "read")
  else
    match file with
    | none => .error .notExist
    | some data =>
      if data.length > maxJournalFileBytes then
        .error (.internal "broker receipt journal is unsafe")
      else parseJournal data recoverTail

/-! ## Faults -/

structure ReloadFaults where
  read : Bool := false
  truncate : Bool := false
  sync : Bool := false

structure AppendFaults where
  openFile : Bool := false
  /-- the bytes that a failing write leaves -/
  write : Option ℕ := none
  sync : Bool := false
  close : Bool := false
  syncDirectory : Bool := false
  reload : ReloadFaults := {}

structure CompactFaults where
  lstat : Bool := false
  removeStale : Bool := false
  syncStale : Bool := false
  openFile : Bool := false
  write : Option ℕ := none
  sync : Bool := false
  close : Bool := false
  rename : Bool := false
  cleanup : Bool := false
  syncDirectory : Bool := false
  reload : ReloadFaults := {}

structure CallFaults where
  append : AppendFaults := {}
  compact : CompactFaults := {}
  reload : ReloadFaults := {}

structure LoadFaults where
  lstat : Bool := false
  read : Bool := false
  removeStale : Bool := false
  syncStale : Bool := false
  tail : ReloadFaults := {}
  rename : Bool := false
  syncDirectory : Bool := false
  compact : CompactFaults := {}

/-! ## Reloading -/

/-- Cuts the torn tail off. -/
def recoverInterruptedTail (f : ReloadFaults) (disk : Disk) (offset : ℕ) :
    Disk × Except BrokerError Unit :=
  if f.truncate then (disk, .error (.file "truncate interrupted broker journal tail"))
  else
    let disk := { disk with main := disk.main.map (·.take offset) }
    if f.sync then (disk, .error (.file "sync recovered broker journal")) else (disk, .ok ())

def reloadAfterWriteFailure (f : ReloadFaults) (w : World) : World × Except BrokerError Unit :=
  match readJournalFile f.read w.disk.main true with
  | .error .notExist => ({ w with journal := w.journal.installRows [] {} 0 }, .ok ())
  | .error e => (w, .error e)
  | .ok loaded =>
    match loaded.tailOffset with
    | none =>
      let journal := w.journal.installRows loaded.rows loaded.indexes loaded.fileBytes
      ({ w with journal }, .ok ())
    | some offset =>
      match recoverInterruptedTail f w.disk offset with
      | (disk, .error e) => ({ w with disk }, .error e)
      | (disk, .ok ()) => (⟨w.journal.installRows loaded.rows loaded.indexes offset, disk⟩, .ok ())

/-! ## Compaction -/

/-- A reload's error, joined to the error before it. -/
def joinReload (errors : List BrokerError) : Except BrokerError Unit → List BrokerError
  | .error e => errors ++ [e]
  | .ok () => errors

/-- The temporary file is removed after a failure before its publication. -/
def cleanup (f : CompactFaults) (disk : Disk) : Disk :=
  if f.cleanup then disk else { disk with temporary := none }

/-- The temporary file is written and synced; `false` when one of the steps failed. -/
def writeTemporary (f : CompactFaults) (disk : Disk) (encoded : Bytes) : Disk × Bool :=
  match f.write with
  | some n => (cleanup f { disk with temporary := some (encoded.take n) }, false)
  | none =>
    if f.sync || f.close then (cleanup f { disk with temporary := some encoded }, false)
    else ({ disk with temporary := some encoded }, true)

def compact (f : CompactFaults) (w : World) (candidate : List JournalRow)
    (requiredIndex : Option ℕ) (reserveBytes reserveRows : ℕ) :
    World × Except (List BrokerError) Unit :=
  match retainedJournalProjection candidate requiredIndex reserveBytes reserveRows with
  | .error e => (w, .error [e])
  | .ok (keep, indexes, encoded) =>
    if f.lstat then (w, .error [.file "stat broker compaction"])
    else if w.disk.temporary.isSome && f.removeStale then
      (w, .error [.file "remove stale broker compaction"])
    else
      let w' : World := { w with disk := { w.disk with temporary := none } }
      if w.disk.temporary.isSome && f.syncStale then
        (w', .error [.file "sync stale broker compaction removal"])
      else if f.openFile then (w', .error [.file "open broker compaction"])
      else
        match writeTemporary f w'.disk encoded with
        | (disk, false) => ({ w with disk }, .error [.file "write broker compaction"])
        | (disk, true) =>
          if f.rename then
            ({ w with disk := cleanup f disk }, .error [.file "publish broker compaction"])
          else
            let w : World := { w with disk := ⟨some encoded, none⟩ }
            if f.syncDirectory then
              let (w, reload) := reloadAfterWriteFailure f.reload w
              (w, .error (joinReload [.file "sync broker compaction"] reload))
            else ({ w with journal := w.journal.installRows keep indexes encoded.length }, .ok ())

/-! ## Appending -/

/-- The size at which an append compacts instead. -/
def needsCompaction (prospectiveBytes rows reserveBytes reserveRows : ℕ) : Bool :=
  prospectiveBytes > maxJournalBytes || rows > maxJournalRows ||
    prospectiveBytes + reserveBytes > maxJournalFileBytes || rows + reserveRows > maxJournalRows

/-- The line on the disk, as far as the write got; opening the file creates it. -/
def writeLine (f : AppendFaults) (disk : Disk) (line : Bytes) : Disk :=
  { disk with main := some (disk.main.getD [] ++ (f.write.elim line line.take)) }

def append (f : CallFaults) (w : World) (row : JournalRow) (reserveBytes reserveRows : ℕ) :
    World × Except (List BrokerError) Unit :=
  match encodeJournalRow row with
  | .error e => (w, .error [e])
  | .ok line =>
    let candidate := w.journal.rows ++ [row]
    let prospectiveBytes := w.journal.fileBytes + line.length
    if needsCompaction prospectiveBytes candidate.length reserveBytes reserveRows then
      compact f.compact w candidate (some (candidate.length - 1)) reserveBytes reserveRows
    else if f.append.openFile then (w, .error [.file "open broker journal"])
    else
      let w : World := { w with disk := writeLine f.append w.disk line }
      if f.append.write.isSome || f.append.sync || f.append.close || f.append.syncDirectory then
        let (w, reload) := reloadAfterWriteFailure f.append.reload w
        (w, .error (joinReload [.file "write broker journal"] reload))
      else
        match buildJournalIndexes candidate with
        | .error e => (w, .error [.internal e])
        | .ok indexes =>
          ({ w with journal := w.journal.installRows candidate indexes prospectiveBytes }, .ok ())

/-! ## Calls -/

/-- The reply of a call. A refused call wrote nothing; a failed one tried to, and its error
comes with the result of the reload. -/
inductive Reply (α : Type)
  | ok (value : α)
  | refused (error : BrokerError)
  | failed (errors : List BrokerError) (reload : Except BrokerError Unit)

/-- The end of a call: the value when the append went through, else a reload. -/
def finishCall {α : Type} (f : CallFaults) (value : α) :
    World × Except (List BrokerError) Unit → World × Reply α
  | (w, .ok ()) => (w, .ok value)
  | (w, .error errors) =>
    let (w, reload) := reloadAfterWriteFailure f.reload w
    (w, .failed errors reload)

/-- A request is answered from its replay record or admitted with an active receipt. -/
inductive Admission
  | replay (response : Response)
  | active (receipt : Receipt)

/-- The receipt of an admission, signed. -/
def activeReceipt (j : FileJournal) (sequence : UInt64) (request : Request) (peer : PeerIdentity)
    (now : Int64) : Receipt :=
  let receipt : Receipt :=
    { sequence, requestID := request.requestID, operationID := request.operationID,
      idempotencyKey := request.idempotencyKey, verb := request.verb,
      fenceResource := request.fence.resource, fenceSequence := request.fence.sequence,
      fenceTokenDigest := digest (encodeUtf8 request.fence.token.toList),
      payloadDigest := request.payloadDigest, peerRevision := peer.revision,
      brokerBootID := j.bootID, previousDigest := j.indexes.previous, outcome := "active",
      startedAt := now }
  { receipt with receiptDigest := receiptDigest receipt }

def activeRow (request : Request) (requestDigest : String) (receipt : Receipt) : JournalRow :=
  { schema := 1, phase := "active", idempotencyKey := request.idempotencyKey, requestDigest,
    fenceResource := request.fence.resource, fenceSequence := request.fence.sequence,
    startedAt := receipt.startedAt, receipt := some receipt }

def World.beginCall (f : CallFaults) (w : World) (request : Request) (peer : PeerIdentity)
    (requestDigest : String) (now : Int64) : World × Reply Admission :=
  let i := w.journal.indexes
  match i.replays[request.idempotencyKey]? with
  | some replay =>
    if replay.requestDigest ≠ requestDigest then
      (w, .refused (.failure codeIdempotency
        "broker idempotency key conflicts with a prior request"))
    else (w, .ok (.replay { replay.response with replay := true }))
  | none =>
    if i.unresolved.contains request.idempotencyKey then
      (w, .refused (.failure codeRecoveryRequired "broker operation requires explicit recovery"))
    else if !i.unresolved.isEmpty then
      (w, .refused (.failure codeRecoveryRequired "broker has unresolved mutation authority"))
    else if request.fence.sequence ≤ i.fences.getD request.fence.resource 0 then
      (w, .refused (.failure codeFence "broker fencing sequence is stale"))
    else
      let sequence := i.sequence + 1
      let receipt := activeReceipt w.journal sequence request peer now
      let w := { w with journal := { w.journal with indexes := { i with sequence } } }
      finishCall f (.active receipt)
        (append f w (activeRow request requestDigest receipt) maxJournalRowLineSize 1)

structure CompletionPolicy where
  retainUntilRelease : Bool := false
  releasesVerb : Verb := ""

/-- The receipt of a completion, signed again. -/
def completeReceipt (j : FileJournal) (receipt : Receipt) (response : Response) (now : Int64) :
    Receipt :=
  let encoded := marshal { response with payload := none }.toValue
  let receipt :=
    { receipt with
      outcome := if response.ok then "succeeded" else "failed"
      completedAt := now
      responseDigest := digest (encoded ++ payloadBytes response.payload)
      previousDigest := j.indexes.previous }
  { receipt with receiptDigest := receiptDigest receipt }

def completeRow (request : Request) (receipt : Receipt) (response : Response)
    (policy : CompletionPolicy) : JournalRow :=
  { schema := 1, phase := "complete", idempotencyKey := request.idempotencyKey,
    requestDigest := requestDigest request, fenceResource := request.fence.resource,
    fenceSequence := request.fence.sequence, startedAt := receipt.startedAt,
    response := some { response with payload := none, receipt := some receipt },
    receipt := some receipt, payload := response.payload,
    retainUntilRelease := some (policy.retainUntilRelease && response.ok),
    releases :=
      if response.ok ∧ policy.releasesVerb ≠ "" then
        some ⟨request.operationID, policy.releasesVerb, request.fence.resource⟩
      else none }

def World.commitCall (f : CallFaults) (w : World) (request : Request) (receipt : Option Receipt)
    (response : Response) (policy : CompletionPolicy) (now : Int64) : World × Reply Response :=
  match receipt with
  | none => (w, .refused (.internal "broker active receipt is required"))
  | some receipt =>
    if policy.releasesVerb ≠ "" ∧ validVerb policy.releasesVerb = false then
      (w, .refused (.internal "broker completion release verb is invalid"))
    else
      let receipt := completeReceipt w.journal receipt response now
      finishCall f { response with receipt := some receipt }
        (append f w (completeRow request receipt response policy) 0 0)

/-! ## Opening -/

/-- A journal that is too large is compacted when it is opened. -/
def compactLoaded (f : CompactFaults) (w : World) : World × Except (List BrokerError) Unit :=
  if w.journal.rows.length > maxJournalRows ∨ w.journal.fileBytes > maxJournalBytes then
    compact f w w.journal.rows none 0 0
  else (w, .ok ())

def openFileJournal (f : LoadFaults) (bootID : String) (disk : Disk) :
    World × Except (List BrokerError) Unit :=
  let w : World := ⟨{ bootID }, disk⟩
  if f.lstat then (w, .error [.file "stat broker journal"])
  else
    match disk.main, disk.temporary with
    | some _, temporary =>
      match readJournalFile f.read disk.main true with
      | .error e => (w, .error [e])
      | .ok loaded =>
        if temporary.isSome && f.removeStale then
          (w, .error [.file "remove stale broker compaction"])
        else
          let disk : Disk := { disk with temporary := none }
          if temporary.isSome && f.syncStale then
            ({ w with disk }, .error [.file "sync stale broker compaction removal"])
          else
            match loaded.tailOffset with
            | none =>
              compactLoaded f.compact
                ⟨w.journal.installRows loaded.rows loaded.indexes loaded.fileBytes, disk⟩
            | some offset =>
              match recoverInterruptedTail f.tail disk offset with
              | (disk, .error e) => ({ w with disk }, .error [e])
              | (disk, .ok ()) =>
                compactLoaded f.compact
                  ⟨w.journal.installRows loaded.rows loaded.indexes offset, disk⟩
    | none, some staged =>
      match readJournalFile f.read (some staged) false with
      | .error e => (w, .error [e])
      | .ok loaded =>
        if f.rename then (w, .error [.file "publish recovered broker compaction"])
        else
          let disk : Disk := ⟨some staged, none⟩
          if f.syncDirectory then
            ({ w with disk }, .error [.file "sync recovered broker compaction"])
          else
            compactLoaded f.compact
              ⟨w.journal.installRows loaded.rows loaded.indexes loaded.fileBytes, disk⟩
    | none, none => (w, .ok ())

end Solovey.Broker
