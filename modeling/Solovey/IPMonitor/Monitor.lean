import Solovey.Data.Maps
import Solovey.Hash.Sha256

/-!
# Source addresses of clients: policy cache, observations and history

A client may be limited to a number of source addresses. The monitor decides about a source from
three places: the history that its policy cache loaded, the observations not flushed yet (`pending`)
and those that a running flush owns (`flushing`). The definitions here are the sections that run
under the locks, and the queries and the write of the database.
-/

namespace Solovey.IPMonitor

open Std Solovey.Text Solovey.Hash List

/-- Every text but `enforce` is treated as `monitor`. -/
inductive Mode
  | monitor
  | enforce
  deriving DecidableEq

/-- A client name and the hash of a source address. -/
abbrev Source := String × String

structure PendingIP where
  lastSeen : Int
  display : Option String
  deriving DecidableEq

/-- `map[string]map[string]pendingIP`, keyed by client and hash. -/
abbrev Snapshot := ExtTreeMap Source PendingIP

structure AllowCacheEntry where
  limit : Int := 0
  mode : Mode := .monitor
  ips : Finset String := ∅
  expiresAt : Int

/-- In nanoseconds, as instants are. -/
def allowCacheTTL : Int := 30 * 1000000000

/-! ## The database -/

structure Client where
  enable : Bool
  limitIP : Int
  ipLimitMode : Mode
  lastOnline : Int := 0
  lastIPCount : ℕ := 0

/-- How a row of `client_ips` names its source: by `ip_hash`, or, in a row that an older version
wrote and that has no hash, by the plain `ip`. -/
inductive Stored
  | hash (ipHash : String)
  | legacy (ip : String)
  deriving DecidableEq

structure ClientIP where
  clientName : String
  source : Stored
  ipDisplay : Option String
  firstSeen : Int
  lastSeen : Int

structure Database where
  installSalt : Bytes
  clients : ExtTreeMap String Client := ∅
  clientIPs : List ClientIP := []

def hashIP (salt : Bytes) (ip : String) : String :=
  String.ofList (hexDigest (salt ++ encodeUtf8 ip.toList))

def isHexDigit (c : Char) : Bool :=
  c.isDigit || ('a' ≤ c && c ≤ 'f') || ('A' ≤ c && c ≤ 'F')

def looksLikeSHA256Hex (value : String) : Bool :=
  utf8Len value.toList == 64 && value.toList.all isHexDigit

def hashLegacyIPValue (salt : Bytes) (ip : String) : String :=
  if looksLikeSHA256Hex ip then ip else hashIP salt ip

def Stored.ipHash (salt : Bytes) : Stored → String
  | .hash h => h
  | .legacy ip => hashLegacyIPValue salt ip

/-- The hashes that rows stand for in the history of a client. -/
def rowHistory (salt : Bytes) (rows : List ClientIP) (client : String) : Finset String :=
  ((rows.filter (·.clientName = client)).map (·.source.ipHash salt)).toFinset

def Database.history (db : Database) (client : String) : Finset String :=
  rowHistory db.installSalt db.clientIPs client

/-- The first query of `loadCacheEntry`: a finished entry, or one that needs the history. -/
inductive ClientRead
  | missing
  | done (entry : AllowCacheEntry)
  | enforced (limit : Int)

def Database.readClient (db : Database) (client : String) (now : Int) : ClientRead :=
  match db.clients[client]? with
  | none => .missing
  | some row =>
    if !row.enable then .done { expiresAt := now + allowCacheTTL }
    else if row.ipLimitMode ≠ .enforce ∨ row.limitIP ≤ 0 then
      .done { limit := row.limitIP, mode := row.ipLimitMode, expiresAt := now + allowCacheTTL }
    else .enforced row.limitIP

/-- The second query of `loadCacheEntry`. -/
def Database.readHistory (db : Database) (client : String) (limit now : Int) : AllowCacheEntry :=
  { limit, mode := .enforce, ips := db.history client, expiresAt := now + allowCacheTTL }

/-- One query of `WarmUp` for all clients that are enabled and limited. -/
def Database.loadActiveEnforceEntries (db : Database) (now : Int) :
    ExtTreeMap String AllowCacheEntry :=
  db.clients.filterMap fun client row =>
    if row.enable ∧ row.ipLimitMode = .enforce ∧ 0 < row.limitIP then
      some { limit := row.limitIP, mode := row.ipLimitMode, ips := db.history client,
             expiresAt := now + allowCacheTTL }
    else none

def ClientIP.named (row : ClientIP) (source : Source) : Bool :=
  row.clientName == source.1 && row.source == .hash source.2

/-- The row that a flush inserts for an observation. -/
def ClientIP.created (source : Source) (observation : PendingIP) : ClientIP where
  clientName := source.1
  source := .hash source.2
  ipDisplay := observation.display
  firstSeen := observation.lastSeen
  lastSeen := observation.lastSeen

/-- The columns that a flush updates in a row that exists. -/
def ClientIP.updated (row : ClientIP) (observation : PendingIP) : ClientIP :=
  { row with lastSeen := observation.lastSeen, ipDisplay := observation.display }

/-- `INSERT … ON CONFLICT (client_name, ip_hash) DO UPDATE SET last_seen, ip_display`. -/
def upsert (rows : List ClientIP) (entry : Source × PendingIP) : List ClientIP :=
  if rows.any (·.named entry.1) then
    rows.map fun row => if row.named entry.1 then row.updated entry.2 else row
  else rows ++ [.created entry.1 entry.2]

def lastSeenByClient (snapshot : Snapshot) : ExtTreeMap String Int :=
  snapshot.toList.foldl (fun seen entry =>
    if entry.2.lastSeen > seen.getD entry.1.1 0 then seen.insert entry.1.1 entry.2.lastSeen
    else seen) ∅

/-- `flushSnapshot`: the writes of one flush, which take effect together. -/
def Database.flushSnapshot (db : Database) (snapshot : Snapshot) : Database :=
  let rows := snapshot.toList.foldl upsert db.clientIPs
  { db with
    clientIPs := rows
    clients := db.clients.map fun name row =>
      match (lastSeenByClient snapshot)[name]? with
      | none => row
      | some lastSeen =>
        { row with lastOnline := lastSeen, lastIPCount := rows.countP (·.clientName = name) } }

/-! ## The state in memory -/

structure Monitor where
  /-- `allowCache.byClient` -/
  cache : ExtTreeMap String AllowCacheEntry := ∅
  /-- `allowCache.revision` -/
  revision : ℕ := 0
  /-- `pending.byClient` -/
  pending : Snapshot := ∅
  /-- `pending.flushing`: the batches that are open, with their snapshots. -/
  flushing : ExtTreeMap ℕ Snapshot := ∅

/-- The hashes of one client in a snapshot. -/
def sources (snapshot : Snapshot) (client : String) : Finset String :=
  ((snapshot.keys.filter (·.1 = client)).map (·.2)).toFinset

def cacheAddIPLocked (cache : ExtTreeMap String AllowCacheEntry) (source : Source) :
    ExtTreeMap String AllowCacheEntry :=
  match cache[source.1]? with
  | none => cache
  | some entry => cache.insert source.1 { entry with ips := insert source.2 entry.ips }

namespace Monitor

def recordLocked (m : Monitor) (source : Source) (display : Option String) (now : Int) : Monitor :=
  { m with
    pending := m.pending.insert source { lastSeen := now, display }
    cache := cacheAddIPLocked m.cache source }

/-- The hashes that are in use for a client at the decision. -/
def seen (m : Monitor) (entry : AllowCacheEntry) (client : String) : Finset String :=
  entry.ips ∪ sources m.pending client ∪
    (m.flushing.toList.map fun batch => sources batch.2 client).foldr (· ∪ ·) ∅

/-- The decision about a source, and the record of an accepted one, in one section. -/
def admitPrepared (m : Monitor) (source : Source) (display : Option String) (observe : Bool)
    (revision : ℕ) (now seenAt : Int) : Monitor × Bool :=
  match m.cache[source.1]? with
  | none => (m, false)
  | some entry =>
    if revision ≠ m.revision ∨ ¬ now < entry.expiresAt then (m, false)
    else
      let seen := m.seen entry source.1
      let allowed := entry.mode ≠ .enforce ∨ entry.limit ≤ 0 ∨ source.2 ∈ seen ∨
        ((insert source.2 seen).card : Int) ≤ entry.limit
      (if allowed ∧ observe then m.recordLocked source display seenAt else m, allowed)

/-- `Record`: an observation without a decision. -/
def record (m : Monitor) (source : Source) (display : Option String) (revision : ℕ)
    (seenAt : Int) : Monitor :=
  if revision ≠ m.revision then m else m.recordLocked source display seenAt

/-- The start of a policy load in `ensureClientPolicy`: the old entry is dropped. There is no load
after an invalidation or when the entry is fresh. -/
def startLoad (m : Monitor) (client : String) (revision : ℕ) (now : Int) : Option Monitor :=
  if revision ≠ m.revision then none
  else if (m.cache[client]?).any (now < ·.expiresAt) then none
  else some { m with cache := m.cache.erase client }

/-- The end of a policy load in `ensureClientPolicy`. -/
def install (m : Monitor) (client : String) (revision : ℕ) (loaded : Option AllowCacheEntry)
    (now : Int) : Monitor :=
  match loaded with
  | none => m
  | some entry =>
    if revision ≠ m.revision then m
    else { m with
      cache := m.cache.insert client { entry with expiresAt := now + allowCacheTTL } }

/-- The end of `WarmUp`. -/
def installAll (m : Monitor) (revision : ℕ) (entries : ExtTreeMap String AllowCacheEntry) :
    Monitor :=
  if revision ≠ m.revision then m
  else { m with revision := m.revision + 1, cache := entries }

def invalidateCache (m : Monitor) (client : String) : Monitor :=
  { m with revision := m.revision + 1, cache := m.cache.erase client }

def invalidateAllCache (m : Monitor) : Monitor :=
  { m with revision := m.revision + 1, cache := ∅ }

/-- `BeginFlush`: the pending observations become one batch. -/
def beginFlush (m : Monitor) (batch : ℕ) : Monitor :=
  { m with
    pending := ∅
    flushing := if m.pending.isEmpty then m.flushing else m.flushing.insert batch m.pending }

/-- One turn of the loop of `requeuePendingSnapshotLocked`. -/
def requeueEntry (pending : Snapshot) (entry : Source × PendingIP) : Snapshot :=
  match pending[entry.1]? with
  | none => pending.insert entry.1 entry.2
  | some current =>
    if entry.2.lastSeen > current.lastSeen then pending.insert entry.1 entry.2 else pending

/-- `FlushBatch.Requeue` -/
def requeue (m : Monitor) (batch : ℕ) : Monitor :=
  match m.flushing[batch]? with
  | none => m
  | some snapshot =>
    { m with
      pending := snapshot.toList.foldl requeueEntry m.pending
      flushing := m.flushing.erase batch }

/-- `FlushBatch.Commit` -/
def commit (m : Monitor) (batch : ℕ) : Monitor :=
  match m.flushing[batch]? with
  | none => m
  | some snapshot =>
    { m with
      revision := m.revision + 1
      cache := snapshot.toList.foldl (fun cache entry => cacheAddIPLocked cache entry.1) m.cache
      flushing := m.flushing.erase batch }

end Monitor

/-! ## What a decision looks at -/

variable {c hash : String}

theorem mem_sources {snapshot : Snapshot} : hash ∈ sources snapshot c ↔ (c, hash) ∈ snapshot := by
  simp [sources]

/-- A source is in an open batch. -/
def Monitor.Flushing (m : Monitor) (source : Source) : Prop :=
  ∃ (batch : ℕ) (snapshot : Snapshot), m.flushing[batch]? = some snapshot ∧ source ∈ snapshot

theorem Monitor.mem_seen {m : Monitor} {e : AllowCacheEntry} : hash ∈ m.seen e c ↔
      hash ∈ e.ips ∨ (c, hash) ∈ m.pending ∨ m.Flushing (c, hash) := by
  have hf : ∀ bs : List (ℕ × Snapshot),
      hash ∈ (bs.map fun batch => sources batch.2 c).foldr (· ∪ ·) ∅ ↔
        ∃ batch ∈ bs, (c, hash) ∈ batch.2 := by
    intro bs
    induction bs with
    | nil => simp
    | cons batch rest ih => simp [ih, mem_sources]
  rw [Monitor.seen, Finset.mem_union, Finset.mem_union, mem_sources, hf, or_assoc]
  refine or_congr_right (or_congr_right ?_)
  constructor
  · rintro ⟨⟨batch, snapshot⟩, hb, hs⟩
    exact ⟨batch, snapshot, ExtTreeMap.mem_toList_iff_getElem?_eq_some.mp hb, hs⟩
  · rintro ⟨batch, snapshot, hb, hs⟩
    exact ⟨(batch, snapshot), ExtTreeMap.mem_toList_iff_getElem?_eq_some.mpr hb, hs⟩

theorem getElem?_cacheAddIPLocked (cache : ExtTreeMap String AllowCacheEntry) (source : Source)
    (c : String) :
    (cacheAddIPLocked cache source)[c]? = (cache[c]?).map fun e =>
        if source.1 = c then { e with ips := insert source.2 e.ips } else e := by
  unfold cacheAddIPLocked
  by_cases hcl : source.1 = c
  · subst hcl
    cases h : cache[source.1]? <;> simp [h]
  · cases h : cache[source.1]? <;> simp [ExtTreeMap.getElem?_insert, hcl]

/-- The loop of `Commit` adds the hashes of the batch to the entries that exist. -/
theorem getElem?_commit_cache (cache : ExtTreeMap String AllowCacheEntry) (snapshot : Snapshot)
    (c : String) :
    (snapshot.toList.foldl (fun cache e => cacheAddIPLocked cache e.1) cache)[c]? =
      (cache[c]?).map fun e : AllowCacheEntry => { e with ips := e.ips ∪ sources snapshot c } := by
  have hl : ∀ (entries : List (Source × PendingIP)) (cache : ExtTreeMap String AllowCacheEntry),
      (entries.foldl (fun cache e => cacheAddIPLocked cache e.1) cache)[c]? =
        (cache[c]?).map fun e : AllowCacheEntry => { e with
          ips := e.ips ∪ ((entries.filter (·.1.1 = c)).map (·.1.2)).toFinset } := by
    intro entries
    induction entries with
    | nil => simp
    | cons head rest ih =>
      intro cache
      rw [foldl_cons, ih, getElem?_cacheAddIPLocked, Option.map_map]
      congr 1
      funext e
      by_cases hcl : head.1.1 = c <;> simp [hcl, Finset.insert_union]
  rw [hl]
  congr 1
  funext e
  congr 2
  ext hash
  rw [mem_sources, Data.mem_iff_exists_mem_toList]
  simp

/-- After a requeue an observation is the newer one of the two that there were. -/
theorem getElem?_requeue_pending (pending snapshot : Snapshot) (source : Source) :
    (snapshot.toList.foldl Monitor.requeueEntry pending)[source]? =
      (snapshot[source]?).elim pending[source]? fun o =>
        some ((pending[source]?).elim o fun current =>
          if o.lastSeen > current.lastSeen then o else current) := by
  refine Data.look_foldl (fun (p : Snapshot) k => p[k]?)
    (fun _ ol o => some (ol.elim o fun current =>
      if o.lastSeen > current.lastSeen then o else current)) ?_ ?_ snapshot
      pending source
  · intro pending source o
    unfold Monitor.requeueEntry
    dsimp only
    cases h : pending[source]? with
    | none => simp
    | some current =>
      dsimp only [Option.elim]
      split
      · simp
      · exact h
  · intro pending source o source' hne
    unfold Monitor.requeueEntry
    dsimp only
    cases pending[source]? with
    | none => simp [ExtTreeMap.getElem?_insert, hne]
    | some current =>
      dsimp only
      split
      · simp [ExtTreeMap.getElem?_insert, hne]
      · rfl

namespace Monitor

variable {m : Monitor} {source : Source}

theorem mem_pending_recordLocked {source' : Source} {d : Option String} {n : Int} :
    source' ∈ (m.recordLocked source d n).pending ↔ source = source' ∨ source' ∈ m.pending := by
  simp [recordLocked, ExtTreeMap.mem_insert]

/-- What a decision did: a source is accepted only by a usable entry, and only an accepted source
that is observed changes the state. -/
theorem admitPrepared_cases {m' : Monitor} {d : Option String} {o a : Bool} {r : ℕ} {n seenAt : Int}
    (h : m.admitPrepared source d o r n seenAt = (m', a)) :
    (a && o) = false ∧ m' = m ∨ a = true ∧ o = true ∧ m' = m.recordLocked source d seenAt ∧
        ∃ e ∈ m.cache[source.1]?, e.mode ≠ .enforce ∨ e.limit ≤ 0 ∨ source.2 ∈ m.seen e source.1 ∨
          ((insert source.2 (m.seen e source.1)).card : Int) ≤ e.limit := by
  unfold admitPrepared at h
  cases he : m.cache[source.1]? with
  | none =>
    rw [he] at h
    cases h
    exact .inl ⟨rfl, rfl⟩
  | some e =>
    rw [he] at h
    dsimp only at h
    split at h
    · cases h
      exact .inl ⟨rfl, rfl⟩
    · split at h
      · next ha =>
        cases h
        refine .inr ⟨decide_eq_true ha.1, ha.2, rfl, e, rfl, ha.1⟩
      · next ha =>
        cases h
        refine .inl ⟨?_, rfl⟩
        simpa using ha

/-- No batch is lost or replaced when a flush begins. -/
theorem flushing_beginFlush {b : ℕ} (hf : m.flushing[b]? = none) :
    (m.beginFlush b).Flushing source ↔ source ∈ m.pending ∨ m.Flushing source := by
  unfold Flushing beginFlush
  dsimp only
  split
  · next he =>
    rw [ExtTreeMap.isEmpty_iff.mp he]
    simp
  · constructor
    · rintro ⟨b', snapshot, hs, hsr⟩
      rw [ExtTreeMap.getElem?_insert] at hs
      split at hs
      · cases hs
        exact .inl hsr
      · exact .inr ⟨b', snapshot, hs, hsr⟩
    · rintro (hsr | ⟨b', snapshot, hs, hsr⟩)
      · exact ⟨b, m.pending, by simp, hsr⟩
      · refine ⟨b', snapshot, ?_, hsr⟩
        rw [ExtTreeMap.getElem?_insert, if_neg]
        · exact hs
        · intro heq
          rw [LawfulEqOrd.compare_eq_iff_eq.mp heq, hs] at hf
          cases hf

variable {snapshot : Snapshot}

/-- Closing a batch removes its own snapshot from the open ones. -/
theorem exists_flushing_erase {b : ℕ} (hb : m.flushing[b]? = some snapshot) :
    m.Flushing source ↔ source ∈ snapshot ∨ ∃ (b' : ℕ) (snapshot' : Snapshot),
        (m.flushing.erase b)[b']? = some snapshot' ∧ source ∈ snapshot' := by
  constructor
  · rintro ⟨b', snapshot', hs', hs⟩
    by_cases heq : b = b'
    · subst heq
      rw [hb] at hs'
      cases hs'
      exact .inl hs
    · exact .inr ⟨b', snapshot', by simp [ExtTreeMap.getElem?_erase, heq, hs'], hs⟩
  · rintro (hs | ⟨b', snapshot', hs', hs⟩)
    · exact ⟨b, snapshot, hb, hs⟩
    · rw [ExtTreeMap.getElem?_erase] at hs'
      split at hs'
      · cases hs'
      · exact ⟨b', snapshot', hs', hs⟩

theorem mem_requeue_pending {p : Snapshot} :
    source ∈ snapshot.toList.foldl requeueEntry p ↔ source ∈ snapshot ∨ source ∈ p := by
  rw [Data.mem_iff_exists_getElem?, getElem?_requeue_pending]
  cases hs : snapshot[source]? with
  | none =>
    rw [Data.mem_iff_exists_getElem?, hs, Data.mem_iff_exists_getElem?]
    simp
  | some o =>
    rw [Data.mem_iff_exists_getElem?, hs]
    simp

/-- A requeue never goes back in time. -/
theorem requeue_newer {pending : Snapshot} {p : PendingIP}
    (h : pending[source]? = some p ∨ snapshot[source]? = some p) :
    ∃ q ∈ (snapshot.toList.foldl requeueEntry pending)[source]?, p.lastSeen ≤ q.lastSeen := by
  rw [getElem?_requeue_pending]
  cases hs : snapshot[source]? with
  | none =>
    rw [hs] at h
    exact ⟨p, h.resolve_right (by simp), le_rfl⟩
  | some o =>
    refine ⟨_, rfl, ?_⟩
    cases hp : pending[source]? with
    | none =>
      rw [hp, hs] at h
      cases h.resolve_left (by simp)
      exact le_rfl
    | some current =>
      rw [hp, hs] at h
      dsimp only [Option.elim]
      split <;> rcases h with h | h <;> cases h <;> omega

end Monitor

/-! ## What a flush writes -/

variable {source : Source}

theorem ClientIP.named_iff {r : ClientIP} :
    r.named source = true ↔ r.clientName = source.1 ∧ r.source = .hash source.2 := by
  simp [named]

/-- The last-seen time of the row that carries a source's hash. -/
def rowLastSeen (rows : List ClientIP) (source : Source) : Option Int :=
  (rows.find? (·.named source)).map (·.lastSeen)

def Database.lastSeen (db : Database) (source : Source) : Option Int :=
  rowLastSeen db.clientIPs source

theorem ClientIP.named_injective {r : ClientIP} {source' : Source} (h : r.named source = true)
    (h' : r.named source' = true) : source = source' := by
  obtain ⟨hcl, hh⟩ := named_iff.mp h
  obtain ⟨hc', hh'⟩ := named_iff.mp h'
  refine Prod.ext (hcl.symm.trans hc') ?_
  exact Stored.hash.inj (hh.symm.trans hh')

theorem ClientIP.named_created (source source' : Source) (o : PendingIP) :
    (created source o).named source' = decide (source = source') := by
  rw [Bool.eq_iff_iff, named_iff, decide_eq_true_iff, Prod.ext_iff]
  simp [created]

/-- An update leaves the name of a row. -/
theorem ClientIP.named_update (r : ClientIP) (source source' : Source) (o : PendingIP) :
    (if r.named source then r.updated o else r).named source' = r.named source' := by
  split <;> rfl

theorem rowLastSeen_upsert (rs : List ClientIP) (source source' : Source) (o : PendingIP) :
    rowLastSeen (upsert rs (source, o)) source' =
      if source = source' then some o.lastSeen else rowLastSeen rs source' := by
  unfold upsert rowLastSeen
  dsimp only
  split
  · next ha =>
    simp only [find?_map, Option.map_map, Function.comp_def, ClientIP.named_update]
    cases hf : rs.find? (·.named source') with
    | none =>
      rw [if_neg]
      · rfl
      · rintro rfl
        obtain ⟨row, hr, hnm⟩ := any_eq_true.mp ha
        exact find?_eq_none.mp hf row hr hnm
    | some row =>
      have hnm := find?_some hf
      by_cases hs : source = source'
      · subst hs
        simp [hnm, ClientIP.updated]
      · have ho : ¬ row.named source = true := fun h => hs (ClientIP.named_injective h hnm)
        simp [hs, ho]
  · next ha =>
    rw [find?_append, find?_singleton, ClientIP.named_created]
    by_cases hs : source = source'
    · subst hs
      have hn : rs.find? (·.named source) = none := by simpa [find?_eq_none] using ha
      simp [hn, ClientIP.created]
    · simp [hs]

theorem Database.lastSeen_flushSnapshot (db : Database) (snapshot : Snapshot) (source : Source) :
    (db.flushSnapshot snapshot).lastSeen source =
      (snapshot[source]?).elim (db.lastSeen source) fun o => some o.lastSeen := by
  refine Data.look_foldl rowLastSeen (fun _ _ o => some o.lastSeen) ?_ ?_
    snapshot db.clientIPs source
  · intro rows source o
    rw [rowLastSeen_upsert, if_pos rfl]
  · intro rows source o source' hne
    rw [rowLastSeen_upsert, if_neg hne]

theorem mem_rowHistory {s : Bytes} {rs : List ClientIP} : hash ∈ rowHistory s rs c ↔
      ∃ row ∈ rs, row.clientName = c ∧ row.source.ipHash s = hash := by
  simp [rowHistory, and_assoc]

theorem mem_rowHistory_upsert {s : Bytes} {rs : List ClientIP} {o : PendingIP} :
    hash ∈ rowHistory s (upsert rs (source, o)) c ↔
      hash ∈ rowHistory s rs c ∨ source = (c, hash) := by
  simp only [mem_rowHistory]
  unfold upsert
  dsimp only
  split
  · next ha =>
    obtain ⟨found, hf, hn⟩ := any_eq_true.mp ha
    obtain ⟨hcl, hh⟩ := ClientIP.named_iff.mp hn
    simp only [mem_map]
    constructor
    · rintro ⟨_, ⟨row, hrw, rfl⟩, hr⟩
      refine .inl ⟨row, hrw, ?_⟩
      revert hr
      split <;> exact id
    · rintro (⟨row, hrw, hr⟩ | rfl)
      · refine ⟨_, ⟨row, hrw, rfl⟩, ?_⟩
        split <;> exact hr
      · refine ⟨_, ⟨found, hf, rfl⟩, ?_⟩
        rw [if_pos hn]
        exact ⟨hcl, by simp [ClientIP.updated, hh, Stored.ipHash]⟩
  · simp only [mem_append, mem_singleton]
    constructor
    · rintro ⟨row, hrw | rfl, hcl, hh⟩
      · exact .inl ⟨row, hrw, hcl, hh⟩
      · exact .inr (Prod.ext hcl hh)
    · rintro (⟨row, hrw, hr⟩ | rfl)
      · exact ⟨row, .inl hrw, hr⟩
      · exact ⟨_, .inr rfl, rfl, rfl⟩

theorem Database.mem_history_flushSnapshot {db : Database} {snapshot : Snapshot} :
    hash ∈ (db.flushSnapshot snapshot).history c ↔ hash ∈ db.history c ∨ (c, hash) ∈ snapshot := by
  have hl : ∀ (entries : List (Source × PendingIP)) (rows : List ClientIP),
      hash ∈ rowHistory db.installSalt (entries.foldl upsert rows) c ↔
        hash ∈ rowHistory db.installSalt rows c ∨ ∃ o, ((c, hash), o) ∈ entries := by
    intro entries
    induction entries with
    | nil => simp
    | cons head rest ih =>
      intro rows
      obtain ⟨source, o⟩ := head
      rw [foldl_cons, ih, mem_rowHistory_upsert, or_assoc]
      refine or_congr_right ?_
      simp only [mem_cons, Prod.mk.injEq, exists_or]
      refine or_congr_left ?_
      constructor
      · rintro rfl
        exact ⟨o, rfl, rfl⟩
      · rintro ⟨_, h, -⟩
        exact h.symm
  rw [Data.mem_iff_exists_mem_toList]
  exact hl snapshot.toList db.clientIPs

end Solovey.IPMonitor
