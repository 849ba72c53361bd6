import Solovey.IPMonitor.Run

/-!
# The limit on source addresses

For one client that stays enabled with a constant enforced limit: the sources ever accepted,
together with those in the history at the start, are never more than the limit or than the history
had.

Every known source is in the history, pending, or in an open batch; and every cache entry that can
still be used for a decision misses only sources that are pending or in an open batch. A load that
read the history before a flush committed misses the sources of that flush too, but the revision
that `Commit` bumps keeps it from being installed.
-/

namespace Solovey.IPMonitor

open Std List

section Limit

variable (db₀ : Database) (client : String) (limit : Int)

/-- The hashes of a client's observations. -/
def observed (observations : List Observation) : Finset String :=
  ((observations.filter (·.source.1 = client)).map (·.source.2)).toFinset

/-- The sources that were stored at the start or accepted since. -/
def known (s : State) : Finset String :=
  db₀.history client ∪ observed client s.observations

/-- The client is enabled, and its limit is enforced. -/
def Enforced (clients : ExtTreeMap String Client) : Prop :=
  ∃ row, clients[client]? = some row ∧ row.enable = true ∧ row.ipLimitMode = .enforce ∧
    row.limitIP = limit

/-- A source is pending or in an open batch. -/
def InMemory (m : Monitor) (hash : String) : Prop :=
  (client, hash) ∈ m.pending ∨ m.Flushing (client, hash)

/-- What the policy of the client is judged by. -/
structure View where
  known : Finset String
  inMemory : String → Prop
  revision : ℕ

def State.view (s : State) : View where
  known := known db₀ client s
  inMemory := InMemory client s.monitor
  revision := s.monitor.revision

/-- An entry knows every source that is not in memory. -/
structure View.EntryOk (v : View) (entry : AllowCacheEntry) : Prop where
  mode : entry.mode = .enforce
  limit : entry.limit = limit
  sound : ∀ hash ∈ entry.ips, hash ∈ v.known
  complete : ∀ hash ∈ v.known, hash ∈ entry.ips ∨ v.inMemory hash

/-- What a load may install if it is not outdated. -/
def View.Stage (v : View) : LoadStage → Prop
  | .started => True
  | .enforced limit' => limit' = limit
  | .loaded entry => ∀ e ∈ entry, v.EntryOk limit e

structure View.LoadOk (v : View) (load : Load) : Prop where
  revision_le : load.revision ≤ v.revision
  stage : load.client = client → load.revision = v.revision → v.Stage limit load.stage

structure View.WarmUpOk (v : View) (warmUp : WarmUp) : Prop where
  revision_le : warmUp.revision ≤ v.revision
  entries : warmUp.revision = v.revision → ∀ entries ∈ warmUp.entries,
    ∀ entry ∈ entries[client]?, v.EntryOk limit entry

/-- A later view: either the revision has moved on, or sources have only been added and every new
one is in memory. -/
def View.Later (v v' : View) : Prop :=
  v.revision < v'.revision ∨
    v.revision = v'.revision ∧ v.known ⊆ v'.known ∧ (∀ hash, v.inMemory hash → v'.inMemory hash) ∧
      ∀ hash ∈ v'.known, hash ∈ v.known ∨ v'.inMemory hash

variable {db₀ client limit}

variable {v v' : View} {entry : AllowCacheEntry}

theorem View.EntryOk.later (h : v.EntryOk limit entry) (hk : v.known ⊆ v'.known)
    (hm : ∀ hash, v.inMemory hash → v'.inMemory hash)
    (hn : ∀ hash ∈ v'.known, hash ∈ v.known ∨ v'.inMemory hash) : v'.EntryOk limit entry where
  mode := h.mode
  limit := h.limit
  sound := fun hash hh => hk (h.sound hash hh)
  complete := by
    intro hash hh
    rcases hn hash hh with ho | hmm
    · exact (h.complete hash ho).imp_right (hm hash)
    · exact .inr hmm

theorem View.LoadOk.later {l : Load} (h : v.LoadOk client limit l) (hl : v.Later v') :
    v'.LoadOk client limit l := by
  rcases hl with hlt | ⟨heq, hk, hm, hn⟩
  · refine ⟨h.revision_le.trans hlt.le, fun _ hr => ?_⟩
    exact absurd (hr ▸ h.revision_le) hlt.not_ge
  · refine ⟨heq ▸ h.revision_le, fun hcl hr => ?_⟩
    have hs := h.stage hcl (hr.trans heq.symm)
    cases hld : l.stage with
    | started => trivial
    | enforced limit' => simpa [View.Stage, hld] using hs
    | loaded entry =>
      rw [hld] at hs
      exact fun e he => (hs e he).later hk hm hn

theorem View.WarmUpOk.later {warmUp : WarmUp} (h : v.WarmUpOk client limit warmUp)
    (hl : v.Later v') :
    v'.WarmUpOk client limit warmUp := by
  rcases hl with hlt | ⟨heq, hk, hm, hn⟩
  · refine ⟨h.revision_le.trans hlt.le, fun hr => ?_⟩
    exact absurd (hr ▸ h.revision_le) hlt.not_ge
  · refine ⟨heq ▸ h.revision_le, fun hr entries hen entry he => ?_⟩
    have ho := h.entries (hr.trans heq.symm) entries hen entry he
    exact ho.later hk hm hn

/-! ## The invariant -/

variable (db₀ client limit)

structure Inv (s : State) : Prop where
  policy : Enforced client limit s.db.clients
  held : ∀ hash, hash ∈ known db₀ client s ↔
    hash ∈ s.db.history client ∨ InMemory client s.monitor hash
  cached : ∀ entry ∈ s.monitor.cache[client]?, (s.view db₀ client).EntryOk limit entry
  loads : ∀ (id : ℕ), ∀ load ∈ s.loads[id]?, (s.view db₀ client).LoadOk client limit load
  warmUps : ∀ (id : ℕ), ∀ warmUp ∈ s.warmUps[id]?, (s.view db₀ client).WarmUpOk client limit warmUp
  /-- The batch of a flush whose transaction committed is in the history. -/
  written : ∀ (id : ℕ), s.flushes[id]? = some ⟨true⟩ → ∀ snapshot ∈ s.monitor.flushing[id]?,
    ∀ hash, (client, hash) ∈ snapshot → hash ∈ s.db.history client
  /-- Every open batch belongs to a running flush. -/
  owned : ∀ (id : ℕ), s.flushes[id]? = none → s.monitor.flushing[id]? = none
  bound : (known db₀ client s).card ≤ max limit.toNat (db₀.history client).card

variable {db₀ client limit}

theorem Inv.start (h : Enforced client limit db₀.clients) : Inv db₀ client limit { db := db₀ } where
  policy := h
  held := by simp [known, observed, InMemory, Monitor.Flushing]
  cached := by simp
  loads := by simp
  warmUps := by simp
  written := by simp
  owned := by simp
  bound := by simp [known, observed]

variable {s : State}

/-- A step that touches neither the database nor the observations. -/
theorem Inv.quiet {s' : State} (h : Inv db₀ client limit s) (hdb : s'.db = s.db)
    (hp : s'.monitor.pending = s.monitor.pending) (hfl : s'.monitor.flushing = s.monitor.flushing)
    (hf : s'.flushes = s.flushes) (ho : s'.observations = s.observations)
    (hr : s.monitor.revision ≤ s'.monitor.revision)
    (hc : ∀ entry ∈ s'.monitor.cache[client]?, (s'.view db₀ client).EntryOk limit entry)
    (hl : ∀ (id : ℕ), ∀ load ∈ s'.loads[id]?,
      load ∈ s.loads[id]? ∨ (s'.view db₀ client).LoadOk client limit load)
    (hwr : ∀ (id : ℕ), ∀ warmUp ∈ s'.warmUps[id]?,
      warmUp ∈ s.warmUps[id]? ∨ (s'.view db₀ client).WarmUpOk client limit warmUp) :
    Inv db₀ client limit s' := by
  have hk : known db₀ client s' = known db₀ client s := by rw [known, ho, known]
  have hm : ∀ hash, InMemory client s'.monitor hash ↔ InMemory client s.monitor hash := by
    intro hash
    rw [InMemory, hp, Monitor.Flushing, hfl, InMemory, Monitor.Flushing]
  have hlr : (s.view db₀ client).Later (s'.view db₀ client) := by
    rcases hr.lt_or_eq with hlt | heq
    · exact .inl hlt
    · refine .inr ⟨heq, ?_, fun hash => (hm hash).mpr, fun hash hh => .inl ?_⟩
      · exact hk.ge
      · exact hk.le hh
  constructor
  · rw [hdb]
    exact h.policy
  · intro hash
    rw [hk, hm, hdb]
    exact h.held hash
  · exact hc
  · intro id load hld
    rcases hl id load hld with hol | hn
    · exact (h.loads id load hol).later hlr
    · exact hn
  · intro id warmUp hw
    rcases hwr id warmUp hw with hol | hn
    · exact (h.warmUps id warmUp hol).later hlr
    · exact hn
  · rw [hf, hfl, hdb]
    exact h.written
  · rw [hf, hfl]
    exact h.owned
  · rw [hk]
    exact h.bound

variable {hash : String}

theorem mem_observed {os : List Observation} : hash ∈ observed client os ↔
      ∃ o ∈ os, o.source = (client, hash) := by
  simp only [observed, mem_toFinset, mem_map, mem_filter, decide_eq_true_eq,
    Prod.ext_iff, and_assoc]

theorem observed_moved (os : List Observation) (p p' : Place) :
    observed client (moved os p p') = observed client os := by
  ext hash
  simp only [mem_observed, moved, mem_map]
  constructor
  · rintro ⟨_, ⟨o, ho, rfl⟩, hs⟩
    refine ⟨o, ho, ?_⟩
    revert hs
    split <;> exact id
  · rintro ⟨o, ho, hs⟩
    refine ⟨_, ⟨o, ho, rfl⟩, ?_⟩
    split <;> exact hs

variable {m : Monitor}

theorem mem_known_append {o : Observation} : hash ∈ known db₀ client
        { s with monitor := m, observations := s.observations ++ [o] } ↔
      hash ∈ known db₀ client s ∨ o.source = (client, hash) := by
  simp only [known, Finset.mem_union, mem_observed, mem_append, mem_singleton, or_assoc]
  refine or_congr_right ?_
  constructor
  · rintro ⟨x, hx | rfl, hs⟩
    · exact .inl ⟨x, hx, hs⟩
    · exact .inr hs
  · rintro (⟨x, hx, hs⟩ | hs)
    · exact ⟨x, .inl hx, hs⟩
    · exact ⟨o, .inr rfl, hs⟩

theorem inMemory_recordLocked {source : Source} {d : Option String} {seenAt : Int} :
    InMemory client (m.recordLocked source d seenAt) hash ↔
      InMemory client m hash ∨ source = (client, hash) := by
  have hf : (m.recordLocked source d seenAt).Flushing (client, hash) ↔
      m.Flushing (client, hash) := Iff.rfl
  unfold InMemory
  rw [Monitor.mem_pending_recordLocked, hf]
  tauto

/-- A source is recorded; the client's own sources stay within the bound. -/
theorem Inv.recorded (h : Inv db₀ client limit s) (source : Source) (d : Option String)
    (seenAt : Int)
    (hb : source.1 = client →
      (insert source.2 (known db₀ client s)).card ≤ max limit.toNat (db₀.history client).card) :
    Inv db₀ client limit { s with
      monitor := s.monitor.recordLocked source d seenAt
      observations := s.observations ++ [⟨source, seenAt, .pending⟩] } := by
  have hl : (s.view db₀ client).Later (State.view db₀ client { s with
      monitor := s.monitor.recordLocked source d seenAt
      observations := s.observations ++ [⟨source, seenAt, .pending⟩] }) := by
    refine .inr ⟨rfl, fun hash hh => ?_, fun hash hh => ?_, fun hash hh => ?_⟩
    · exact mem_known_append.mpr (.inl hh)
    · exact inMemory_recordLocked.mpr (.inl hh)
    · exact (mem_known_append.mp hh).imp_right fun hs => inMemory_recordLocked.mpr (.inr hs)
  constructor
  · exact h.policy
  · intro hash
    rw [mem_known_append, inMemory_recordLocked, h.held, or_assoc]
  · intro entry he
    simp only [Monitor.recordLocked, getElem?_cacheAddIPLocked, Option.mem_def,
      Option.map_eq_some_iff] at he
    obtain ⟨o, ho, rfl⟩ := he
    have hok := h.cached o ho
    split
    · next hcl =>
      refine ⟨hok.mode, hok.limit, fun hash hh => ?_, fun hash hh => ?_⟩
      · rcases Finset.mem_insert.mp hh with rfl | hh
        · exact mem_known_append.mpr (.inr (Prod.ext hcl rfl))
        · exact mem_known_append.mpr (.inl (hok.sound hash hh))
      · rcases mem_known_append.mp hh with hh | hs
        · rcases hok.complete hash hh with hi | hm
          · exact .inl (Finset.mem_insert_of_mem hi)
          · exact .inr (inMemory_recordLocked.mpr (.inl hm))
        · exact .inr (inMemory_recordLocked.mpr (.inr hs))
    · obtain ⟨-, hk, hm, hn⟩ := hl.resolve_left (lt_irrefl _)
      exact hok.later hk hm hn
  · exact fun id load hld => (h.loads id load hld).later hl
  · exact fun id warmUp hw => (h.warmUps id warmUp hw).later hl
  · exact h.written
  · exact h.owned
  · by_cases hcl : source.1 = client
    · refine (Finset.card_le_card fun hash hh => ?_).trans (hb hcl)
      rcases mem_known_append.mp hh with hh | hs
      · exact Finset.mem_insert_of_mem hh
      · exact Finset.mem_insert.mpr (.inl (congrArg Prod.snd hs).symm)
    · refine (Finset.card_le_card fun hash hh => ?_).trans h.bound
      refine (mem_known_append.mp hh).resolve_right ?_
      rintro rfl
      exact hcl rfl

/-- An accepted source keeps the bound: the decision counts every known source. -/
theorem Inv.accept (h : Inv db₀ client limit s) (hl : 0 < limit) {source : Source}
    (hcl : source.1 = client) (he : entry ∈ s.monitor.cache[source.1]?)
    (ha : entry.mode ≠ .enforce ∨ entry.limit ≤ 0 ∨ source.2 ∈ s.monitor.seen entry source.1 ∨
      ((insert source.2 (s.monitor.seen entry source.1)).card : Int) ≤ entry.limit) :
    (insert source.2 (known db₀ client s)).card ≤ max limit.toNat (db₀.history client).card := by
  subst hcl
  have hok := h.cached entry he
  have hs : s.monitor.seen entry source.1 = known db₀ source.1 s := by
    ext hash
    rw [Monitor.mem_seen]
    constructor
    · rintro (hi | hmm)
      · exact hok.sound hash hi
      · exact (h.held hash).mpr (.inr hmm)
    · exact hok.complete hash
  rw [hs, hok.limit] at ha
  rcases ha with hm | hz | hk | hc
  · exact absurd hok.mode hm
  · omega
  · rw [Finset.insert_eq_of_mem hk]
    exact h.bound
  · exact le_max_of_le_left (by omega)

variable {db : Database}

theorem known_moved {fs : ExtTreeMap ℕ Flush} (p p' : Place) :
    known db₀ client { s with
      db := db
      monitor := m
      flushes := fs
      observations := moved s.observations p p' } = known db₀ client s := by
  rw [known, observed_moved, known]

variable {id : ℕ}

/-- A step that only moves observations from one place to another. -/
theorem Inv.carried {t : State} {p p' : Place} (h : Inv db₀ client limit s) (hdb : t.db = s.db)
    (hc : t.monitor.cache = s.monitor.cache) (hr : t.monitor.revision = s.monitor.revision)
    (hl : t.loads = s.loads) (hw : t.warmUps = s.warmUps)
    (ho : t.observations = moved s.observations p p')
    (hm : ∀ hash, InMemory client t.monitor hash ↔ InMemory client s.monitor hash)
    (hwr : ∀ (id : ℕ), t.flushes[id]? = some ⟨true⟩ → ∀ snapshot ∈ t.monitor.flushing[id]?,
      ∀ hash, (client, hash) ∈ snapshot → hash ∈ s.db.history client)
    (how : ∀ (id : ℕ), t.flushes[id]? = none → t.monitor.flushing[id]? = none) :
    Inv db₀ client limit t := by
  have hk : known db₀ client t = known db₀ client s := by rw [known, ho, observed_moved, known]
  have hlr : (s.view db₀ client).Later (t.view db₀ client) :=
    .inr ⟨hr.symm, hk.ge, fun hash => (hm hash).mpr, fun hash hh => .inl (hk.le hh)⟩
  obtain ⟨-, hkn, hkp, hn⟩ := hlr.resolve_left hr.not_gt
  constructor
  · exact hdb ▸ h.policy
  · intro hash
    rw [hk, hm, hdb]
    exact h.held hash
  · rw [hc]
    exact fun entry he => (h.cached entry he).later hkn hkp hn
  · rw [hl]
    exact fun id load hld => (h.loads id load hld).later hlr
  · rw [hw]
    exact fun id warmUp hw => (h.warmUps id warmUp hw).later hlr
  · rwa [hdb]
  · exact how
  · rw [hk]
    exact h.bound

theorem Inv.beginFlush (h : Inv db₀ client limit s) (hf : s.flushes[id]? = none) :
    Inv db₀ client limit { s with
      monitor := s.monitor.beginFlush id
      flushes := s.flushes.insert id ⟨false⟩
      observations := moved s.observations .pending (.batch id) } := by
  refine h.carried rfl rfl rfl rfl rfl rfl (fun hash => ?_) (written_beginFlush h.written id)
    (owned_beginFlush h.owned id)
  have hp : (client, hash) ∉ (s.monitor.beginFlush id).pending := by simp [Monitor.beginFlush]
  rw [InMemory, Monitor.flushing_beginFlush (h.owned id hf), InMemory]
  tauto

theorem enforced_flushSnapshot (h : Enforced client limit db.clients) (snapshot : Snapshot) :
    Enforced client limit (db.flushSnapshot snapshot).clients := by
  obtain ⟨row, hr, hp⟩ := h
  simp only [Enforced, Database.flushSnapshot, ExtTreeMap.getElem?_map, hr, Option.map_some,
    Option.some.injEq, exists_eq_left']
  split <;> exact hp

section

variable (h : Inv db₀ client limit s)
include h

/-- The transaction of a flush commits: its batch is now in the history and still in memory. -/
theorem Inv.write (id : ℕ) :
    Inv db₀ client limit { s with
      db := s.db.flushSnapshot (s.monitor.flushing.getD id ∅)
      flushes := s.flushes.insert id ⟨true⟩ } := by
  constructor
  · exact enforced_flushSnapshot h.policy _
  · intro hash
    have hb : (client, hash) ∈ s.monitor.flushing.getD id ∅ → InMemory client s.monitor hash := by
      intro hh
      cases hs : s.monitor.flushing[id]? with
      | none => simp [ExtTreeMap.getD_eq_getD_getElem?, hs] at hh
      | some snapshot =>
        refine .inr ⟨id, snapshot, hs, ?_⟩
        simpa [ExtTreeMap.getD_eq_getD_getElem?, hs] using hh
    rw [Database.mem_history_flushSnapshot, or_assoc]
    refine (h.held hash).trans (or_congr_right ⟨.inr, ?_⟩)
    rintro (hh | hh)
    · exact hb hh
    · exact hh
  · exact h.cached
  · exact h.loads
  · exact h.warmUps
  · intro id' hwr snapshot hs hash hh
    rw [Database.mem_history_flushSnapshot]
    by_cases heq : id = id'
    · subst heq
      right
      have hg : s.monitor.flushing[id]? = some snapshot := hs
      simpa [ExtTreeMap.getD_eq_getD_getElem?, hg] using hh
    · left
      refine h.written id' ?_ snapshot hs hash hh
      simpa [ExtTreeMap.getElem?_insert, heq] using hwr
  · exact fun id' hn => h.owned id' (getElem?_of_insert_eq_none hn).2
  · exact h.bound

/-- `Commit` moves the batch from memory to the cache entry, and outdates every running load. -/
theorem Inv.commit (hf : s.flushes[id]? = some ⟨true⟩) {snapshot : Snapshot}
    (hs : s.monitor.flushing[id]? = some snapshot) :
    Inv db₀ client limit { s with
      monitor := s.monitor.commit id
      flushes := s.flushes.erase id
      observations := moved s.observations (.batch id) .settled } := by
  have hc : s.monitor.commit id = { s.monitor with
      revision := s.monitor.revision + 1
      cache := snapshot.toList.foldl (fun c entry => cacheAddIPLocked c entry.1) s.monitor.cache
      flushing := s.monitor.flushing.erase id } := by
    rw [Monitor.commit, hs]
  have hm : ∀ hash, InMemory client s.monitor hash ↔
      (client, hash) ∈ snapshot ∨ InMemory client (s.monitor.commit id) hash := by
    intro hash
    rw [InMemory, Monitor.exists_flushing_erase hs, hc, InMemory, Monitor.Flushing]
    dsimp only
    tauto
  have hl : (s.view db₀ client).Later (State.view db₀ client { s with
      monitor := s.monitor.commit id
      flushes := s.flushes.erase id
      observations := moved s.observations (.batch id) .settled }) := by
    left
    change s.monitor.revision < (s.monitor.commit id).revision
    rw [hc]
    exact Nat.lt_succ_self _
  constructor
  · exact h.policy
  · intro hash
    rw [known_moved, h.held hash, hm hash]
    constructor
    · rintro (hhs | hb | hr)
      · exact .inl hhs
      · exact .inl (h.written id hf snapshot hs hash hb)
      · exact .inr hr
    · rintro (hhs | hr)
      · exact .inl hhs
      · exact .inr (.inr hr)
  · intro entry he
    rw [hc] at he
    simp only [getElem?_commit_cache, Option.mem_def, Option.map_eq_some_iff] at he
    obtain ⟨o, ho, rfl⟩ := he
    have hok := h.cached o ho
    refine ⟨hok.mode, hok.limit, fun hash hh => ?_, fun hash hh => ?_⟩
    · change hash ∈ known db₀ client _
      rw [known_moved]
      rcases Finset.mem_union.mp hh with hi | hb
      · exact hok.sound hash hi
      · exact (h.held hash).mpr (.inr ((hm hash).mpr (.inl (mem_sources.mp hb))))
    · have hh' : hash ∈ known db₀ client s := (known_moved _ _).le hh
      rcases hok.complete hash hh' with hi | hhl
      · exact .inl (Finset.mem_union_left _ hi)
      · rcases (hm hash).mp hhl with hb | hr
        · exact .inl (Finset.mem_union_right _ (mem_sources.mpr hb))
        · exact .inr hr
  · exact fun id load hld => (h.loads id load hld).later hl
  · exact fun id warmUp hw => (h.warmUps id warmUp hw).later hl
  · rw [hc]
    exact written_erase h.written id
  · rw [hc]
    exact owned_erase h.owned id
  · rw [known_moved]
    exact h.bound

/-- The end of a flush that found nothing to write. -/
theorem Inv.closed (he : s.monitor.flushing[id]? = none) (p : Place) :
    Inv db₀ client limit { s with
      flushes := s.flushes.erase id
      observations := moved s.observations (.batch id) p } := by
  refine h.carried rfl rfl rfl rfl rfl rfl (fun _ => .rfl)
    (fun id' hwr => h.written id' (Data.mem_of_mem_erase hwr)) ?_
  have ho := owned_erase h.owned id
  rwa [Data.erase_of_getElem?_eq_none he] at ho

theorem Inv.requeue {snapshot : Snapshot} (hs : s.monitor.flushing[id]? = some snapshot) :
    Inv db₀ client limit { s with
      monitor := s.monitor.requeue id
      flushes := s.flushes.erase id
      observations := moved s.observations (.batch id) .pending } := by
  have hr : s.monitor.requeue id = { s.monitor with
      pending := snapshot.toList.foldl Monitor.requeueEntry s.monitor.pending
      flushing := s.monitor.flushing.erase id } := by
    rw [Monitor.requeue, hs]
  rw [hr]
  refine h.carried rfl rfl rfl rfl rfl rfl (fun hash => ?_) (written_erase h.written id)
    (owned_erase h.owned id)
  rw [InMemory, InMemory, Monitor.exists_flushing_erase hs, Monitor.Flushing]
  dsimp only
  rw [Monitor.mem_requeue_pending]
  tauto

/-! ## Loads and warm-ups -/

/-- The history as it is now makes an entry that may be used. -/
theorem Inv.entryOk (hm : entry.mode = .enforce) (hl : entry.limit = limit)
    (hi : entry.ips = s.db.history client) :
    (s.view db₀ client).EntryOk limit entry where
  mode := hm
  limit := hl
  sound := fun hash hh => (h.held hash).mpr (.inl (hi ▸ hh))
  complete := fun hash hh => by
    rw [hi]
    exact (h.held hash).mp hh

end

theorem readClient_enforced (h : Enforced client limit db.clients) (hl : 0 < limit) (n : Int) :
    db.readClient client n = .enforced limit := by
  obtain ⟨row, hr, he, hm, rfl⟩ := h
  simp [Database.readClient, hr, he, hm, hl]

theorem loadActiveEnforceEntries_entry (h : Enforced client limit db.clients) {n : Int}
    (he : entry ∈ (db.loadActiveEnforceEntries n)[client]?) :
    entry.mode = .enforce ∧ entry.limit = limit ∧ entry.ips = db.history client := by
  obtain ⟨row, hr, hen, hm, rfl⟩ := h
  simp only [Database.loadActiveEnforceEntries, Option.mem_def, ExtTreeMap.getElem?_filterMap',
    hr, Option.bind_some] at he
  split at he
  · cases he
    exact ⟨hm, rfl, rfl⟩
  · cases he

variable {revision : ℕ}

section

variable (h : Inv db₀ client limit s)
include h

theorem Inv.startLoad {n : String} {now : Int} (hs : s.monitor.startLoad n revision now = some m) :
    Inv db₀ client limit { s with
      monitor := m
      loads := s.loads.insert id ⟨n, revision, .started⟩ } := by
  unfold Monitor.startLoad at hs
  split at hs
  · cases hs
  · next hr =>
    split at hs
    · cases hs
    · cases hs
      refine h.quiet rfl rfl rfl rfl rfl le_rfl ?_ (fun id' load hl => ?_) fun _ _ => .inl
      · exact fun entry he => h.cached entry (Data.mem_of_mem_erase he)
      · rcases Data.mem_getElem?_insert hl with ⟨-, rfl⟩ | hl
        · exact .inr ⟨(not_ne_iff.mp hr).le, fun _ _ => trivial⟩
        · exact .inl hl

/-- A running load moves on. -/
theorem Inv.loadMoved {l : Load} (hl : s.loads[id]? = some l) {stage : LoadStage}
    (hs : l.client = client → l.revision = s.monitor.revision →
      (s.view db₀ client).Stage limit l.stage → (s.view db₀ client).Stage limit stage) :
    Inv db₀ client limit { s with loads := s.loads.insert id { l with stage } } := by
  refine h.quiet rfl rfl rfl rfl rfl le_rfl h.cached (fun id' l' hl' => ?_) fun _ _ => .inl
  rcases Data.mem_getElem?_insert hl' with ⟨-, rfl⟩ | hl'
  · have ho := h.loads id l hl
    refine .inr ⟨ho.revision_le, fun hcl hr => ?_⟩
    exact hs hcl hr (ho.stage hcl hr)
  · exact .inl hl'

theorem Inv.install {n : String} {entry : Option AllowCacheEntry} (now : Int)
    (hl : s.loads[id]? = some ⟨n, revision, .loaded entry⟩) :
    Inv db₀ client limit { s with
      monitor := s.monitor.install n revision entry now
      loads := s.loads.erase id } := by
  have hu : Inv db₀ client limit { s with loads := s.loads.erase id } :=
    h.quiet rfl rfl rfl rfl rfl le_rfl h.cached (fun _ _ hl => .inl (Data.mem_of_mem_erase hl))
      fun _ _ => .inl
  unfold Monitor.install
  cases entry with
  | none => exact hu
  | some loaded =>
    dsimp only
    split
    · exact hu
    · next hr =>
      refine h.quiet rfl rfl rfl rfl rfl le_rfl (fun entry he => ?_)
        (fun _ _ hl => .inl (Data.mem_of_mem_erase hl)) fun _ _ => .inl
      rcases Data.mem_getElem?_insert he with ⟨hn, rfl⟩ | he
      · have hok := (h.loads id _ hl).stage hn (not_ne_iff.mp hr) loaded rfl
        exact ⟨hok.mode, hok.limit, hok.sound, hok.complete⟩
      · exact h.cached entry he

theorem Inv.installAll {es : ExtTreeMap String AllowCacheEntry}
    (hw : s.warmUps[id]? = some ⟨revision, some es⟩) :
    Inv db₀ client limit { s with
      monitor := s.monitor.installAll revision es
      warmUps := s.warmUps.erase id } := by
  unfold Monitor.installAll
  split
  · exact h.quiet rfl rfl rfl rfl rfl le_rfl h.cached (fun _ _ => .inl)
      fun _ _ hw => .inl (Data.mem_of_mem_erase hw)
  · next hr =>
    refine h.quiet rfl rfl rfl rfl rfl (Nat.le_succ _) (fun entry he => ?_) (fun _ _ => .inl)
      fun _ _ hw => .inl (Data.mem_of_mem_erase hw)
    have hok := (h.warmUps id _ hw).entries (not_ne_iff.mp hr) es rfl entry he
    exact ⟨hok.mode, hok.limit, hok.sound, hok.complete⟩

end

/-! ## Runs -/

variable (client limit)

/-- The client stays enabled with its limit, and nothing is recorded for it without a decision. -/
def Limited : State → Op → Prop
  | _, .record source _ => source.1 ≠ client
  | _, .edit clients => Enforced client limit clients
  | _, _ => True

variable {client limit}

theorem Inv.startWarmUp (h : Inv db₀ client limit s) (id : ℕ) : Inv db₀ client limit
    { s with warmUps := s.warmUps.insert id ⟨s.monitor.revision, none⟩ } := by
  refine h.quiet rfl rfl rfl rfl rfl le_rfl h.cached (fun _ _ => .inl) fun id' warmUp hw => ?_
  rcases Data.mem_getElem?_insert hw with ⟨-, rfl⟩ | hw
  · exact .inr ⟨le_rfl, fun _ => by rintro _ ⟨⟩⟩
  · exact .inl hw

/-- The entries that a warm-up reads agree with the database. -/
theorem Inv.readWarmUp {id revision : ℕ} (h : Inv db₀ client limit s) (now : Int)
    (hw : s.warmUps[id]? = some ⟨revision, none⟩) : Inv db₀ client limit
    { s with
      warmUps := s.warmUps.insert id ⟨revision, some (s.db.loadActiveEnforceEntries now)⟩ } := by
  refine h.quiet rfl rfl rfl rfl rfl le_rfl h.cached (fun _ _ => .inl) fun id' warmUp hw' => ?_
  rcases Data.mem_getElem?_insert hw' with ⟨-, rfl⟩ | hw'
  · refine .inr ⟨(h.warmUps id _ hw).revision_le, fun _ => ?_⟩
    rintro _ ⟨⟩ entry he
    obtain ⟨hm, hen, hi⟩ := loadActiveEnforceEntries_entry h.policy he
    exact h.entryOk hm hen hi
  · exact .inl hw'

theorem Inv.invalidate (h : Inv db₀ client limit s) (name : String) : Inv db₀ client limit
    { s with monitor := s.monitor.invalidateCache name } := by
  refine h.quiet rfl rfl rfl rfl rfl (Nat.le_succ _) (fun entry he => ?_) (fun _ _ => .inl)
    fun _ _ => .inl
  simp only [Monitor.invalidateCache, Option.mem_def, ExtTreeMap.getElem?_erase] at he
  split at he
  · cases he
  · have hold := h.cached entry he
    exact ⟨hold.mode, hold.limit, hold.sound, hold.complete⟩

theorem Inv.step {s' : State} {op : Op} (h : Inv db₀ client limit s) (hl : 0 < limit)
    (hok : Limited client limit s op) (hst : Step s op s') : Inv db₀ client limit s' := by
  cases hst with
  | startLoad fresh start => exact h.startLoad start
  | readClient now load =>
    refine h.loadMoved load fun hcl _ _ => ?_
    dsimp only at hcl
    rw [hcl, readClient_enforced h.policy hl]
    rfl
  | readHistory now load =>
    refine h.loadMoved load fun hcl _ hs => ?_
    rintro _ ⟨⟩
    exact h.entryOk rfl hs (by rw [← hcl]; rfl)
  | failLoad r => exact h.loadMoved r fun _ _ _ => by rintro _ ⟨⟩
  | install now load => exact h.install now load
  | startWarmUp fresh => exact h.startWarmUp _
  | readWarmUp now warmUp => exact h.readWarmUp now warmUp
  | failWarmUp r =>
    exact h.quiet rfl rfl rfl rfl rfl le_rfl h.cached (fun _ _ => .inl)
      fun _ _ hw => .inl (Data.mem_of_mem_erase hw)
  | installWarmUp warmUp => exact h.installAll warmUp
  | accept decision =>
    rcases Monitor.admitPrepared_cases decision with ⟨hr, -⟩ | ⟨-, -, rfl, entry, he, ha⟩
    · simp at hr
    · exact h.recorded _ _ _ fun hcl => h.accept hl hcl he ha
  | reject decision =>
    rcases Monitor.admitPrepared_cases decision with ⟨-, rfl⟩ | ⟨hac, -⟩
    · exact h
    · cases hac
  | allow name ip d revision now seenAt =>
    rcases Monitor.admitPrepared_cases (Prod.mk.eta).symm with ⟨-, hsm⟩ | ⟨-, ho, -⟩
    · rw [hsm]
      exact h
    · cases ho
  | record name ip d seenAt =>
    rw [Monitor.record, if_neg (not_ne_iff.mpr rfl)]
    exact h.recorded _ _ _ fun hcl => absurd hcl hok
  | beginFlush fresh => exact h.beginFlush fresh
  | write f => exact h.write _
  | @commit id f =>
    cases hsn : s.monitor.flushing[id]? with
    | none =>
      rw [Monitor.commit, hsn]
      exact h.closed hsn _
    | some snapshot => exact h.commit f hsn
  | @requeue id f =>
    cases hsn : s.monitor.flushing[id]? with
    | none =>
      rw [Monitor.requeue, hsn]
      exact h.closed hsn _
    | some snapshot => exact h.requeue hsn
  | invalidate name => exact h.invalidate name
  | invalidateAll =>
    refine h.quiet rfl rfl rfl rfl rfl (Nat.le_succ _) (fun entry he => ?_) (fun _ _ => .inl)
      fun _ _ => .inl
    simp [Monitor.invalidateAllCache] at he
  | edit clients => exact ⟨hok, h.held, h.cached, h.loads, h.warmUps, h.written, h.owned, h.bound⟩

theorem Reachable.inv (h : Reachable (Limited client limit) db₀ s) (hl : 0 < limit)
    (hp : Enforced client limit db₀.clients) : Inv db₀ client limit s := by
  induction h with
  | start => exact .start hp
  | step _ hok hs ih => exact ih.step hl hok hs

end Limit

/-- The limit holds over every run: whatever interleaves, the sources that were accepted for the
client and those that were stored at the start are not more than the limit, or than were stored. -/
theorem accepted_le_limit {db : Database} {client : String} {limit : Int} (hlimit : 0 < limit)
    (hpolicy : Enforced client limit db.clients) {s : State}
    (h : Reachable (Limited client limit) db s) :
    (db.history client ∪ observed client s.observations).card ≤
      max limit.toNat (db.history client).card :=
  (h.inv hlimit hpolicy).bound

/-- A database with one client, limited to one source, and an empty history. -/
def sampleDatabase : Database where
  installSalt := []
  clients := ExtTreeMap.empty.insert "alice"
    { enable := true, limitIP := 1, ipLimitMode := .enforce }

theorem sampleDatabase_enforced : Enforced "alice" 1 sampleDatabase.clients :=
  ⟨_, ExtTreeMap.getElem?_insert_self, rfl, rfl, rfl⟩

/-- The monitor after a warm-up. -/
def sampleMonitor : Monitor where
  revision := 1
  cache := sampleDatabase.loadActiveEnforceEntries 0

theorem sampleMonitor_reachable (ok : State → Op → Prop) (hok : ∀ s, ok s .other) :
    ∃ warmUps, Reachable ok sampleDatabase
      { db := sampleDatabase, monitor := sampleMonitor, warmUps } := by
  have hs : Reachable ok sampleDatabase { db := sampleDatabase } := .start
  have hb := hs.step (hok _) (@Step.startWarmUp _ 0 (by simp))
  have hr := hb.step (hok _) (@Step.readWarmUp _ 0 0 0 ExtTreeMap.getElem?_insert_self)
  exact ⟨_, hr.step (hok _) (@Step.installWarmUp _ 0 0 _ ExtTreeMap.getElem?_insert_self)⟩

/-- With an empty history the first source of `alice` is accepted. -/
theorem sampleMonitor_admits (hash : String) (seenAt : Int) :
    sampleMonitor.admitPrepared ("alice", hash) none true 1 0 seenAt =
      (sampleMonitor.recordLocked ("alice", hash) none seenAt, true) := by
  have he : sampleMonitor.cache["alice"]? = some
      { limit := 1, mode := .enforce, ips := ∅, expiresAt := allowCacheTTL } := by
    simp [sampleMonitor, Database.loadActiveEnforceEntries,
      sampleDatabase, Database.history, rowHistory]
  have hs : sampleMonitor.seen
      { limit := 1, mode := .enforce, ips := ∅, expiresAt := allowCacheTTL } "alice" = ∅ := by
    ext other
    rw [Monitor.mem_seen]
    simp [sampleMonitor, Monitor.Flushing]
  unfold Monitor.admitPrepared
  simp only [he, hs]
  rw [if_neg (by simp [sampleMonitor, allowCacheTTL])]
  simp

/-- The policy of `alice` is loaded, and a first source is accepted. -/
theorem accepted_le_limit_alice :
    ∃ s, Reachable (Limited "alice" 1) sampleDatabase s ∧
      hashIP [] "198.51.100.1" ∈ observed "alice" s.observations ∧
      (sampleDatabase.history "alice" ∪ observed "alice" s.observations).card ≤
        max (1 : Int).toNat (sampleDatabase.history "alice").card := by
  obtain ⟨warmUps, hw⟩ := sampleMonitor_reachable (Limited "alice" 1) fun _ => trivial
  have hok : Limited "alice" 1 { db := sampleDatabase, monitor := sampleMonitor, warmUps }
    (.accept ("alice", hashIP [] "198.51.100.1") 5) := trivial
  have ha := hw.step hok (.accept (sampleMonitor_admits (hashIP [] "198.51.100.1") 5))
  refine ⟨_, ha, ?_, accepted_le_limit (by decide) sampleDatabase_enforced ha⟩
  simp [observed, sampleDatabase]

end Solovey.IPMonitor
