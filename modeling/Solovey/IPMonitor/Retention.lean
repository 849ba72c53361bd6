import Solovey.IPMonitor.Run

/-!
# No accepted source is lost

An observation moves from `pending` to the batch of a flush, and from there to the database or back
to `pending`. `observations_kept` follows it through a run: the place that holds it has the source
with a time that is not older.

A record takes the time it is given and a flush overwrites the last-seen time of a row, so both can
put an older time over a newer one (`last_seen_rolls_back`). The theorem is about the runs in which
neither happens.
-/

namespace Solovey.IPMonitor

open Std List

/-- A time that is not older than the observation is in `pending`, in an open batch, or in the
database. -/
def Held (s : State) (o : Observation) : Prop :=
  match o.place with
  | .pending => ∃ p ∈ s.monitor.pending[o.source]?, o.seenAt ≤ p.lastSeen
  | .batch id => ∃ snapshot ∈ s.monitor.flushing[id]?, ∃ p ∈ snapshot[o.source]?,
      o.seenAt ≤ p.lastSeen
  | .settled => ∃ lastSeen ∈ s.db.lastSeen o.source, o.seenAt ≤ lastSeen

/-- No time is put over a newer one. -/
def InOrder (s : State) : Op → Prop
  | .accept source seenAt => ∀ p ∈ s.monitor.pending[source]?, p.lastSeen ≤ seenAt
  | .record source seenAt => ∀ p ∈ s.monitor.pending[source]?, p.lastSeen ≤ seenAt
  | .write id => ∀ snapshot ∈ s.monitor.flushing[id]?, ∀ source, ∀ p ∈ snapshot[source]?,
      ∀ lastSeen ∈ s.db.lastSeen source, lastSeen ≤ p.lastSeen
  | _ => True

/-- The sources that are in `pending`, in an open batch or in the database. -/
def Present (s : State) (source : Source) : Prop :=
  source ∈ s.monitor.pending ∨ s.monitor.Flushing source ∨ (s.db.lastSeen source).isSome

structure Kept (db₀ : Database) (s : State) : Prop where
  held : ∀ o ∈ s.observations, Held s o
  written : ∀ (id : ℕ), s.flushes[id]? = some ⟨true⟩ → ∀ snapshot ∈ s.monitor.flushing[id]?,
    ∀ source, ∀ p ∈ snapshot[source]?, ∃ lastSeen ∈ s.db.lastSeen source, p.lastSeen ≤ lastSeen
  owned : ∀ (id : ℕ), s.flushes[id]? = none → s.monitor.flushing[id]? = none
  /-- Nothing is there that was not recorded or stored at the start. -/
  recorded : ∀ source, Present s source →
    (∃ o ∈ s.observations, o.source = source) ∨ (db₀.lastSeen source).isSome

/-- The place that is asked about. -/
def HeldAt (s : State) (source : Source) (seenAt : Int) (place : Place) : Prop :=
  Held s ⟨source, seenAt, place⟩

theorem heldAt_moved {os : List Observation} {p p' : Place} {s : State}
    (hm : ∀ o ∈ os, o.place = p → HeldAt s o.source o.seenAt p')
    (hot : ∀ o ∈ os, o.place ≠ p → Held s o) :
    ∀ o ∈ moved os p p', Held s o := by
  intro o ho
  obtain ⟨ol, hol, rfl⟩ := mem_map.mp ho
  split
  · next hp => exact hm ol hol hp
  · next hp => exact hot ol hol hp

theorem exists_mem_moved {os : List Observation} {p p' : Place} {source : Source}
    (h : ∃ o ∈ os, o.source = source) :
    ∃ o ∈ moved os p p', o.source = source := by
  obtain ⟨o, ho, hs⟩ := h
  refine ⟨_, mem_map_of_mem ho, ?_⟩
  split <;> exact hs

namespace Kept

variable {d₀ : Database} {s : State}

theorem start : Kept d₀ { db := d₀ } where
  held := by simp
  written := by simp
  owned := by simp
  recorded := by
    rintro source (hp | ⟨batch, snapshot, hb, -⟩ | hdb)
    · simp at hp
    · simp at hb
    · exact .inr hdb

theorem held_pending (h : Kept d₀ s) : ∀ o ∈ s.observations, o.place = .pending →
    ∃ p ∈ s.monitor.pending[o.source]?, o.seenAt ≤ p.lastSeen := by
  intro o ho hp
  have hol := h.held o ho
  rwa [Held, hp] at hol

variable {id : ℕ}

section

variable (h : Kept d₀ s)
include h

theorem held_batch : ∀ o ∈ s.observations, o.place = .batch id →
    ∃ snapshot ∈ s.monitor.flushing[id]?, ∃ p ∈ snapshot[o.source]?, o.seenAt ≤ p.lastSeen := by
  intro o ho hp
  have hol := h.held o ho
  rwa [Held, hp] at hol

/-- A step that leaves the database, the observations and where they are. -/
theorem quiet {s' : State} (hl : s'.db.lastSeen = s.db.lastSeen)
    (hp : s'.monitor.pending = s.monitor.pending) (hfl : s'.monitor.flushing = s.monitor.flushing)
    (hf : s'.flushes = s.flushes) (hob : s'.observations = s.observations) : Kept d₀ s' where
  held := by
    intro o ho
    have hol := h.held o (hob ▸ ho)
    unfold Held at hol ⊢
    rw [hp, hfl, hl]
    exact hol
  written := by
    rw [hf, hfl, hl]
    exact h.written
  owned := by
    rw [hf, hfl]
    exact h.owned
  recorded := by
    intro source hpr
    rw [hob]
    refine h.recorded source ?_
    rwa [Present, hp, Monitor.Flushing, hfl, hl] at hpr

theorem recordLocked {source : Source} {d : Option String} {seenAt : Int}
    (hok : ∀ p ∈ s.monitor.pending[source]?, p.lastSeen ≤ seenAt) :
    Kept d₀ { s with
      monitor := s.monitor.recordLocked source d seenAt
      observations := s.observations ++ [⟨source, seenAt, .pending⟩] } where
  held := by
    intro o ho
    rcases mem_append.mp ho with ho | ho
    · have hol := h.held o ho
      unfold Held at hol ⊢
      cases hpl : o.place with
      | pending =>
        rw [hpl] at hol
        obtain ⟨p, hp, hle⟩ := hol
        dsimp only [Monitor.recordLocked]
        by_cases hs : source = o.source
        · subst hs
          exact ⟨_, ExtTreeMap.getElem?_insert_self, hle.trans (hok p hp)⟩
        · exact ⟨p, by simpa [ExtTreeMap.getElem?_insert, hs] using hp, hle⟩
      | batch _ | settled =>
        rw [hpl] at hol
        exact hol
    · rw [mem_singleton.mp ho]
      exact ⟨_, ExtTreeMap.getElem?_insert_self, le_rfl⟩
  written := h.written
  owned := h.owned
  recorded := by
    rintro source' (hpn | hr)
    · rcases Monitor.mem_pending_recordLocked.mp hpn with rfl | hpn
      · exact .inl ⟨_, mem_append_right _ (mem_singleton_self _), rfl⟩
      · refine (h.recorded source' (.inl hpn)).imp_left ?_
        rintro ⟨o, ho, hs⟩
        exact ⟨o, mem_append_left _ ho, hs⟩
    · refine (h.recorded source' (.inr hr)).imp_left ?_
      rintro ⟨o, ho, hs⟩
      exact ⟨o, mem_append_left _ ho, hs⟩

theorem beginFlush (hf : s.flushes[id]? = none) :
    Kept d₀ { s with
      monitor := s.monitor.beginFlush id
      flushes := s.flushes.insert id ⟨false⟩
      observations := moved s.observations .pending (.batch id) } where
  held := by
    have hfl : ∀ {id' : ℕ} {snapshot : Snapshot}, s.monitor.flushing[id']? = some snapshot →
        (s.monitor.beginFlush id).flushing[id']? = some snapshot := by
      intro id' snapshot hs
      have hne : id ≠ id' := by
        rintro rfl
        rw [h.owned id hf] at hs
        cases hs
      rwa [getElem?_beginFlush hne]
    refine heldAt_moved (fun o ho hpl => ?_) fun o ho hpl => ?_
    · obtain ⟨p, hp, hle⟩ := h.held_pending o ho hpl
      have he : s.monitor.pending.isEmpty = false := by
        rw [← Bool.not_eq_true, ExtTreeMap.isEmpty_iff]
        intro he
        rw [he] at hp
        simp at hp
      refine ⟨s.monitor.pending, ?_, p, hp, hle⟩
      simp [Monitor.beginFlush, he]
    · have hol := h.held o ho
      unfold Held at hol ⊢
      cases hat : o.place with
      | pending => exact absurd hat hpl
      | batch id' =>
        rw [hat] at hol
        obtain ⟨snapshot, hs, hr⟩ := hol
        exact ⟨snapshot, hfl hs, hr⟩
      | settled =>
        rw [hat] at hol
        exact hol
  written := written_beginFlush h.written id
  owned := owned_beginFlush h.owned id
  recorded := by
    rintro source (hpn | hfl | hdb)
    · simp [Monitor.beginFlush] at hpn
    · rw [Monitor.flushing_beginFlush (h.owned id hf)] at hfl
      exact (h.recorded source (hfl.imp_right .inl)).imp_left exists_mem_moved
    · exact (h.recorded source (.inr (.inr hdb))).imp_left exists_mem_moved

/-- The transaction of a flush commits. The rows of its batch take its times, which are not older
than what was there. -/
theorem write (hok : InOrder s (.write id)) :
    Kept d₀ { s with
      db := s.db.flushSnapshot (s.monitor.flushing.getD id ∅)
      flushes := s.flushes.insert id ⟨true⟩ } := by
  have hb : ∀ {source : Source} {p : PendingIP}, (s.monitor.flushing.getD id ∅)[source]? = some p →
        ∃ snapshot ∈ s.monitor.flushing[id]?, snapshot[source]? = some p := by
    intro source p hp
    cases hs : s.monitor.flushing[id]? with
    | none => simp [ExtTreeMap.getD_eq_getD_getElem?, hs] at hp
    | some snapshot =>
      refine ⟨snapshot, rfl, ?_⟩
      simpa [ExtTreeMap.getD_eq_getD_getElem?, hs] using hp
  -- the last-seen time of a source does not go back
  have hfr : ∀ {source : Source} {seenAt lastSeen : Int},
      s.db.lastSeen source = some lastSeen → seenAt ≤ lastSeen →
        ∃ t ∈ (s.db.flushSnapshot (s.monitor.flushing.getD id ∅)).lastSeen source, seenAt ≤ t := by
    intro source seenAt lastSeen hl hle
    rw [Database.lastSeen_flushSnapshot]
    cases hp : (s.monitor.flushing.getD id ∅)[source]? with
    | none => exact ⟨lastSeen, hl, hle⟩
    | some p =>
      obtain ⟨snapshot, hs, hp⟩ := hb hp
      exact ⟨p.lastSeen, rfl, hle.trans (hok snapshot hs source p hp lastSeen hl)⟩
  refine ⟨fun o ho => ?_, fun id' hwr snapshot hs source p hp => ?_,
    fun id' hn => ?_, fun source hpr => ?_⟩
  · have hol := h.held o ho
    unfold Held at hol ⊢
    cases hpl : o.place with
    | pending | batch =>
      rw [hpl] at hol
      exact hol
    | settled =>
      rw [hpl] at hol
      obtain ⟨lastSeen, hl, hle⟩ := hol
      exact hfr hl hle
  · by_cases heq : id = id'
    · subst heq
      rw [Database.lastSeen_flushSnapshot]
      have hg : s.monitor.flushing[id]? = some snapshot := hs
      have hp' : (s.monitor.flushing.getD id ∅)[source]? = some p := by
        simpa [ExtTreeMap.getD_eq_getD_getElem?, hg] using hp
      exact ⟨p.lastSeen, by simp [hp'], le_rfl⟩
    · have hol := h.written id' (by simpa [ExtTreeMap.getElem?_insert, heq] using hwr)
        snapshot hs source p hp
      obtain ⟨lastSeen, hl, hle⟩ := hol
      exact hfr hl hle
  · exact h.owned id' (getElem?_of_insert_eq_none hn).2
  · rcases hpr with hpn | hf | hdb
    · exact h.recorded source (.inl hpn)
    · exact h.recorded source (.inr (.inl hf))
    · rw [Database.lastSeen_flushSnapshot] at hdb
      cases hp : (s.monitor.flushing.getD id ∅)[source]? with
      | none =>
        rw [hp] at hdb
        exact h.recorded source (.inr (.inr hdb))
      | some p =>
        obtain ⟨snapshot, hs, hp⟩ := hb hp
        exact h.recorded source (.inr (.inl ⟨id, snapshot, hs,
          Data.mem_iff_exists_getElem?.mpr ⟨p, hp⟩⟩))

/-- The end of a flush whose batch is closed in memory: what is open afterwards was open before. -/
theorem closed {m : Monitor} {place : Place} (hf : m.flushing = s.monitor.flushing.erase id)
    (hh : ∀ o ∈ s.observations, o.place = .batch id →
      HeldAt { s with monitor := m } o.source o.seenAt place)
    (hpn : ∀ o ∈ s.observations, o.place = .pending →
      ∃ p ∈ m.pending[o.source]?, o.seenAt ≤ p.lastSeen)
    (hpr : ∀ source ∈ m.pending, Present s source) :
    Kept d₀ { s with
      monitor := m
      flushes := s.flushes.erase id
      observations := moved s.observations (.batch id) place } where
  held := by
    refine heldAt_moved hh fun o ho hp => ?_
    have hol := h.held o ho
    unfold Held at hol ⊢
    cases hat : o.place with
    | pending => exact hpn o ho hat
    | batch id' =>
      rw [hat] at hol
      obtain ⟨snapshot, hs, hr⟩ := hol
      have hne : id ≠ id' := by
        rintro rfl
        exact hp hat
      refine ⟨snapshot, ?_, hr⟩
      simpa [hf, ExtTreeMap.getElem?_erase, hne] using hs
    | settled =>
      rw [hat] at hol
      exact hol
  written := by
    rw [hf]
    exact written_erase h.written id
  owned := by
    rw [hf]
    exact owned_erase h.owned id
  recorded := by
    rintro source (hsr | ⟨batch, snapshot, hb, hsr⟩ | hdb)
    · exact (h.recorded source (hpr source hsr)).imp_left exists_mem_moved
    · dsimp only at hb
      rw [hf] at hb
      have hop := Data.mem_of_mem_erase hb
      exact (h.recorded source (.inr (.inl ⟨batch, snapshot, hop, hsr⟩))).imp_left exists_mem_moved
    · exact (h.recorded source (.inr (.inr hdb))).imp_left exists_mem_moved

theorem commit (hf : s.flushes[id]? = some ⟨true⟩) :
    Kept d₀ { s with
      monitor := s.monitor.commit id
      flushes := s.flushes.erase id
      observations := moved s.observations (.batch id) .settled } := by
  have hst : ∀ o ∈ s.observations, o.place = .batch id →
      ∃ lastSeen ∈ s.db.lastSeen o.source, o.seenAt ≤ lastSeen := by
    intro o ho hpl
    obtain ⟨snapshot, hs, p, hp, hle⟩ := h.held_batch o ho hpl
    obtain ⟨lastSeen, hl, hl'⟩ := h.written id hf snapshot hs o.source p hp
    exact ⟨lastSeen, hl, hle.trans hl'⟩
  unfold Monitor.commit
  cases hs : s.monitor.flushing[id]? with
  | none =>
    exact h.closed (Data.erase_of_getElem?_eq_none hs).symm hst h.held_pending fun source => .inl
  | some snapshot => exact h.closed rfl hst h.held_pending fun source => .inl

theorem requeue :
    Kept d₀ { s with
      monitor := s.monitor.requeue id
      flushes := s.flushes.erase id
      observations := moved s.observations (.batch id) .pending } := by
  unfold Monitor.requeue
  cases hsn : s.monitor.flushing[id]? with
  | none =>
    refine h.closed (Data.erase_of_getElem?_eq_none hsn).symm (fun o ho hpl => ?_)
      h.held_pending fun source => .inl
    obtain ⟨snapshot, hs, -⟩ := h.held_batch o ho hpl
    rw [hsn] at hs
    cases hs
  | some snapshot =>
    refine h.closed rfl (fun o ho hpl => ?_) (fun o ho hpl => ?_) fun source hsr => ?_
    · obtain ⟨snapshot', hs', p, hp, hle⟩ := h.held_batch o ho hpl
      obtain rfl := Option.some.inj (hsn.symm.trans hs')
      obtain ⟨q, hq, hn⟩ := Monitor.requeue_newer (.inr hp)
      exact ⟨q, hq, hle.trans hn⟩
    · obtain ⟨p, hp, hle⟩ := h.held_pending o ho hpl
      obtain ⟨q, hq, hn⟩ := Monitor.requeue_newer (.inl hp)
      exact ⟨q, hq, hle.trans hn⟩
    · rcases Monitor.mem_requeue_pending.mp hsr with hsr | hsr
      · exact .inr (.inl ⟨id, snapshot, hsn, hsr⟩)
      · exact .inl hsr

theorem step {s' : State} {op : Op} (hok : InOrder s op) (hs : Step s op s') : Kept d₀ s' := by
  cases hs with
  | startLoad fresh start =>
    unfold Monitor.startLoad at start
    split at start
    · cases start
    · split at start
      · cases start
      · cases start
        exact h.quiet rfl rfl rfl rfl rfl
  | readClient | readHistory | failLoad | startWarmUp | readWarmUp | failWarmUp | invalidate
  | invalidateAll | edit => exact h.quiet rfl rfl rfl rfl rfl
  | install now load =>
    unfold Monitor.install
    split
    · exact h.quiet rfl rfl rfl rfl rfl
    · split <;> exact h.quiet rfl rfl rfl rfl rfl
  | installWarmUp wu =>
    unfold Monitor.installAll
    split <;> exact h.quiet rfl rfl rfl rfl rfl
  | accept decision =>
    rcases Monitor.admitPrepared_cases decision with ⟨hr, -⟩ | ⟨-, -, rfl, -⟩
    · simp at hr
    · exact h.recordLocked hok
  | reject decision =>
    rcases Monitor.admitPrepared_cases decision with ⟨-, rfl⟩ | ⟨ha, -⟩
    · exact h
    · cases ha
  | allow client ip d revision now seenAt =>
    rcases Monitor.admitPrepared_cases (Prod.mk.eta).symm with ⟨-, hsm⟩ | ⟨-, ho, -⟩
    · rw [hsm]
      exact h
    · cases ho
  | record client ip d seenAt =>
    rw [Monitor.record, if_neg (not_ne_iff.mpr rfl)]
    exact h.recordLocked hok
  | beginFlush fresh => exact h.beginFlush fresh
  | write f => exact h.write hok
  | commit f => exact h.commit f
  | requeue f => exact h.requeue

end

end Kept

theorem Reachable.kept {db : Database} {s : State} (h : Reachable InOrder db s) : Kept db s := by
  induction h with
  | start => exact .start
  | step _ hok hs ih => exact ih.step hok hs

/-- In every state of every run that puts no time over a newer one, each observation of an accepted
source is held, with a time that is not older, by the place that has it: `pending`, the one open
batch it moved to, or the database. And a source is in none of the three unless it was recorded or
stored at the start: a rejected source never gets there. -/
theorem observations_kept {db : Database} {s : State} (h : Reachable InOrder db s) :
    (∀ o ∈ s.observations, Held s o) ∧
      ∀ source, Present s source →
        (∃ o ∈ s.observations, o.source = source) ∨ (db.lastSeen source).isSome :=
  ⟨h.kept.held, h.kept.recorded⟩

/-! ## A flush that began earlier and commits later -/

def sampleSalted : Database where
  installSalt := []

def sampleSource : Source := ("alice", hashIP [] "198.51.100.1")

def sampleSnapshot (lastSeen : Int) : Snapshot :=
  ExtTreeMap.empty.insert sampleSource ⟨lastSeen, none⟩

/-- The source was seen at `first`, a flush began, and it was seen again at `second`. -/
def sampleReseen (first second : Int) : State where
  db := sampleSalted
  monitor := {
    pending := sampleSnapshot second
    flushing := ExtTreeMap.empty.insert 0 (sampleSnapshot first) }
  flushes := ExtTreeMap.empty.insert 0 ⟨false⟩
  observations := [⟨sampleSource, first, .batch 0⟩, ⟨sampleSource, second, .pending⟩]

theorem sampleReseen_reachable {ok : State → Op → Prop} {first second : Int} (ho : ∀ s, ok s .other)
    (hf : ok { db := sampleSalted } (.record sampleSource first))
    (hsc : ∀ s, s.monitor.pending = ∅ → ok s (.record sampleSource second)) :
    Reachable ok sampleSalted (sampleReseen first second) := by
  have hs : Reachable ok sampleSalted { db := sampleSalted } := .start
  have hsn := hs.step hf (.record "alice" "198.51.100.1" none first)
  have hb := hsn.step (ho _) (@Step.beginFlush _ 0 (by simp))
  have hr := hb.step (hsc _ rfl) (.record "alice" "198.51.100.1" none second)
  have hsr : ("alice", hashIP sampleSalted.installSalt "198.51.100.1") = sampleSource := rfl
  simpa [sampleReseen, sampleSnapshot, hsr, Monitor.record, Monitor.recordLocked, Monitor.beginFlush,
    cacheAddIPLocked, moved] using hr

/-- Both observations are held while the first flush is open. -/
theorem observations_kept_reseen :
    Reachable InOrder sampleSalted (sampleReseen 1 2) ∧
      (∀ o ∈ (sampleReseen 1 2).observations, Held (sampleReseen 1 2) o) ∧
      ∀ source, Present (sampleReseen 1 2) source →
        (∃ o ∈ (sampleReseen 1 2).observations, o.source = source) ∨
          (sampleSalted.lastSeen source).isSome := by
  have hr : Reachable InOrder sampleSalted (sampleReseen 1 2) := by
    refine sampleReseen_reachable (fun _ => trivial) ?_ fun s he => ?_
    · simp [InOrder]
    · simp [InOrder, he]
  exact ⟨hr, observations_kept hr⟩

/-- A second flush begins, and only the batch of the first one is open when it has ended. -/
theorem sampleReseen_ended (id : ℕ) :
    (((sampleReseen 1 2).monitor.beginFlush 1).commit 1).flushing[id]? =
      if 0 = id then some (sampleSnapshot 1) else none := by
  have hb : (sampleSnapshot 2).isEmpty = false := by simp [sampleSnapshot]
  simp only [Monitor.commit, Monitor.beginFlush, sampleReseen, hb, Bool.false_eq_true, if_false,
    ExtTreeMap.getElem?_insert_self, ExtTreeMap.getElem?_erase, ExtTreeMap.getElem?_insert,
    LawfulEqOrd.compare_eq_iff_eq]
  by_cases h0 : 0 = id
  · subst h0
    simp
  · by_cases h1 : 1 = id <;> simp [h0, h1]

/-- The source is seen at 1 and, with a first flush open, at 2. A second flush writes the 2 and
ends; then the first one writes its 1 over it. The observation at 2 is nowhere any more. -/
theorem last_seen_rolls_back :
    ∃ s, Reachable (fun _ _ => True) sampleSalted s ∧ ∃ o ∈ s.observations,
      (∀ p ∈ s.monitor.pending[o.source]?, p.lastSeen < o.seenAt) ∧
      (∀ (id : ℕ), ∀ snapshot ∈ s.monitor.flushing[id]?, ∀ p ∈ snapshot[o.source]?,
        p.lastSeen < o.seenAt) ∧
      ∀ lastSeen ∈ s.db.lastSeen o.source, lastSeen < o.seenAt := by
  have hr : Reachable (fun _ _ => True) sampleSalted (sampleReseen 1 2) :=
    sampleReseen_reachable (fun _ => trivial) trivial fun _ _ => trivial
  have hbg := hr.step trivial (@Step.beginFlush _ 1 (by simp [sampleReseen]))
  have hwr := hbg.step trivial (@Step.write _ 1 ExtTreeMap.getElem?_insert_self)
  have he := hwr.step trivial (@Step.commit _ 1 ExtTreeMap.getElem?_insert_self)
  have ho : ((((sampleReseen 1 2).flushes.insert 1 ⟨false⟩).insert 1 ⟨true⟩).erase 1)[0]? =
      some ⟨false⟩ := by
    rw [ExtTreeMap.getElem?_erase, if_neg (by decide), ExtTreeMap.getElem?_insert,
      if_neg (by decide), ExtTreeMap.getElem?_insert, if_neg (by decide)]
    exact ExtTreeMap.getElem?_insert_self
  have hrl := he.step trivial (@Step.write _ 0 ho)
  have hf : (sampleSnapshot 1)[sampleSource]? = some ⟨1, none⟩ := ExtTreeMap.getElem?_insert_self
  refine ⟨_, hrl, ⟨sampleSource, 2, .settled⟩, ?_, ?_, ?_, ?_⟩
  · simp [sampleReseen, moved]
  · intro p hp
    have hpn : (((sampleReseen 1 2).monitor.beginFlush 1).commit 1).pending = ∅ := by
      unfold Monitor.commit
      split <;> rfl
    dsimp only at hp
    rw [hpn] at hp
    simp at hp
  · intro id snapshot hs p hp
    dsimp only at hs
    rw [sampleReseen_ended] at hs
    split at hs
    · cases hs
      cases hf.symm.trans hp
      decide
    · cases hs
  · intro lastSeen hl
    have hb : (((sampleReseen 1 2).monitor.beginFlush 1).commit 1).flushing.getD 0 ∅ =
        sampleSnapshot 1 := by
      rw [ExtTreeMap.getD_eq_getD_getElem?, sampleReseen_ended]
      rfl
    simp only [hb, Database.lastSeen_flushSnapshot, hf] at hl
    cases hl
    decide

end Solovey.IPMonitor
