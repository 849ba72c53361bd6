import Solovey.Data.System
import Solovey.RateLimit.Common

/-!
# The failure window

`util/ratelimit/failure.go`: the limiter of the logins. It counts the failures of a key from the
first one on, blocks the key for a time once they reach the threshold, and counts anew after the
window. A failure recorded after the window starts a new entry even while the old one still blocks
the key, and so lifts the block; `blockedAt_stable` says that nothing else does.
-/

namespace Solovey.RateLimit

open Solovey.Data

variable {K : Type*} [DecidableEq K]

/-! ## The limiter -/

structure FailureEntry where
  failures : ℤ := 0
  firstFailure : Time := 0
  blockedUntil : Time := 0
  updatedAt : Time := 0
deriving DecidableEq, Repr

/-- What `NewFailureWindow` takes; it panics where a bound does not hold. -/
structure FailureConfig where
  window : Duration
  threshold : ℤ
  blockFor : Duration
  maxKeys : ℕ
  gcEvery : Duration
  tarpitStep : Duration
  tarpitMax : Duration
  window_pos : 0 < window
  threshold_pos : 0 < threshold
  blockFor_pos : 0 < blockFor
  maxKeys_pos : 0 < maxKeys

structure FailureWindow (K : Type*) where
  entries : Table K FailureEntry := ∅
  lastGC : Time := 0

def entryExpired (entry : FailureEntry) (now : Time) (window : Duration) : Bool :=
  (isZero entry.blockedUntil || !decide (now < entry.blockedUntil)) &&
    (isZero entry.firstFailure || decide (window ≤ sub now entry.firstFailure))

/-- The product of durations, as the source computes it. -/
def mulDuration (n : ℤ) (d : Duration) : Duration := Int.bmod (n * d) (2 ^ 64)

namespace FailureWindow

def pruneLocked (c : FailureConfig) (l : FailureWindow K) (now : Time) : FailureWindow K :=
  { entries := l.entries.retain fun entry =>
      if entryExpired entry now c.window then none else some entry
    lastGC := now }

def maybePruneLocked (c : FailureConfig) (l : FailureWindow K) (now : Time) : FailureWindow K :=
  if sweepDue l.entries.size c.maxKeys c.gcEvery l.lastGC now then l.pruneLocked c now else l

def makeRoomLocked (c : FailureConfig) (l : FailureWindow K) : FailureWindow K :=
  { l with entries := l.entries.makeRoom (·.updatedAt) c.maxKeys }

/-- The entry after one more failure. -/
def countFailure (c : FailureConfig) (entry : FailureEntry) (now : Time) : FailureEntry :=
  let entry :=
    if isZero entry.firstFailure || decide (c.window < sub now entry.firstFailure) then
      { firstFailure := now }
    else entry
  let entry := { entry with failures := entry.failures + 1, updatedAt := now }
  if c.threshold ≤ entry.failures then { entry with blockedUntil := now + c.blockFor } else entry

def recordFailureAt (c : FailureConfig) (l : FailureWindow K) (key : K) (now : Time) :
    ℤ × FailureWindow K :=
  let l := l.maybePruneLocked c now
  let entry := (l.entries.lookup key).getD {}
  let l := if key ∈ l.entries then l else l.makeRoomLocked c
  let entry := countFailure c entry now
  (entry.failures, { l with entries := l.entries.insert key entry })

/-- The entry of the key, which is removed if it is expired. -/
def dropExpired (c : FailureConfig) (l : FailureWindow K) (key : K) (now : Time) :
    Option FailureEntry × FailureWindow K :=
  match l.entries.lookup key with
  | none => (none, l)
  | some entry =>
    if entryExpired entry now c.window then (none, { l with entries := l.entries.erase key })
    else (some entry, l)

def blockedAt (c : FailureConfig) (l : FailureWindow K) (key : K) (now : Time) :
    Decision × FailureWindow K :=
  let l := l.maybePruneLocked c now
  let count := ((l.entries.lookup key).getD {}).failures
  match l.dropExpired c key now with
  | (none, l) => ({ allowed := true, count }, l)
  | (some entry, l) =>
    if isZero entry.blockedUntil || !decide (now < entry.blockedUntil) then
      ({ allowed := true, count }, l)
    else ({ retryAfter := sub entry.blockedUntil now, count }, l)

def tarpitDelayAt (c : FailureConfig) (l : FailureWindow K) (key : K) (now : Time) :
    Duration × FailureWindow K :=
  let l := l.maybePruneLocked c now
  match l.dropExpired c key now with
  | (none, l) => (0, l)
  | (some entry, l) =>
    if entry.failures < c.threshold ∨ c.tarpitStep ≤ 0 then (0, l)
    else
      let delay := mulDuration (entry.failures - c.threshold + 1) c.tarpitStep
      if 0 < c.tarpitMax ∧ c.tarpitMax < delay then (c.tarpitMax, l) else (delay, l)

def reset (l : FailureWindow K) (key : K) : FailureWindow K :=
  { l with entries := l.entries.erase key }

def resetAll (l : FailureWindow K) : FailureWindow K := { l with entries := ∅ }

end FailureWindow

/-! ## Runs -/

inductive FailureAction (K : Type*)
  | record (key : K) (now : Time)
  | blocked (key : K) (now : Time)
  | tarpit (key : K) (now : Time)
  | reset (key : K)
  | resetAll

/-- The limiter and the time of the last call on it. -/
structure FailureState (K : Type*) where
  limiter : FailureWindow K := {}
  clock : Time := 0

/-- A call at a time that is not before the last one. -/
def FailureState.call (s : FailureState K) (now : Time) (limiter : FailureWindow K) :
    Option (FailureState K) :=
  if s.clock ≤ now then some ⟨limiter, now⟩ else none

def FailureConfig.step (c : FailureConfig) (s : FailureState K) :
    FailureAction K → Option (FailureState K)
  | .record key now => s.call now (s.limiter.recordFailureAt c key now).2
  | .blocked key now => s.call now (s.limiter.blockedAt c key now).2
  | .tarpit key now => s.call now (s.limiter.tarpitDelayAt c key now).2
  | .reset key => some { s with limiter := s.limiter.reset key }
  | .resetAll => some { s with limiter := s.limiter.resetAll }

/-- A new limiter, at any time. -/
def FailureConfig.system (c : FailureConfig) : System (FailureState K) (FailureAction K) where
  initial s := s.limiter = {}
  step s a t := c.step s a = some t

/-- No reset, and no entry is evicted to make room. -/
def FailureConfig.undisturbed (c : FailureConfig) (s : FailureState K) : FailureAction K → Bool
  | .record key now =>
    let l := s.limiter.maybePruneLocked c now
    decide (key ∈ l.entries) || decide (l.entries.size < c.maxKeys)
  | .blocked _ _ | .tarpit _ _ => true
  | .reset _ | .resetAll => false

/-- The recorded failure comes after the zero time, and if the key is blocked then not more than the
window after its first failure, unless one failure blocks. -/
def FailureConfig.inWindow (c : FailureConfig) (s : FailureState K) : FailureAction K → Bool
  | .record key now =>
    decide (0 < now) && (decide (c.threshold ≤ 1) ||
      (s.limiter.entries.lookup key).all fun entry =>
        decide (entry.blockedUntil ≤ now) || decide (sub now entry.firstFailure ≤ c.window))
  | _ => true

/-! ## What a call does -/

/-- Some entries that are expired are removed, and nothing else happens. -/
structure Swept (c : FailureConfig) (now : Time) (l m : FailureWindow K) : Prop where
  sub : ∀ {key entry}, m.entries.lookup key = some entry → l.entries.lookup key = some entry
  keep : ∀ {key entry}, l.entries.lookup key = some entry →
    entryExpired entry now c.window = false → m.entries.lookup key = some entry

namespace Swept

variable {c : FailureConfig} {nw : Time}

theorem refl (l : FailureWindow K) : Swept c nw l l := ⟨id, fun h _ => h⟩

theorem trans {l m n : FailureWindow K} (hlm : Swept c nw l m) (hmn : Swept c nw m n) :
    Swept c nw l n :=
  ⟨fun h => hlm.sub (hmn.sub h), fun h hl => hmn.keep (hlm.keep h hl) hl⟩

theorem maybePruneLocked (l : FailureWindow K) : Swept c nw l (l.maybePruneLocked c nw) := by
  unfold FailureWindow.maybePruneLocked
  split_ifs
  · refine ⟨fun {key entry} h => ?_, fun {key entry} h hl => ?_⟩
    · rw [FailureWindow.pruneLocked, Table.lookup_retain] at h
      obtain ⟨found, hf, hs⟩ := Option.bind_eq_some_iff.mp h
      split_ifs at hs
      cases hs
      exact hf
    · rw [FailureWindow.pruneLocked, Table.lookup_retain, h]
      simp [hl]
  · exact refl l

theorem dropExpired (l : FailureWindow K) (key : K) : Swept c nw l (l.dropExpired c key nw).2 := by
  unfold FailureWindow.dropExpired
  cases hf : l.entries.lookup key with
  | none => exact refl l
  | some found =>
    simp only
    split_ifs with he
    · refine ⟨fun {other entry} h => ?_, fun {other entry} h hl => ?_⟩
      · by_cases ho : other = key
        · subst ho
          simp at h
        · rwa [AList.lookup_erase_ne ho] at h
      · have ho : other ≠ key := by
          rintro rfl
          rw [hf] at h
          cases h
          simp [he] at hl
        rwa [AList.lookup_erase_ne ho]
    · exact refl l

theorem blockedAt (l : FailureWindow K) (key : K) : Swept c nw l (l.blockedAt c key nw).2 := by
  have hd : Swept c nw (l.maybePruneLocked c nw)
      ((l.maybePruneLocked c nw).dropExpired c key nw).2 := dropExpired _ key
  refine (maybePruneLocked l).trans ?_
  simp only [FailureWindow.blockedAt]
  generalize (l.maybePruneLocked c nw).dropExpired c key nw = dropped at hd ⊢
  obtain ⟨_ | entry, m⟩ := dropped
  · exact hd
  · simp only
    split_ifs <;> exact hd

theorem tarpitDelayAt (l : FailureWindow K) (key : K) :
    Swept c nw l (l.tarpitDelayAt c key nw).2 := by
  have hd : Swept c nw (l.maybePruneLocked c nw)
      ((l.maybePruneLocked c nw).dropExpired c key nw).2 := dropExpired _ key
  refine (maybePruneLocked l).trans ?_
  simp only [FailureWindow.tarpitDelayAt]
  generalize (l.maybePruneLocked c nw).dropExpired c key nw = dropped at hd ⊢
  obtain ⟨_ | entry, m⟩ := dropped
  · exact hd
  · simp only
    split_ifs <;> exact hd

end Swept

variable {c : FailureConfig} {s t : FailureState K}

variable {key : K} {now : Time}

/-- A failure of a key that needs no room made for it. -/
theorem lookup_recordFailureAt {l : FailureWindow K}
    (hr : key ∈ (l.maybePruneLocked c now).entries ∨
      (l.maybePruneLocked c now).entries.size < c.maxKeys) (o : K) :
    (l.recordFailureAt c key now).2.entries.lookup o =
      if o = key then
        some (FailureWindow.countFailure c
          (((l.maybePruneLocked c now).entries.lookup key).getD {}) now)
      else (l.maybePruneLocked c now).entries.lookup o := by
  have hs : (if key ∈ (l.maybePruneLocked c now).entries then l.maybePruneLocked c now
      else (l.maybePruneLocked c now).makeRoomLocked c) = l.maybePruneLocked c now := by
    split_ifs with hm
    · rfl
    · rw [FailureWindow.makeRoomLocked, Table.makeRoom_of_lt (hr.resolve_left hm)]
  simp only [FailureWindow.recordFailureAt, hs]
  split_ifs with ho
  · rw [ho, AList.lookup_insert]
  · rw [AList.lookup_insert_ne ho]

variable {a : FailureAction K}

/-- A step of an undisturbed run sweeps, or sweeps and counts a failure. -/
theorem step_cases (h : c.step s a = some t) (hok : c.undisturbed s a = true) :
    s.clock ≤ t.clock ∧ ∃ m, Swept c t.clock s.limiter m ∧
      (t.limiter = m ∨ ∃ key, a = .record key t.clock ∧ ∀ other, t.limiter.entries.lookup other =
          if other = key then
            some (FailureWindow.countFailure c ((m.entries.lookup key).getD {}) t.clock)
          else m.entries.lookup other) := by
  have hc : ∀ {now limiter}, s.call now limiter = some t → s.clock ≤ now ∧ t = ⟨limiter, now⟩ := by
    intro now limiter hc
    unfold FailureState.call at hc
    split_ifs at hc with hle
    exact ⟨hle, (Option.some.inj hc).symm⟩
  cases a with
  | record key now =>
    obtain ⟨hle, rfl⟩ := hc h
    have hr := hok
    simp only [FailureConfig.undisturbed, Bool.or_eq_true, decide_eq_true_eq] at hr
    exact ⟨hle, _, Swept.maybePruneLocked s.limiter, .inr ⟨key, rfl, lookup_recordFailureAt hr⟩⟩
  | blocked key now =>
    obtain ⟨hle, rfl⟩ := hc h
    exact ⟨hle, _, Swept.blockedAt s.limiter key, .inl rfl⟩
  | tarpit key now =>
    obtain ⟨hle, rfl⟩ := hc h
    exact ⟨hle, _, Swept.tarpitDelayAt s.limiter key, .inl rfl⟩
  | reset | resetAll => simp [FailureConfig.undisturbed] at hok

/-! ## Deadlines -/

/-- An entry that was made after the zero time, with a deadline that a failure at the clock would
not shorten. -/
structure Timely (c : FailureConfig) (clock : Time) (entry : FailureEntry) : Prop where
  clock_pos : 0 < clock
  first_pos : 0 < entry.firstFailure
  deadline : entry.blockedUntil ≤ clock + c.blockFor

variable {entry : FailureEntry}

theorem Timely.later {cl next : Time} (h : Timely c cl entry) (hn : cl ≤ next) :
    Timely c next entry where
  clock_pos := h.clock_pos.trans_le hn
  first_pos := h.first_pos
  deadline := h.deadline.trans (by linarith)

theorem timely_countFailure (hn : 0 < now) (hf : 0 ≤ entry.firstFailure)
    (hdl : entry.blockedUntil ≤ now + c.blockFor) :
    Timely c now (FailureWindow.countFailure c entry now) := by
  have hb : 0 ≤ now + c.blockFor := by linarith [c.blockFor_pos]
  simp only [FailureWindow.countFailure]
  split_ifs with hs
  · exact ⟨hn, hn, le_rfl⟩
  · exact ⟨hn, hn, hb⟩
  all_goals
    have hst : entry.firstFailure ≠ 0 := fun hz => hs (by simp [isZero, hz])
    have hp : 0 < entry.firstFailure := lt_of_le_of_ne hf hst.symm
  · exact ⟨hn, hp, le_rfl⟩
  · exact ⟨hn, hp, hdl⟩

/-- A failure keeps a deadline unless it starts a new count that does not block at once. -/
theorem le_blockedUntil_countFailure {d : Time} (hn : d ≤ now + c.blockFor)
    (he : d ≤ entry.blockedUntil) (hk : c.threshold ≤ 1 ∨
      0 < entry.firstFailure ∧ RateLimit.sub now entry.firstFailure ≤ c.window) :
    d ≤ (FailureWindow.countFailure c entry now).blockedUntil := by
  simp only [FailureWindow.countFailure]
  split_ifs with hs ho
  · exact hn
  · -- the count has started again
    rcases hk with ht | ⟨hf, hw⟩
    · exact absurd ht ho
    · simp only [isZero, Bool.or_eq_true, beq_iff_eq, decide_eq_true_eq] at hs
      rcases hs with hz | hp
      · exact absurd hz hf.ne'
      · exact absurd hw (not_le.mpr hp)
  · exact hn
  · exact he

/-- Every entry is timely, and until the deadline the key has an entry that blocks it so long. -/
structure BlockedUntil (c : FailureConfig) (key : K) (deadline : Time) (s : FailureState K) :
    Prop where
  bound : deadline ≤ s.clock + c.blockFor
  blocks : s.clock < deadline →
    ∃ entry, s.limiter.entries.lookup key = some entry ∧ deadline ≤ entry.blockedUntil

def AllTimely (c : FailureConfig) (s : FailureState K) : Prop :=
  ∀ {key entry}, s.limiter.entries.lookup key = some entry → Timely c s.clock entry

theorem AllTimely.step (hs : AllTimely c s) (h : c.step s a = some t)
    (hok : c.undisturbed s a = true) (hin : c.inWindow s a = true) : AllTimely c t := by
  obtain ⟨hc, m, hsw, hlm⟩ := step_cases h hok
  have hm : ∀ {key entry}, m.entries.lookup key = some entry → Timely c t.clock entry :=
    fun hf => (hs (hsw.sub hf)).later hc
  intro key entry hf
  rcases hlm with hq | ⟨failed, rfl, hl⟩
  · exact hm (hq ▸ hf)
  · rw [hl] at hf
    split_ifs at hf
    · cases hf
      have hn : 0 < t.clock := by
        simp only [FailureConfig.inWindow, Bool.and_eq_true, decide_eq_true_eq] at hin
        exact hin.1
      cases ho : m.entries.lookup failed with
      | none =>
        exact timely_countFailure hn le_rfl (by
          change (0 : ℤ) ≤ t.clock + c.blockFor
          linarith [c.blockFor_pos])
      | some o =>
        have ht := hm ho
        exact timely_countFailure hn ht.first_pos.le ht.deadline
    · exact hm hf

theorem entryExpired_of_blocked (w : Duration) (hs : entry.blockedUntil ≠ 0)
    (hn : now < entry.blockedUntil) :
    entryExpired entry now w = false := by
  simp [entryExpired, isZero, hs, hn]

/-- A key is denied exactly when it has an entry with a deadline ahead. -/
theorem blockedAt_denied_iff {l : FailureWindow K} : (l.blockedAt c key now).1.allowed = false ↔
      ∃ entry, l.entries.lookup key = some entry ∧ entry.blockedUntil ≠ 0 ∧
        now < entry.blockedUntil := by
  have hs : Swept c now l (l.maybePruneLocked c now) := Swept.maybePruneLocked l
  simp only [FailureWindow.blockedAt, FailureWindow.dropExpired]
  constructor
  · intro hd
    cases hf : (l.maybePruneLocked c now).entries.lookup key with
    | none => simp [hf] at hd
    | some entry =>
      refine ⟨entry, hs.sub hf, ?_⟩
      simp only [hf] at hd
      by_cases he : entryExpired entry now c.window = true
      · simp [he] at hd
      · by_cases ho : (isZero entry.blockedUntil || !decide (now < entry.blockedUntil)) = true
        · simp [he, ho] at hd
        · simpa [isZero] using ho
  · rintro ⟨entry, hf, hst, hn⟩
    have hl := entryExpired_of_blocked c.window hst hn
    simp [hs.keep hf hl, hl, isZero, hst, hn]

theorem BlockedUntil.step {d : Time} (hs : BlockedUntil c key d s) (ht : AllTimely c s)
    (h : c.step s a = some t) (hok : c.undisturbed s a = true) (hin : c.inWindow s a = true) :
    BlockedUntil c key d t := by
  obtain ⟨hc, m, hsw, hlm⟩ := step_cases h hok
  refine ⟨hs.bound.trans (by linarith), fun ha => ?_⟩
  obtain ⟨entry, hf, he⟩ := hs.blocks (hc.trans_lt ha)
  have hol := ht hf
  have hl : entryExpired entry t.clock c.window = false := by
    refine entryExpired_of_blocked c.window ?_ (ha.trans_le he)
    linarith [hol.clock_pos, hc]
  have hk := hsw.keep hf hl
  rcases hlm with hq | ⟨failed, rfl, hlk⟩
  · exact ⟨entry, hq ▸ hk, he⟩
  · by_cases hky : key = failed
    · subst hky
      refine ⟨_, by rw [hlk, if_pos rfl], ?_⟩
      simp only [FailureConfig.inWindow, hf, Option.all_some, Bool.and_eq_true, Bool.or_eq_true,
        decide_eq_true_eq] at hin
      rw [hk]
      refine le_blockedUntil_countFailure (hs.bound.trans (by linarith)) he ?_
      rcases hin.2 with hon | ho | hw
      · exact .inl hon
      · exact absurd ho (not_le.mpr (ha.trans_le he))
      · exact .inr ⟨hol.first_pos, hw⟩
    · exact ⟨entry, by rw [hlk, if_neg hky]; exact hk, he⟩

/-- The runs without resets and evictions in which no failure is recorded for a blocked key when its
first one is out of the window. -/
def FailureConfig.steady (c : FailureConfig) : System (FailureState K) (FailureAction K) :=
  c.system.guarded fun s a => (c.undisturbed s a && c.inWindow s a) = true

theorem steady_step (h : c.steady.step s a t) :
    c.step s a = some t ∧ c.undisturbed s a = true ∧ c.inWindow s a = true := by
  obtain ⟨hok, hs⟩ := h
  rw [Bool.and_eq_true] at hok
  exact ⟨hs, hok.1, hok.2⟩

theorem allTimely_of_reachable (h : c.steady.Reachable s) : AllTimely c s := by
  refine h.invariant (I := fun s => AllTimely c s) ?_ ?_
  · intro s hi key entry hf
    change s.limiter = {} at hi
    rw [hi] at hf
    cases hf
  · intro s a t hs hst
    obtain ⟨hst, hok, hin⟩ := steady_step hst
    exact AllTimely.step hs hst hok hin

/-- Once a key is denied with a deadline, it is denied until the deadline. -/
theorem blockedAt_stable (c : FailureConfig) {key : K} {now : Time} {entry : FailureEntry}
    (hs : c.steady.Reachable s) (hclock : s.clock ≤ now)
    (hentry : s.limiter.entries.lookup key = some entry)
    (hdenied : (s.limiter.blockedAt c key now).1.allowed = false)
    (hlater : c.steady.Later ⟨(s.limiter.blockedAt c key now).2, now⟩ t) {later : Time}
    (hafter : t.clock ≤ later) (hbefore : later < entry.blockedUntil) :
    (t.limiter.blockedAt c key later).1.allowed = false := by
  have ht : AllTimely c s := allTimely_of_reachable hs
  obtain ⟨found, hf, hse, ha⟩ := blockedAt_denied_iff.mp hdenied
  obtain rfl : found = entry := Option.some.inj (hf.symm.trans hentry)
  have hfr : c.steady.step s (.blocked key now) ⟨(s.limiter.blockedAt c key now).2, now⟩ :=
    ⟨rfl, if_pos hclock⟩
  have hbl : BlockedUntil c key found.blockedUntil ⟨(s.limiter.blockedAt c key now).2, now⟩ := by
    refine ⟨?_, fun _ => ⟨found, ?_, le_rfl⟩⟩
    · have hb := (ht hf).deadline
      simp only
      linarith
    · exact (Swept.blockedAt s.limiter key).keep hf (entryExpired_of_blocked _ hse ha)
  have hr : BlockedUntil c key found.blockedUntil t ∧ AllTimely c t := by
    refine hlater.preserves (I := fun s => BlockedUntil c key found.blockedUntil s ∧ AllTimely c s) ?_
      ⟨hbl, allTimely_of_reachable (hs.step hfr)⟩
    rintro s a t ⟨hbl, ht⟩ hst
    obtain ⟨hst, hok, hin⟩ := steady_step hst
    exact ⟨hbl.step ht hst hok hin, AllTimely.step ht hst hok hin⟩
  obtain ⟨last, hl, hle⟩ := hr.1.blocks (hafter.trans_lt hbefore)
  have hp := (hr.2 hl).clock_pos
  exact blockedAt_denied_iff.mpr ⟨last, hl, by linarith, hbefore.trans_le hle⟩

/-- The limiter of the logins. -/
def loginConfig : FailureConfig where
  window := 15 * minute
  threshold := 5
  blockFor := 15 * minute
  maxKeys := 4096
  gcEvery := minute
  tarpitStep := second
  tarpitMax := 8 * second
  window_pos := by decide
  threshold_pos := by decide
  blockFor_pos := by decide
  maxKeys_pos := by decide

/-- The limiter of the logins when one address has failed, at seconds after the zero time. -/
def failedLogins (failures first blockedUntil updated lastGC clock : ℤ) : FailureState String where
  limiter :=
    { entries := AList.singleton "203.0.113.9"
        ⟨failures, first * second, blockedUntil * second, updated * second⟩
      lastGC := lastGC * second }
  clock := clock * second

/-- A failure of the address. -/
def failureAt (seconds : ℤ) : FailureAction String := .record "203.0.113.9" (seconds * second)

theorem blockedAt_stable_logins :
    ((failedLogins 6 1000 1910 1010 1000 1010).limiter.blockedAt loginConfig "203.0.113.9"
      (1903 * second)).1.allowed = false := by
  have h1 : loginConfig.steady.Later {} (failedLogins 1 1000 0 1000 1000 1000) :=
    .tail (a := failureAt 1000) .refl ⟨rfl, rfl⟩
  have h2 : loginConfig.steady.Later {} (failedLogins 2 1000 0 1001 1000 1001) :=
    .tail (a := failureAt 1001) h1 ⟨rfl, rfl⟩
  have h3 : loginConfig.steady.Later {} (failedLogins 3 1000 0 1002 1000 1002) :=
    .tail (a := failureAt 1002) h2 ⟨rfl, rfl⟩
  have h4 : loginConfig.steady.Later {} (failedLogins 4 1000 0 1003 1000 1003) :=
    .tail (a := failureAt 1003) h3 ⟨rfl, rfl⟩
  have h5 : loginConfig.steady.Later {} (failedLogins 5 1000 1904 1004 1000 1004) :=
    .tail (a := failureAt 1004) h4 ⟨rfl, rfl⟩
  have he : (failedLogins 5 1000 1904 1004 1000 1004).limiter.entries.lookup "203.0.113.9" =
      some ⟨5, 1000 * second, 1904 * second, 1004 * second⟩ := rfl
  have hd : ((failedLogins 5 1000 1904 1004 1000 1004).limiter.blockedAt loginConfig
      "203.0.113.9" (1005 * second)).1.allowed = false := by decide +kernel
  have hl : loginConfig.steady.Later
      ⟨((failedLogins 5 1000 1904 1004 1000 1004).limiter.blockedAt loginConfig "203.0.113.9"
        (1005 * second)).2, 1005 * second⟩ (failedLogins 6 1000 1910 1010 1000 1010) :=
    .tail (a := failureAt 1010) .refl ⟨rfl, rfl⟩
  have ha : (failedLogins 6 1000 1910 1010 1000 1010).clock ≤ 1903 * second := by decide
  exact blockedAt_stable loginConfig ⟨{}, rfl, h5⟩ (by decide) he hd hl ha
    (by decide)

/-- The runs without resets and evictions. -/
def FailureConfig.calm (c : FailureConfig) : System (FailureState K) (FailureAction K) :=
  c.system.guarded fun s a => c.undisturbed s a = true

/-- The fifth failure blocks the address for a quarter of an hour. A failure that is recorded seconds
later, when the first one has left the window, lifts the block. -/
theorem late_failure_lifts_block :
    loginConfig.calm.Reachable (failedLogins 5 1000 2793 1893 1890 1893) ∧
      ((failedLogins 5 1000 2793 1893 1890 1893).limiter.blockedAt loginConfig "203.0.113.9"
        (1894 * second)).1.allowed = false ∧
      loginConfig.calm.Later
        ⟨((failedLogins 5 1000 2793 1893 1890 1893).limiter.blockedAt loginConfig "203.0.113.9"
          (1894 * second)).2, 1894 * second⟩ (failedLogins 1 1901 0 1901 1890 1901) ∧
      ((failedLogins 1 1901 0 1901 1890 1901).limiter.blockedAt loginConfig "203.0.113.9"
        (1902 * second)).1.allowed = true := by
  have h1 : loginConfig.calm.Later {} (failedLogins 1 1000 0 1000 1000 1000) :=
    .tail (a := failureAt 1000) .refl ⟨rfl, rfl⟩
  have h2 : loginConfig.calm.Later {} (failedLogins 2 1000 0 1890 1890 1890) :=
    .tail (a := failureAt 1890) h1 ⟨rfl, rfl⟩
  have h3 : loginConfig.calm.Later {} (failedLogins 3 1000 0 1891 1890 1891) :=
    .tail (a := failureAt 1891) h2 ⟨rfl, rfl⟩
  have h4 : loginConfig.calm.Later {} (failedLogins 4 1000 0 1892 1890 1892) :=
    .tail (a := failureAt 1892) h3 ⟨rfl, rfl⟩
  have h5 : loginConfig.calm.Later {} (failedLogins 5 1000 2793 1893 1890 1893) :=
    .tail (a := failureAt 1893) h4 ⟨rfl, rfl⟩
  refine ⟨⟨{}, rfl, h5⟩, by decide +kernel, ?_, by decide +kernel⟩
  exact .tail (a := failureAt 1901) .refl ⟨rfl, rfl⟩

end Solovey.RateLimit
