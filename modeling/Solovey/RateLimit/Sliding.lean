import Solovey.RateLimit.Common

/-!
# The sliding window

`util/ratelimit/sliding.go`: a limiter that keeps, for each key, the times of its allowed calls in
the window. Old times are dropped when their key is asked for and in sweeps. `Represents` says that
what is kept decides as the whole history would; every call keeps it while the keys fit.
-/

namespace Solovey.RateLimit

open Solovey.Data List

variable {K : Type*} [DecidableEq K]

/-! ## The limiter -/

structure SlidingEntry where
  timestamps : List Time := []
  updatedAt : Time := 0
deriving DecidableEq, Repr

/-- What `NewSlidingWindow` takes; it panics where a bound does not hold. -/
structure SlidingConfig where
  window : Duration
  limit : ℤ
  maxKeys : ℕ
  gcEvery : Duration
  window_pos : 0 < window
  window_le : window ≤ maxDuration
  maxKeys_pos : 0 < maxKeys

structure SlidingWindow (K : Type*) where
  entries : Table K SlidingEntry := ∅
  lastGC : Time := 0

/-- The times after the cutoff. -/
def pruneTimestamps (timestamps : List Time) (cutoff : Time) : List Time :=
  timestamps.dropWhile (· ≤ cutoff)

namespace SlidingWindow

/-- An entry that is left with no time is removed. -/
def pruneEntry (cutoff : Time) (entry : SlidingEntry) : Option SlidingEntry :=
  let timestamps := pruneTimestamps entry.timestamps cutoff
  if timestamps.isEmpty then none else some { entry with timestamps }

def pruneLocked (c : SlidingConfig) (l : SlidingWindow K) (now : Time) : SlidingWindow K :=
  { entries := l.entries.retain (pruneEntry (now - c.window)), lastGC := now }

def maybePruneLocked (c : SlidingConfig) (l : SlidingWindow K) (now : Time) : SlidingWindow K :=
  if sweepDue l.entries.size c.maxKeys c.gcEvery l.lastGC now then l.pruneLocked c now else l

def makeRoomLocked (c : SlidingConfig) (l : SlidingWindow K) : SlidingWindow K :=
  { l with entries := l.entries.makeRoom (·.updatedAt) c.maxKeys }

def allowWithLimitAt (c : SlidingConfig) (l : SlidingWindow K) (key : K) (limit : ℤ) (now : Time) :
    Decision × SlidingWindow K :=
  let l := l.maybePruneLocked c now
  let entry := (l.entries.lookup key).getD {}
  let l := if key ∈ l.entries then l else l.makeRoomLocked c
  let timestamps := pruneTimestamps entry.timestamps (now - c.window)
  if limit ≤ 0 ∨ limit ≤ timestamps.length then
    let deadline := (timestamps.head?.getD now) + c.window
    ({ retryAfter := retryAfter deadline now c.window, count := timestamps.length },
      { l with entries := l.entries.insert key ⟨timestamps, now⟩ })
  else
    let timestamps := timestamps ++ [now]
    ({ allowed := true, count := timestamps.length },
      { l with entries := l.entries.insert key ⟨timestamps, now⟩ })

def allowAt (c : SlidingConfig) (l : SlidingWindow K) (key : K) (now : Time) :
    Decision × SlidingWindow K :=
  l.allowWithLimitAt c key c.limit now

end SlidingWindow

/-! ## Histories -/

structure Call (K : Type*) where
  key : K
  time : Time
deriving DecidableEq, Repr

/-- A call on the limiter, with the allowed calls before it. -/
def SlidingConfig.call (c : SlidingConfig) (s : SlidingWindow K × List (Call K)) (x : Call K) :
    SlidingWindow K × List (Call K) :=
  let (decision, l) := s.1.allowAt c x.key x.time
  (l, if decision.allowed then s.2 ++ [x] else s.2)

/-- The calls on a new limiter. -/
def SlidingConfig.run (c : SlidingConfig) (calls : List (Call K)) :
    SlidingWindow K × List (Call K) :=
  calls.foldl c.call ({}, [])

/-- The decision on a call that follows others. -/
def SlidingConfig.decision (c : SlidingConfig) (before : List (Call K)) (x : Call K) : Decision :=
  ((c.run before).1.allowAt c x.key x.time).1

/-- The calls that a new limiter allows. -/
def SlidingConfig.allowedCalls (c : SlidingConfig) (calls : List (Call K)) : List (Call K) :=
  (c.run calls).2

def timesOf (key : K) (calls : List (Call K)) : List Time :=
  (calls.filter (·.key = key)).map (·.time)

/-- The number of the times in the interval `(start, stop]`. -/
def countIn (start stop : Time) (times : List Time) : ℕ :=
  times.countP fun t => start < t ∧ t ≤ stop

theorem timesOf_append_self (history : List (Call K)) (x : Call K) :
    timesOf x.key (history ++ [x]) = timesOf x.key history ++ [x.time] := by
  simp [timesOf]

variable {key : K} {x : Call K}

theorem timesOf_append_ne (h : x.key ≠ key) (history : List (Call K)) :
    timesOf key (history ++ [x]) = timesOf key history := by
  simp [timesOf, h]

theorem mem_timesOf {history : List (Call K)} {t : Time} (h : t ∈ timesOf key history) :
    ∃ x ∈ history, x.time = t := by
  obtain ⟨x, hx, rfl⟩ := mem_map.mp h
  exact ⟨x, (mem_filter.mp hx).1, rfl⟩

/-- Of times up to `stop`, those in `(start, stop]` are those after `start`. -/
theorem countIn_eq_length_filter {start stop : Time} {ts : List Time} (h : ∀ t ∈ ts, t ≤ stop) :
    countIn start stop ts = (ts.filter (start < ·)).length := by
  rw [countIn, countP_eq_length_filter]
  congr 1
  refine filter_congr fun t ht => ?_
  simp [h t ht]

theorem countIn_append_singleton (s st : Time) (ts : List Time) (t : Time) :
    countIn s st (ts ++ [t]) = countIn s st ts + if s < t ∧ t ≤ st then 1 else 0 := by
  simp only [countIn, countP_append, countP_singleton, decide_eq_true_eq]

/-! ## Pruning -/

theorem pruneTimestamps_pruneTimestamps {e lt : Time} (h : e ≤ lt) (ts : List Time) :
    pruneTimestamps (pruneTimestamps ts e) lt = pruneTimestamps ts lt := by
  induction ts with
  | nil => rfl
  | cons t ts ih =>
    unfold pruneTimestamps at ih ⊢
    by_cases he : t ≤ e
    · have hl : t ≤ lt := he.trans h
      rw [dropWhile_cons_of_pos (by simpa using he),
        dropWhile_cons_of_pos (by simpa using hl), ih]
    · rw [dropWhile_cons_of_neg (by simpa using he)]

/-- A new latest time is kept together with any time that is kept before it. -/
theorem pruneTimestamps_append {ts history : List Time} {ct nw : Time}
    (hk : pruneTimestamps ts ct = history.filter (ct < ·)) (hp : ∀ t ∈ history, t ≤ nw) :
    pruneTimestamps (ts ++ [nw]) ct = (history ++ [nw]).filter (ct < ·) := by
  unfold pruneTimestamps at hk ⊢
  rw [dropWhile_append, hk, filter_append]
  cases hf : history.filter (ct < ·) with
  | nil =>
    by_cases hn : nw ≤ ct
    · simp [hn]
    · simp [hn, not_le.mp hn]
  | cons t rest =>
    have ht : t ∈ history.filter (ct < ·) := hf ▸ mem_cons_self
    obtain ⟨hm, ha⟩ := mem_filter.mp ht
    have hn : ct < nw := (of_decide_eq_true ha).trans_le (hp t hm)
    simp [hn]

/-- The times that the limiter keeps of a key. -/
def SlidingWindow.timestamps (l : SlidingWindow K) (key : K) : List Time :=
  ((l.entries.lookup key).getD {}).timestamps

theorem timestamps_pruneLocked (c : SlidingConfig) (l : SlidingWindow K) (nw : Time) (key : K) :
    (l.pruneLocked c nw).timestamps key = pruneTimestamps (l.timestamps key) (nw - c.window) := by
  unfold SlidingWindow.timestamps SlidingWindow.pruneLocked
  rw [Table.lookup_retain]
  cases l.entries.lookup key with
  | none => rfl
  | some e =>
    simp only [Option.bind_some, SlidingWindow.pruneEntry, Option.getD_some]
    split_ifs with he
    · exact (List.isEmpty_iff.mp he).symm
    · rfl

theorem timestamps_insert (l : SlidingWindow K) (key : K) (e : SlidingEntry) :
    ({ l with entries := l.entries.insert key e } : SlidingWindow K).timestamps key =
      e.timestamps := by
  simp [SlidingWindow.timestamps]

theorem timestamps_insert_ne {o : K} (h : o ≠ key) (l : SlidingWindow K) (e : SlidingEntry) :
    ({ l with entries := l.entries.insert key e } : SlidingWindow K).timestamps o =
      l.timestamps o := by
  simp [SlidingWindow.timestamps, AList.lookup_insert_ne h]

/-! ## What the limiter stands for -/

/-- At any time from `now` on the kept times of a key that are still in the window are the times of
its allowed calls there. -/
structure Represents (c : SlidingConfig) (seen : List K) (now : Time) (l : SlidingWindow K)
    (history : List (Call K)) : Prop where
  kept : ∀ key later, now ≤ later →
    pruneTimestamps (l.timestamps key) (later - c.window) =
      (timesOf key history).filter (later - c.window < ·)
  past : ∀ x ∈ history, x.time ≤ now
  keys : l.entries.keys ⊆ seen

namespace Represents

variable {c : SlidingConfig} {s : List K} {n : Time} {l : SlidingWindow K}
  {history : List (Call K)}

section

variable (h : Represents c s n l history)
include h

theorem timesOf_le (key : K) : ∀ t ∈ timesOf key history, t ≤ n := by
  intro t ht
  obtain ⟨x, hx, rfl⟩ := mem_timesOf ht
  exact h.past x hx

theorem later {next : Time} (hn : n ≤ next) : Represents c s next l history where
  kept := fun key later hl => h.kept key later (hn.trans hl)
  past := fun x hx => (h.past x hx).trans hn
  keys := h.keys

theorem maybePruneLocked : Represents c s n (l.maybePruneLocked c n) history := by
  unfold SlidingWindow.maybePruneLocked
  split_ifs with hd
  · refine ⟨fun key later hl => ?_, h.past, ?_⟩
    · rw [timestamps_pruneLocked, pruneTimestamps_pruneTimestamps (sub_le_sub_right hl _)]
      exact h.kept key later hl
    · exact fun key hk => h.keys ((Table.keys_retain _ _).subset hk)
  · exact h

/-- Writing a key's times in the window, with the call itself where it is allowed. -/
theorem insert {key : K} (hky : key ∈ s) (a : Bool) {ts : List Time}
    (ht : ts = pruneTimestamps (l.timestamps key) (n - c.window) ++
      if a then [n] else []) :
    Represents c s n { l with entries := l.entries.insert key ⟨ts, n⟩ }
      (if a then history ++ [⟨key, n⟩] else history) := by
  subst ht
  refine ⟨fun other later hl => ?_, ?_, Table.keys_insert_subset hky h.keys⟩
  · have hc : n - c.window ≤ later - c.window := sub_le_sub_right hl _
    by_cases ho : other = key
    · subst ho
      have hk := h.kept other later hl
      rw [timestamps_insert]
      cases a with
      | false =>
        rw [← pruneTimestamps_pruneTimestamps hc] at hk
        simpa using hk
      | true =>
        rw [← pruneTimestamps_pruneTimestamps hc] at hk
        simp only [if_true, timesOf_append_self history ⟨other, n⟩]
        exact pruneTimestamps_append hk (h.timesOf_le other)
    · rw [timestamps_insert_ne ho, h.kept other later hl]
      cases a with
      | false => rfl
      | true => rw [if_pos rfl, timesOf_append_ne (Ne.symm ho)]
  · cases a with
    | false => exact h.past
    | true =>
      intro x hx
      rcases mem_append.mp hx with hx | hx
      · exact h.past x hx
      · rw [mem_singleton.mp hx]

/-- While the keys fit nothing is removed to make room. -/
theorem makeRoomLocked_eq {key : K} (hk : key ∈ s) (hf : s.dedup.length ≤ c.maxKeys) :
    (if key ∈ l.entries then l else l.makeRoomLocked c) = l := by
  split_ifs with hm
  · rfl
  · have hlt : l.entries.size < c.maxKeys := (Table.size_lt hk hm h.keys).trans_le hf
    rw [SlidingWindow.makeRoomLocked, Table.makeRoom_of_lt hlt]

end

end Represents

/-- The times of the allowed calls of a key that are in the window. -/
def SlidingConfig.recent (c : SlidingConfig) (history : List (Call K)) (x : Call K) : List Time :=
  (timesOf x.key history).filter (x.time - c.window < ·)

/-- The decision from the history. -/
def SlidingConfig.decideFrom (c : SlidingConfig) (history : List (Call K)) (x : Call K) : Decision :=
  let recent := c.recent history x
  if c.limit ≤ recent.length then
    { retryAfter := retryAfter (recent.head?.getD x.time + c.window) x.time c.window,
      count := recent.length }
  else { allowed := true, count := recent.length + 1 }

theorem Represents.allowAt {c : SlidingConfig} {se : List K} {l : SlidingWindow K}
    {history : List (Call K)} (h : Represents c se x.time l history) (hk : x.key ∈ se)
    (hft : se.dedup.length ≤ c.maxKeys) :
    (l.allowAt c x.key x.time).1 = c.decideFrom history x ∧
      Represents c se x.time (l.allowAt c x.key x.time).2
        (if (c.decideFrom history x).allowed then history ++ [x] else history) := by
  have hp := h.maybePruneLocked
  have hr : pruneTimestamps ((l.maybePruneLocked c x.time).timestamps x.key)
      (x.time - c.window) = c.recent history x := hp.kept x.key x.time le_rfl
  have hl : (c.limit ≤ 0 ∨ c.limit ≤ (c.recent history x).length) ↔
      c.limit ≤ (c.recent history x).length :=
    or_iff_right_of_imp fun hn => hn.trans (Int.natCast_nonneg _)
  have he := hr
  unfold SlidingWindow.timestamps at he
  simp only [SlidingWindow.allowAt, SlidingWindow.allowWithLimitAt,
    hp.makeRoomLocked_eq hk hft, he, hl, SlidingConfig.decideFrom]
  by_cases hf : c.limit ≤ (c.recent history x).length
  · simp only [if_pos hf]
    exact ⟨trivial, hp.insert hk false (by rw [hr]; simp)⟩
  · simp only [if_neg hf, length_append, length_singleton, Nat.cast_add, Nat.cast_one]
    exact ⟨trivial, hp.insert hk true (by rw [hr]; simp)⟩

/-! ## Runs -/

/-- Calls in the order of their times, with no more keys than fit. -/
structure SlidingConfig.Fits (c : SlidingConfig) (seen : List K) (calls : List (Call K)) : Prop where
  sorted : calls.Pairwise (·.time ≤ ·.time)
  known : ∀ x ∈ calls, x.key ∈ seen
  room : seen.dedup.length ≤ c.maxKeys

variable {c : SlidingConfig} {sn : List K}

variable {calls : List (Call K)}

theorem SlidingConfig.Fits.append {r : List (Call K)} (h : c.Fits sn (calls ++ r)) :
    c.Fits sn calls :=
  ⟨(pairwise_append.mp h.sorted).1, fun x hx => h.known x (mem_append_left _ hx), h.room⟩

theorem SlidingConfig.Fits.le (h : c.Fits sn (calls ++ [x])) :
    ∀ y ∈ calls, y.time ≤ x.time := fun y hy =>
  (pairwise_append.mp h.sorted).2.2 y hy x (mem_singleton_self x)

theorem run_append_singleton (calls : List (Call K)) (x : Call K) :
    c.run (calls ++ [x]) = c.call (c.run calls) x := by
  simp [SlidingConfig.run]

theorem represents_new (nw : Time) : Represents c sn nw ({} : SlidingWindow K) [] where
  kept := fun key later _ => rfl
  past := by simp
  keys := by simp

theorem represents_run (h : c.Fits sn calls) {nw : Time} (hn : ∀ x ∈ calls, x.time ≤ nw) :
    Represents c sn nw (c.run calls).1 (c.allowedCalls calls) := by
  induction calls using List.reverseRecOn generalizing nw with
  | nil => exact represents_new nw
  | append_singleton calls x ih =>
    have hl := mem_append_right calls (mem_singleton_self x)
    have hs := (ih h.append h.le).allowAt (h.known x hl) h.room
    unfold SlidingConfig.allowedCalls
    rw [run_append_singleton]
    simp only [SlidingConfig.call, hs.1]
    exact hs.2.later (hn x hl)

theorem decision_eq (h : c.Fits sn (calls ++ [x])) :
    c.decision calls x = c.decideFrom (c.allowedCalls calls) x :=
  ((represents_run h.append h.le).allowAt
    (h.known x (mem_append_right calls (mem_singleton_self x))) h.room).1

theorem allowedCalls_append (calls : List (Call K)) (x : Call K) : c.allowedCalls (calls ++ [x]) =
      if (c.decision calls x).allowed then c.allowedCalls calls ++ [x] else c.allowedCalls calls := by
  simp only [SlidingConfig.allowedCalls, run_append_singleton]
  rfl

theorem timesOf_allowedCalls_le (h : c.Fits sn (calls ++ [x])) (key : K) :
    ∀ t ∈ timesOf key (c.allowedCalls calls), t ≤ x.time :=
  (represents_run h.append h.le).timesOf_le key

theorem decision_allowed (h : c.Fits sn (calls ++ [x])) : (c.decision calls x).allowed = true ↔
      (countIn (x.time - c.window) x.time (timesOf x.key (c.allowedCalls calls)) : ℤ) < c.limit := by
  rw [decision_eq h, countIn_eq_length_filter (timesOf_allowedCalls_le h x.key)]
  change (c.decideFrom _ x).allowed = true ↔ ((c.recent _ x).length : ℤ) < c.limit
  simp only [SlidingConfig.decideFrom]
  split_ifs with hf
  · simpa using hf
  · simpa using hf

/-- An allowed call is the last of at most `limit` in every interval that contains it. -/
theorem countIn_allowedCalls_le (h : c.Fits sn calls) (key : K) (s : Time) :
    (countIn s (s + c.window) (timesOf key (c.allowedCalls calls)) : ℤ) ≤ max c.limit 0 := by
  induction calls using List.reverseRecOn with
  | nil => exact le_max_right _ _
  | append_singleton calls x ih =>
    have ih := ih h.append
    rw [allowedCalls_append]
    split_ifs with ha
    · by_cases hk : x.key = key
      · subst hk
        rw [timesOf_append_self, countIn_append_singleton]
        split_ifs with hin
        · -- the earlier ones of the interval are in the window of the call
          have hs : countIn s (s + c.window) (timesOf x.key (c.allowedCalls calls)) ≤
              countIn (x.time - c.window) x.time (timesOf x.key (c.allowedCalls calls)) := by
            refine countP_mono_left fun t ht hw => ?_
            have hle := timesOf_allowedCalls_le h x.key t ht
            simp only [decide_eq_true_eq] at hw ⊢
            exact ⟨by linarith, hle⟩
          have hf := (decision_allowed h).mp ha
          exact le_max_of_le_left (by omega)
        · exact ih
      · rwa [timesOf_append_ne hk]
    · exact ih

/-- Calls of other keys allow none of this key. -/
theorem timesOf_allowedCalls_between (calls : List (Call K)) {b : List (Call K)}
    (h : ∀ z ∈ b, z.key ≠ key) :
    timesOf key (c.allowedCalls (calls ++ b)) = timesOf key (c.allowedCalls calls) := by
  induction b using List.reverseRecOn with
  | nil => rw [append_nil]
  | append_singleton b z ih =>
    have hz : z.key ≠ key := h z (mem_append_right _ (mem_singleton_self z))
    have ih := ih fun y hy => h y (mem_append_left _ hy)
    rw [← append_assoc, allowedCalls_append]
    split_ifs
    · rw [timesOf_append_ne hz, ih]
    · exact ih

/-- A denied caller is told when its oldest call leaves the window. -/
theorem retryAfter_denied (h : c.Fits sn (calls ++ [x])) (hl : 0 < c.limit)
    (hd : (c.decision calls x).allowed = false) :
    ∃ o rest, c.recent (c.allowedCalls calls) x = o :: rest ∧
      x.time + (c.decision calls x).retryAfter = o + c.window := by
  rw [decision_eq h] at hd ⊢
  simp only [SlidingConfig.decideFrom] at hd ⊢
  split_ifs at hd ⊢ with hf
  cases hr : c.recent (c.allowedCalls calls) x with
  | nil =>
    rw [hr] at hf
    exact absurd hf (not_le.mpr hl)
  | cons o rest =>
    have hm : o ∈ c.recent (c.allowedCalls calls) x := hr ▸ mem_cons_self
    obtain ⟨ht, hin⟩ := mem_filter.mp hm
    have hin : x.time - c.window < o := of_decide_eq_true hin
    have hp := timesOf_allowedCalls_le h x.key o ht
    have hs : sub (o + c.window) x.time = o + c.window - x.time :=
      sub_eq (by linarith) (by linarith [c.window_le])
    refine ⟨o, rest, rfl, ?_⟩
    simp only [head?_cons, Option.getD_some, retryAfter, hs]
    rw [if_neg (by linarith)]
    ring

theorem decision_after_retry {b : List (Call K)} {y : Call K}
    (h : c.Fits sn (calls ++ [x] ++ b ++ [y])) (hl : 0 < c.limit) (hk : y.key = x.key)
    (hbt : ∀ z ∈ b, z.key ≠ x.key) (hd : (c.decision calls x).allowed = false)
    (hbc : x.time + (c.decision calls x).retryAfter ≤ y.time) :
    (c.decision (calls ++ [x] ++ b) y).allowed = true := by
  have hx : c.Fits sn (calls ++ [x]) := h.append.append
  obtain ⟨o, rest, hr, hdl⟩ := retryAfter_denied hx hl hd
  have ht : timesOf x.key (c.allowedCalls (calls ++ [x] ++ b)) =
      timesOf x.key (c.allowedCalls calls) := by
    rw [timesOf_allowedCalls_between _ hbt, allowedCalls_append, hd]
    rfl
  have hf : ((c.recent (c.allowedCalls calls) x).length : ℤ) ≤ c.limit := by
    have hb := countIn_allowedCalls_le hx.append x.key (x.time - c.window)
    rwa [sub_add_cancel, max_eq_left hl.le,
      countIn_eq_length_filter (timesOf_allowedCalls_le hx x.key)] at hb
  have hxy : x.time ≤ y.time := h.le x (by simp)
  have hfl : (timesOf x.key (c.allowedCalls calls)).filter (y.time - c.window < ·) =
      (c.recent (c.allowedCalls calls) x).filter (y.time - c.window < ·) := by
    rw [SlidingConfig.recent, filter_filter]
    refine filter_congr fun t _ => ?_
    rw [← Bool.decide_and, decide_eq_decide]
    exact ⟨fun hin => ⟨hin, by linarith⟩, And.left⟩
  have hg : ¬y.time - c.window < o := by linarith
  rw [decision_allowed h, countIn_eq_length_filter (timesOf_allowedCalls_le h y.key), hk, ht,
    hfl, hr, filter_cons_of_neg (by simpa using hg)]
  rw [hr, length_cons] at hf
  have hle : (rest.filter (y.time - c.window < ·)).length ≤ rest.length := length_filter_le _ _
  omega

/-- A new limiter decides every call from the whole history of the allowed calls: it allows a call
exactly when the calls of its key that were allowed in the window are fewer than the limit. So it
allows at most `limit` calls of a key in any interval of the length of the window, and a denied
caller of a limiter with a positive limit that comes back when it was told is allowed. -/
theorem slidingWindow_exact (c : SlidingConfig) (calls : List (Call K))
    (hsorted : calls.Pairwise (·.time ≤ ·.time))
    (hkeys : (calls.map (·.key)).dedup.length ≤ c.maxKeys) :
    (∀ before x after, calls = before ++ [x] ++ after →
      ((c.decision before x).allowed = true ↔
        (countIn (x.time - c.window) x.time (timesOf x.key (c.allowedCalls before)) : ℤ) < c.limit)) ∧
    (∀ key start,
      (countIn start (start + c.window) (timesOf key (c.allowedCalls calls)) : ℤ) ≤ max c.limit 0) ∧
    (0 < c.limit → ∀ before x between y after, calls = before ++ [x] ++ between ++ [y] ++ after →
      y.key = x.key → (∀ z ∈ between, z.key ≠ x.key) → (c.decision before x).allowed = false →
      x.time + (c.decision before x).retryAfter ≤ y.time →
      (c.decision (before ++ [x] ++ between) y).allowed = true) := by
  have hf : c.Fits (calls.map (·.key)) calls := ⟨hsorted, fun x hx => mem_map_of_mem hx, hkeys⟩
  refine ⟨?_, fun key start => countIn_allowedCalls_le hf key start, ?_⟩
  · rintro before x after hc
    exact decision_allowed (hc ▸ hf).append
  · intro hl before x between y after hc hk hbt hd hb
    exact decision_after_retry (hc ▸ hf).append hl hk hbt hd hb

/-- One minute, eight keys, no sweeps at intervals. -/
def minuteConfig (limit : ℤ) : SlidingConfig where
  window := minute
  limit := limit
  maxKeys := 8
  gcEvery := 0
  window_pos := by decide
  window_le := by decide
  maxKeys_pos := by decide

/-- A call of one caller after a number of seconds. -/
def callAt (seconds : ℤ) : Call String := ⟨"a", seconds * second⟩

theorem slidingWindow_exact_minute :
    ((minuteConfig 2).decision [callAt 1000, callAt 1010] (callAt 1020)).allowed = false ∧
      ((minuteConfig 2).decision [callAt 1000, callAt 1010, callAt 1020]
        (callAt 1060)).allowed = true := by
  have he := slidingWindow_exact (minuteConfig 2)
    [callAt 1000, callAt 1010, callAt 1020, callAt 1060] (by decide) (by decide)
  have hd :
      ((minuteConfig 2).decision [callAt 1000, callAt 1010] (callAt 1020)).allowed = false := by
    decide
  exact ⟨hd, he.2.2 (by decide) [callAt 1000, callAt 1010] (callAt 1020) [] (callAt 1060)
    [] rfl rfl (by simp) hd (by decide)⟩

/-- A limiter whose limit is zero denies the caller that comes back, and one whose limit is
negative allows none, which is more than the limit. -/
theorem slidingWindow_no_limit :
    (((minuteConfig 0).decision [] (callAt 1000)).allowed = false ∧
      (callAt 1000).time + ((minuteConfig 0).decision [] (callAt 1000)).retryAfter ≤
        (callAt 1060).time ∧
      ((minuteConfig 0).decision [callAt 1000] (callAt 1060)).allowed = false) ∧
    (minuteConfig (-1)).limit <
      countIn 0 minute (timesOf "a" ((minuteConfig (-1)).allowedCalls [callAt 1])) := by
  decide

end Solovey.RateLimit
