import Solovey.RateLimit.Failure
import Solovey.RateLimit.Fixed

/-!
# Sweeps

When entries are swept must not be visible. For the fixed and the threshold window it is not: a call
starts an entry over exactly when a sweep would remove it. In the failure window a sweep removes an
entry as soon as the window is past, but `RecordFailureAt` starts over only later; and `BlockedAt`
reports the failures of an expired entry, but none if a sweep came first.
-/

namespace Solovey.RateLimit

open Solovey.Data

variable {K : Type*} [DecidableEq K]

/-! ## The fixed and the threshold window -/

inductive FixedCall (K : Type*)
  | allow (key : K)
  | allowWithLimit (key : K) (limit : ℤ)
  | reset (key : K)
  | resetAll

def FixedCall.target : FixedCall K → Option K
  | .allow key | .allowWithLimit key _ | .reset key => some key
  | .resetAll => none

def FixedConfig.limiter (c : FixedConfig) :
    Limiter (WindowTable K FixedEntry) (FixedCall K) (Option Decision) where
  call l now
    | .allow key => ((FixedWindow.allowAt c l key now).map some id)
    | .allowWithLimit key limit => ((FixedWindow.allowWithLimitAt c l key limit now).map some id)
    | .reset key => (none, l.reset key)
    | .resetAll => (none, l.resetAll)
  sweep := FixedWindow.pruneAt c

def ThresholdConfig.limiter (c : ThresholdConfig) :
    Limiter (WindowTable K ThresholdEntry) K ThresholdDecision where
  call l now key := ThresholdWindow.addAt c l key now
  sweep l now := l.pruneLocked c.toWindowConfig ThresholdEntry.toFixedEntry now

def FixedConfig.accesses (c : FixedConfig) :
    Accesses (FixedCall K) K FixedEntry (Option Decision) where
  target := FixedCall.target
  access now call entry :=
    let respond limit := (FixedWindow.answer c.toWindowConfig limit now
      (c.current id (fun now => { windowStart := now }) now entry)).map some some
    match call with
    | .allow _ => respond c.limit
    | .allowWithLimit _ limit => respond limit
    | .reset _ | .resetAll => (none, none)
  expired := c.past id
  mono := c.past_mono

def ThresholdConfig.accesses (c : ThresholdConfig) :
    Accesses K K ThresholdEntry ThresholdDecision where
  target := some
  access now _ entry := (ThresholdWindow.answer c.threshold now
    (c.current ThresholdEntry.toFixedEntry (fun now => { windowStart := now }) now entry)).map id some
  expired := c.past ThresholdEntry.toFixedEntry
  mono := c.past_mono

theorem FixedConfig.implements (c : FixedConfig) :
    Implements (K := K) c.limiter c.accesses WindowTable.entries c.maxKeys where
  sweep l _ := Lags.retain l.entries
  call l now call := by
    cases call with
    | allow key | allowWithLimit key limit =>
      refine ⟨_, WindowTable.maybePruneLocked_lags (l := l), fun hr => ?_⟩
      obtain ⟨ha, he⟩ := WindowTable.serve_eq (hr key rfl)
      exact ⟨congrArg some ha, he⟩
    | reset key => exact ⟨l.entries, .refl _, fun _ => ⟨rfl, Table.lookup_erase l.entries key⟩⟩
    | resetAll => exact ⟨l.entries, .refl _, fun _ => ⟨rfl, funext AList.lookup_empty⟩⟩

theorem ThresholdConfig.implements (c : ThresholdConfig) :
    Implements (K := K) c.limiter c.accesses WindowTable.entries c.maxKeys where
  sweep l _ := Lags.retain l.entries
  call l _ key := ⟨_, WindowTable.maybePruneLocked_lags (l := l), fun hr =>
    WindowTable.serve_eq (hr key rfl)⟩

/-- An entry whose window is past is started over, as a missing one is started. -/
theorem WindowConfig.current_past {V : Type*} {c : WindowConfig} {b : V → FixedEntry} {f : Time → V}
    {n : Time} {e : V} (h : c.past b n e = true) :
    c.current b f n (some e) = c.current b f n none :=
  if_pos h

omit [DecidableEq K] in
theorem FixedConfig.blind (c : FixedConfig) (m : K → Option FixedEntry) (n : Time)
    (cl : FixedCall K) : c.accesses.Blind m n cl := by
  intro key _ e _ he
  cases cl <;> simp only [accesses, WindowConfig.current_past he]

omit [DecidableEq K] in
theorem ThresholdConfig.blind (c : ThresholdConfig) (m : K → Option ThresholdEntry) (n : Time)
    (k : K) : c.accesses.Blind m n k := by
  intro k _ e _ he
  simp only [accesses, WindowConfig.current_past he]

/-! ## The failure window -/

inductive FailureCall (K : Type*)
  | record (key : K)
  | blocked (key : K)
  | tarpit (key : K)
  | reset (key : K)
  | resetAll

def FailureCall.target : FailureCall K → Option K
  | .record key | .blocked key | .tarpit key | .reset key => some key
  | .resetAll => none

inductive FailureAnswer
  | failures (count : ℤ)
  | decision (decision : Decision)
  | delay (delay : Duration)
  | done
deriving DecidableEq

namespace FailureConfig

def limiter (c : FailureConfig) : Limiter (FailureWindow K) (FailureCall K) FailureAnswer where
  call l now
    | .record key => (l.recordFailureAt c key now).map .failures id
    | .blocked key => (l.blockedAt c key now).map .decision id
    | .tarpit key => (l.tarpitDelayAt c key now).map .delay id
    | .reset key => (.done, l.reset key)
    | .resetAll => (.done, l.resetAll)
  sweep := FailureWindow.pruneLocked c

/-- The entry if it is not expired. -/
def live (c : FailureConfig) (now : Time) (entry : Option FailureEntry) : Option FailureEntry :=
  entry.filter fun entry => !entryExpired entry now c.window

def accesses (c : FailureConfig) :
    Accesses (FailureCall K) K FailureEntry FailureAnswer where
  target := FailureCall.target
  access now call entry :=
    match call with
    | .record _ =>
      let entry := FailureWindow.countFailure c (entry.getD {}) now
      (.failures entry.failures, some entry)
    | .blocked _ =>
      let count := (entry.getD {}).failures
      let denied := (c.live now entry).filter fun entry =>
        !(isZero entry.blockedUntil || !decide (now < entry.blockedUntil))
      (.decision (denied.elim { allowed := true, count } fun entry =>
        { retryAfter := sub entry.blockedUntil now, count }), c.live now entry)
    | .tarpit _ =>
      (.delay ((c.live now entry).elim 0 fun entry =>
        if entry.failures < c.threshold ∨ c.tarpitStep ≤ 0 then 0
        else
          let delay := mulDuration (entry.failures - c.threshold + 1) c.tarpitStep
          if 0 < c.tarpitMax ∧ c.tarpitMax < delay then c.tarpitMax else delay), c.live now entry)
    | .reset _ | .resetAll => (.done, none)
  expired now entry := entryExpired entry now c.window
  mono := by
    intro t now entry h
    simp only [entryExpired, Bool.and_eq_true, Bool.or_eq_true, Bool.not_eq_true',
      decide_eq_false_iff_not, decide_eq_true_eq, not_lt]
    exact fun ⟨hblock, hfirst⟩ => ⟨hblock.imp_right (·.trans h),
      hfirst.imp_right (·.trans (sub_mono h))⟩

theorem dropExpired_eq (c : FailureConfig) (l : FailureWindow K) (k : K) (n : Time) :
    (l.dropExpired c k n).1 = c.live n (l.entries.lookup k) ∧
      (l.dropExpired c k n).2.entries.lookup =
        Function.update l.entries.lookup k (c.live n (l.entries.lookup k)) := by
  unfold FailureWindow.dropExpired
  have hs := Function.update_eq_self k l.entries.lookup
  cases he : l.entries.lookup k with
  | none =>
    rw [he] at hs
    exact ⟨rfl, hs.symm⟩
  | some e =>
    rw [he] at hs
    cases hex : entryExpired e n c.window with
    | true =>
      have hl : c.live n (some e) = none := by simp [live, Option.filter, hex]
      rw [hl]
      simpa [hex] using Table.lookup_erase l.entries k
    | false =>
      have hl : c.live n (some e) = some e := by simp [live, Option.filter, hex]
      rw [hl, hs]
      simp [hex]

theorem implements (c : FailureConfig) :
    Implements (K := K) c.limiter c.accesses FailureWindow.entries c.maxKeys where
  sweep l _ := Lags.retain l.entries
  call l now call := by
    have hlg : Lags (fun e => entryExpired e now c.window) l.entries.lookup
        (l.maybePruneLocked c now).entries.lookup := by
      unfold FailureWindow.maybePruneLocked
      split
      · exact Lags.retain l.entries
      · exact .refl _
    cases call with
    | record key =>
      refine ⟨_, hlg, fun hr => ⟨rfl, funext fun other => ?_⟩⟩
      refine (lookup_recordFailureAt (hr key rfl) other).trans ?_
      simp only [Accesses.reply, accesses, FailureCall.target, Function.update_apply]
    | blocked key =>
      refine ⟨_, hlg, fun _ => ?_⟩
      obtain ⟨hl, he⟩ := dropExpired_eq c (l.maybePruneLocked c now) key now
      simp only [limiter, FailureWindow.blockedAt, Accesses.reply, accesses, FailureCall.target]
      rw [← he, ← hl]
      generalize (l.maybePruneLocked c now).dropExpired c key now = d
      obtain ⟨_ | e, d⟩ := d
      · exact ⟨rfl, rfl⟩
      · by_cases hf : (isZero e.blockedUntil || !decide (now < e.blockedUntil)) = true
        · simp [Option.filter, hf]
        · simp [Option.filter, hf]
    | tarpit key =>
      refine ⟨_, hlg, fun _ => ?_⟩
      obtain ⟨hl, he⟩ := dropExpired_eq c (l.maybePruneLocked c now) key now
      simp only [limiter, FailureWindow.tarpitDelayAt, Accesses.reply, accesses, FailureCall.target]
      rw [← he, ← hl]
      generalize (l.maybePruneLocked c now).dropExpired c key now = d
      obtain ⟨_ | e, d⟩ := d
      · exact ⟨rfl, rfl⟩
      · simp only [Option.elim_some]
        split_ifs <;> exact ⟨rfl, rfl⟩
    | reset key => exact ⟨l.entries, .refl _, fun _ => ⟨rfl, Table.lookup_erase l.entries key⟩⟩
    | resetAll => exact ⟨l.entries, .refl _, fun _ => ⟨rfl, funext AList.lookup_empty⟩⟩

/-- No failure is recorded exactly the window after the first one unless the key is blocked, and no
block is looked up for an entry that is expired. -/
def apart (c : FailureConfig) (m : K → Option FailureEntry) (now : Time) : FailureCall K → Bool
  | .record key => (m key).all fun entry =>
    !entryExpired entry now c.window || decide (sub now entry.firstFailure ≠ c.window)
  | .blocked key => (m key).all fun entry => !entryExpired entry now c.window
  | _ => true

/-- A failure later than the window starts over. -/
theorem countFailure_expired {c : FailureConfig} {e : FailureEntry} {n : Time}
    (he : entryExpired e n c.window = true) (hl : sub n e.firstFailure ≠ c.window) :
    FailureWindow.countFailure c e n = FailureWindow.countFailure c {} n := by
  have hs : (isZero e.firstFailure || decide (c.window < sub n e.firstFailure)) = true := by
    simp only [entryExpired, Bool.and_eq_true, Bool.or_eq_true, decide_eq_true_eq] at he ⊢
    exact he.2.imp_right fun hle => lt_of_le_of_ne hle hl.symm
  simp only [FailureWindow.countFailure, hs]
  rfl

omit [DecidableEq K] in
theorem blind {c : FailureConfig} {m : K → Option FailureEntry} {n : Time} {cl : FailureCall K}
    (h : c.apart m n cl = true) : c.accesses.Blind m n cl := by
  intro key hk e he hex
  change entryExpired e n c.window = true at hex
  have hl : c.live n (some e) = none := by simp [live, Option.filter, hex]
  cases cl with
  | record key' =>
    cases hk
    simp only [apart, he, Option.all_some, hex, Bool.not_true, Bool.false_or,
      decide_eq_true_eq] at h
    simp only [accesses, Option.getD_some, Option.getD_none, countFailure_expired hex h]
  | blocked key' =>
    cases hk
    simp [apart, he, hex] at h
  | tarpit key' => simp only [accesses, hl, show c.live n none = none from rfl]
  | reset key' => rfl
  | resetAll => rfl

end FailureConfig

/-! ## The limiters do not show their sweeps -/

/-- The answers of the fixed and the threshold window depend neither on the interval of the sweeps
nor on further sweeps. Those of the failure window do not either if every call is apart from the
instants at which an entry expires, as the entries would be without any sweep. -/
theorem sweeps_unobservable (gcEvery : Duration) :
    (∀ (c : FixedConfig) (ops ops' : List (Time × Option (FixedCall K))),
      SameCalls FixedCall.target c.maxKeys ops ops' →
      c.limiter.answers {} ops = { c with gcEvery }.limiter.answers {} ops') ∧
    (∀ (c : ThresholdConfig) (ops ops' : List (Time × Option K)),
      SameCalls some c.maxKeys ops ops' →
      c.limiter.answers {} ops = { c with gcEvery }.limiter.answers {} ops') ∧
    ∀ (c : FailureConfig) (ops ops' : List (Time × Option (FailureCall K))),
      SameCalls FailureCall.target c.maxKeys ops ops' →
      c.accesses.Meets (fun m now call => c.apart m now call = true) (fun _ => none) (calls ops) →
      c.limiter.answers {} ops = { c with gcEvery }.limiter.answers {} ops' := by
  refine ⟨fun c ops ops' hs => ?_, fun c ops ops' hs => ?_, fun c ops ops' hs ha => ?_⟩
  · exact c.implements.answers_eq { c with gcEvery }.implements hs
      (Accesses.meets_of_forall c.blind _) fun _ => rfl
  · exact c.implements.answers_eq { c with gcEvery }.implements hs
      (Accesses.meets_of_forall c.blind _) fun _ => rfl
  · exact c.implements.answers_eq { c with gcEvery }.implements hs
      (ha.imp fun _ _ _ => FailureConfig.blind) fun _ => rfl

/-- A limiter that blocks a key for half a minute after three failures in ten seconds, and sweeps
only when it is full. -/
def sampleFailures : FailureConfig where
  window := 10 * second
  threshold := 3
  blockFor := 30 * second
  maxKeys := 4
  gcEvery := 0
  tarpitStep := 0
  tarpitMax := 0
  window_pos := by decide
  threshold_pos := by decide
  blockFor_pos := by decide
  maxKeys_pos := by decide

/-- Two failures with more than the window between them, with and without a sweep. -/
theorem sweeps_unobservable_failures :
    sampleFailures.limiter.answers {} [(second, some (.record 7)), (20 * second, some (.record 7))] =
      { sampleFailures with gcEvery := second }.limiter.answers {}
        [(second, some (.record 7)), (12 * second, none), (20 * second, some (.record 7))] :=
  (sweeps_unobservable second).2.2 sampleFailures _ _ ⟨rfl, by decide, by decide, by decide⟩
    ⟨rfl, by decide, trivial⟩

/-- A second failure exactly the window after the first one, and a look at a key whose failure is
past: the answers depend on how often the limiter sweeps. -/
theorem sweeps_show :
    let ops : List (Time × Option (FailureCall ℕ)) := [(second, some (.record 7)),
      (11 * second, some (.record 7)), (11 * second, some (.record 8)),
      (30 * second, some (.blocked 8))]
    sampleFailures.limiter.answers {} ops =
        [.failures 1, .failures 2, .failures 1, .decision { allowed := true, count := 1 }] ∧
      { sampleFailures with gcEvery := second }.limiter.answers {} ops =
        [.failures 1, .failures 1, .failures 1, .decision { allowed := true, count := 0 }] := by
  decide

end Solovey.RateLimit
