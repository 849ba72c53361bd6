import Solovey.Data.Expiry
import Solovey.RateLimit.Common

/-!
# The fixed window and the threshold window

`util/ratelimit/fixed.go` and `threshold.go`: two limiters that count the calls of a key from the
start of its window and start over once the window is past. They share how entries expire, are
swept and are replaced.
-/

namespace Solovey.RateLimit

open Solovey.Data

structure FixedEntry where
  windowStart : Time
  updatedAt : Time := 0
  count : ℤ := 0
deriving DecidableEq, Repr

structure ThresholdEntry extends FixedEntry where
  triggered : Bool := false
deriving DecidableEq, Repr

/-- What both constructors take; they panic where a bound does not hold. -/
structure WindowConfig where
  window : Duration
  maxKeys : ℕ
  gcEvery : Duration
  window_pos : 0 < window
  maxKeys_pos : 0 < maxKeys

structure FixedConfig extends WindowConfig where
  limit : ℤ

structure ThresholdConfig extends WindowConfig where
  threshold : ℤ
  threshold_pos : 0 < threshold

/-- The state of a limiter with entries `V`. -/
structure WindowTable (K V : Type*) where
  entries : Table K V := ∅
  lastGC : Time := 0

variable {K V R : Type*} [DecidableEq K]

/-! ## What the windows share

`base` gives the times of an entry, `fresh` a new one. -/

def WindowConfig.past (c : WindowConfig) (base : V → FixedEntry) (now : Time) (entry : V) : Bool :=
  decide (c.window ≤ sub now (base entry).windowStart)

/-- The entry that a call goes on with. -/
def WindowConfig.current (c : WindowConfig) (base : V → FixedEntry) (fresh : Time → V)
    (now : Time) : Option V → V
  | none => fresh now
  | some entry => if c.past base now entry then fresh now else entry

namespace WindowTable

def pruneLocked (c : WindowConfig) (base : V → FixedEntry) (l : WindowTable K V) (now : Time) :
    WindowTable K V :=
  { entries := l.entries.retain fun entry => if c.past base now entry then none else some entry
    lastGC := now }

def maybePruneLocked (c : WindowConfig) (base : V → FixedEntry) (l : WindowTable K V)
    (now : Time) : WindowTable K V :=
  if sweepDue l.entries.size c.maxKeys c.gcEvery l.lastGC now then l.pruneLocked c base now else l

def makeRoomLocked (c : WindowConfig) (base : V → FixedEntry) (l : WindowTable K V) :
    WindowTable K V :=
  { l with entries := l.entries.makeRoom (fun entry => (base entry).updatedAt) c.maxKeys }

/-- A call: the entry of the key is looked up, answered and stored. -/
def serve (c : WindowConfig) (base : V → FixedEntry) (fresh : Time → V) (answer : V → R × V)
    (l : WindowTable K V) (key : K) (now : Time) : R × WindowTable K V :=
  let l := l.maybePruneLocked c base now
  let entry := c.current base fresh now (l.entries.lookup key)
  let l := if key ∈ l.entries then l else l.makeRoomLocked c base
  ((answer entry).1, { l with entries := l.entries.insert key (answer entry).2 })

def reset (l : WindowTable K V) (key : K) : WindowTable K V :=
  { l with entries := l.entries.erase key }

def resetAll (l : WindowTable K V) : WindowTable K V := { l with entries := ∅ }

end WindowTable

/-! ## The two limiters -/

namespace FixedWindow

def answer (c : WindowConfig) (limit : ℤ) (now : Time) (entry : FixedEntry) : Decision × FixedEntry :=
  let entry := { entry with updatedAt := now }
  if limit ≤ 0 ∨ limit ≤ entry.count then
    ({ retryAfter := retryAfter (entry.windowStart + c.window) now c.window, count := entry.count },
      entry)
  else
    let entry := { entry with count := entry.count + 1 }
    ({ allowed := true, count := entry.count }, entry)

def allowWithLimitAt (c : FixedConfig) (l : WindowTable K FixedEntry) (key : K) (limit : ℤ)
    (now : Time) : Decision × WindowTable K FixedEntry :=
  l.serve c.toWindowConfig id (fun now => { windowStart := now })
    (answer c.toWindowConfig limit now) key now

def allowAt (c : FixedConfig) (l : WindowTable K FixedEntry) (key : K) (now : Time) :
    Decision × WindowTable K FixedEntry :=
  allowWithLimitAt c l key c.limit now

def pruneAt (c : FixedConfig) (l : WindowTable K FixedEntry) (now : Time) :
    WindowTable K FixedEntry :=
  l.pruneLocked c.toWindowConfig id now

end FixedWindow

structure ThresholdDecision where
  count : ℤ
  triggered : Bool
deriving DecidableEq, Repr

namespace ThresholdWindow

def answer (threshold : ℤ) (now : Time) (entry : ThresholdEntry) :
    ThresholdDecision × ThresholdEntry :=
  let entry := { entry with count := entry.count + 1, updatedAt := now }
  let trigger := decide (threshold ≤ entry.count) && !entry.triggered
  (⟨entry.count, trigger⟩, if trigger then { entry with triggered := true } else entry)

def addAt (c : ThresholdConfig) (l : WindowTable K ThresholdEntry) (key : K) (now : Time) :
    ThresholdDecision × WindowTable K ThresholdEntry :=
  l.serve c.toWindowConfig ThresholdEntry.toFixedEntry (fun now => { windowStart := now })
    (answer c.threshold now) key now

end ThresholdWindow

/-! ## Sweeps and calls -/

theorem sub_mono {t u nw : Time} (h : t ≤ nw) : sub t u ≤ sub nw u :=
  max_le_max_left _ (min_le_min_left _ (Int.sub_le_sub_right h u))

theorem WindowConfig.past_mono (c : WindowConfig) {bs : V → FixedEntry} {t nw : Time} {e : V}
    (h : t ≤ nw) (hp : c.past bs t e = true) :
    c.past bs nw e = true :=
  decide_eq_true ((of_decide_eq_true hp).trans (sub_mono h))

namespace WindowTable

variable {c : WindowConfig} {b : V → FixedEntry} {l : WindowTable K V} {k : K} {n : Time}

theorem maybePruneLocked_lags : Lags (c.past b n) l.entries.lookup
    (l.maybePruneLocked c b n).entries.lookup := by
  unfold maybePruneLocked
  split
  · exact Lags.retain l.entries
  · exact .refl _

/-- What a call on a key does when there is room for the key. -/
theorem serve_eq {f : Time → V} {a : V → R × V} (hr : k ∈ (l.maybePruneLocked c b n).entries ∨
      (l.maybePruneLocked c b n).entries.size < c.maxKeys) :
    let lookup := (l.maybePruneLocked c b n).entries.lookup
    let out := a (c.current b f n (lookup k))
    (l.serve c b f a k n).1 = out.1 ∧ (l.serve c b f a k n).2.entries.lookup =
        Function.update lookup k (some out.2) := by
  refine ⟨rfl, funext fun other => ?_⟩
  have hs : (if k ∈ (l.maybePruneLocked c b n).entries then l.maybePruneLocked c b n
      else (l.maybePruneLocked c b n).makeRoomLocked c b) =
      l.maybePruneLocked c b n := by
    split_ifs with hm
    · rfl
    · rw [makeRoomLocked, Table.makeRoom_of_lt (hr.resolve_left hm)]
  simp only [serve, hs]
  by_cases ho : other = k
  · rw [ho, AList.lookup_insert, Function.update_self]
  · rw [AList.lookup_insert_ne ho, Function.update_of_ne ho]

end WindowTable

end Solovey.RateLimit
