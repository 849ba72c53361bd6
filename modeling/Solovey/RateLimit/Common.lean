import Solovey.Data.Table

/-!
# What the rate limiters share

`util/ratelimit`: instants and durations, the decision that a limiter returns, and when a limiter
sweeps its entries. An instant is the number of nanoseconds after the zero time of the source, so
that `0` is the time that is not set.
-/

namespace Solovey.RateLimit

abbrev Time := ℤ

abbrev Duration := ℤ

def maxDuration : Duration := 2 ^ 63 - 1

def minDuration : Duration := -2 ^ 63

def second : Duration := 10 ^ 9

def minute : Duration := 60 * second

def isZero (t : Time) : Bool := t == 0

/-- `Time.Sub`: a difference that is no duration is the largest or the smallest one. -/
def sub (t u : Time) : Duration := max minDuration (min maxDuration (t - u))

theorem sub_eq {t u : Time} (hp : u ≤ t) (hm : t - u ≤ maxDuration) : sub t u = t - u := by
  have hmn : minDuration ≤ t - u := le_trans (by decide) (Int.sub_nonneg.mpr hp)
  unfold sub
  rw [min_eq_right hm, max_eq_right hmn]

structure Decision where
  allowed : Bool := false
  retryAfter : Duration := 0
  count : ℤ := 0
deriving DecidableEq, Repr

def retryAfter (deadline now : Time) (fallback : Duration) : Duration :=
  let retry := sub deadline now
  if retry ≤ 0 then fallback else retry

/-- Whether the entries are swept: when there are too many, or at times of the interval. -/
def sweepDue (size maxKeys : ℕ) (gcEvery : Duration) (lastGC now : Time) : Bool :=
  !(decide (size < maxKeys) &&
    (decide (gcEvery ≤ 0) || (!isZero lastGC && decide (sub now lastGC < gcEvery))))

end Solovey.RateLimit
