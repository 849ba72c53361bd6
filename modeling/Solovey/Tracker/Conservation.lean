import Solovey.Tracker.Save

/-!
# No traffic is lost or counted twice

The tracker with any number of open `ConsumeStats` calls. A call takes the counters one swap at a
time, hands its samples to `saveStatsSamples`, and either is done or, when that returns an error,
puts its samples back one by one. Connections add to the counters at any moment.

`traffic_conserved` is the balance of every counter over whole runs, with what the tables hold. It
needs the counters to stay inside `int64`: `traffic_wraps` is a run that leaves it.
-/

namespace Solovey.Tracker

open List

/-! ## The system -/

/-- An open `ConsumeStats` call. -/
inductive Call
  /-- In `GetStats`, before the two swaps of the next counter. -/
  | collecting (dateTime : Int64) (todo : List CounterKey) (samples : List Stat)
  /-- In `GetStats`, between the two swaps of a counter. -/
  | swapped (dateTime : Int64) (key : CounterKey) (down : Int64) (todo : List CounterKey)
      (samples : List Stat)
  /-- In the database transaction. -/
  | consuming (samples : List Stat)
  /-- In `RestoreStats`, with the samples that are still to be added back. -/
  | restoring (samples : List Stat)

/-- The calls that hold the mutex `access` of the tracker. -/
def Call.holdsAccess : Call → Bool
  | .collecting .. => true
  | .swapped .. => true
  | .consuming _ => false
  | .restoring samples => !samples.isEmpty

/-- The traffic of samples for one counter and direction. -/
def amountOf (samples : List Stat) (key : CounterKey) (direction : Bool) : Int :=
  (samples.map fun x =>
    if x.key = key ∧ x.direction = direction then x.traffic.toInt else 0).sum

/-- The traffic that a call has taken out of a counter and not settled. -/
def Call.amount (key : CounterKey) (direction : Bool) : Call → Int
  | .collecting _ _ samples => amountOf samples key direction
  | .swapped _ key' down _ samples =>
    amountOf samples key direction +
      if key' = key ∧ direction = false then down.toInt else 0
  | .consuming samples => amountOf samples key direction
  | .restoring samples => amountOf samples key direction

/-- Totals for each counter and direction, by the counter that was touched. -/
abbrev Totals := CounterKey → Bool → Int

def Totals.add (totals : Totals) (key : CounterKey) (direction : Bool) (n : Int) : Totals :=
  fun key' direction' =>
    totals key' direction' + if key = key' ∧ direction = direction' then n else 0

structure State where
  tracker : StatsTracker := {}
  calls : List Call := []
  store : Store := {}
  /-- The calls of `saveStatsSamples` that returned no error. -/
  transactions : List Transaction := []
  /-- What connections added to the counters. -/
  observed : Totals := fun _ _ => 0
  /-- What swaps took out of the counters. -/
  drained : Totals := fun _ _ => 0
  /-- What `RestoreStats` added to the counters. -/
  restored : Totals := fun _ _ => 0

namespace State

def live (s : State) (key : CounterKey) (direction : Bool) : Int :=
  (s.tracker.amount key direction).toInt

def unsettled (s : State) (key : CounterKey) (direction : Bool) : Int :=
  (s.calls.map (·.amount key direction)).sum

def settled (s : State) (key : CounterKey) (direction : Bool) : Int :=
  amountOf (s.transactions.flatMap Transaction.samples) key direction

def accessFree (s : State) : Prop :=
  ∀ call ∈ s.calls, call.holdsAccess = false

end State

/-- A connection may count `n` more bytes in this direction of this counter. -/
abbrev Allowed := State → CounterKey → Bool → Int64 → Prop

inductive Step (allowed : Allowed) (s : State) : State → Prop
  /-- A connection gets its counters. -/
  | routed (inbound outbound user : String) (userID : VPNUserID) (free : s.accessFree) :
      Step allowed s { s with
        tracker := (s.tracker.getReadCountersLocked inbound outbound user userID).1 }
  /-- A connection adds to a counter that it was given. -/
  | count (key : CounterKey) (direction : Bool) (n : Int64) (known : (s.tracker.lookup key).isSome)
      (nonneg : 0 ≤ n.toInt) (ok : allowed s key direction n) :
      Step allowed s { s with
        tracker := s.tracker.add key direction n
        observed := s.observed.add key direction n.toInt }
  /-- A call enters `GetStats`; a map is visited in any order. -/
  | getStats (dateTime : Int64) (order : List CounterKey) (free : s.accessFree)
      (keys : order.Perm s.tracker.keys) :
      Step allowed s { s with calls := .collecting dateTime order [] :: s.calls }
  | swapWrite {before after : List Call} {dateTime : Int64} {key : CounterKey}
      {todo : List CounterKey} {samples : List Stat}
      (call : s.calls = before ++ .collecting dateTime (key :: todo) samples :: after) :
      Step allowed s { s with
        tracker := (s.tracker.swap key false).2
        calls := before ++
          .swapped dateTime key (s.tracker.swap key false).1 todo samples :: after
        drained := s.drained.add key false (s.tracker.swap key false).1.toInt }
  | swapRead {before after : List Call} {dateTime : Int64} {key : CounterKey} {down : Int64}
      {todo : List CounterKey} {samples : List Stat}
      (call : s.calls = before ++ .swapped dateTime key down todo samples :: after) :
      Step allowed s { s with
        tracker := (s.tracker.swap key true).2
        calls := before ++ .collecting dateTime todo
          (samples ++ key.samples dateTime down (s.tracker.swap key true).1) :: after
        drained := s.drained.add key true (s.tracker.swap key true).1.toInt }
  /-- `GetStats` returns, and the transaction starts. -/
  | consume {before after : List Call} {dateTime : Int64} {samples : List Stat}
      (call : s.calls = before ++ .collecting dateTime [] samples :: after) :
      Step allowed s { s with calls := before ++ .consuming samples :: after }
  /-- The transaction commits. -/
  | commit {before after : List Call} {samples : List Stat} {fails : Failure → Bool}
      {enableTraffic : Bool} {store : Store}
      (call : s.calls = before ++ .consuming samples :: after)
      (saved : saveStatsSamples fails enableTraffic samples s.store = (store, none)) :
      Step allowed s { s with
        calls := before ++ after
        store
        transactions := s.transactions ++ [⟨enableTraffic, samples⟩] }
  /-- The call returns an error, and gets its turn to restore what it took. -/
  | fail {before after : List Call} {samples : List Stat} {fails : Failure → Bool}
      {enableTraffic : Bool} {store : Store} {failure : Failure}
      (call : s.calls = before ++ .consuming samples :: after)
      (saved : saveStatsSamples fails enableTraffic samples s.store = (store, some failure))
      (free : samples ≠ [] → s.accessFree) :
      Step allowed s { s with calls := before ++ .restoring samples :: after, store }
  | restore {before after : List Call} {sample : Stat} {samples : List Stat}
      (call : s.calls = before ++ .restoring (sample :: samples) :: after) :
      Step allowed s { s with
        tracker := s.tracker.add sample.key sample.direction sample.traffic
        calls := before ++ .restoring samples :: after
        restored := s.restored.add sample.key sample.direction sample.traffic.toInt }
  | restored {before after : List Call}
      (call : s.calls = before ++ .restoring [] :: after) :
      Step allowed s { s with calls := before ++ after }

/-- The states of runs in which every count is allowed. -/
inductive Reachable (allowed : Allowed) (start : Store) : State → Prop
  | start : Reachable allowed start { store := start }
  | step {s s' : State} : Reachable allowed start s → Step allowed s s' → Reachable allowed start s'

/-- The bytes of a counter that are not committed stay inside `int64`. -/
def Fits : Allowed := fun s key direction n =>
  s.live key direction + s.unsettled key direction + n.toInt ≤ Int64.maxValue.toInt

/-! ## The balance of one step -/

@[simp] theorem amountOf_nil (key : CounterKey) (d : Bool) : amountOf [] key d = 0 := rfl

@[simp] theorem amountOf_append (a b : List Stat) (key : CounterKey) (d : Bool) :
    amountOf (a ++ b) key d = amountOf a key d + amountOf b key d := by
  simp [amountOf]

theorem amountOf_cons (x : Stat) (sm : List Stat) (key : CounterKey) (d : Bool) :
    amountOf (x :: sm) key d = (if x.key = key ∧ x.direction = d then x.traffic.toInt else 0) +
        amountOf sm key d := by
  simp [amountOf]

/-- Samples keep the identity of their counter, and no part of a swapped pair is dropped as long
as no counter is negative. -/
theorem amountOf_samples (key key' : CounterKey) (dt dw up : Int64) (d : Bool) (hdw : 0 ≤ dw.toInt)
    (hup : 0 ≤ up.toInt) :
    amountOf (key.samples dt dw up) key' d = (if key = key' ∧ d = false then dw.toInt else 0) +
        if key = key' ∧ true = d then up.toInt else 0 := by
  unfold CounterKey.samples
  split
  · cases d <;> simp [amountOf]
  · next h =>
    have hd : dw.toInt = 0 := by
      have : ¬ (0 : Int64).toInt < dw.toInt := fun hlt => h (.inl (Int64.lt_iff_toInt_lt.mpr hlt))
      simp at this
      omega
    have hu : up.toInt = 0 := by
      have : ¬ (0 : Int64).toInt < up.toInt := fun hlt => h (.inr (Int64.lt_iff_toInt_lt.mpr hlt))
      simp at this
      omega
    simp [hd, hu]

theorem toInt_add_of_le {a b : Int64} (ha : 0 ≤ a.toInt) (hb : 0 ≤ b.toInt)
    (h : a.toInt + b.toInt ≤ Int64.maxValue.toInt) : (a + b).toInt = a.toInt + b.toInt := by
  have hm : Int64.maxValue.toInt = 9223372036854775807 := rfl
  rw [Int64.toInt_add, Int.bmod_eq_of_le] <;> omega

namespace State

theorem live_add {s : State} {key : CounterKey} {d : Bool} {n : Int64} (hl : 0 ≤ s.live key d)
    (hn : 0 ≤ n.toInt) (hf : s.live key d + n.toInt ≤ Int64.maxValue.toInt) (key' : CounterKey)
    (d' : Bool) :
    ((s.tracker.add key d n).amount key' d').toInt =
      s.live key' d' + if key = key' ∧ d = d' then n.toInt else 0 := by
  rw [StatsTracker.amount_add]
  split
  · next h =>
    obtain ⟨rfl, rfl⟩ := h
    exact toInt_add_of_le hl hn hf
  · simp [live]

theorem live_swap (s : State) (key key' : CounterKey) (d d' : Bool) :
    ((s.tracker.swap key d).2.amount key' d').toInt =
      s.live key' d' - if key = key' ∧ d = d' then
        (s.tracker.swap key d).1.toInt else 0 := by
  rw [StatsTracker.amount_swap]
  split
  · next h =>
    obtain ⟨rfl, rfl⟩ := h
    simp [live, StatsTracker.swap]
  · simp [live]

theorem sum_calls (f : Call → Int) (bf af : List Call) (call : Call) :
    ((bf ++ call :: af).map f).sum = (bf.map f).sum + f call + (af.map f).sum := by
  simp
  ring

end State

/-! ## The invariant -/

/-- No sample of a call is negative. -/
def Call.Nonneg : Call → Prop
  | .collecting _ _ samples => ∀ x ∈ samples, 0 ≤ x.traffic.toInt
  | .swapped _ _ down _ samples => 0 ≤ down.toInt ∧ ∀ x ∈ samples, 0 ≤ x.traffic.toInt
  | .consuming samples => ∀ x ∈ samples, 0 ≤ x.traffic.toInt
  | .restoring samples => ∀ x ∈ samples, 0 ≤ x.traffic.toInt

theorem amountOf_nonneg {sm : List Stat} (h : ∀ x ∈ sm, 0 ≤ x.traffic.toInt) (key : CounterKey)
    (d : Bool) : 0 ≤ amountOf sm key d := by
  refine sum_nonneg fun n hn => ?_
  obtain ⟨x, hx, rfl⟩ := mem_map.mp hn
  split
  · exact h x hx
  · exact le_rfl

theorem Call.amount_nonneg {call : Call} (h : call.Nonneg) (key : CounterKey) (d : Bool) :
    0 ≤ call.amount key d := by
  cases call with
  | collecting | consuming | restoring => exact amountOf_nonneg h key d
  | swapped dt key' dw t samples =>
    refine add_nonneg (amountOf_nonneg h.2 key d) ?_
    split
    · exact h.1
    · exact le_rfl

theorem sum_nonneg_of_calls {cs : List Call} (h : ∀ call ∈ cs, call.Nonneg) (key : CounterKey)
    (d : Bool) : 0 ≤ (cs.map (·.amount key d)).sum := by
  refine sum_nonneg fun n hn => ?_
  obtain ⟨call, hc, rfl⟩ := mem_map.mp hn
  exact Call.amount_nonneg (h call hc) key d

namespace State

structure Inv (s : State) : Prop where
  live_nonneg : ∀ key direction, 0 ≤ s.live key direction
  calls_nonneg : ∀ call ∈ s.calls, call.Nonneg
  bounded : ∀ key direction,
    s.live key direction + s.unsettled key direction ≤ Int64.maxValue.toInt
  balance : ∀ key direction,
    s.live key direction + s.unsettled key direction + s.settled key direction =
      s.observed key direction
  identity : ∀ key direction,
    s.drained key direction =
      s.restored key direction + s.unsettled key direction + s.settled key direction

variable {s : State}

theorem Inv.unsettled_nonneg (h : s.Inv) (key : CounterKey) (d : Bool) : 0 ≤ s.unsettled key d :=
  sum_nonneg_of_calls h.calls_nonneg key d

/-- A step that only moves traffic between the counters and the calls. -/
theorem Inv.moved {s' : State} (h : s.Inv) (ht : s'.transactions = s.transactions)
    (ho : s'.observed = s.observed) (hm : ∀ key d, s'.live key d + s'.unsettled key d =
      s.live key d + s.unsettled key d) (hf : ∀ key d,
      s'.drained key d - s'.restored key d + s.unsettled key d =
        s.drained key d - s.restored key d + s'.unsettled key d) (hl : ∀ key d, 0 ≤ s'.live key d)
    (hc : ∀ call ∈ s'.calls, call.Nonneg) :
    s'.Inv := by
  have hs : ∀ key d, s'.settled key d = s.settled key d := by
    intro key d
    rw [settled, ht, settled]
  refine ⟨hl, hc, fun key d => ?_, fun key d => ?_, fun key d => ?_⟩
  · rw [hm]
    exact h.bounded key d
  · rw [hm, hs, ho]
    exact h.balance key d
  · have hi := h.identity key d
    have := hf key d
    rw [hs]
    omega

variable {b a : List Call} {call : Call}

/-- Replacing one call leaves the others as they were. -/
theorem Inv.replaced (h : s.Inv) {call' : Call} (hs : s.calls = b ++ call :: a)
    (hcl : call.Nonneg → call'.Nonneg) :
    ∀ c ∈ b ++ call' :: a, c.Nonneg := by
  have ha := h.calls_nonneg
  rw [hs] at ha
  simp only [mem_append, mem_cons] at ha ⊢
  rintro c (hc | rfl | hc)
  · exact ha c (.inl hc)
  · exact hcl (ha call (.inr (.inl rfl)))
  · exact ha c (.inr (.inr hc))

theorem Inv.removed (h : s.Inv) (hs : s.calls = b ++ call :: a) : ∀ c ∈ b ++ a, c.Nonneg := by
  intro c hc
  refine h.calls_nonneg c ?_
  rw [hs]
  simp only [mem_append, mem_cons] at hc ⊢
  tauto

theorem Inv.swap_nonneg (h : s.Inv) (key key' : CounterKey) (d d' : Bool) :
    0 ≤ ((s.tracker.swap key d).2.amount key' d').toInt := by
  rw [StatsTracker.amount_swap]
  split
  · exact le_rfl
  · exact h.live_nonneg key' d'

variable {key : CounterKey} {ss : List Stat}

theorem Inv.swapWrite (h : s.Inv) {dt : Int64} {t : List CounterKey}
    (hs : s.calls = b ++ .collecting dt (key :: t) ss :: a) :
    { s with
      tracker := (s.tracker.swap key false).2
      calls := b ++ .swapped dt key (s.tracker.swap key false).1 t ss :: a
      drained := s.drained.add key false (s.tracker.swap key false).1.toInt : State }.Inv := by
  have ht := h.live_nonneg key false
  refine h.moved rfl rfl (fun key' d => ?_) (fun key' d => ?_)
    (fun key' d => ?_) (h.replaced hs fun hc => ⟨ht, hc⟩)
  · rw [live, live_swap]
    simp only [unsettled, hs, sum_calls, Call.amount, eq_comm]
    ring
  · simp only [unsettled, hs, sum_calls, Call.amount, Totals.add, eq_comm]
    ring
  · exact h.swap_nonneg key key' false d

theorem Inv.swapRead (h : s.Inv) {dt : Int64} {dw : Int64} {t : List CounterKey}
    (hs : s.calls = b ++ .swapped dt key dw t ss :: a) :
    { s with
      tracker := (s.tracker.swap key true).2
      calls := b ++ .collecting dt t (ss ++ key.samples dt dw (s.tracker.swap key true).1) :: a
      drained := s.drained.add key true (s.tracker.swap key true).1.toInt : State }.Inv := by
  have hup : 0 ≤ (s.tracker.swap key true).1.toInt := h.live_nonneg key true
  have ho : 0 ≤ dw.toInt ∧ ∀ x ∈ ss, 0 ≤ x.traffic.toInt :=
    h.calls_nonneg (.swapped dt key dw t ss) (by simp [hs])
  refine h.moved rfl rfl (fun key' d => ?_) (fun key' d => ?_)
    (fun key' d => ?_) (h.replaced hs fun _ => ?_)
  · rw [live, live_swap]
    simp only [unsettled, hs, sum_calls, Call.amount, amountOf_append,
      amountOf_samples _ _ _ _ _ _ ho.1 hup]
    ring
  · simp only [unsettled, hs, sum_calls, Call.amount, Totals.add, amountOf_append,
      amountOf_samples _ _ _ _ _ _ ho.1 hup]
    ring
  · exact h.swap_nonneg key key' true d
  · intro x hx
    rcases mem_append.mp hx with hx | hx
    · exact ho.2 x hx
    · unfold CounterKey.samples at hx
      split at hx
      · rcases mem_pair.mp hx with rfl | rfl
        · simpa using ho.1
        · simpa using hup
      · simp at hx

theorem Inv.restore (h : s.Inv) {sm : Stat} (hs : s.calls = b ++ .restoring (sm :: ss) :: a) :
    { s with
      tracker := s.tracker.add sm.key sm.direction sm.traffic
      calls := b ++ .restoring ss :: a
      restored := s.restored.add sm.key sm.direction sm.traffic.toInt : State }.Inv := by
  have hol : ∀ x ∈ sm :: ss, 0 ≤ x.traffic.toInt :=
    h.calls_nonneg (.restoring (sm :: ss)) (by simp [hs])
  have hsm := hol sm mem_cons_self
  have hsa : ∀ x ∈ ss, 0 ≤ x.traffic.toInt := fun x hx => hol x (.tail _ hx)
  have hl := h.live_nonneg sm.key sm.direction
  -- the sample is part of the unsettled traffic, so it fits back into its counter
  have hf : s.live sm.key sm.direction + sm.traffic.toInt ≤
      Int64.maxValue.toInt := by
    refine le_trans ?_ (h.bounded sm.key sm.direction)
    have ho := sum_nonneg_of_calls (h.removed hs) sm.key sm.direction
    have hr := amountOf_nonneg hsa sm.key sm.direction
    rw [map_append, sum_append] at ho
    rw [unsettled, hs, sum_calls, Call.amount, amountOf_cons, if_pos ⟨rfl, rfl⟩]
    linarith
  have ha := live_add hl hsm hf
  refine h.moved rfl rfl (fun key' d => ?_) (fun key' d => ?_)
    (fun key' d => ?_) (h.replaced hs fun _ => hsa)
  · rw [live, ha]
    simp only [unsettled, hs, sum_calls, Call.amount, amountOf_cons]
    ring
  · simp only [unsettled, hs, sum_calls, Call.amount, Totals.add, amountOf_cons]
    ring
  · rw [live, ha]
    refine add_nonneg (h.live_nonneg key' d) ?_
    split
    · exact hsm
    · exact le_rfl

theorem Inv.count (h : s.Inv) {d : Bool} {n : Int64} (hn : 0 ≤ n.toInt) (hf : Fits s key d n) :
    { s with
      tracker := s.tracker.add key d n
      observed := s.observed.add key d n.toInt : State }.Inv := by
  have hl := h.live_nonneg key d
  have hu := h.unsettled_nonneg key d
  unfold Fits at hf
  have ha := live_add hl hn (by omega)
  have hp : ∀ key' d', 0 ≤ if key = key' ∧ d = d' then n.toInt else 0 := by
    intro key' d'
    split
    · exact hn
    · exact le_rfl
  refine ⟨fun key' d' => ?_, h.calls_nonneg, fun key' d' => ?_, fun key' d' => ?_, h.identity⟩
  · rw [live, ha]
    exact add_nonneg (h.live_nonneg key' d') (hp key' d')
  · rw [live, ha]
    change s.live key' d' + _ + s.unsettled key' d' ≤ _
    by_cases heq : key = key' ∧ d = d'
    · obtain ⟨rfl, rfl⟩ := heq
      simp only [and_self, if_true]
      omega
    · have := h.bounded key' d'
      simp only [heq, if_false]
      omega
  · rw [live, ha]
    change s.live key' d' + _ + s.unsettled key' d' + s.settled key' d' = s.observed key' d' + _
    rw [← h.balance key' d']
    ring

theorem Inv.commit (h : s.Inv) (hs : s.calls = b ++ .consuming ss :: a) (enableTraffic : Bool)
    (store : Store) :
    { s with
      calls := b ++ a
      store
      transactions := s.transactions ++ [⟨enableTraffic, ss⟩] : State }.Inv := by
  have ha : ∀ key d, s.unsettled key d = ((b ++ a).map (·.amount key d)).sum +
          amountOf ss key d := by
    intro key d
    rw [unsettled, hs, sum_calls, Call.amount, map_append, sum_append]
    ring
  have ht : ∀ key d, amountOf
      ((s.transactions ++ [Transaction.mk enableTraffic ss]).flatMap Transaction.samples) key d =
        s.settled key d + amountOf ss key d := by
    intro key d
    rw [flatMap_append, amountOf_append, flatMap_singleton, settled]
  have hsm : ∀ x ∈ ss, 0 ≤ x.traffic.toInt := h.calls_nonneg (.consuming ss) (by simp [hs])
  refine ⟨h.live_nonneg, h.removed hs, fun key d => ?_, fun key d => ?_, fun key d => ?_⟩
  · have hbd := h.bounded key d
    have hnn := amountOf_nonneg hsm key d
    rw [ha] at hbd
    change s.live key d + ((b ++ a).map (·.amount key d)).sum ≤ _
    omega
  · have hb := h.balance key d
    rw [ha] at hb
    rw [settled, ht, ← hb]
    change s.live key d + ((b ++ a).map (·.amount key d)).sum + _ = _
    ring
  · have hi := h.identity key d
    rw [ha] at hi
    rw [settled, ht, hi]
    change _ = s.restored key d + ((b ++ a).map (·.amount key d)).sum + _
    ring

/-- A call that only changes its phase. -/
theorem Inv.phase (h : s.Inv) {call' : Call} (hs : s.calls = b ++ call :: a) (store : Store)
    (ha : ∀ key d, call'.amount key d = call.amount key d) (hc : call.Nonneg → call'.Nonneg) :
    { s with calls := b ++ call' :: a, store : State }.Inv := by
  have hsm : ∀ key d, ((b ++ call' :: a).map (·.amount key d)).sum = s.unsettled key d := by
    intro key d
    rw [unsettled, hs, sum_calls, sum_calls, ha]
  exact h.moved rfl rfl (fun key d => congrArg _ (hsm key d))
    (fun key d => congrArg _ (hsm key d).symm) h.live_nonneg
    (h.replaced hs hc)

theorem Inv.step {s' : State} (h : s.Inv) (hs : Step Fits s s') : s'.Inv := by
  cases hs with
  | routed inbound outbound user userID f =>
    have hl : ∀ key d, ((s.tracker.getReadCountersLocked inbound outbound user userID).1.amount key
          d).toInt = s.live key d := by
      intro key d
      rw [StatsTracker.amount_getReadCountersLocked, live]
    refine h.moved rfl rfl (fun key d => congrArg (· + _) (hl key d))
      (fun _ _ => rfl) (fun key d => ?_) h.calls_nonneg
    rw [live, hl]
    exact h.live_nonneg key d
  | count key d n known nn ok => exact h.count nn ok
  | getStats dt o f keys =>
    have hsm : ∀ key d, ((.collecting dt o [] :: s.calls).map (Call.amount key d)).sum =
          s.unsettled key d := by
      intro key d
      rw [map_cons, sum_cons, Call.amount, amountOf_nil, zero_add, unsettled]
    refine h.moved rfl rfl (fun key d => congrArg _ (hsm key d))
      (fun key d => congrArg _ (hsm key d).symm) h.live_nonneg ?_
    rintro call (_ | ⟨_, hc⟩)
    · rintro x ⟨⟩
    · exact h.calls_nonneg call hc
  | swapWrite call => exact h.swapWrite call
  | swapRead call => exact h.swapRead call
  | commit call saved => exact h.commit call _ _
  | consume call => exact h.phase call s.store (fun _ _ => rfl) id
  | fail call saved f => exact h.phase call _ (fun _ _ => rfl) id
  | restore call => exact h.restore call
  | @restored b a call =>
    have hsm : ∀ key d, ((b ++ a).map (·.amount key d)).sum = s.unsettled key d := by
      intro key d
      rw [unsettled, call, sum_calls, map_append, sum_append]
      simp [Call.amount]
    exact h.moved rfl rfl (fun key d => congrArg _ (hsm key d))
      (fun key d => congrArg _ (hsm key d).symm) h.live_nonneg
      (h.removed call)

theorem Inv.start (store : Store) : ({ store } : State).Inv := by
  have hl : ∀ key d, ({ store } : State).live key d = 0 := by
    intro key d
    cases key <;> simp [live, StatsTracker.amount, StatsTracker.loadOrCreateCounter,
      StatsTracker.lookup]
  refine ⟨fun key d => (hl key d).ge, by rintro _ ⟨⟩,
    fun key d => ?_, fun key d => ?_, fun _ _ => rfl⟩
  · have hm : 0 ≤ Int64.maxValue.toInt := by decide
    simpa [hl, unsettled] using hm
  · rw [hl]
    rfl

end State

variable {start : Store} {s : State}

theorem Reachable.inv (h : Reachable Fits start s) : s.Inv := by
  induction h with
  | start => exact .start start
  | step _ hs ih => exact ih.step hs

/-- Only a call without an error writes, and it writes what it was given. -/
theorem Step.stored {allowed : Allowed} {s' : State} (hs : Step allowed s s')
    (h : s.store = start.after s.transactions) : s'.store = start.after s'.transactions := by
  cases hs with
  | @commit before after samples fails enableTraffic store call saved =>
    rcases saveStatsSamples_cases fails enableTraffic samples s.store with ⟨failure, hf⟩ | ho
    · rw [hf] at saved
      cases saved
    · rw [ho, h, Store.after_append] at saved
      exact (Prod.mk.inj saved).1.symm
  | @fail before after samples fails enableTraffic store failure call saved free =>
    rcases saveStatsSamples_cases fails enableTraffic samples s.store with ⟨failure', hf⟩ | ho
    · rw [hf] at saved
      cases saved
      exact h
    · rw [ho] at saved
      cases saved
  | _ => exact h

theorem Reachable.stored {allowed : Allowed} (h : Reachable allowed start s) :
    s.store = start.after s.transactions := by
  induction h with
  | start => exact (start.after_nothing (by simp)).symm
  | step _ hs ih => exact hs.stored ih

/-! ## Conservation -/

/-- In every state of every run whose uncommitted traffic stays inside `int64`, and for every
counter and direction: what the counter holds, what open calls have taken out and what was
committed add up to what connections observed. The second part follows the identity of the
samples: what swaps took out of a counter is what was added back to that very counter, together
with the open and the committed samples that carry its name and user id. The third part is what
committed means: the tables are those of the start with the samples of the calls that returned no
error, and of no other call. -/
theorem traffic_conserved (h : Reachable Fits start s) (key : CounterKey) (direction : Bool) :
    s.live key direction + s.unsettled key direction + s.settled key direction =
        s.observed key direction ∧
      s.drained key direction =
        s.restored key direction + s.unsettled key direction + s.settled key direction ∧
      s.store = start.after s.transactions :=
  ⟨h.inv.balance key direction, h.inv.identity key direction, h.stored⟩

/-! ## Runs of one user -/

namespace Sample

def alice : CounterKey := .user ("alice", 7)

def store : Store where
  clients := [⟨7, 100, 0⟩]

/-- A call has taken the two counters of `alice` and is about to save them. -/
def drain (s : State) (dateTime : Int64) : State :=
  let down := s.tracker.swap alice false
  let up := down.2.swap alice true
  { s with
    tracker := up.2
    calls := [.consuming (alice.samples dateTime down.1 up.1)]
    drained := (s.drained.add alice false down.1.toInt).add alice true up.1.toInt }

theorem drain_reachable {allowed : Allowed} (h : Reachable allowed start s) (hc : s.calls = [])
    (hk : s.tracker.keys = [alice]) (dateTime : Int64) :
    Reachable allowed start (drain s dateTime) := by
  have hget := h.step (.getStats dateTime [alice] (by simp [State.accessFree, hc]) (by rw [hk]))
  rw [hc] at hget
  have hwrite := hget.step (@Step.swapWrite _ _ [] [] _ _ _ _ rfl)
  have hread := hwrite.step (@Step.swapRead _ _ [] [] _ _ _ _ _ rfl)
  exact hread.step (@Step.consume _ _ [] [] _ _ rfl)

/-- `alice` has connected and sent `n` bytes. -/
def counted (n : Int64) : State where
  tracker := (({} : StatsTracker).getReadCountersLocked "" "" "alice" 7).1.add alice true n
  store
  observed := Totals.add (fun _ _ => 0) alice true n.toInt

theorem counted_reachable {allowed : Allowed} {n : Int64} (hn : 0 ≤ n.toInt)
    (ha : ∀ s, s.live alice true = 0 → s.calls = [] → allowed s alice true n) :
    Reachable allowed store (counted n) := by
  have hr : Reachable allowed store _ :=
    Reachable.start.step (.routed "" "" "alice" 7 (by rintro _ ⟨⟩))
  exact hr.step (.count alice true n (by decide +kernel) hn (ha _ (by decide +kernel) rfl))

end Sample

open Sample in
/-- Five bytes are drained, the commit fails and they are restored; with three more bytes they are
drained again and saved. -/
theorem traffic_conserved_restored : ∃ s, Reachable Fits Sample.store s ∧
    s.restored alice true = 5 ∧ s.settled alice true = 8 ∧ s.observed alice true = 8 ∧
      s.store.clients = [⟨7, 108, 0⟩] ∧
      s.live alice true + s.unsettled alice true + s.settled alice true = s.observed alice true := by
  have hcounted : Reachable Fits Sample.store (counted 5) := by
    refine counted_reachable (by decide) fun s hl hc => ?_
    simp only [Fits, hl, State.unsettled, hc]
    decide
  have hdrained := drain_reachable hcounted rfl (by decide +kernel) 10
  have hfailed := hdrained.step (@Step.fail _ _ [] []
    [alice.sample 10 false 0, alice.sample 10 true 5] (· == .commit) true Sample.store .commit rfl
    (by decide +kernel) (by simp [State.accessFree, drain, Call.holdsAccess]))
  have hrestored := ((hfailed.step (@Step.restore _ _ [] [] _ _ rfl)).step
    (@Step.restore _ _ [] [] _ _ rfl)).step (@Step.restored _ _ [] [] rfl)
  have hmore := hrestored.step (.count alice true 3 (by decide +kernel) (by decide)
    (show _ ≤ _ by decide +kernel))
  have hagain := drain_reachable hmore rfl (by decide +kernel) 20
  have hsaved := hagain.step (@Step.commit _ _ [] []
    [alice.sample 20 false 0, alice.sample 20 true 8] (fun _ => false) true _ rfl rfl)
  exact ⟨_, hsaved, by decide +kernel, by decide +kernel, by decide +kernel, by decide +kernel,
    (traffic_conserved hsaved alice true).1⟩

open Sample in
/-- Without that bound the balance is lost: one byte past `2 ^ 63 - 1` and the counter is negative,
and the next drain throws the whole amount away. -/
theorem traffic_wraps :
    ∃ s : State, Reachable (fun _ _ _ _ => True) Sample.store s ∧
      s.observed alice true = 2 ^ 63 ∧
      s.live alice true + s.unsettled alice true + s.settled alice true = 0 := by
  have hfull : Reachable (fun _ _ _ _ => True) Sample.store (counted Int64.maxValue) :=
    counted_reachable (by decide) fun _ _ _ => trivial
  have hwrapped := hfull.step (.count alice true 1 (by decide +kernel) (by decide) trivial)
  have hdrained := drain_reachable hwrapped rfl (by decide +kernel) 10
  exact ⟨_, hdrained, by decide +kernel, by decide +kernel⟩

end Solovey.Tracker
