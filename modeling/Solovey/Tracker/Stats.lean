import Solovey.Data.Maps

/-!
# The traffic counters of the running core

The stats tracker keeps one pair of byte counters, `int64` as the proxy library requires, for every
inbound, every outbound and every authenticated user. Connections add to them without a lock;
`GetStats` swaps them to zero and returns what it took as samples, and `RestoreStats` adds samples
back. `ConsumeStats` ties the two together: samples whose consumer fails are restored.
-/

namespace Solovey.Tracker

open Std

abbrev VPNUserID := UInt64

structure Counter where
  read : Int64 := 0
  write : Int64 := 0
  deriving DecidableEq, Inhabited

/-- The counter of one direction: up is what was read, down what was written. -/
def Counter.get (c : Counter) (direction : Bool) : Int64 :=
  if direction then c.read else c.write

def Counter.set (c : Counter) (direction : Bool) (value : Int64) : Counter :=
  if direction then { c with read := value } else { c with write := value }

@[simp] theorem Counter.get_set (c : Counter) (d d' : Bool) (v : Int64) : (c.set d v).get d' =
      if d = d' then v else c.get d' := by
  cases d <;> cases d' <;> rfl

@[simp] theorem Counter.get_default (d : Bool) : ({} : Counter).get d = 0 := by
  cases d <;> rfl

/-- A display name is an observation label, not a durable accounting key. -/
abbrev UserCounterKey := String × VPNUserID

inductive CounterKey
  | inbound (tag : String)
  | outbound (tag : String)
  | user (key : UserCounterKey)
  deriving DecidableEq

structure StatsTracker where
  inbounds : ExtTreeMap String Counter := ∅
  outbounds : ExtTreeMap String Counter := ∅
  users : ExtTreeMap UserCounterKey Counter := ∅

namespace StatsTracker

def lookup (t : StatsTracker) : CounterKey → Option Counter
  | .inbound tag => t.inbounds[tag]?
  | .outbound tag => t.outbounds[tag]?
  | .user key => t.users[key]?

def store (t : StatsTracker) (c : Counter) : CounterKey → StatsTracker
  | .inbound tag => { t with inbounds := t.inbounds.insert tag c }
  | .outbound tag => { t with outbounds := t.outbounds.insert tag c }
  | .user key => { t with users := t.users.insert key c }

/-- The keys of the three maps, in the order `GetStats` visits the maps. -/
def keys (t : StatsTracker) : List CounterKey :=
  t.inbounds.keys.map .inbound ++ t.outbounds.keys.map .outbound ++ t.users.keys.map .user

theorem lookup_store (t : StatsTracker) (c : Counter) (k k' : CounterKey) :
    (t.store c k).lookup k' = if k = k' then some c else t.lookup k' := by
  cases k <;> cases k' <;> simp [store, lookup, ExtTreeMap.getElem?_insert]

/-- The counter at a key; a missing one is created with zeros. -/
def loadOrCreateCounter (t : StatsTracker) (key : CounterKey) : Counter :=
  (t.lookup key).getD {}

/-- What a counter holds in one direction. -/
def amount (t : StatsTracker) (key : CounterKey) (direction : Bool) : Int64 :=
  (t.loadOrCreateCounter key).get direction

/-- `Swap(0)`: the value is taken out and zero is left. -/
def swap (t : StatsTracker) (key : CounterKey) (direction : Bool) : Int64 × StatsTracker :=
  (t.amount key direction, t.store ((t.loadOrCreateCounter key).set direction 0) key)

/-- `Add`, with the wrap-around of `int64`. -/
def add (t : StatsTracker) (key : CounterKey) (direction : Bool) (n : Int64) : StatsTracker :=
  t.store ((t.loadOrCreateCounter key).set direction (t.amount key direction + n)) key

/-- The counters of a connection, created where they are missing. An empty name has no counter. -/
def getReadCountersLocked (t : StatsTracker) (inbound outbound user : String)
    (userID : VPNUserID) : StatsTracker × List CounterKey :=
  let keys := (if inbound ≠ "" then [.inbound inbound] else []) ++
    (if outbound ≠ "" then [.outbound outbound] else []) ++
    (if user ≠ "" then [CounterKey.user (user, userID)] else [])
  (keys.foldl (fun t key => t.store (t.loadOrCreateCounter key) key) t, keys)

theorem amount_store (t : StatsTracker) (c : Counter) (k k' : CounterKey) (d : Bool) :
    (t.store c k).amount k' d =
      if k = k' then c.get d else t.amount k' d := by
  unfold amount loadOrCreateCounter
  rw [lookup_store]
  split <;> rfl

theorem amount_add (t : StatsTracker) (k k' : CounterKey) (d d' : Bool) (n : Int64) :
    (t.add k d n).amount k' d' =
      if k = k' ∧ d = d' then t.amount k d + n
      else t.amount k' d' := by
  unfold add
  rw [amount_store, Counter.get_set]
  by_cases hk : k = k'
  · subst hk
    simp [amount]
  · simp [hk]

theorem amount_swap (t : StatsTracker) (k k' : CounterKey) (d d' : Bool) :
    (t.swap k d).2.amount k' d' =
      if k = k' ∧ d = d' then 0 else t.amount k' d' := by
  unfold swap
  rw [amount_store, Counter.get_set]
  by_cases hk : k = k'
  · subst hk
    simp [amount]
  · simp [hk]

theorem amount_getReadCountersLocked (t : StatsTracker) (i o u : String) (ui : VPNUserID)
    (k : CounterKey) (d : Bool) :
    (t.getReadCountersLocked i o u ui).1.amount k d = t.amount k d := by
  unfold getReadCountersLocked
  dsimp only
  generalize (if i ≠ "" then [.inbound i] else []) ++ (if o ≠ "" then [.outbound o] else []) ++
    (if u ≠ "" then [CounterKey.user (u, ui)] else []) = created
  induction created generalizing t with
  | nil => rfl
  | cons head tail ih =>
    rw [List.foldl_cons, ih, amount_store]
    split
    · next h => rw [h, amount]
    · rfl

end StatsTracker

/-! ## Samples -/

inductive Resource
  | inbound
  | outbound
  | user
  deriving DecidableEq

structure Stat where
  /-- Captured at authenticated admission; zero is an observation without durable attribution. -/
  vpnUserID : VPNUserID := 0
  dateTime : Int64
  resource : Resource
  tag : String
  direction : Bool
  traffic : Int64
  deriving DecidableEq

/-- The sample that `GetStats` writes for a counter. -/
def CounterKey.sample (dateTime : Int64) (direction : Bool) (traffic : Int64) : CounterKey → Stat
  | .inbound tag => { dateTime, resource := .inbound, tag, direction, traffic }
  | .outbound tag => { dateTime, resource := .outbound, tag, direction, traffic }
  | .user (name, id) =>
    { vpnUserID := id, dateTime, resource := .user, tag := name, direction, traffic }

/-- The counter that `RestoreStats` picks for a sample. -/
def Stat.key (x : Stat) : CounterKey :=
  match x.resource with
  | .inbound => .inbound x.tag
  | .outbound => .outbound x.tag
  | .user => .user (x.tag, x.vpnUserID)

@[simp] theorem CounterKey.key_sample (k : CounterKey) (dt : Int64) (d : Bool) (t : Int64) :
    (k.sample dt d t).key = k := by
  cases k <;> rfl

@[simp] theorem CounterKey.direction_sample (k : CounterKey) (dt : Int64) (d : Bool) (t : Int64) :
    (k.sample dt d t).direction = d := by
  cases k <;> rfl

@[simp] theorem CounterKey.traffic_sample (k : CounterKey) (dt : Int64) (d : Bool) (t : Int64) :
    (k.sample dt d t).traffic = t := by
  cases k <;> rfl

/-- What `GetStats` appends for one counter after both swaps. -/
def CounterKey.samples (key : CounterKey) (dateTime down up : Int64) : List Stat :=
  if 0 < down ∨ 0 < up then [key.sample dateTime false down, key.sample dateTime true up] else []

end Solovey.Tracker
