import Mathlib

/-!
# Tables

Finite maps as association lists without repeated keys. Beside what Mathlib has of them: passing
every value through a partial function, which removes the keys it gives nothing for, and making
room by removing the oldest entries. The order of the list is the order of an iteration.
-/

namespace Solovey.Data

open List

/-- A finite map from `K` to `V`. -/
abbrev Table (K V : Type*) := AList fun _ : K => V

namespace Table

variable {K V : Type*}

def size (t : Table K V) : ℕ := t.keys.length

/-! ## Passing the values through a partial function -/

def retainEntries (f : V → Option V) (entries : List (Σ _ : K, V)) : List (Σ _ : K, V) :=
  entries.filterMap fun e => (f e.2).map (Sigma.mk e.1)

theorem keys_retainEntries (f : V → Option V) (es : List (Σ _ : K, V)) :
    (retainEntries f es).keys.Sublist es.keys := by
  induction es with
  | nil => exact .slnil
  | cons e es ih =>
    cases h : f e.2 with
    | none =>
      simp only [retainEntries, filterMap_cons, h, Option.map_none]
      exact ih.cons _
    | some v =>
      simp only [retainEntries, filterMap_cons, h, Option.map_some, List.keys, map_cons]
      exact ih.cons_cons _

/-- The values through `f`, without the keys of the values it gives nothing for. -/
def retain (f : V → Option V) (t : Table K V) : Table K V :=
  ⟨retainEntries f t.entries,
    t.keys_nodup.sublist (keys_retainEntries f t.entries)⟩

theorem keys_retain (f : V → Option V) (t : Table K V) : (t.retain f).keys.Sublist t.keys :=
  keys_retainEntries f t.entries

variable [DecidableEq K]

theorem lookup_retain (f : V → Option V) (t : Table K V) (k : K) :
    (t.retain f).lookup k = (t.lookup k).bind f := by
  obtain ⟨entries, n⟩ := t
  change (retainEntries f entries).dlookup k = (entries.dlookup k).bind f
  induction entries with
  | nil => rfl
  | cons e entries ih =>
    obtain ⟨key, value⟩ := e
    obtain ⟨hf, hr⟩ := nodupKeys_cons.mp n
    have ih := ih hr
    by_cases hk : k = key
    · subst hk
      rw [dlookup_cons_eq]
      cases h : f value with
      | some v => simp [retainEntries, h]
      | none =>
        have ha : k ∉ (retainEntries f entries).keys := fun hm =>
          hf ((keys_retainEntries f entries).subset hm)
        simpa [retainEntries, h] using dlookup_eq_none.mpr ha
    · rw [dlookup_cons_ne _ _ hk, ← ih]
      cases h : f value with
      | some v =>
        simp only [retainEntries, filterMap_cons, h, Option.map_some]
        exact dlookup_cons_ne (β := fun _ => V) _ ⟨key, v⟩ hk
      | none => simp [retainEntries, h]

variable {t : Table K V}

theorem keys_insert_subset {k : K} {v : V} {ks : List K} (hk : k ∈ ks) (h : t.keys ⊆ ks) :
    (t.insert k v).keys ⊆ ks := by
  intro key hky
  rw [AList.keys_insert, mem_cons] at hky
  rcases hky with rfl | hky
  · exact hk
  · exact h (List.mem_of_mem_erase hky)

/-- Keys that are not all of a list are fewer than the list has. -/
theorem size_lt {k : K} {ks : List K} (hk : k ∈ ks) (hnw : k ∉ t) (h : t.keys ⊆ ks) :
    t.size < ks.dedup.length := by
  have hs : (k :: t.keys) ⊆ ks.dedup := by
    intro key hky
    rw [mem_dedup]
    rcases mem_cons.mp hky with rfl | hky
    · exact hk
    · exact h hky
  have hn : (k :: t.keys).Nodup := nodup_cons.mpr ⟨hnw, t.keys_nodup⟩
  exact (hn.subperm hs).length_le

/-! ## Making room -/

/-- The older of the oldest entry so far and the next one. -/
def older (updatedAt : V → ℤ) : Option (Σ _ : K, V) → (Σ _ : K, V) → Option (Σ _ : K, V)
  | none, e => some e
  | some oldest, e => if updatedAt e.2 < updatedAt oldest.2 then some e else some oldest

/-- The key of an oldest entry. -/
def oldestKey (updatedAt : V → ℤ) (t : Table K V) : Option K :=
  (t.entries.foldl (older updatedAt) none).map (·.1)

/-- Removes oldest entries, at most `fuel` of them, until there are fewer than `maxKeys`. -/
def evict (updatedAt : V → ℤ) (maxKeys : ℕ) : ℕ → Table K V → Table K V
  | 0, t => t
  | fuel + 1, t =>
    if t.size < maxKeys then t
    else
      match t.oldestKey updatedAt with
      | none => t
      | some key => evict updatedAt maxKeys fuel (t.erase key)

def makeRoom (updatedAt : V → ℤ) (maxKeys : ℕ) (t : Table K V) : Table K V :=
  evict updatedAt maxKeys t.size t

theorem makeRoom_of_lt {ua : V → ℤ} {ms : ℕ} (h : t.size < ms) : t.makeRoom ua ms = t := by
  unfold makeRoom
  cases t.size with
  | zero => rfl
  | succ fuel => rw [evict, if_pos h]

end Table

end Solovey.Data
