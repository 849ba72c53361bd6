import Mathlib

/-!
# The last event of a history

A cell that every event of a history sets or leaves alone holds what the last setting event wrote:
`last? f l` for the partial function `f` that gives the written value. `pick` keeps the selected
positions of a history. A cell survives when the position of its last event is selected
(`last_pick`).

`foldlM_induction` is the invariant rule for a fold over a history that can fail.
-/

namespace Solovey.Data

open List

variable {α β : Type}

/-- The value of the last element on which `f` is defined. -/
def last? (f : α → Option β) (l : List α) : Option β := l.reverse.findSome? f

section Last

variable {f : α → Option β}

@[simp] theorem last_nil : last? f [] = none := rfl

theorem last_append (l m : List α) : last? f (l ++ m) = (last? f m).or (last? f l) := by
  rw [last?, reverse_append, findSome?_append]
  rfl

@[simp] theorem last_concat (l : List α) (a : α) : last? f (l ++ [a]) = (f a).or (last? f l) := by
  rw [last_append]
  simp [last?]

@[simp] theorem last_cons (a : α) (l : List α) : last? f (a :: l) = (last? f l).or (f a) := by
  rw [← singleton_append, last_append]
  simp [last?]

theorem last_eq_none {l : List α} : last? f l = none ↔ ∀ a ∈ l, f a = none := by
  simp [last?, findSome?_eq_none_iff]

theorem last_eq_some {l : List α} {b : β} : last? f l = some b ↔
      ∃ l₁ a l₂, l = l₁ ++ a :: l₂ ∧ f a = some b ∧ ∀ x ∈ l₂, f x = none := by
  constructor
  · intro h
    obtain ⟨l₁, a, l₂, hl, ha, hn⟩ := findSome?_eq_some_iff.mp h
    refine ⟨l₂.reverse, a, l₁.reverse, ?_, ha, by simpa using hn⟩
    rw [← reverse_reverse l, hl]
    simp
  · rintro ⟨l₁, a, l₂, rfl, ha, hn⟩
    rw [last_append, last_cons, last_eq_none.mpr hn, ha]
    rfl

theorem last_eq_some_mem {l : List α} {b : β} (h : last? f l = some b) : ∃ a ∈ l, f a = some b := by
  obtain ⟨l₁, a, l₂, rfl, ha, -⟩ := last_eq_some.mp h
  exact ⟨a, by simp, ha⟩

end Last

/-! ## Selected positions -/

def pick (sel : ℕ → Bool) (l : List α) : List α := (l.zipIdx.filter fun e => sel e.2).map Prod.fst

variable {sl : ℕ → Bool}

theorem mem_pick {l : List α} {a : α} : a ∈ pick sl l ↔ ∃ i, l[i]? = some a ∧ sl i = true := by
  simp only [pick, mem_map, mem_filter, mem_zipIdx_iff_getElem?]
  constructor
  · rintro ⟨⟨b, i⟩, ⟨hb, hi⟩, rfl⟩
    exact ⟨i, hb, hi⟩
  · rintro ⟨i, ha, hi⟩
    exact ⟨(a, i), ⟨ha, hi⟩, rfl⟩

theorem pick_sublist (sl : ℕ → Bool) (l : List α) : List.Sublist (pick sl l) l := by
  have h : List.Sublist (pick sl l) (l.zipIdx.map Prod.fst) := filter_sublist.map _
  rwa [zipIdx_map_fst] at h

theorem pick_subset {l : List α} {a : α} (h : a ∈ pick sl l) : a ∈ l := (pick_sublist sl l).subset h

/-- The selection splits where the history does. -/
theorem pick_split (sl : ℕ → Bool) (l₁ : List α) (a : α) (l₂ : List α) (hsl : sl l₁.length = true) :
    ∃ k₁ k₂, pick sl (l₁ ++ a :: l₂) = k₁ ++ a :: k₂ ∧ List.Sublist k₁ l₁ ∧ List.Sublist k₂ l₂ := by
  refine ⟨pick sl l₁, pick (fun i => sl (l₁.length + 1 + i)) l₂, ?_, pick_sublist _ _,
    pick_sublist _ _⟩
  have hs : (l₂.zipIdx (l₁.length + 1)).filter (fun e => sl e.2) =
      (l₂.zipIdx.filter fun e => sl (l₁.length + 1 + e.2)).map
        (Prod.map id (l₁.length + 1 + ·)) := by
    rw [zipIdx_eq_map_add, filter_map]
    congr 1
  simp only [pick, zipIdx_append, filter_append, map_append, zipIdx_cons, Nat.zero_add]
  rw [filter_cons_of_pos (by simpa using hsl), hs, map_cons, List.map_map]
  rfl

/-- A cell keeps its value when the position of its last event is selected. -/
theorem last_pick {f : α → Option β} {l₁ l₂ : List α} {a : α} {b : β} (ha : f a = some b)
    (hn : ∀ x ∈ l₂, f x = none) (hs : sl l₁.length = true) :
    last? f (pick sl (l₁ ++ a :: l₂)) = some b := by
  obtain ⟨k₁, k₂, hk, -, hsb⟩ := pick_split sl l₁ a l₂ hs
  exact last_eq_some.mpr ⟨k₁, a, k₂, hk, ha, fun x hx => hn x (hsb.subset hx)⟩

/-- The picked elements weigh at most what their positions do. -/
theorem pick_sum_le (w : α → ℕ) (l : List α) (ic : List ℕ) (v : ℕ → ℕ)
    (hv : ∀ i a, l[i]? = some a → v i = w a) :
    ((pick (fun i => decide (i ∈ ic)) l).map w).sum ≤ (ic.map v).sum := by
  let entries := l.zipIdx.filter fun e => decide (e.2 ∈ ic)
  have hn : (entries.map Prod.snd).Nodup := by
    refine List.Nodup.sublist (filter_sublist.map Prod.snd) ?_
    rw [zipIdx_map_snd]
    exact nodup_range'
  have hsb : entries.map Prod.snd ⊆ ic := by
    intro i hi
    obtain ⟨e, he, rfl⟩ := mem_map.mp hi
    simpa using (mem_filter.mp he).2
  have hp : (pick (fun i => decide (i ∈ ic)) l).map w = (entries.map Prod.snd).map v := by
    simp only [pick, List.map_map]
    refine map_congr_left fun e he => ?_
    exact (hv e.2 e.1 (mem_zipIdx_iff_getElem?.mp (mem_filter.mp he).1)).symm
  obtain ⟨k, hpr, hs⟩ := hn.subperm hsb
  rw [hp, ← (hpr.map v).sum_nat]
  exact (hs.map v).sum_le_sum fun _ _ => Nat.zero_le _

/-! ## The last position with a property -/

theorem eq_concat_of_getElem? {l : List α} {i : ℕ} {a : α} (ha : l[i]? = some a)
    (hi : i + 1 = l.length) : l = l.take i ++ [a] := by
  obtain ⟨hlt, hg⟩ := List.getElem?_eq_some_iff.mp ha
  have hd : l.drop i = [a] := by rw [drop_eq_getElem_cons hlt, hg, drop_eq_nil_of_le (by omega)]
  conv_lhs => rw [← take_append_drop i l, hd]

/-- The search from the end of the list. -/
def lastIndex (p : α → Bool) (l : List α) : Option ℕ :=
  (l.zipIdx.reverse.find? fun e => p e.1).map Prod.snd

/-- At most one position is the given one. -/
theorem countP_zipIdx_le_one {p : ℕ → Bool} {k : ℕ} (h : ∀ i, p i = true → i = k) (l : List α) :
    (l.zipIdx.countP fun e => p e.2) ≤ 1 := by
  have hm : (l.zipIdx.countP fun e => p e.2) = (List.range' 0 l.length).countP p := by
    rw [← zipIdx_map_snd, countP_map]
    rfl
  rw [hm]
  calc (List.range' 0 l.length).countP p ≤ (List.range' 0 l.length).countP (· == k) :=
        countP_mono_left fun i _ hi => by simpa using h i hi
    _ ≤ 1 := nodup_iff_count_le_one.mp nodup_range' k

theorem lastIndex_concat (p : α → Bool) (l : List α) (a : α) :
    lastIndex p (l ++ [a]) = if p a then some l.length else lastIndex p l := by
  simp only [lastIndex, zipIdx_append, zipIdx_singleton, reverse_append,
    reverse_singleton, singleton_append, find?_cons]
  split_ifs with h <;> simp [h]

theorem lastIndex_append {p : α → Bool} {l₁ l₂ : List α} {a : α} (ha : p a = true)
    (hn : ∀ x ∈ l₂, p x = false) : lastIndex p (l₁ ++ a :: l₂) = some l₁.length := by
  induction l₂ using List.reverseRecOn with
  | nil => rw [lastIndex_concat, if_pos ha]
  | append_singleton l₂ b ih =>
    have hb : p b = false := hn b (by simp)
    rw [← cons_append, ← append_assoc, lastIndex_concat, hb]
    exact ih fun x hx => hn x (by simp [hx])

theorem lastIndex_eq_some {p : α → Bool} {l : List α} {i : ℕ} (h : lastIndex p l = some i) :
    ∃ l₁ a l₂, l = l₁ ++ a :: l₂ ∧ l₁.length = i ∧ p a = true ∧ ∀ x ∈ l₂, p x = false := by
  induction l using List.reverseRecOn with
  | nil => simp [lastIndex] at h
  | append_singleton l b ih =>
    rw [lastIndex_concat] at h
    split_ifs at h with hb
    · exact ⟨l, b, [], rfl, by simpa using h, hb, by simp⟩
    · obtain ⟨l₁, a, l₂, rfl, hi, ha, hn⟩ := ih h
      refine ⟨l₁, a, l₂ ++ [b], by simp, hi, ha, ?_⟩
      intro x hx
      rcases mem_append.mp hx with hx | hx
      · exact hn x hx
      · rw [mem_singleton.mp hx]
        simpa using hb

/-! ## Computations and folds that can fail -/

theorem bind_ok {ε : Type} {x : Except ε α} {f : α → Except ε β} {b : β} :
    (x >>= f) = .ok b ↔ ∃ a, x = .ok a ∧ f a = .ok b := by
  cases x <;> simp [bind, Except.bind]

theorem map_ok {ε : Type} {x : Except ε α} {f : α → β} {b : β} :
    x.map f = .ok b ↔ ∃ a, x = .ok a ∧ f a = b := by
  cases x <;> simp [Except.map]

theorem mapError_ok {ε ε' : Type} {x : Except ε α} {f : ε → ε'} {a : α} :
    x.mapError f = .ok a ↔ x = .ok a := by
  cases x <;> simp [Except.mapError]

section Fold

variable {ε σ : Type} {f : σ → α → Except ε σ} {i : σ}

theorem foldlM_concat_ok {l : List α} {a : α} {s' : σ} :
    (l ++ [a]).foldlM f i = .ok s' ↔ ∃ s, l.foldlM f i = .ok s ∧ f s a = .ok s' := by
  rw [foldlM_append]
  cases l.foldlM f i with
  | error e => simp [bind, Except.bind]
  | ok s =>
    simp only [foldlM_cons, foldlM_nil]
    cases h : f s a <;> simp [bind, Except.bind, pure, Except.pure, h]

/-- A property of the history and the state that holds at the start and that every event
keeps. -/
theorem foldlM_induction {P : List α → σ → Prop} (nil : P [] i)
    (c : ∀ l s a s', l.foldlM f i = .ok s → P l s → f s a = .ok s' → P (l ++ [a]) s') {l : List α}
    {s : σ} (h : l.foldlM f i = .ok s) : P l s := by
  induction l using List.reverseRecOn generalizing s with
  | nil =>
    cases h
    exact nil
  | append_singleton l a ih =>
    obtain ⟨s₀, hl, ha⟩ := foldlM_concat_ok.mp h
    exact c l s₀ a s hl (ih hl) ha

end Fold

end Solovey.Data
