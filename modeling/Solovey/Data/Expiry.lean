import Mathlib.Logic.Function.Basic
import Solovey.Data.Table

/-!
# Tables whose entries expire

A component keeps entries in a table and removes expired ones sooner or later. If no access tells an
expired entry from a missing one, the answers are those of a map from which nothing is removed.
-/

namespace Solovey.Data

open List

variable {S C K V R : Type*}

/-- `t` misses nothing of `m` but expired entries. -/
def Lags (expired : V → Bool) (m t : K → Option V) : Prop :=
  ∀ key, t key = m key ∨ t key = none ∧ ∃ entry, m key = some entry ∧ expired entry = true

namespace Lags

variable {expired expired' : V → Bool} {m t u : K → Option V}

theorem refl (m : K → Option V) : Lags expired m m := fun _ => .inl rfl

theorem trans (h : Lags expired m t) (h' : Lags expired t u) : Lags expired m u := by
  intro key
  rcases h' key with heq | ⟨hn, e, he, hex⟩
  · rw [heq]
    exact h key
  · rcases h key with heq | ⟨hm, -⟩
    · exact .inr ⟨hn, e, heq ▸ he, hex⟩
    · rw [hm] at he
      cases he

theorem mono (h : Lags expired m t) (hle : ∀ e, expired e = true → expired' e = true) :
    Lags expired' m t :=
  fun key => (h key).imp_right fun ⟨hn, e, he, hex⟩ =>
    ⟨hn, e, he, hle e hex⟩

variable [DecidableEq K]

theorem retain (t : Table K V) : Lags expired t.lookup
    (t.retain fun e => if expired e then none else some e).lookup := by
  intro key
  dsimp only
  rw [Table.lookup_retain]
  cases he : t.lookup key with
  | none => exact .inl rfl
  | some e =>
    cases hex : expired e with
    | false => simp [hex]
    | true => exact .inr ⟨by simp [hex], e, rfl, hex⟩

/-- The keys of the table are among those of the map. -/
theorem keys_subset {t : Table K V} (h : Lags expired m t.lookup) {ks : List K}
    (hmp : ∀ key, m key ≠ none → key ∈ ks) : t.keys ⊆ ks := by
  intro key hk
  refine hmp key fun hn => ?_
  have hm := AList.lookup_isSome.mpr (AList.mem_keys.mpr hk)
  rcases h key with heq | ⟨heq, -⟩
  · simp [show t.lookup key = none from heq.trans hn] at hm
  · simp [show t.lookup key = none from heq] at hm

theorem update (h : Lags expired m t) (k : K) (e : Option V) :
    Lags expired (Function.update m k e) (Function.update t k e) := by
  intro other
  by_cases ho : other = k
  · subst ho
    simp
  · simpa [ho] using h other

end Lags

theorem Table.lookup_erase [DecidableEq K] (t : Table K V) (k : K) :
    (fun other => (t.erase k).lookup other) = Function.update t.lookup k none := by
  funext other
  by_cases ho : other = k
  · subst ho
    simp
  · rw [AList.lookup_erase_ne ho, Function.update_of_ne ho]

/-! ## Accesses -/

/-- How calls read and replace entries. A call without a target removes all of them. -/
structure Accesses (C K V R : Type*) where
  target : C → Option K
  access : ℤ → C → Option V → R × Option V
  expired : ℤ → V → Bool
  mono : ∀ {t now entry}, t ≤ now → expired t entry = true → expired now entry = true

variable [DecidableEq K]

namespace Accesses

variable (A : Accesses C K V R)

/-- The answer to a call, and the entries after it. -/
def reply (m : K → Option V) (now : ℤ) (c : C) : R × (K → Option V) :=
  match A.target c with
  | some key => ((A.access now c (m key)).1, Function.update m key (A.access now c (m key)).2)
  | none => ((A.access now c none).1, fun _ => none)

/-- The answers to a sequence of calls when nothing is removed. -/
def replies : (K → Option V) → List (ℤ × C) → List R
  | _, [] => []
  | m, (now, c) :: rest => (A.reply m now c).1 :: replies (A.reply m now c).2 rest

/-- Every call of a sequence meets a condition when nothing is removed. -/
def Meets (ok : (K → Option V) → ℤ → C → Prop) : (K → Option V) → List (ℤ × C) → Prop
  | _, [] => True
  | m, (now, c) :: rest => ok m now c ∧ Meets ok (A.reply m now c).2 rest

/-- A call does not tell an expired entry from a missing one. -/
def Blind (m : K → Option V) (now : ℤ) (c : C) : Prop :=
  ∀ key ∈ A.target c, ∀ entry, m key = some entry → A.expired now entry = true →
    A.access now c (some entry) = A.access now c none

variable {A} {m t : K → Option V} {n : ℤ} {c : C}

theorem meets_of_forall {ok : (K → Option V) → ℤ → C → Prop} (h : ∀ m n c, ok m n c)
    (cs : List (ℤ × C)) : A.Meets ok m cs := by
  induction cs generalizing m with
  | nil => trivial
  | cons call rest ih => exact ⟨h _ _ _, ih⟩

theorem Meets.imp {ok ok' : (K → Option V) → ℤ → C → Prop} (h : ∀ m n c, ok m n c → ok' m n c)
    {cs : List (ℤ × C)} (hm : A.Meets ok m cs) : A.Meets ok' m cs := by
  induction cs generalizing m with
  | nil => trivial
  | cons call rest ih => exact ⟨h _ _ _ hm.1, ih hm.2⟩

theorem reply_keys {ks : List K} (hm : ∀ key, m key ≠ none → key ∈ ks)
    (hc : ∀ key ∈ A.target c, key ∈ ks) : ∀ key, (A.reply m n c).2 key ≠ none → key ∈ ks := by
  intro key hk
  unfold reply at hk
  split at hk
  case h_1 target ht =>
    by_cases heq : key = target
    · exact heq ▸ hc target ht
    · exact hm key (by simpa [heq] using hk)
  case h_2 => exact absurd rfl hk

theorem Blind.reply (h : A.Blind m n c) (hl : Lags (A.expired n) m t) :
    (A.reply t n c).1 = (A.reply m n c).1 ∧
      Lags (A.expired n) (A.reply m n c).2 (A.reply t n c).2 := by
  unfold Accesses.reply
  cases ht : A.target c with
  | none => exact ⟨rfl, .refl _⟩
  | some key =>
    have hs : A.access n c (t key) = A.access n c (m key) := by
      rcases hl key with heq | ⟨hn, e, he, hex⟩
      · rw [heq]
      · rw [hn, he, h key ht e he hex]
    dsimp only
    rw [hs]
    exact ⟨rfl, hl.update key _⟩

end Accesses

/-! ## Runs -/

/-- A component that answers calls and sweeps its entries. -/
structure Limiter (S C R : Type*) where
  call : S → ℤ → C → R × S
  sweep : S → ℤ → S

/-- The answers in a run of calls and sweeps, each with its time. -/
def Limiter.answers (L : Limiter S C R) : S → List (ℤ × Option C) → List R
  | _, [] => []
  | s, (now, none) :: ops => L.answers (L.sweep s now) ops
  | s, (now, some c) :: ops => (L.call s now c).1 :: L.answers (L.call s now c).2 ops

/-- The calls of a run. -/
def calls (ops : List (ℤ × Option C)) : List (ℤ × C) :=
  ops.filterMap fun op => op.2.map fun c => (op.1, c)

/-- Two runs of one sequence of calls, at times that do not go back, on at most `maxKeys` keys. -/
structure SameCalls (target : C → Option K) (maxKeys : ℕ) (ops ops' : List (ℤ × Option C)) :
    Prop where
  calls_eq : calls ops = calls ops'
  ordered : (ops.map Prod.fst).Pairwise (· ≤ ·)
  ordered' : (ops'.map Prod.fst).Pairwise (· ≤ ·)
  keys : ((calls ops).filterMap fun call => target call.2).dedup.length ≤ maxKeys

/-- A component that sweeps before it accesses its entries, and needs room for new keys. -/
structure Implements (L : Limiter S C R) (A : Accesses C K V R) (entries : S → Table K V)
    (maxKeys : ℕ) : Prop where
  sweep : ∀ s now, Lags (A.expired now) (entries s).lookup (entries (L.sweep s now)).lookup
  call : ∀ s now c, ∃ swept : Table K V,
    Lags (A.expired now) (entries s).lookup swept.lookup ∧
      ((∀ key ∈ A.target c, key ∈ swept ∨ swept.size < maxKeys) →
        (L.call s now c).1 = (A.reply swept.lookup now c).1 ∧
          (entries (L.call s now c).2).lookup = (A.reply swept.lookup now c).2)

namespace Implements

variable {L : Limiter S C R} {A : Accesses C K V R} {es : S → Table K V} {ms : ℕ}

/-- A run follows the map from which nothing is removed. The keys of the map are among those of the
run, so that there is always room. -/
theorem answers_eq_of_lags (h : Implements L A es ms) {ks : List K} (hf : ks.dedup.length ≤ ms)
    {os : List (ℤ × Option C)} (hk : (calls os).filterMap (fun call => A.target call.2) ⊆ ks)
    (ho : (os.map Prod.fst).Pairwise (· ≤ ·)) {s : S} {m : K → Option V}
    (hb : A.Meets A.Blind m (calls os)) (hm : ∀ key, m key ≠ none → key ∈ ks)
    (hlg : ∀ op ∈ os, Lags (A.expired op.1) m (es s).lookup) :
    L.answers s os = A.replies m (calls os) := by
  induction os generalizing s m with
  | nil => rfl
  | cons op os ih =>
    obtain ⟨now, call⟩ := op
    rw [map_cons, pairwise_cons] at ho
    have hno : Lags (A.expired now) m (es s).lookup := hlg _ mem_cons_self
    have hl : ∀ {m t : K → Option V}, Lags (A.expired now) m t →
        ∀ op ∈ os, Lags (A.expired op.1) m t := fun hlg op hop =>
      hlg.mono fun e => A.mono (ho.1 _ (mem_map_of_mem hop))
    cases call with
    | none => exact ih hk ho.2 hb hm (hl (hno.trans (h.sweep s now)))
    | some c =>
      obtain ⟨sw, hs, hc⟩ := h.call s now c
      have hfl := hno.trans hs
      have hmm : ∀ key ∈ A.target c, key ∈ ks := fun key hky =>
        hk (mem_filterMap.mpr ⟨(now, c), mem_cons_self, hky⟩)
      have hr : ∀ key ∈ A.target c, key ∈ sw ∨ sw.size < ms := by
        intro key hky
        refine or_iff_not_imp_left.mpr fun hnw => ?_
        exact (Table.size_lt (hmm key hky) hnw (hfl.keys_subset hm)).trans_le hf
      obtain ⟨ha, he⟩ := hc hr
      obtain ⟨hsm, hn⟩ := Accesses.Blind.reply hb.1 hfl
      have hrs : ((calls os).filterMap fun call => A.target call.2) ⊆ ks := fun key hky =>
        have ⟨call, hc, ht⟩ := mem_filterMap.mp hky
        hk (mem_filterMap.mpr ⟨call, mem_cons_of_mem _ hc, ht⟩)
      refine congrArg₂ List.cons (ha.trans hsm) ?_
      exact ih hrs ho.2 hb.2 (Accesses.reply_keys hm hmm) (hl (he ▸ hn))

/-- The answers depend only on the calls. -/
theorem answers_eq (h : Implements L A es ms) {L' : Limiter S C R} (h' : Implements L' A es ms)
    {os os' : List (ℤ × Option C)} (hsa : SameCalls A.target ms os os')
    (hb : A.Meets A.Blind (fun _ => none) (calls os)) {s : S}
    (hs : ∀ key, (es s).lookup key = none) : L.answers s os = L'.answers s os' := by
  have hl : ∀ op : ℤ × Option C, Lags (A.expired op.1) (fun _ => none) (es s).lookup :=
    fun _ key => .inl (hs key)
  have he : ∀ keys : List K, ∀ key, (fun _ => none : K → Option V) key ≠ none → key ∈ keys :=
    fun _ _ hsm => absurd rfl hsm
  have hb' := hb
  rw [hsa.calls_eq] at hb'
  rw [h.answers_eq_of_lags hsa.keys (List.Subset.refl _) hsa.ordered hb (he _)
    fun op _ => hl op, hsa.calls_eq]
  exact (h'.answers_eq_of_lags (hsa.calls_eq ▸ hsa.keys) (List.Subset.refl _) hsa.ordered'
    hb' (he _) fun op _ => hl op).symm

end Implements

end Solovey.Data
