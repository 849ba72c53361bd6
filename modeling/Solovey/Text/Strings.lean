import Mathlib

/-!
# Texts

Functions of a string library over lists of characters: blanks and their removal, lower case,
search, decimal numbers, and texts made of words with one blank between them.
-/

namespace Solovey.Text

open List

abbrev Str := List Char

/-- White space in the sense of Unicode. -/
def isSpace (c : Char) : Bool :=
  (9 ≤ c.toNat && c.toNat ≤ 13) || (0x2000 ≤ c.toNat && c.toNat ≤ 0x200a) ||
    [0x20, 0x85, 0xa0, 0x1680, 0x2028, 0x2029, 0x202f, 0x205f, 0x3000].contains c.toNat

/-- Control characters in the sense of Unicode. -/
def isControl (c : Char) : Bool := c.toNat < 32 || (0x7f ≤ c.toNat && c.toNat < 0xa0)

def trimSpace (s : Str) : Str := (s.dropWhile isSpace).rdropWhile isSpace

/-- Lower case for ASCII letters. -/
def toLower (s : Str) : Str := s.map Char.toLower

def contains (needle : Str) : Str → Bool
  | [] => needle.isEmpty
  | c :: s => needle.isPrefixOf (c :: s) || contains needle s

def trimPrefix (start s : Str) : Str := if start.isPrefixOf s then s.drop start.length else s

def trimSuffix (tail s : Str) : Str :=
  if tail.isSuffixOf s then s.take (s.length - tail.length) else s

def decimal (n : ℕ) : Str := Nat.toDigits 10 n

def integer (n : ℤ) : Str := if n < 0 then '-' :: decimal n.natAbs else decimal n.natAbs

/-- The number that a text of digits writes. -/
def readDecimal (s : Str) : Option ℕ :=
  if !s.isEmpty && s.all Char.isDigit then
    some (s.foldl (fun n c => 10 * n + (c.toNat - 48)) 0)
  else none

/-! ## Numbers -/

theorem toDigits_all_isDigit (n : ℕ) : (Nat.toDigits 10 n).all Char.isDigit = true := by
  rw [all_eq_true]
  exact fun c hc => Nat.isDigit_of_mem_toDigits (by decide) (by decide) hc

variable {n : ℕ}

/-- A positive number is written without leading zeros. -/
theorem toDigits_head (hn : 0 < n) : ∃ c l, Nat.toDigits 10 n = c :: l ∧ c ≠ '0' := by
  induction n using Nat.strongRecOn with
  | ind n ih =>
    rcases Nat.lt_or_ge n 10 with h | h
    · refine ⟨Nat.digitChar n, [], by rw [Nat.toDigits_of_lt_base h], ?_⟩
      interval_cases n <;> decide
    · obtain ⟨c, l, hl, hc⟩ := ih (n / 10) (by omega) (by omega)
      refine ⟨c, l ++ [Nat.digitChar (n % 10)], ?_, hc⟩
      rw [Nat.toDigits_of_base_le (by decide) h, hl, cons_append]

theorem decimal_all (n : ℕ) : (decimal n).all Char.isDigit = true := toDigits_all_isDigit n

theorem digit_of_mem_decimal {c : Char} (h : c ∈ decimal n) : c.isDigit = true :=
  all_eq_true.mp (decimal_all n) c h

theorem ne_of_mem_decimal {c d : Char} (h : c ∈ decimal n) (hd : d.isDigit = false) : c ≠ d := by
  rintro rfl
  rw [digit_of_mem_decimal h] at hd
  cases hd

theorem decimal_ne_nil (n : ℕ) : decimal n ≠ [] := Nat.toDigits_ne_nil

theorem decimal_head (hn : 0 < n) : (decimal n).head? ≠ some '0' := by
  obtain ⟨c, l, hd, hc⟩ := toDigits_head hn
  rw [decimal, hd]
  simpa using hc

theorem decimal_length {k : ℕ} (hk : 0 < k) (h : n < 10 ^ k) : (decimal n).length ≤ k :=
  (Nat.length_toDigits_le_iff (by decide) hk).mpr h

theorem readDecimal_decimal (n : ℕ) : readDecimal (decimal n) = some n := by
  have hne : (decimal n).isEmpty = false := by simpa using decimal_ne_nil n
  rw [readDecimal, hne, decimal_all]
  exact congrArg some (Nat.ofDigitChars_ten_toDigits)

theorem all_intercalate {p : Char → Bool} {s : Str} (hs : s.all p = true) :
    ∀ {ps : List Str}, (∀ pr ∈ ps, pr.all p = true) → (s.intercalate ps).all p = true
  | [], _ => rfl
  | [pr], h => by simpa [List.intercalate] using h pr (by simp)
  | first :: second :: rest, h => by
    have hr := all_intercalate hs fun pr hp => h pr (mem_cons_of_mem first hp)
    rw [intercalate_cons_cons, all_append, all_append, h first (by simp), hs, hr]
    rfl

/-! ## Blanks at the ends -/

variable {c : Char}

theorem isSpace_visible (hl : 33 ≤ c.toNat) (hh : c.toNat ≤ 126) : isSpace c = false := by
  simp only [isSpace, contains_cons, contains_nil, Bool.or_false, Bool.or_eq_false_iff,
    Bool.and_eq_false_iff, decide_eq_false_iff_not, beq_eq_false_iff_ne]
  omega

theorem toLower_of_not_upper (h : c.toNat < 65 ∨ 90 < c.toNat) : c.toLower = c := by
  rw [Char.toLower, dif_neg]
  simp only [ge_iff_le, UInt32.le_iff_toNat_le, not_and]
  have hv : c.val.toNat = c.toNat := rfl
  have hA : ('A'.val).toNat = 65 := rfl
  have hZ : ('Z'.val).toNat = 90 := rfl
  omega

variable {s : Str}

theorem trimSpace_of_ends (hh : ∀ c ∈ s.head?, isSpace c = false)
    (hl : ∀ c ∈ s.getLast?, isSpace c = false) : trimSpace s = s := by
  have hd : s.dropWhile isSpace = s := by
    cases s with
    | nil => rfl
    | cons c s => rw [dropWhile_cons_of_neg (by simp [hh c (by simp)])]
  rw [trimSpace, hd]
  induction s using List.reverseRecOn with
  | nil => rfl
  | append_singleton s c _ => rw [rdropWhile_concat_neg _ _ _ (by simp [hl c (by simp)])]

theorem head?_dropWhile_isSpace {t : Str} (h : t <+: s.dropWhile isSpace) :
    ∀ c ∈ t.head?, isSpace c = false := by
  intro c hc
  obtain ⟨rest, hr⟩ := h
  cases t with
  | nil => cases hc
  | cons d tail =>
    cases hc
    have hne : s.dropWhile isSpace ≠ [] := by simp [← hr]
    have hh := head_dropWhile_not isSpace hne
    simpa [← hr] using hh

theorem trimSpace_trimSpace (s : Str) : trimSpace (trimSpace s) = trimSpace s := by
  refine trimSpace_of_ends (head?_dropWhile_isSpace (List.rdropWhile_prefix _ _)) fun c hc => ?_
  obtain ⟨hne, rfl⟩ := mem_getLast?_eq_getLast hc
  exact Bool.eq_false_iff.mpr (rdropWhile_last_not _ _ hne)

theorem trimSpace_replicate_append (n : ℕ) (hh : ∀ c ∈ s.head?, isSpace c = false)
    (hl : ∀ c ∈ s.getLast?, isSpace c = false) :
    trimSpace (List.replicate n ' ' ++ s) = s := by
  have hd : (List.replicate n ' ' ++ s).dropWhile isSpace = s.dropWhile isSpace := by
    induction n with
    | zero => rfl
    | succ n ih => rw [replicate_succ, cons_append, dropWhile_cons_of_pos (by decide), ih]
  rw [trimSpace, hd, ← trimSpace, trimSpace_of_ends hh hl]

/-- A property of ASCII characters is decided by trying them all. -/
theorem forall_ascii {p : Char → Prop} (h : ∀ n < 128, p (Char.ofNat n)) (hc : c.toNat < 128) :
    p c := by
  have hp := h c.toNat hc
  rwa [Char.ofNat_toNat] at hp

/-! ## Words -/

/-- A text of words with one blank between them. -/
def unwords (ws : List Str) : Str := [' '].intercalate ws

/-- The words of a text, split at each blank. -/
def words (s : Str) : List Str := s.splitOn ' '

/-- A word has a character, and none of them is white space. -/
def IsWord (w : Str) : Prop := w ≠ [] ∧ ∀ c ∈ w, isSpace c = false

instance (w : Str) : Decidable (IsWord w) := inferInstanceAs (Decidable (_ ∧ _))

variable {w : Str}

variable {ws : List Str}

theorem words_unwords (hne : ws ≠ []) (h : ∀ w ∈ ws, IsWord w) : words (unwords ws) = ws := by
  refine splitOn_intercalate ' ' (fun w hw hb => ?_) hne
  exact absurd ((h w hw).2 ' ' hb) (by decide)

theorem unwords_cons (h : ws ≠ []) : unwords (w :: ws) = w ++ ' ' :: unwords ws := by
  obtain ⟨v, vs, rfl⟩ := exists_cons_of_ne_nil h
  rw [unwords, intercalate_cons_cons, unwords, append_assoc]
  rfl

theorem mem_unwords (h : c ∈ unwords ws) : c = ' ' ∨ ∃ w ∈ ws, c ∈ w := by
  induction ws with
  | nil => cases h
  | cons w ws ih =>
    by_cases hws : ws = []
    · subst hws
      exact .inr ⟨w, mem_singleton.mpr rfl, by simpa [unwords, List.intercalate] using h⟩
    · rw [unwords_cons hws, mem_append, mem_cons] at h
      rcases h with h | rfl | h
      · exact .inr ⟨w, mem_cons_self, h⟩
      · exact .inl rfl
      · rcases ih h with rfl | ⟨v, hv, hc⟩
        · exact .inl rfl
        · exact .inr ⟨v, mem_cons_of_mem _ hv, hc⟩

theorem count_unwords (hc : c ≠ ' ') (ws : List Str) :
    (unwords ws).count c = (ws.map (List.count c)).sum := by
  induction ws with
  | nil => rfl
  | cons w ws ih =>
    by_cases hws : ws = []
    · subst hws
      simp [unwords, List.intercalate]
    · rw [unwords_cons hws, count_append, count_cons_of_ne hc.symm, ih, map_cons, sum_cons]

theorem unwords_head? (ws : List Str) (h : w ≠ []) : (unwords (w :: ws)).head? = w.head? := by
  by_cases hws : ws = []
  · subst hws
    simp [unwords, List.intercalate]
  · rw [unwords_cons hws, head?_append_of_ne_nil _ h]

theorem unwords_getLast? (h : ∀ w ∈ ws, IsWord w) (hc : c ∈ (unwords ws).getLast?) :
    isSpace c = false := by
  induction ws with
  | nil => cases hc
  | cons w ws ih =>
    by_cases hws : ws = []
    · subst hws
      have hl : c ∈ w.getLast? := by simpa [unwords, List.intercalate] using hc
      exact (h w mem_cons_self).2 c (mem_of_mem_getLast? hl)
    · obtain ⟨v, vs, rfl⟩ := exists_cons_of_ne_nil hws
      have hne : unwords (v :: vs) ≠ [] := by
        have hv := (h v (by simp)).1
        intro hn
        have hh := unwords_head? vs hv
        rw [hn] at hh
        exact hv (head?_eq_none_iff.mp hh.symm)
      rw [unwords_cons hws, getLast?_append_of_ne_nil _ (by simp)] at hc
      rw [getLast?_cons_of_ne_nil hne] at hc
      exact ih (fun w hw => h w (mem_cons_of_mem _ hw)) hc

/-- Words survive being indented and trimmed. -/
theorem trimSpace_indented (n : ℕ) (h : ∀ w ∈ ws, IsWord w) :
    trimSpace (List.replicate n ' ' ++ unwords ws) = unwords ws := by
  refine trimSpace_replicate_append n (fun c hc => ?_) fun c hc => unwords_getLast? h hc
  cases ws with
  | nil => cases hc
  | cons w ws =>
    have hw := h w mem_cons_self
    rw [unwords_head? ws hw.1] at hc
    exact hw.2 c (mem_of_mem_head? hc)

/-! ## Parts of texts -/

theorem contains_iff {nd : Str} : contains nd s = true ↔ nd <:+: s := by
  induction s with
  | nil => simp [contains]
  | cons c s ih => rw [contains, Bool.or_eq_true, ih, isPrefixOf_iff_prefix, infix_cons_iff]

variable {t : Str}

/-- A part without the separator lies on one side of it. -/
theorem infix_append_cons {a b : Str} (hc : c ∉ t) (h : t <:+: a ++ c :: b) :
    t <:+: a ∨ t <:+: b := by
  obtain ⟨s, u, h⟩ := h
  rcases append_eq_append_iff.mp h with ⟨x, rfl, -⟩ | ⟨x, hst, hx⟩
  · exact .inl ⟨s, x, rfl⟩
  · cases x with
    | nil => exact .inl ⟨s, [], by simpa using hst⟩
    | cons d x =>
      obtain rfl : c = d := by simpa using congrArg List.head? hx
      rcases append_eq_append_iff.mp hst with ⟨y, rfl, rfl⟩ | ⟨y, rfl, hy⟩
      · exact absurd (by simp) hc
      · cases y with
        | nil =>
          rw [nil_append] at hy
          exact absurd (hy ▸ mem_cons_self) hc
        | cons d y =>
          have hcn : c :: x = d :: (y ++ t) := hy
          obtain ⟨-, rfl⟩ := List.cons.inj hcn
          refine .inr ⟨y, u, ?_⟩
          simpa using hx.symm

theorem infix_unwords (hb : ' ' ∉ t) (hne : t ≠ []) (h : t <:+: unwords ws) :
    ∃ w ∈ ws, t <:+: w := by
  induction ws with
  | nil => exact absurd (infix_nil.mp h) hne
  | cons w ws ih =>
    by_cases hws : ws = []
    · subst hws
      exact ⟨w, mem_singleton.mpr rfl, by simpa [unwords, List.intercalate] using h⟩
    · rw [unwords_cons hws] at h
      rcases infix_append_cons hb h with h | h
      · exact ⟨w, mem_cons_self, h⟩
      · obtain ⟨v, hv, ht⟩ := ih h
        exact ⟨v, mem_cons_of_mem _ hv, ht⟩

theorem infix_indented (hb : ' ' ∉ t) (n : ℕ) (h : t <:+: List.replicate n ' ' ++ s) :
    t <:+: s ∨ t = [] := by
  induction n with
  | zero => exact .inl h
  | succ n ih =>
    rcases infix_append_cons (a := []) hb h with h | h
    · exact .inr (infix_nil.mp h)
    · exact ih h

/-- The lines of a text in which every line is ended. -/
theorem splitOn_lines {ls : List Str} (h : ∀ l ∈ ls, c ∉ l) :
    (ls.flatMap (· ++ [c])).splitOn c = ls ++ [[]] := by
  induction ls with
  | nil => rfl
  | cons l ls ih =>
    have hc : c ∉ l := h l mem_cons_self
    rw [flatMap_cons, append_assoc, singleton_append,
      splitOn_append_cons_self_of_not_mem hc, ih fun l hl => h l (mem_cons_of_mem _ hl),
      cons_append]

theorem infix_lines (hc : c ∉ t) (hne : t ≠ []) {ls : List Str} (h : t <:+: ls.flatMap (· ++ [c])) :
    ∃ l ∈ ls, t <:+: l := by
  induction ls with
  | nil => exact absurd (infix_nil.mp h) hne
  | cons l ls ih =>
    rw [flatMap_cons, append_assoc] at h
    rcases infix_append_cons hc h with h | h
    · exact ⟨l, mem_cons_self, h⟩
    · obtain ⟨m, hm, ht⟩ := ih h
      exact ⟨m, mem_cons_of_mem _ hm, ht⟩

end Solovey.Text
