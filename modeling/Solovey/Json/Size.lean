import Solovey.Json.Fields

/-!
# Sizes of JSON texts

Bounds on the number of bytes of a compact text. A struct is bounded by one bound for each of
its entries (`Value.ofEntries_size_le`).
-/

namespace Solovey.Json

open Solovey.Text List

/-- The bytes of the compact text. -/
def Value.size (v : Value) : ℕ := utf8Len v.text

/-- The bytes of a string with its quotes. -/
def stringSize (s : String) : ℕ := utf8Len (quoted (.quote s))

@[simp] theorem Value.size_ofString (s : String) : (ofString s).size = stringSize s := rfl

theorem Value.size_bool_le (b : Bool) : (bool b).size ≤ 5 := by
  cases b <;> decide

/-! ## Strings -/

/-- A character that is written as one byte. -/
def isShort (c : Char) : Bool :=
  isPlain c && decide (c.utf8Size = 1) && c != '<' && c != '>' && c != '&'

theorem isShort_of_isAlphanum {c : Char} (h : c.isAlphanum = true) : isShort c = true := by
  have hne : ∀ d : Char, d.isAlphanum = false → c ≠ d := by
    rintro d hd rfl
    simp [h] at hd
  have hb : 0x20 ≤ c.toNat := by
    simp only [Char.isAlphanum, Char.isAlpha, Char.isUpper, Char.isLower, Char.isDigit,
      Bool.or_eq_true, Bool.and_eq_true, decide_eq_true_eq, ge_iff_le, UInt32.le_iff_toNat_le] at h
    simp at h
    omega
  simp [isShort, isPlain, utf8Size_of_isAlphanum h, hb, hne '"' (by decide),
    hne '\\' (by decide), hne '<' (by decide), hne '>' (by decide), hne '&' (by decide)]

theorem utf8Len_ofChar_of_isShort {c : Char} (h : isShort c = true) :
    utf8Len (Piece.ofChar c).text = 1 := by
  simp only [isShort, Bool.and_eq_true, decide_eq_true_eq, bne_iff_ne] at h
  obtain ⟨⟨⟨⟨hp, hs⟩, hlt⟩, hgt⟩, ha⟩ := h
  obtain ⟨hq, hbc, hb⟩ := isPlain_ne hp
  have hne : ∀ d : Char, d.toNat < 0x20 → c ≠ d := by
    rintro d hd rfl
    omega
  have hw : ∀ d : Char, d.utf8Size ≠ 1 → c ≠ d := by
    rintro d hd rfl
    exact hd hs
  have hpc : Piece.ofChar c = .plain c hp := by
    simp [Piece.ofChar, hq, hbc, hne '\x08' (by decide), hne '\x0c' (by decide),
      hne '\n' (by decide), hne '\r' (by decide), hne '\t' (by decide), hlt, hgt, ha,
      hw '\u2028' (by decide), hw '\u2029' (by decide), hp]
  rw [hpc]
  simp [Piece.text, hs]

theorem stringSize_of_isShort {s : String} (h : ∀ c ∈ s.toList, isShort c = true) :
    stringSize s = s.toList.length + 2 := by
  have hp : ∀ l : List Char, (∀ c ∈ l, isShort c = true) →
      utf8Len (StrLit.text (l.map Piece.ofChar)) = l.length := by
    intro l hl
    induction l with
    | nil => rfl
    | cons c l ih =>
      rw [map_cons, StrLit.text_cons, utf8Len_append,
        utf8Len_ofChar_of_isShort (hl c (by simp)), ih fun d hd => hl d (by simp [hd]),
        length_cons, Nat.add_comm]
  have hq : '"'.utf8Size = 1 := by decide
  simp only [stringSize, quoted, utf8Len_cons, utf8Len_append, StrLit.quote, hp _ h, hq,
    utf8Len_nil]
  omega

/-! ## Numbers -/

theorem NumLit.utf8Len_eq (n : NumLit) : utf8Len n.1 = n.1.length := by
  refine utf8Len_eq_length fun c hc => ?_
  have hn := n.numChars c hc
  simp only [isNumChar, Bool.or_eq_true, beq_iff_eq] at hn
  rcases hn with ((((hd | rfl) | rfl) | rfl) | rfl) | rfl
  · exact utf8Size_of_isAlphanum (by simp [Char.isAlphanum, hd])
  all_goals decide

theorem Value.size_ofUInt64_le (n : UInt64) : (ofUInt64 n).size ≤ 20 := by
  refine (NumLit.utf8Len_eq _).le.trans ?_
  exact Nat.toDigits_length 10 n.toNat 20 (by decide) (n.toNat_lt.trans (by decide))

theorem Value.size_ofInt64_le (n : Int64) : (ofInt64 n).size ≤ 20 := by
  refine (NumLit.utf8Len_eq _).le.trans ?_
  have hlt := n.toInt_lt
  have hle := n.le_toInt
  cases hn : n.toInt with
  | ofNat k =>
    rw [hn, Int.ofNat_eq_natCast] at hlt
    exact Nat.toDigits_length 10 k 20 (by decide) (by omega)
  | negSucc k =>
    rw [hn] at hle
    have hl := Nat.toDigits_length 10 (k + 1) 19 (by decide) (by omega)
    exact Nat.succ_le_succ hl

/-! ## Structs -/

/-- What an entry adds to the size of its object, with a comma. -/
def Entry.size : Entry → ℕ
  | (_, none) => 0
  | (name, some v) => stringSize name + 2 + v.size

variable {n : ℕ}

theorem Entry.some_le {nm : String} {k : ℕ} {v : Value} (hv : v.size ≤ n) (hn : stringSize nm = k) :
    size (nm, some v) ≤ k + 2 + n := by
  rw [size, hn]
  exact Nat.add_le_add_left hv _

theorem Entry.size_le {nm : String} {k : ℕ} {v : Option Value} (hn : stringSize nm = k)
    (hv : ∀ x ∈ v, x.size ≤ n) : size (nm, v) ≤ k + 2 + n := by
  cases v with
  | none => exact Nat.zero_le _
  | some v => exact some_le (hv v rfl) hn

theorem omitString_size_le {s : String} (h : stringSize s ≤ n) :
    ∀ x ∈ omitString s, x.size ≤ n := by
  unfold omitString
  split_ifs
  · simp
  · simpa using h

theorem omitUInt64_size_le (n : UInt64) : ∀ x ∈ omitUInt64 n, x.size ≤ 20 := by
  unfold omitUInt64
  split_ifs
  · simp
  · simpa using Value.size_ofUInt64_le n

theorem omitInt64_size_le (n : Int64) : ∀ x ∈ omitInt64 n, x.size ≤ 20 := by
  unfold omitInt64
  split_ifs
  · simp
  · simpa using Value.size_ofInt64_le n

theorem some_size_le {v : Value} (h : v.size ≤ n) : ∀ x ∈ some v, x.size ≤ n := by
  simpa using h

theorem Members.utf8Len_text_le (ms : Members) :
    utf8Len (ms.text true) ≤ utf8Len (ms.text false) := by
  cases ms <;> simp [text]

theorem Members.ofEntries_size (es : List Entry) :
    utf8Len ((ofEntries es).text false) = (es.map Entry.size).sum + 1 := by
  have hb : '}'.utf8Size = 1 := by decide
  have hcm : ','.utf8Size = 1 := by decide
  have hc : ':'.utf8Size = 1 := by decide
  induction es with
  | nil => simp [ofEntries, text, hb]
  | cons e es ih =>
    obtain ⟨name, v⟩ := e
    cases v with
    | none => simpa [ofEntries, Entry.size] using ih
    | some v =>
      simp only [ofEntries, text, Bool.false_eq_true, if_false, utf8Len_append,
        utf8Len_cons, utf8Len_nil, hcm, hc, ih, map_cons, sum_cons, Entry.size,
        stringSize, Value.size]
      omega

/-- One bound for each entry bounds the object. -/
theorem Value.ofEntries_size_le {es : List Entry} (bs : List ℕ)
    (h : List.Forall₂ (fun e n => Entry.size e ≤ n) es bs) (hn : bs.sum + 2 ≤ n) :
    (ofEntries es).size ≤ n := by
  have hs : (es.map Entry.size).sum ≤ bs.sum := by
    clear hn
    induction h with
    | nil => simp
    | cons he _ ih =>
      simp only [map_cons, sum_cons]
      omega
  have hb : '{'.utf8Size = 1 := by decide
  have ht := (Members.ofEntries es).utf8Len_text_le
  rw [Members.ofEntries_size] at ht
  simp only [size, ofEntries, text, utf8Len_cons, hb]
  omega

theorem Value.ofEntries_size_le_mul {es : List Entry} (h : ∀ e ∈ es, Entry.size e ≤ n) :
    (ofEntries es).size ≤ n * es.length + 2 := by
  have hb : List.Forall₂ (fun e k => Entry.size e ≤ k) es (es.map fun _ => n) :=
    forall₂_map_right_iff.mpr (forall₂_same.mpr h)
  exact ofEntries_size_le _ hb (by simp [Nat.mul_comm])

end Solovey.Json
