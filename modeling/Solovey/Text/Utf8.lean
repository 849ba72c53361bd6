import Mathlib

/-!
# UTF-8 bytes and lines

Text is a list of characters, a file a list of bytes. `decodeUtf8` reads bytes the way a
rune loop does: a byte that starts no character is read as U+FFFD, one byte at a time.
`lines` is the split at newline bytes.
-/

namespace Solovey.Text

open List

abbrev Bytes := List UInt8

def encodeUtf8 (cs : List Char) : Bytes := cs.flatMap String.utf8EncodeChar

/-- The number of bytes of a text. -/
def utf8Len (cs : List Char) : ℕ := (cs.map Char.utf8Size).sum

@[simp] theorem encodeUtf8_nil : encodeUtf8 [] = [] := rfl

@[simp] theorem encodeUtf8_cons (c : Char) (cs : List Char) :
    encodeUtf8 (c :: cs) = String.utf8EncodeChar c ++ encodeUtf8 cs := rfl

@[simp] theorem utf8Len_nil : utf8Len [] = 0 := rfl

@[simp] theorem utf8Len_cons (c : Char) (cs : List Char) :
    utf8Len (c :: cs) = c.utf8Size + utf8Len cs := rfl

@[simp] theorem utf8Len_append (cs ds : List Char) :
    utf8Len (cs ++ ds) = utf8Len cs + utf8Len ds := by
  simp [utf8Len]

@[simp] theorem length_encodeUtf8 (cs : List Char) : (encodeUtf8 cs).length = utf8Len cs := by
  induction cs with
  | nil => rfl
  | cons c cs ih => simp [ih]

theorem utf8Len_eq_length {cs : List Char} (h : ∀ c ∈ cs, c.utf8Size = 1) :
    utf8Len cs = cs.length := by
  induction cs with
  | nil => rfl
  | cons c cs ih =>
    rw [utf8Len_cons, h c (by simp), ih fun d hd => h d (by simp [hd]), length_cons,
      Nat.add_comm]

theorem length_le_utf8Len (cs : List Char) : cs.length ≤ utf8Len cs := by
  induction cs with
  | nil => exact le_refl 0
  | cons c cs ih =>
    have hp := c.utf8Size_pos
    rw [utf8Len_cons, length_cons]
    omega

theorem utf8Size_of_isAlphanum {c : Char} (h : c.isAlphanum = true) : c.utf8Size = 1 := by
  have hle : c.toNat ≤ 127 := by
    simp only [Char.isAlphanum, Char.isAlpha, Char.isUpper, Char.isLower, Char.isDigit,
      Bool.or_eq_true, Bool.and_eq_true, decide_eq_true_eq, ge_iff_le, UInt32.le_iff_toNat_le] at h
    simp at h
    omega
  rw [Char.utf8Size, if_pos (by rw [UInt32.le_iff_toNat_le]; exact hle)]

/-! ## Reading bytes back -/

/-- The character at the start of the bytes, if they start with one. -/
def decodeRune (b : Bytes) : Option Char := b.toByteArray.utf8DecodeChar? 0

theorem decodeRune_encode (c : Char) (r : Bytes) :
    decodeRune (String.utf8EncodeChar c ++ r) = some c := by
  rw [decodeRune, toByteArray_append]
  exact ByteArray.utf8DecodeChar?_utf8EncodeChar_append

/-- `fuel` bounds the number of characters; every step consumes at least one byte. -/
def decodeLoop : ℕ → Bytes → List Char
  | 0, _ => []
  | _ + 1, [] => []
  | n + 1, b :: bs =>
    match decodeRune (b :: bs) with
    | some c => c :: decodeLoop n ((b :: bs).drop c.utf8Size)
    | none => '\uFFFD' :: decodeLoop n bs

def decodeUtf8 (b : Bytes) : List Char := decodeLoop b.length b

theorem decodeLoop_encode (cs : List Char) (n : ℕ) (hn : utf8Len cs ≤ n) :
    decodeLoop n (encodeUtf8 cs) = cs := by
  induction cs generalizing n with
  | nil => cases n <;> rfl
  | cons c cs ih =>
    have hp : 0 < c.utf8Size := c.utf8Size_pos
    rw [utf8Len_cons] at hn
    cases n with
    | zero => omega
    | succ n =>
      have hl : (String.utf8EncodeChar c).length = c.utf8Size := String.length_utf8EncodeChar c
      have hr := decodeRune_encode c (encodeUtf8 cs)
      have hd : (String.utf8EncodeChar c ++ encodeUtf8 cs).drop c.utf8Size = encodeUtf8 cs := by
        rw [← hl, drop_left]
      rw [encodeUtf8_cons]
      cases hb : String.utf8EncodeChar c ++ encodeUtf8 cs with
      | nil =>
        have : (String.utf8EncodeChar c ++ encodeUtf8 cs).length = 0 := by rw [hb]; rfl
        rw [length_append, hl] at this
        omega
      | cons b bs =>
        rw [hb] at hr hd
        simp only [decodeLoop, hr, hd]
        rw [ih n (by omega)]

@[simp] theorem decodeUtf8_encodeUtf8 (cs : List Char) : decodeUtf8 (encodeUtf8 cs) = cs :=
  decodeLoop_encode cs _ (by simp)

/-! ## Lines -/

/-- The newline byte. -/
def newline : UInt8 := 10

theorem ofNat_eq_newline {n : ℕ} (h : n < 256) : UInt8.ofNat n = newline ↔ n = 10 := by
  rw [← UInt8.toNat_inj]
  simp [newline, UInt8.toNat_ofNat', Nat.mod_eq_of_lt h]

/-- A newline byte is the encoding of a newline and no part of another character. -/
theorem newline_mem_encodeChar (c : Char) : newline ∈ String.utf8EncodeChar c ↔ c = '\n' := by
  have hc : c = '\n' ↔ c.val.toNat = 10 := by rw [← Char.toNat_inj]; rfl
  rw [hc]
  simp only [String.utf8EncodeChar]
  -- one case per length; every byte of a longer encoding is at least 0x80
  split
  · rw [mem_singleton, eq_comm, ofNat_eq_newline (by omega)]
  split
  · simp only [mem_cons, not_mem_nil, or_false, @eq_comm _ newline]
    rw [ofNat_eq_newline (by omega), ofNat_eq_newline (by omega)]
    omega
  split
  · simp only [mem_cons, not_mem_nil, or_false, @eq_comm _ newline]
    rw [ofNat_eq_newline (by omega), ofNat_eq_newline (by omega), ofNat_eq_newline (by omega)]
    omega
  · simp only [mem_cons, not_mem_nil, or_false, @eq_comm _ newline]
    rw [ofNat_eq_newline (by omega), ofNat_eq_newline (by omega), ofNat_eq_newline (by omega),
      ofNat_eq_newline (by omega)]
    omega

theorem newline_mem_encodeUtf8 (cs : List Char) : newline ∈ encodeUtf8 cs ↔ '\n' ∈ cs := by
  simp only [encodeUtf8, mem_flatMap, newline_mem_encodeChar]
  constructor
  · rintro ⟨c, hc, rfl⟩
    exact hc
  · exact fun h => ⟨_, h, rfl⟩

/-- The lines of the bytes: what stands before, between and after the newlines. -/
def lines (b : Bytes) : List Bytes := b.splitOn newline

/-- Newline-terminated lines, one after the other. -/
def joinLines (ls : List Bytes) : Bytes := ls.flatMap (· ++ [newline])

@[simp] theorem joinLines_nil : joinLines [] = [] := rfl

@[simp] theorem joinLines_cons (l : Bytes) (ls : List Bytes) :
    joinLines (l :: ls) = l ++ newline :: joinLines ls := by
  simp [joinLines]

@[simp] theorem joinLines_append (ls ms : List Bytes) :
    joinLines (ls ++ ms) = joinLines ls ++ joinLines ms :=
  flatMap_append

theorem lines_joinLines_append (ls : List Bytes) (h : ∀ l ∈ ls, newline ∉ l) (b : Bytes) :
    lines (joinLines ls ++ b) = ls ++ lines b := by
  induction ls with
  | nil => rfl
  | cons l ls ih =>
    have hl : newline ∉ l := h l mem_cons_self
    have ih' := ih fun m hm => h m (mem_cons_of_mem _ hm)
    rw [lines] at ih' ⊢
    rw [joinLines_cons, append_assoc, cons_append, splitOn_append_cons_self_of_not_mem hl, ih']
    rfl

@[simp] theorem lines_nil : lines [] = [[]] := by
  simp [lines]

theorem lines_ne_nil (b : Bytes) : lines b ≠ [] := splitOn_ne_nil newline b

/-- The bytes up to and including the last newline. -/
def completeLines (b : Bytes) : Bytes := (b.reverse.dropWhile (· != newline)).reverse

theorem completeLines_append {b tail : Bytes} (hb : b = [] ∨ b.getLast? = some newline)
    (ht : newline ∉ tail) : completeLines (b ++ tail) = b := by
  have htl : ∀ x ∈ tail.reverse, (x != newline) = true := by
    intro x hx
    simp only [bne_iff_ne, ne_eq]
    rintro rfl
    exact ht (mem_reverse.mp hx)
  rw [completeLines, reverse_append, dropWhile_append_of_pos htl]
  rcases hb with rfl | hb
  · rfl
  · obtain ⟨init, rfl⟩ := getLast?_eq_some_iff.mp hb
    simp

theorem joinLines_getLast? (ls : List Bytes) :
    joinLines ls = [] ∨ (joinLines ls).getLast? = some newline := by
  induction ls using List.reverseRecOn with
  | nil => exact .inl rfl
  | append_singleton ls l _ =>
    refine .inr ?_
    simp

theorem completeLines_concat (b : Bytes) : completeLines (b ++ [newline]) = b ++ [newline] := by
  simp [completeLines]

/-- Whole lines stay whole, whatever follows them. -/
theorem completeLines_joinLines_append (ls : List Bytes) (b : Bytes) :
    completeLines (joinLines ls ++ b) = joinLines ls ++ completeLines b := by
  by_cases hb : newline ∈ b
  · have hne : (b.reverse.dropWhile (· != newline)).isEmpty = false := by
      rw [isEmpty_eq_false_iff, Ne, dropWhile_eq_nil_iff]
      intro h
      have := h newline (mem_reverse.mpr hb)
      simp at this
    rw [completeLines, completeLines, reverse_append, dropWhile_append, hne]
    simp
  · have hn : completeLines b = [] := completeLines_append (b := []) (.inl rfl) hb
    rw [completeLines_append (joinLines_getLast? ls) hb, hn, append_nil]

end Solovey.Text
