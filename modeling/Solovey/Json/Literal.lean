import Solovey.Text.Strings
import Solovey.Text.Utf8

/-!
# JSON literals

A string literal is kept as the list of its pieces, so that the escapes of the text are not lost.
`StrLit.text` is what stands between the quotes, `StrLit.value` the string that a reader sees, and
`StrLit.quote` the literal that an encoder with HTML escaping writes.

A number literal is its text. `numOk` is the number grammar of JSON.
-/

namespace Solovey.Json

open Solovey.Text List

/-! ## Pieces of a string literal -/

/-- A character that stands for itself inside a string literal. -/
def isPlain (c : Char) : Bool := c != '"' && c != '\\' && 0x20 ≤ c.toNat

def isHex (c : Char) : Bool :=
  c.isDigit || ('a' ≤ c && c ≤ 'f') || ('A' ≤ c && c ≤ 'F')

def hexValue (c : Char) : ℕ :=
  if c.isDigit then c.toNat - 48 else if 'a' ≤ c then c.toNat - 87 else c.toNat - 55

/-- The two-character escapes. -/
inductive Escape
  | quote | backslash | slash | b | f | n | r | t
deriving DecidableEq, Repr

def Escape.letter : Escape → Char
  | .quote => '"' | .backslash => '\\' | .slash => '/'
  | .b => 'b' | .f => 'f' | .n => 'n' | .r => 'r' | .t => 't'

def Escape.value : Escape → Char
  | .quote => '"' | .backslash => '\\' | .slash => '/'
  | .b => '\x08' | .f => '\x0c' | .n => '\n' | .r => '\r' | .t => '\t'

def Escape.ofLetter (c : Char) : Option Escape :=
  if c = '"' then some .quote else if c = '\\' then some .backslash
  else if c = '/' then some .slash else if c = 'b' then some .b
  else if c = 'f' then some .f else if c = 'n' then some .n
  else if c = 'r' then some .r else if c = 't' then some .t else none

@[simp] theorem Escape.ofLetter_letter (e : Escape) : ofLetter e.letter = some e := by
  cases e <;> decide

theorem Escape.letter_ne_u (e : Escape) : e.letter ≠ 'u' := by
  cases e <;> decide

abbrev Hex := { c : Char // isHex c = true }

inductive Piece
  | plain (c : Char) (ok : isPlain c = true)
  | escape (e : Escape)
  | unicode (a b c d : Hex)
deriving DecidableEq, Repr

abbrev StrLit := List Piece

def Piece.text : Piece → List Char
  | .plain c _ => [c]
  | .escape e => ['\\', e.letter]
  | .unicode a b c d => ['\\', 'u', a.1, b.1, c.1, d.1]

/-- The text between the quotes. -/
def StrLit.text (s : StrLit) : List Char := s.flatMap Piece.text

@[simp] theorem StrLit.text_nil : text [] = [] := rfl

@[simp] theorem StrLit.text_cons (p : Piece) (s : StrLit) : text (p :: s) = p.text ++ text s := rfl

/-! ## Reading a literal up to its closing quote -/

/-- Reads the pieces up to the closing quote and returns the text after it. -/
def scanString : List Char → Option (StrLit × List Char)
  | [] => none
  | '"' :: rest => some ([], rest)
  | '\\' :: 'u' :: a :: b :: c :: d :: rest =>
    if h : isHex a = true ∧ isHex b = true ∧ isHex c = true ∧ isHex d = true then
      (scanString rest).map fun (s, r) =>
        (.unicode ⟨a, h.1⟩ ⟨b, h.2.1⟩ ⟨c, h.2.2.1⟩ ⟨d, h.2.2.2⟩ :: s, r)
    else none
  | '\\' :: e :: rest =>
    (Escape.ofLetter e).bind fun esc => (scanString rest).map fun (s, r) => (.escape esc :: s, r)
  | c :: rest =>
    if h : isPlain c = true then (scanString rest).map fun (s, r) => (.plain c h :: s, r)
    else none

variable {c : Char}

theorem isPlain_ne (h : isPlain c = true) : c ≠ '"' ∧ c ≠ '\\' ∧ 0x20 ≤ c.toNat := by
  simpa [isPlain, and_assoc] using h

theorem scanString_text (s : StrLit) (r : List Char) :
    scanString (StrLit.text s ++ '"' :: r) = some (s, r) := by
  induction s with
  | nil => simp [scanString]
  | cons p s ih =>
    cases p with
    | plain c ok =>
      obtain ⟨_, hb, _⟩ := isPlain_ne ok
      simp [Piece.text, scanString, hb, ok, ih]
    | escape e =>
      have hu : e.letter ≠ 'u' := e.letter_ne_u
      simp [Piece.text, scanString, hu, ih]
    | unicode a b c d => simp [Piece.text, scanString, a.2, b.2, c.2, d.2, ih]

/-! ## The string of a literal -/

def unicodeValue (a b c d : Hex) : ℕ :=
  ((hexValue a.1 * 16 + hexValue b.1) * 16 + hexValue c.1) * 16 + hexValue d.1

def isHighSurrogate (n : ℕ) : Bool := 0xD800 ≤ n && n < 0xDC00

def isLowSurrogate (n : ℕ) : Bool := 0xDC00 ≤ n && n < 0xE000

/-- The string a reader sees. A surrogate escape without its partner is read as U+FFFD. -/
def StrLit.chars : StrLit → List Char
  | [] => []
  | .plain c _ :: rest => c :: StrLit.chars rest
  | .escape e :: rest => e.value :: StrLit.chars rest
  | .unicode a b c d :: rest =>
    let n := unicodeValue a b c d
    if isHighSurrogate n then
      match rest with
      | .unicode a' b' c' d' :: rest' =>
        let m := unicodeValue a' b' c' d'
        if isLowSurrogate m then
          Char.ofNat (0x10000 + (n - 0xD800) * 0x400 + (m - 0xDC00)) :: StrLit.chars rest'
        else '\uFFFD' :: StrLit.chars (.unicode a' b' c' d' :: rest')
      | rest' => '\uFFFD' :: StrLit.chars rest'
    else if isLowSurrogate n then '\uFFFD' :: StrLit.chars rest
    else Char.ofNat n :: StrLit.chars rest

def StrLit.value (s : StrLit) : String := String.ofList (StrLit.chars s)

theorem hex_digitChar : ∀ n < 16, isHex (Nat.digitChar n) = true := by decide

theorem hexValue_digitChar : ∀ n < 16, hexValue (Nat.digitChar n) = n := by decide

def hexDigit (n : ℕ) : Hex := ⟨Nat.digitChar (n % 16), hex_digitChar _ (Nat.mod_lt _ (by decide))⟩

@[simp] theorem hexValue_hexDigit (n : ℕ) : hexValue (hexDigit n).1 = n % 16 :=
  hexValue_digitChar _ (Nat.mod_lt _ (by decide))

/-- The `\uXXXX` escape of a character of the basic plane. -/
def Piece.ofCode (n : ℕ) : Piece :=
  .unicode (hexDigit (n / 4096)) (hexDigit (n / 256)) (hexDigit (n / 16)) (hexDigit n)

/-- How an encoder with HTML escaping writes one character. -/
def Piece.ofChar (c : Char) : Piece :=
  if c = '"' then .escape .quote
  else if c = '\\' then .escape .backslash
  else if c = '\x08' then .escape .b
  else if c = '\x0c' then .escape .f
  else if c = '\n' then .escape .n
  else if c = '\r' then .escape .r
  else if c = '\t' then .escape .t
  else if c = '<' ∨ c = '>' ∨ c = '&' ∨ c = '\u2028' ∨ c = '\u2029' then .ofCode c.toNat
  else if h : isPlain c = true then .plain c h
  else .ofCode c.toNat

/-- The literal of a string. -/
def StrLit.quote (s : String) : StrLit := s.toList.map Piece.ofChar

theorem unicodeValue_ofCode {n : ℕ} (h : n < 65536) :
    unicodeValue (hexDigit (n / 4096)) (hexDigit (n / 256)) (hexDigit (n / 16)) (hexDigit n) = n := by
  simp only [unicodeValue, hexValue_hexDigit]
  omega

/-- An escape of a character of the basic plane is read back as that character. -/
theorem StrLit.chars_ofCode (h : c.toNat < 65536) (r : StrLit) :
    chars (.ofCode c.toNat :: r) = c :: chars r := by
  -- a character is never a surrogate
  have hv := c.valid
  have hh : isHighSurrogate c.toNat = false := by
    simp only [isHighSurrogate, Bool.and_eq_false_iff, decide_eq_false_iff_not]
    rcases hv with hv | hv
    · exact .inl (by simpa using hv)
    · refine .inr ?_
      have : 57343 < c.toNat := hv.1
      omega
  have hl : isLowSurrogate c.toNat = false := by
    simp only [isLowSurrogate, Bool.and_eq_false_iff, decide_eq_false_iff_not]
    rcases hv with hv | hv
    · refine .inl ?_
      have : c.toNat < 55296 := hv
      omega
    · refine .inr ?_
      have : 57343 < c.toNat := hv.1
      omega
  rw [Piece.ofCode, StrLit.chars.eq_def]
  simp [unicodeValue_ofCode h, hh, hl]

theorem StrLit.chars_ofChar (c : Char) (r : StrLit) : chars (.ofChar c :: r) = c :: chars r := by
  unfold Piece.ofChar
  split_ifs with h1 h2 h3 h4 h5 h6 h7 h8 h9
  case pos => subst h1; rfl
  case pos => subst h2; rfl
  case pos => subst h3; rfl
  case pos => subst h4; rfl
  case pos => subst h5; rfl
  case pos => subst h6; rfl
  case pos => subst h7; rfl
  case pos => exact chars_ofCode (by rcases h8 with rfl | rfl | rfl | rfl | rfl <;> decide) r
  case pos => rfl
  case neg =>
    refine chars_ofCode ?_ r
    have : ¬ 0x20 ≤ c.toNat := fun hc => h9 (by simp [isPlain, h1, h2, hc])
    omega

@[simp] theorem StrLit.chars_quote (s : String) : chars (.quote s) = s.toList := by
  unfold quote
  induction s.toList with
  | nil => rfl
  | cons c cs ih => rw [map_cons, chars_ofChar, ih]

@[simp] theorem StrLit.value_quote (s : String) : value (.quote s) = s := by
  simp [value]

/-! ## Numbers -/

def isNumChar (c : Char) : Bool :=
  c.isDigit || c == '+' || c == '-' || c == '.' || c == 'e' || c == 'E'

def digitsOk (l : List Char) : Bool := !l.isEmpty && l.all Char.isDigit

def exponentOk : List Char → Bool
  | [] => true
  | 'e' :: '+' :: l | 'e' :: '-' :: l | 'E' :: '+' :: l | 'E' :: '-' :: l => digitsOk l
  | 'e' :: l | 'E' :: l => digitsOk l
  | _ => false

def fractionOk : List Char → Bool
  | '.' :: l => !(l.takeWhile Char.isDigit).isEmpty && exponentOk (l.dropWhile Char.isDigit)
  | l => exponentOk l

def naturalOk : List Char → Bool
  | '0' :: l => fractionOk l
  | c :: l => c.isDigit && fractionOk (l.dropWhile Char.isDigit)
  | [] => false

/-- The number grammar: sign, integer without leading zeros, fraction, exponent. -/
def numOk : List Char → Bool
  | '-' :: l => naturalOk l
  | l => naturalOk l

abbrev NumLit := { l : List Char // numOk l = true }

theorem digit_isNumChar (h : c.isDigit = true) : isNumChar c = true := by
  simp [isNumChar, h]

variable {l : List Char}

theorem digitsOk_numChars (h : digitsOk l = true) : ∀ c ∈ l, isNumChar c = true := by
  simp only [digitsOk, Bool.and_eq_true, all_eq_true] at h
  exact fun c hc => digit_isNumChar (h.2 c hc)

theorem exponentOk_numChars (h : exponentOk l = true) : ∀ c ∈ l, isNumChar c = true := by
  fun_cases exponentOk l with
  | case1 => simp
  | case8 => simp_all [exponentOk]
  | _ =>
    simp only [exponentOk] at h
    have := digitsOk_numChars h
    simp_all [isNumChar]

theorem dropDigits_numChars (h : ∀ c ∈ l.dropWhile Char.isDigit, isNumChar c = true) :
    ∀ c ∈ l, isNumChar c = true := by
  induction l with
  | nil => simp
  | cons d l ih =>
    by_cases hd : d.isDigit = true
    · rw [dropWhile_cons_of_pos hd] at h
      simp only [mem_cons, forall_eq_or_imp]
      exact ⟨digit_isNumChar hd, ih h⟩
    · rwa [dropWhile_cons_of_neg hd] at h

theorem fractionOk_numChars (h : fractionOk l = true) : ∀ c ∈ l, isNumChar c = true := by
  fun_cases fractionOk l with
  | case1 l =>
    simp only [fractionOk, Bool.and_eq_true] at h
    have := dropDigits_numChars (exponentOk_numChars h.2)
    simpa [isNumChar] using this
  | case2 l hl => exact exponentOk_numChars (by rwa [fractionOk] at h; exact hl)

theorem naturalOk_numChars (h : naturalOk l = true) : ∀ c ∈ l, isNumChar c = true := by
  fun_cases naturalOk l with
  | case1 l =>
    have := fractionOk_numChars (l := l) (by simpa [naturalOk] using h)
    simpa [isNumChar] using this
  | case2 c l hl =>
    have h' : c.isDigit = true ∧ fractionOk (l.dropWhile Char.isDigit) = true := by
      simpa [naturalOk, hl] using h
    have := dropDigits_numChars (fractionOk_numChars h'.2)
    simp only [mem_cons, forall_eq_or_imp]
    exact ⟨digit_isNumChar h'.1, this⟩
  | case3 => simp [naturalOk] at h

theorem NumLit.numChars (n : NumLit) : ∀ c ∈ n.1, isNumChar c = true := by
  obtain ⟨l, h⟩ := n
  fun_cases numOk l with
  | case1 l =>
    have := naturalOk_numChars (l := l) (by simpa [numOk] using h)
    simpa [isNumChar] using this
  | case2 l hl => exact naturalOk_numChars (by rwa [numOk] at h; exact hl)

/-- A number starts with a digit or a minus sign. -/
theorem NumLit.head (n : NumLit) : ∃ c l, n.1 = c :: l ∧ (c = '-' ∨ c.isDigit = true) := by
  obtain ⟨l, h⟩ := n
  fun_cases numOk l with
  | case1 l => exact ⟨_, _, rfl, .inl rfl⟩
  | case2 l hl =>
    rw [numOk] at h
    · fun_cases naturalOk l with
      | case1 l => exact ⟨_, _, rfl, .inr (by decide)⟩
      | case2 c l hc =>
        have h' : c.isDigit = true ∧ fractionOk (l.dropWhile Char.isDigit) = true := by
          simpa [naturalOk, hc] using h
        exact ⟨_, _, rfl, .inr h'.1⟩
      | case3 => simp [naturalOk] at h
    · exact hl

/-! ## Integers -/

theorem naturalOk_toDigits (n : ℕ) : naturalOk (Nat.toDigits 10 n) = true := by
  rcases Nat.eq_zero_or_pos n with rfl | hn
  · decide
  · obtain ⟨c, l, hl, hc⟩ := toDigits_head hn
    have ha := toDigits_all_isDigit n
    rw [hl, all_cons, Bool.and_eq_true] at ha
    have hd : l.dropWhile Char.isDigit = [] := dropWhile_eq_nil_iff.mpr (all_eq_true.mp ha.2)
    rw [hl, naturalOk]
    · rw [ha.1, hd]
      rfl
    · exact hc

theorem numOk_toDigits (n : ℕ) : numOk (Nat.toDigits 10 n) = true := by
  rw [numOk]
  · exact naturalOk_toDigits n
  · intro l hl
    have ha := toDigits_all_isDigit n
    rw [hl] at ha
    simp at ha

def NumLit.ofNat (n : ℕ) : NumLit := ⟨Nat.toDigits 10 n, numOk_toDigits n⟩

def NumLit.ofInt : ℤ → NumLit
  | .ofNat n => .ofNat n
  | .negSucc n => ⟨'-' :: Nat.toDigits 10 (n + 1), naturalOk_toDigits (n + 1)⟩

/-- An unsigned integer in decimal digits; anything else is refused. -/
def parseNat (l : List Char) : Option ℕ :=
  if l.all Char.isDigit then some (Nat.ofDigitChars 10 l 0) else none

/-- A decimal integer with an optional minus sign. -/
def parseInt : List Char → Option ℤ
  | '-' :: l => (parseNat l).map fun n => -n
  | l => (parseNat l).map fun n => (n : ℤ)

@[simp] theorem parseNat_toDigits (n : ℕ) : parseNat (Nat.toDigits 10 n) = some n := by
  rw [parseNat, if_pos (toDigits_all_isDigit n), Nat.ofDigitChars_ten_toDigits]

@[simp] theorem parseNat_ofNat (n : ℕ) : parseNat (NumLit.ofNat n).1 = some n := parseNat_toDigits n

@[simp] theorem parseInt_ofInt (z : ℤ) : parseInt (NumLit.ofInt z).1 = some z := by
  cases z with
  | ofNat n =>
    rw [NumLit.ofInt, NumLit.ofNat, parseInt]
    · simp
    · intro l (hl : Nat.toDigits 10 n = _)
      have ha := toDigits_all_isDigit n
      rw [hl] at ha
      simp at ha
  | negSucc n =>
    simp only [NumLit.ofInt, parseInt, parseNat_toDigits]
    rfl

end Solovey.Json
