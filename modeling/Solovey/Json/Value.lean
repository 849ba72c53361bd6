import Solovey.Json.Literal

/-!
# JSON values

A value is a tree of literals: `Value.text` is its compact text and `parse` reads a text back, with
blanks allowed between the tokens. `parse_text` is the round trip.

`Value.members` counts values and object keys, `Value.height` the nesting, and `KeysOk` says that
the keys of every object are short and distinct: the measures of a reader with resource limits.
-/

namespace Solovey.Json

open Solovey.Text List

mutual

inductive Value
  | null
  | bool (b : Bool)
  | num (n : NumLit)
  | str (s : StrLit)
  | arr (items : Items)
  | obj (members : Members)

inductive Items
  | nil
  | cons (v : Value) (rest : Items)

inductive Members
  | nil
  | cons (key : StrLit) (v : Value) (rest : Members)

end

instance : Inhabited Value := ⟨.null⟩

def quoted (s : StrLit) : List Char := '"' :: (StrLit.text s ++ ['"'])

mutual

/-- The compact text. -/
def Value.text : Value → List Char
  | .null => ['n', 'u', 'l', 'l']
  | .bool true => ['t', 'r', 'u', 'e']
  | .bool false => ['f', 'a', 'l', 's', 'e']
  | .num n => n.1
  | .str s => quoted s
  | .arr items => '[' :: items.text true
  | .obj members => '{' :: members.text true

/-- The text of the items up to the closing bracket; a comma stands before every item but
the first. -/
def Items.text (first : Bool) : Items → List Char
  | .nil => [']']
  | .cons v rest => (if first then [] else [',']) ++ (v.text ++ rest.text false)

def Members.text (first : Bool) : Members → List Char
  | .nil => ['}']
  | .cons key v rest =>
    (if first then [] else [',']) ++ (quoted key ++ ':' :: (v.text ++ rest.text false))

end

/-! ## Reading -/

def isBlank (c : Char) : Bool := c == ' ' || c == '\t' || c == '\n' || c == '\r'

def skipBlanks (cs : List Char) : List Char := cs.dropWhile isBlank

/-- The text after the expected word. -/
def expect (word cs : List Char) : Option (List Char) :=
  if word <+: cs then some (cs.drop word.length) else none

def parseNumber (cs : List Char) : Option (Value × List Char) :=
  let l := cs.takeWhile isNumChar
  if h : numOk l = true then some (.num ⟨l, h⟩, cs.dropWhile isNumChar) else none

/-- A key, its colon and the text of its value. -/
def parseKey (cs : List Char) : Option (StrLit × List Char) := do
  let cs ← expect ['"'] (skipBlanks cs)
  let (key, cs) ← scanString cs
  let cs ← expect [':'] (skipBlanks cs)
  return (key, cs)

mutual

/-- Reads one value and returns the text after it. Every call consumes a character, so the
length of the text is fuel enough. -/
def parseValue : ℕ → List Char → Option (Value × List Char)
  | 0, _ => none
  | n + 1, cs =>
    match skipBlanks cs with
    | [] => none
    | c :: cs =>
      if c = '"' then (scanString cs).map fun (s, rest) => (.str s, rest)
      else if c = '[' then (parseItems n true cs).map fun (items, rest) => (.arr items, rest)
      else if c = '{' then (parseMembers n true cs).map fun (ms, rest) => (.obj ms, rest)
      else if c = 'n' then (expect ['u', 'l', 'l'] cs).map fun rest => (.null, rest)
      else if c = 't' then (expect ['r', 'u', 'e'] cs).map fun rest => (.bool true, rest)
      else if c = 'f' then (expect ['a', 'l', 's', 'e'] cs).map fun rest => (.bool false, rest)
      else parseNumber (c :: cs)

def parseItems : ℕ → Bool → List Char → Option (Items × List Char)
  | 0, _, _ => none
  | n + 1, first, cs =>
    match skipBlanks cs with
    | [] => none
    | c :: cs =>
      if c = ']' then some (.nil, cs)
      else
        ((if first then some (c :: cs) else if c = ',' then some cs else none).bind
          (parseValue n)).bind fun (v, cs) =>
        (parseItems n false cs).map fun (rest, cs) => (.cons v rest, cs)

def parseMembers : ℕ → Bool → List Char → Option (Members × List Char)
  | 0, _, _ => none
  | n + 1, first, cs =>
    match skipBlanks cs with
    | [] => none
    | c :: cs =>
      if c = '}' then some (.nil, cs)
      else
        ((if first then some (c :: cs) else if c = ',' then some cs else none).bind
          parseKey).bind fun (key, cs) =>
        (parseValue n cs).bind fun (v, cs) =>
        (parseMembers n false cs).map fun (rest, cs) => (.cons key v rest, cs)

end

/-- The one value of a text. -/
def parse (cs : List Char) : Option Value :=
  (parseValue (cs.length + 1) cs).bind fun (v, rest) =>
    if skipBlanks rest = [] then some v else none

/-! ## The round trip -/

/-- A number ends where no number character follows. -/
def NumEnd (rest : List Char) : Prop := ∀ c ∈ rest.head?, isNumChar c = false

variable {c : Char}

theorem skipBlanks_cons (h : isBlank c = false) (cs : List Char) :
    skipBlanks (c :: cs) = c :: cs := by
  simp [skipBlanks, h]

theorem parseNumber_text (n : NumLit) {r : List Char} (h : NumEnd r) :
    parseNumber (n.1 ++ r) = some (.num n, r) := by
  have hr : r.takeWhile isNumChar = [] ∧ r.dropWhile isNumChar = r := by
    cases r with
    | nil => exact ⟨rfl, rfl⟩
    | cons c cs => simp [h c rfl]
  have ht : (n.1 ++ r).takeWhile isNumChar = n.1 := by
    rw [takeWhile_append_of_pos n.numChars, hr.1, append_nil]
  have hd : (n.1 ++ r).dropWhile isNumChar = r := by rw [dropWhile_append_of_pos n.numChars, hr.2]
  simp only [parseNumber, ht, hd, n.2]
  simp

theorem parseKey_text (k : StrLit) (r : List Char) :
    parseKey (quoted k ++ ':' :: r) = some (k, r) := by
  simp [parseKey, quoted, skipBlanks_cons (show isBlank '"' = false by decide),
    skipBlanks_cons (show isBlank ':' = false by decide), expect, scanString_text]

theorem NumLit.head_ne {n : NumLit} {l : List Char} (hl : n.1 = c :: l) {d : Char}
    (hd : d ≠ '-' ∧ d.isDigit = false) : c ≠ d := by
  obtain ⟨c', l', hl', hc⟩ := n.head
  obtain ⟨rfl, -⟩ := List.cons.inj (hl.symm.trans hl')
  rintro rfl
  rcases hc with rfl | hc
  · exact hd.1 rfl
  · simp [hc] at hd

theorem isBlank_eq_false (h : c ≠ ' ' ∧ c ≠ '\t' ∧ c ≠ '\n' ∧ c ≠ '\r') : isBlank c = false := by
  simp [isBlank, h]

/-- The text of a number starts neither a blank nor another kind of value. -/
theorem parseValue_num (n : NumLit) {r : List Char} (h : NumEnd r) (k : ℕ) :
    parseValue (k + 1) (n.1 ++ r) = some (.num n, r) := by
  obtain ⟨c, l, hl, -⟩ := n.head
  have hne (d : Char) (hd : d ≠ '-' ∧ d.isDigit = false) : c ≠ d := NumLit.head_ne hl hd
  have hb : isBlank c = false := isBlank_eq_false
    ⟨hne _ (by decide), hne _ (by decide), hne _ (by decide), hne _ (by decide)⟩
  have hn := parseNumber_text n h
  rw [hl, cons_append] at hn ⊢
  rw [parseValue, skipBlanks_cons hb]
  simp only [hne '"' (by decide), hne '[' (by decide), hne '{' (by decide), hne 'n' (by decide),
    hne 't' (by decide), hne 'f' (by decide), if_false, hn]

/-- The first character of a value is no blank and closes no array. -/
theorem Value.text_head (v : Value) : ∃ c l, v.text = c :: l ∧ isBlank c = false ∧ c ≠ ']' := by
  cases v with
  | null | str | arr | obj => exact ⟨_, _, rfl, by decide, by decide⟩
  | bool b => cases b <;> exact ⟨_, _, rfl, by decide, by decide⟩
  | num n =>
    obtain ⟨c, l, hl, -⟩ := n.head
    have hne (d : Char) (hd : d ≠ '-' ∧ d.isDigit = false) : c ≠ d := NumLit.head_ne hl hd
    exact ⟨c, l, hl, isBlank_eq_false
      ⟨hne _ (by decide), hne _ (by decide), hne _ (by decide), hne _ (by decide)⟩,
      hne _ (by decide)⟩

theorem Value.text_pos (v : Value) : 0 < v.text.length := by
  obtain ⟨c, l, hl, -⟩ := v.text_head
  simp [hl]

theorem Items.text_pos (it : Items) (first : Bool) : 0 < (it.text first).length := by
  cases it with
  | nil => simp [Items.text]
  | cons v rest =>
    have := v.text_pos
    simp only [Items.text, length_append]
    omega

theorem Items.text_false_end (it : Items) (r : List Char) : NumEnd (it.text false ++ r) := by
  cases it <;> simp [Items.text, NumEnd] <;> decide

theorem Members.text_false_end (ms : Members) (r : List Char) : NumEnd (ms.text false ++ r) := by
  cases ms <;> simp [Members.text, NumEnd] <;> decide

mutual

theorem parseValue_text (v : Value) (n : ℕ) (hn : v.text.length < n) {r : List Char}
    (hr : NumEnd r) : parseValue n (v.text ++ r) = some (v, r) := by
  obtain ⟨n, rfl⟩ : ∃ k, n = k + 1 := ⟨n - 1, by omega⟩
  match v with
  | .null | .bool true | .bool false => simp [Value.text, parseValue, skipBlanks_cons, isBlank, expect]
  | .num m => exact parseValue_num m hr n
  | .str s => simp [Value.text, quoted, parseValue, skipBlanks_cons, isBlank, scanString_text]
  | .arr items =>
    simp only [Value.text, length_cons] at hn
    have ih := parseItems_text items n true (by omega) r
    simp [Value.text, parseValue, skipBlanks_cons, isBlank, ih]
  | .obj members =>
    simp only [Value.text, length_cons] at hn
    have ih := parseMembers_text members n true (by omega) r
    simp [Value.text, parseValue, skipBlanks_cons, isBlank, ih]

theorem parseItems_text (it : Items) (n : ℕ) (first : Bool) (hn : (it.text first).length < n)
    (r : List Char) :
    parseItems n first (it.text first ++ r) = some (it, r) := by
  obtain ⟨n, rfl⟩ : ∃ k, n = k + 1 := ⟨n - 1, by omega⟩
  match it with
  | .nil => simp [Items.text, parseItems, skipBlanks_cons, isBlank]
  | .cons v more =>
    have hp := v.text_pos
    have hmr := more.text_pos false
    have he := more.text_false_end r
    simp only [Items.text, length_append] at hn
    have hv := parseValue_text v n (by omega) he
    have hm := parseItems_text more n false (by omega) r
    cases first with
    | true =>
      -- the first item follows the bracket, so its own first character is looked at
      obtain ⟨c, l, hl, hb, hc⟩ := v.text_head
      simp only [Items.text, if_true, nil_append, append_assoc]
      rw [hl, cons_append] at hv ⊢
      simp [parseItems, skipBlanks_cons hb, hc, hv, hm]
    | false => simp [Items.text, parseItems, skipBlanks_cons, isBlank, hv, hm]

theorem parseMembers_text (ms : Members) (n : ℕ) (first : Bool) (hn : (ms.text first).length < n)
    (r : List Char) :
    parseMembers n first (ms.text first ++ r) = some (ms, r) := by
  obtain ⟨n, rfl⟩ : ∃ k, n = k + 1 := ⟨n - 1, by omega⟩
  match ms with
  | .nil => simp [Members.text, parseMembers, skipBlanks_cons, isBlank]
  | .cons key v more =>
    have he := more.text_false_end r
    simp only [Members.text, quoted, length_append, length_cons] at hn
    have hv := parseValue_text v n (by omega) he
    have hm := parseMembers_text more n false (by omega) r
    have hk := parseKey_text key (v.text ++ (more.text false ++ r))
    cases first with
    | true =>
      simp only [Members.text, if_true, nil_append, append_assoc, cons_append]
      rw [quoted, cons_append] at hk ⊢
      rw [parseMembers, skipBlanks_cons (by decide)]
      simp only [Char.reduceEq, if_false, if_true, Option.bind_some, hk, hv, hm, Option.map_some]
    | false => simp [Members.text, parseMembers, skipBlanks_cons, isBlank, hk, hv, hm]

end

/-- A value is read back from its text. -/
theorem parse_text (v : Value) : parse v.text = some v := by
  have h := @parseValue_text v (v.text.length + 1) (by omega) [] (by simp [NumEnd])
  rw [append_nil] at h
  simp only [parse, h, Option.bind_some]
  rfl

/-! ## The text is one line -/

theorem StrLit.newline_notMem (s : StrLit) : '\n' ∉ StrLit.text s := by
  induction s with
  | nil => simp
  | cons p s ih =>
    rw [StrLit.text_cons, mem_append, not_or]
    refine ⟨?_, ih⟩
    have hh (x : Hex) : '\n' ≠ x.1 := by
      intro h
      have hx := x.2
      rw [← h] at hx
      exact absurd hx (by decide)
    cases p with
    | plain c ok =>
      obtain ⟨-, -, hc⟩ := isPlain_ne ok
      simp only [Piece.text, mem_singleton]
      rintro rfl
      exact absurd hc (by decide)
    | escape e => cases e <;> decide
    | unicode a b c d => simp [Piece.text, hh]

theorem quoted_newline_notMem (s : StrLit) : '\n' ∉ quoted s := by
  simp [quoted, StrLit.newline_notMem]

theorem NumLit.newline_notMem (n : NumLit) : '\n' ∉ n.1 := fun h =>
  absurd (n.numChars _ h) (by decide)

mutual

theorem Value.newline_notMem (v : Value) : '\n' ∉ v.text := by
  match v with
  | .null | .bool true | .bool false => decide
  | .num n => exact n.newline_notMem
  | .str s => exact quoted_newline_notMem s
  | .arr items => simp [Value.text, Items.newline_notMem items true]
  | .obj ms => simp [Value.text, Members.newline_notMem ms true]

theorem Items.newline_notMem (it : Items) (first : Bool) : '\n' ∉ it.text first := by
  match it with
  | .nil => simp [Items.text]
  | .cons v rest =>
    have hv := Value.newline_notMem v
    have hr := Items.newline_notMem rest false
    cases first <;> simp [Items.text, hv, hr]

theorem Members.newline_notMem (ms : Members) (first : Bool) : '\n' ∉ ms.text first := by
  match ms with
  | .nil => simp [Members.text]
  | .cons key v rest =>
    have hk := quoted_newline_notMem key
    have hv := Value.newline_notMem v
    have hr := Members.newline_notMem rest false
    cases first <;> simp [Members.text, hk, hv, hr]

end

/-! ## Escaping for HTML -/

/-- The escapes that an encoder adds when it copies a text. -/
def Piece.escapeHTML : Piece → Piece
  | .plain c ok =>
    if c = '<' ∨ c = '>' ∨ c = '&' ∨ c = '\u2028' ∨ c = '\u2029' then .ofCode c.toNat
    else .plain c ok
  | p => p

def StrLit.escapeHTML (s : StrLit) : StrLit := s.map Piece.escapeHTML

mutual

def Value.escapeHTML : Value → Value
  | .str s => .str (StrLit.escapeHTML s)
  | .arr items => .arr items.escapeHTML
  | .obj ms => .obj ms.escapeHTML
  | v => v

def Items.escapeHTML : Items → Items
  | .nil => .nil
  | .cons v rest => .cons v.escapeHTML rest.escapeHTML

def Members.escapeHTML : Members → Members
  | .nil => .nil
  | .cons key v rest => .cons (StrLit.escapeHTML key) v.escapeHTML rest.escapeHTML

end

end Solovey.Json
