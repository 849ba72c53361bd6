import Solovey.Network.Candidate
import Solovey.Network.Enforcement

/-!
# Lines that the broker's check accepts

Every word of a rendered table is tidy: printable, in lower case, without braces and without any of
the runs of letters that the forbidden tokens need. Lines of tidy words keep their words when they
are indented, joined and trimmed again.
-/

namespace Solovey.Network

open Solovey.Text Solovey.Net Solovey.Hash List

/-! ## Tidy words -/

/-- Each forbidden token holds one of these. -/
def forbiddenRoots : List Str :=
  ["flush", "include", "define", "firewalld", "table"].map String.toList

def tidyChar (c : Char) : Bool :=
  decide (33 ≤ c.toNat) && decide (c.toNat ≤ 126) && !(decide (65 ≤ c.toNat) && decide (c.toNat ≤ 90))
    && c != '{' && c != '}'

def tidy (w : Str) : Bool :=
  !w.isEmpty && w.all tidyChar && forbiddenRoots.all fun root => !contains root w

variable {w : Str}

theorem tidy_iff : tidy w = true ↔ w ≠ [] ∧ (∀ c ∈ w, tidyChar c = true) ∧
    ∀ rt ∈ forbiddenRoots, ¬rt <:+: w := by
  simp only [tidy, Bool.and_eq_true, Bool.not_eq_true', isEmpty_eq_false_iff, all_eq_true,
    ← contains_iff, Bool.not_eq_true, and_assoc]

/-- The characters of addresses, numbers and times. -/
def isDataChar (c : Char) : Bool := isAddressChar c || c == '/' || c == ',' || c == 's'

variable {c : Char}

theorem isDataChar_tidy (h : isDataChar c = true) : tidyChar c = true ∧ c ≠ 'l' ∧ c ≠ 'n' := by
  have hlt : c.toNat < 128 := by
    simp only [isDataChar, Bool.or_eq_true, beq_iff_eq] at h
    rcases h with ((h | rfl) | rfl) | rfl
    · exact isAddressChar_lt h
    all_goals decide
  exact forall_ascii (p := fun c => isDataChar c = true → tidyChar c = true ∧ c ≠ 'l' ∧ c ≠ 'n')
    (by decide) hlt h

theorem tidy_of_data (hne : w ≠ []) (h : ∀ c ∈ w, isDataChar c = true) : tidy w = true := by
  refine tidy_iff.mpr ⟨hne, fun c hc => (isDataChar_tidy (h c hc)).1, fun rt hr hin => ?_⟩
  have hl : ∀ rt ∈ forbiddenRoots, 'l' ∈ rt ∨ 'n' ∈ rt := by decide
  rcases hl rt hr with hm | hm
  · exact (isDataChar_tidy (h _ (hin.subset hm))).2.1 rfl
  · exact (isDataChar_tidy (h _ (hin.subset hm))).2.2 rfl

/-- The fixed words of rendered tables. -/
def vocabulary : List String :=
  ["accept", "accept;", "chain", "comment", "counter", "ct", "daddr", "dport", "drop", "elements",
    "established,related", "filter", "flags", "hook", "iifname", "input", "interval,timeout", "ip",
    "ip6", "ipv4", "ipv4_addr", "ipv6", "ipv6_addr", "jump", "l4proto", "\"lo\"", "meta", "nfproto",
    "policy", "priority", "saddr", "set", "size", "solovey_input", "state", "tcp", "time",
    "timeout", "type", "udp", "-5;", "<", "="]

theorem tidy_known {s : String} (h : s ∈ vocabulary) : tidy s.toList = true := by
  have ha : (vocabulary.all fun s => tidy s.toList) = true := by decide
  exact all_eq_true.mp ha s h

theorem tidy_pair {s : String} {w : Str} (h : s ∈ vocabulary) (hw : tidy w = true) :
    ∀ x ∈ [s.toList, w], tidy x = true := by
  simp [tidy_known h, hw]

/-- All hexadecimal digits look the same. -/
def blur (c : Char) : Char := if isLowerHex c then '0' else c

/-- Is a name tidy for every choice of its hexadecimal digits? -/
def tidyName (front : Str) (digits : ℕ) (tail : Str) : Bool :=
  front.all tidyChar && tail.all tidyChar && forbiddenRoots.all fun root =>
    !contains (root.map blur) ((front ++ List.replicate digits '0' ++ tail).map blur)

theorem isLowerHex_tidy (h : isLowerHex c = true) : tidyChar c = true ∧ isAddressChar c = true := by
  have ha : isAddressChar c = true := by
    simp only [isLowerHex, Bool.or_eq_true] at h
    rcases h with h | h <;> simp [isAddressChar, h]
  exact ⟨(isDataChar_tidy (by simp [isDataChar, ha])).1, ha⟩

variable {hex : Str}

theorem map_blur_hex (h : ∀ c ∈ hex, isLowerHex c = true) :
    hex.map blur = (List.replicate hex.length '0').map blur := by
  refine ext_getElem (by simp) fun i hi hj => ?_
  have hd := h _ (getElem_mem (by simpa using hi : i < hex.length))
  simp only [getElem_map, getElem_replicate, blur, hd]
  rfl

theorem tidy_of_name {f tail : Str} (hh : ∀ c ∈ hex, isLowerHex c = true) (hne : hex ≠ [])
    (h : tidyName f hex.length tail = true) :
    tidy (f ++ hex ++ tail) = true := by
  simp only [tidyName, Bool.and_eq_true, all_eq_true, Bool.not_eq_true', ← Bool.not_eq_true,
    contains_iff] at h
  obtain ⟨⟨hf, ht⟩, hr⟩ := h
  refine tidy_iff.mpr ⟨by simp [hne], fun c hc => ?_, fun rt hrt hin => ?_⟩
  · simp only [mem_append] at hc
    rcases hc with (hc | hc) | hc
    · exact hf c hc
    · exact (isLowerHex_tidy (hh c hc)).1
    · exact ht c hc
  · apply hr rt hrt
    have hm := hin.map blur
    rwa [map_append, map_append, map_blur_hex hh, ← map_append, ← map_append] at hm

/-! ## Lines of tidy words and braces -/

def braced (w : Str) : Bool := tidy w || w == "\x7b".toList || w == "\x7d".toList

theorem braced_open : braced "\x7b".toList = true := by simp [braced]

theorem braced_close : braced "\x7d".toList = true := by simp [braced]

theorem braced_of_tidy (h : tidy w = true) : braced w = true := by simp [braced, h]

theorem braced_cases (h : braced w = true) : tidy w = true ∨ w = ['{'] ∨ w = ['}'] := by
  simp only [braced, Bool.or_eq_true, beq_iff_eq] at h
  tauto

theorem tidyChar_plain (h : tidyChar c = true) : 33 ≤ c.toNat ∧ c.toNat ≤ 126 ∧
    ¬(65 ≤ c.toNat ∧ c.toNat ≤ 90) ∧ c ≠ '{' ∧ c ≠ '}' := by
  simp only [tidyChar, Bool.and_eq_true, decide_eq_true_eq, Bool.not_eq_true', bne_iff_ne,
    Bool.and_eq_false_iff, decide_eq_false_iff_not] at h
  obtain ⟨⟨⟨⟨hl, hh⟩, hu⟩, ho⟩, hc⟩ := h
  exact ⟨hl, hh, by tauto, ho, hc⟩

theorem braced_char (h : braced w = true) (hc : c ∈ w) :
    33 ≤ c.toNat ∧ c.toNat ≤ 126 ∧ ¬(65 ≤ c.toNat ∧ c.toNat ≤ 90) := by
  rcases braced_cases h with h | rfl | rfl
  · obtain ⟨hl, hh, hu, -⟩ := tidyChar_plain ((tidy_iff.mp h).2.1 c hc)
    exact ⟨hl, hh, hu⟩
  · rw [mem_singleton.mp hc]
    decide
  · rw [mem_singleton.mp hc]
    decide

theorem braced_isWord (h : braced w = true) : IsWord w := by
  refine ⟨?_, fun c hc => ?_⟩
  · rcases braced_cases h with h | rfl | rfl
    · exact (tidy_iff.mp h).1
    all_goals simp
  · obtain ⟨hl, hh, -⟩ := braced_char h hc
    exact isSpace_visible hl hh

theorem braced_count (h : braced w = true) :
    w.count '{' = (if w = ['{'] then 1 else 0) ∧ w.count '}' = if w = ['}'] then 1 else 0 := by
  rcases braced_cases h with h | rfl | rfl
  · have hc := (tidy_iff.mp h).2.1
    have ho : '{' ∉ w := fun hm => (tidyChar_plain (hc _ hm)).2.2.2.1 rfl
    have hcl : '}' ∉ w := fun hm => (tidyChar_plain (hc _ hm)).2.2.2.2 rfl
    rw [count_eq_zero_of_not_mem ho, count_eq_zero_of_not_mem hcl, if_neg, if_neg]
    · exact ⟨rfl, rfl⟩
    · rintro rfl
      simp at hcl
    · rintro rfl
      simp at ho
  · decide
  · decide

/-- How much a line opens. -/
def Line.opened (line : Line) : ℤ := line.words.count ['{'] - line.words.count ['}']

theorem count_braces {ws : List Str} (h : ∀ w ∈ ws, braced w = true) :
    (unwords ws).count '{' = ws.count ['{'] ∧ (unwords ws).count '}' = ws.count ['}'] := by
  rw [count_unwords (by decide), count_unwords (by decide)]
  induction ws with
  | nil => exact ⟨rfl, rfl⟩
  | cons w ws ih =>
    obtain ⟨ho, hc⟩ := ih fun w hw => h w (mem_cons_of_mem _ hw)
    obtain ⟨hw, hw'⟩ := braced_count (h w mem_cons_self)
    simp only [map_cons, sum_cons, count_cons, ho, hc, hw, hw', beq_iff_eq]
    exact ⟨Nat.add_comm _ _, Nat.add_comm _ _⟩

/-- A line of a table that the check lets through. -/
structure Line.Accepted (revision : Str) (line : Line) : Prop where
  ne : line.words ≠ []
  braced : ∀ w ∈ line.words, braced w = true
  check : checkLine revision line.text = .ok ()

/-- An accepted line that opens and closes nothing. -/
structure Line.Flat (revision : Str) (line : Line) : Prop extends line.Accepted revision where
  opened : line.opened = 0

section

variable {r : Str} {l : Line}

theorem Line.trimSpace_text (h : ∀ w ∈ l.words, braced w = true) :
    trimSpace l.text = unwords l.words :=
  trimSpace_indented l.indent fun w hw => braced_isWord (h w hw)

theorem Line.mem_text (h : ∀ w ∈ l.words, Network.braced w = true) {c : Char} (hc : c ∈ l.text) :
    c = ' ' ∨ 33 ≤ c.toNat ∧ c.toNat ≤ 126 ∧ ¬(65 ≤ c.toNat ∧ c.toNat ≤ 90) := by
  rw [Line.text, mem_append] at hc
  rcases hc with hc | hc
  · exact .inl (eq_of_mem_replicate hc)
  · rcases mem_unwords hc with rfl | ⟨w, hw, hc⟩
    · exact .inl rfl
    · exact .inr (braced_char (h w hw) hc)

theorem Line.Accepted.newline (h : l.Accepted r) : '\n' ∉ l.text := by
  intro hm
  rcases Line.mem_text h.braced hm with hc | ⟨hl, -⟩
  · exact absurd hc (by decide)
  · exact absurd hl (by decide)

theorem Line.Accepted.lower (h : l.Accepted r) {c : Char} (hc : c ∈ l.text) : c.toLower = c := by
  rcases Line.mem_text h.braced hc with rfl | ⟨-, -, hu⟩
  · rfl
  · exact toLower_of_not_upper (by omega)

theorem Line.Accepted.trimmed_ne (h : l.Accepted r) : unwords l.words ≠ [] := by
  obtain ⟨w, ws, hws⟩ := exists_cons_of_ne_nil h.ne
  have hw : IsWord w := braced_isWord (h.braced w (by simp [hws]))
  intro hn
  have hh := unwords_head? ws hw.1
  rw [← hws, hn] at hh
  exact hw.1 (head?_eq_none_iff.mp hh.symm)

/-- Inside the table a line only moves the depth. -/
theorem Line.Accepted.scopeLine (h : l.Accepted r) {s : Scope} (hd : 0 < s.depth)
    (ha : 0 ≤ s.depth + l.opened) :
    scopeLine false s l.text = .ok { s with depth := s.depth + l.opened } := by
  obtain ⟨ho, hc⟩ := count_braces h.braced
  have hz : s.depth ≠ 0 := hd.ne'
  simp only [Network.scopeLine, Line.trimSpace_text h.braced, if_neg h.trimmed_ne, hz, false_and,
    if_false, ho, hc]
  rw [if_neg (by simpa [Line.opened] using ha)]
  rfl

end

/-! ## Scope of whole blocks -/

/-- Inside the table the lines end at the depth where they began. -/
def Balanced (lines : List Line) : Prop :=
  ∀ scope : Scope, 0 < scope.depth →
    (lines.map Line.text).foldlM (scopeLine false) scope = .ok scope

theorem Balanced.append {a b : List Line} (ha : Balanced a) (hb : Balanced b) :
    Balanced (a ++ b) := by
  intro s hd
  rw [map_append, foldlM_append, ha s hd]
  exact hb s hd

theorem balanced_nil : Balanced [] := fun _ _ => rfl

theorem balanced_flatMap {α : Type} {f : α → List Line} {l : List α} (h : ∀ a ∈ l, Balanced (f a)) :
    Balanced (l.flatMap f) := by
  induction l with
  | nil => exact balanced_nil
  | cons a l ih =>
    rw [flatMap_cons]
    exact (h a mem_cons_self).append (ih fun b hb => h b (mem_cons_of_mem _ hb))

section

variable {rv : Str}

theorem balanced_of_flat {ls : List Line} (h : ∀ line ∈ ls, line.Flat rv) : Balanced ls := by
  induction ls with
  | nil => exact balanced_nil
  | cons line ls ih =>
    intro s hd
    have hl := h line mem_cons_self
    have ho := hl.opened
    have hs := hl.scopeLine hd (by omega)
    rw [ho, add_zero] at hs
    rw [map_cons, foldlM_cons, hs]
    exact ih (fun line hm => h line (mem_cons_of_mem _ hm)) s hd

/-- A block opens once, and closes at its end. -/
theorem balanced_block {first l : Line} {i : List Line} (hf : first.Accepted rv)
    (hl : l.Accepted rv) (hinner : Balanced i) (ho : first.opened = 1) (hc : l.opened = -1) :
    Balanced (first :: i ++ [l]) := by
  intro s hd
  have hs := hf.scopeLine hd (by omega)
  have hi : 0 < ({ s with depth := s.depth + 1 } : Scope).depth := by
    show 0 < s.depth + 1
    omega
  have he := hl.scopeLine hi (by simp; omega)
  rw [ho] at hs
  rw [map_append, map_cons, cons_append, foldlM_cons, hs]
  show ((i.map Line.text) ++ [l].map Line.text).foldlM (Network.scopeLine false)
    { s with depth := s.depth + 1 } = _
  rw [foldlM_append, hinner _ hi]
  show ([l].map Line.text).foldlM (Network.scopeLine false) { s with depth := s.depth + 1 } = _
  rw [map_singleton, foldlM_cons, he, hc]
  simp

/-! ## Generated lines -/

variable {ws : List Str}

theorem allowedEndpointJump_none (h : ws.head? ≠ some "meta".toList) :
    allowedEndpointJump ws = none := by
  rcases ws with _ | ⟨keyword, _ | ⟨nf, _ | ⟨family, rest⟩⟩⟩
  · rfl
  · rfl
  · rfl
  · have hk : (keyword == "meta".toList) = false := beq_false_of_ne fun heq => h (congrArg some heq)
    rw [allowedEndpointJump, hk]
    rfl

theorem Line.accepted_of_generated {ln : Line} (hne : ln.words ≠ [])
    (hb : ∀ w ∈ ln.words, Network.braced w = true) (hm : ln.words.head? ≠ some "meta".toList)
    (hg : generatedLine rv (unwords ln.words) = true) :
    ln.Accepted rv := by
  refine ⟨hne, hb, ?_⟩
  have hwr : Text.words (unwords ln.words) = ln.words :=
    words_unwords hne fun w hw => braced_isWord (hb w hw)
  rw [checkLine, Line.trimSpace_text hb, hwr, allowedEndpointJump_none hm]
  exact if_pos hg

/-- A line that is one of the check's own texts. -/
def fixedLine (ws : List Str) : Bool :=
  !ws.isEmpty && ws.all braced && ws.head? != some "meta".toList &&
    fixedLines.contains (unwords ws)

theorem accepted_fixed {i : ℕ} (h : fixedLine ws = true) : (Line.mk i ws).Accepted rv := by
  simp only [fixedLine, Bool.and_eq_true, Bool.not_eq_true', isEmpty_eq_false_iff,
    all_eq_true, bne_iff_ne] at h
  obtain ⟨⟨⟨hne, hb⟩, hm⟩, hf⟩ := h
  refine Line.accepted_of_generated hne hb hm ?_
  simp only [generatedLine, hf, Bool.true_or]

/-- A line whose words satisfy one of the check's patterns. -/
theorem accepted_pattern {i : ℕ} (hne : ws ≠ []) (hb : ∀ w ∈ ws, braced w = true)
    (hm : ws.head? ≠ some "meta".toList)
    (h : managedSetDeclaration ws = true ∨ managedChainDeclaration ws = true ∨
      allowedTimedElements ws = true ∨ allowedSize ws = true ∨ allowedEndpointAction ws = true) :
    (Line.mk i ws).Accepted rv := by
  refine Line.accepted_of_generated hne hb hm ?_
  have hwr : words (unwords ws) = ws := words_unwords hne fun w hw => braced_isWord (hb w hw)
  rw [generatedLine, hwr]
  rcases h with h | h | h | h | h <;> simp [h]

end

/-! ## Names -/

theorem startsWith_append (s : Str) (rs : Str → Bool) (w : Str) :
    startsWith s rs (s ++ w) = rs w := by
  rw [startsWith, drop_left, isPrefixOf_iff_prefix.mpr (prefix_append _ _), Bool.true_and]

theorem endsWith_append (tail : Str) (f : Str → Bool) (w : Str) :
    endsWith tail f (w ++ tail) = f w := by
  rw [endsWith, isSuffixOf_iff_suffix.mpr (suffix_append _ _), Bool.true_and,
    length_append, Nat.add_sub_cancel, take_left]

theorem isShortHex_iff :
    isShortHex hex = true ↔ hex.length = 12 ∧ ∀ c ∈ hex, isLowerHex c = true := by
  rw [isShortHex, Bool.and_eq_true, beq_iff_eq, all_eq_true]

theorem isShortHex_shortRevision {rs : Str} (h : digest rs = true) :
    isShortHex (shortRevision rs) = true := by
  rw [shortRevision_digest h, isShortHex_iff]
  simp only [digest, Bool.and_eq_true, beq_iff_eq, all_eq_true] at h
  refine ⟨by rw [length_take, h.1]; rfl, fun c hc => ?_⟩
  rw [isLowerHex, Bool.or_comm]
  exact h.2 c (mem_of_mem_take hc)

theorem tidy_name {f : Str} (h : isShortHex hex = true) (hn : tidyName f 12 [] = true) :
    tidy (f ++ hex) = true := by
  obtain ⟨hl, hh⟩ := isShortHex_iff.mp h
  have hne : hex ≠ [] := by
    rintro rfl
    cases hl
  rw [← hl] at hn
  have ht := tidy_of_name hh hne hn
  rwa [append_nil] at ht

def kindTexts : List String := ["gray", "rate", "quarantine", "block"]

theorem SetClass.text_mem {k : SetClass} (h : k ∈ setClasses) :
    ∃ text ∈ kindTexts, k.text = text.toList := by
  simp only [setClasses, mem_cons, not_mem_nil, or_false] at h
  rcases h with rfl | rfl | rfl | rfl
  · exact ⟨"gray", by decide, rfl⟩
  · exact ⟨"rate", by decide, rfl⟩
  · exact ⟨"quarantine", by decide, rfl⟩
  · exact ⟨"block", by decide, rfl⟩

/-- The name of a set is known to the check, and tidy on its own and in a rule. -/
theorem endpointSetName_known {e : ProtectionEndpoint} {k : SetClass}
    (hr : digest e.binding.endpointRevision = true) (hk : k ∈ setClasses) :
    isEndpointSet (endpointSetName k e) = true ∧ tidy (endpointSetName k e) = true ∧
      tidy ('@' :: endpointSetName k e) = true := by
  have hh := isShortHex_shortRevision hr
  obtain ⟨text, ht, hkn⟩ := SetClass.text_mem hk
  obtain ⟨family, hf, hfm⟩ : ∃ family ∈ ["4_", "6_"],
      (if e.key.addressFamily = .ipv6 then "6_".toList else "4_".toList) =
        family.toList := by
    split
    · exact ⟨"6_", by decide, rfl⟩
    · exact ⟨"4_", by decide, rfl⟩
  have hfr : ∀ text ∈ kindTexts, ∀ family ∈ ["4_", "6_"],
      tidyName ("solovey_".toList ++ text.toList ++ family.toList) 12 [] = true ∧
        tidyName ('@' :: ("solovey_".toList ++ text.toList ++ family.toList)) 12 [] = true := by
    decide
  obtain ⟨hp, hat⟩ := hfr text ht family hf
  unfold endpointSetName isEndpointSet
  rw [hkn, hfm]
  refine ⟨?_, tidy_name hh hp, tidy_name hh hat⟩
  refine any_eq_true.mpr ⟨text, ht, any_eq_true.mpr ⟨family, hf, ?_⟩⟩
  exact (startsWith_append _ _ _).trans hh

theorem endpointChainName_known {e : ProtectionEndpoint}
    (hr : digest e.binding.endpointRevision = true) :
    isEndpointChain (endpointChainName e) = true ∧ tidy (endpointChainName e) = true := by
  have hh := isShortHex_shortRevision hr
  have hf : tidyName "solovey_endpoint_".toList 12 [] = true := by decide
  unfold isEndpointChain endpointChainName
  exact ⟨(startsWith_append _ _ _).trans hh, tidy_name hh hf⟩

theorem tidy_revisionWord {rs : Str} (h : digest rs = true) : tidy (revisionWord rs) = true := by
  simp only [digest, Bool.and_eq_true, beq_iff_eq, all_eq_true] at h
  refine tidy_of_name (fun c hc => ?_) ?_ ?_
  · rw [isLowerHex, Bool.or_comm]
    exact h.2 c hc
  · rintro rfl
    cases h.1
  · rw [h.1]
    decide

/-! ## Numbers -/

variable {n : ℕ}

theorem isNumber_decimal {k : ℕ} (hk : 0 < k) (h : n < 10 ^ k) : isNumber k (decimal n) = true := by
  have hp : 1 ≤ (decimal n).length := length_pos_of_ne_nil (decimal_ne_nil n)
  rw [isNumber, decimal_all, decide_eq_true hp, decide_eq_true (decimal_length hk h)]
  rfl

theorem isPositive_decimal {k : ℕ} (hk : 0 < k) (hn : 0 < n) (h : n < 10 ^ k) :
    isPositive k (decimal n) = true := by
  rw [isPositive, isNumber_decimal hk h, Bool.true_and, bne_iff_ne]
  exact decimal_head hn

theorem isDataChar_decimal (h : c ∈ decimal n) : isDataChar c = true := by
  have hd := isAddressChar_of_isDigit (all_eq_true.mp (decimal_all n) c h)
  simp [isDataChar, hd]

theorem tidy_decimal {tail : Str} (h : tail.all isDataChar = true) :
    tidy (decimal n ++ tail) = true := by
  refine tidy_of_data (by simp [decimal_ne_nil n]) fun c hc => ?_
  rcases mem_append.mp hc with hc | hc
  · exact isDataChar_decimal hc
  · exact all_eq_true.mp h c hc

theorem tidy_network (h : isNetwork w = true) : tidy w = true := by
  simp only [isNetwork, Bool.and_eq_true, Bool.not_eq_true', isEmpty_eq_false_iff, all_eq_true] at h
  refine tidy_of_data h.1 fun c hc => ?_
  rw [isDataChar, h.2 c hc]
  rfl

end Solovey.Network
