import Solovey.Network.Lines

/-!
# The parts of a rendered table

The generator and the check are written apart. Each part of a rendered table (sets, chains, rules on
sockets) consists of accepted lines and is balanced, for the values that a compiled plan can have.
-/

namespace Solovey.Network

open Solovey.Text Solovey.Net Solovey.Hash
open List hiding contains set

/-! ## Sets -/

/-- An element without a date, of a length the check knows. -/
structure Element.Printable (element : Element) : Prop where
  source : isNetwork element.source = true
  positive : 1 ≤ element.ttl
  bounded : element.ttl ≤ 86400
  undated : element.remaining = none

theorem Element.Printable.words {e : Element} (h : e.Printable) : ∃ n : ℕ, n < 10 ^ 5 ∧
      e.words = [e.source, "timeout".toList, decimal n ++ "s".toList] := by
  obtain ⟨n, hn⟩ := Int.eq_ofNat_of_zero_le (show 0 ≤ e.ttl by have := h.positive; omega)
  have hbd := h.bounded
  refine ⟨n, by omega, ?_⟩
  rw [Element.words, h.undated, hn]
  rfl

theorem timedElements_cons {s k tt : Str} {rs : List Str} (h : 2 ≤ rs.length) :
    timedElements (s :: k :: tt :: rs) = (isNetwork s &&
      k == "timeout".toList && endsWith "s,".toList (isNumber 5) tt &&
      timedElements rs) := by
  rcases rs with _ | ⟨a, _ | ⟨b, rs⟩⟩
  · cases h
  · simp at h
  · rfl

theorem elementWords_accepted {es : List Element} (hne : es ≠ [])
    (h : ∀ element ∈ es, element.Printable) :
    timedElements (elementWords es ++ ["\x7d".toList]) = true ∧
      (∀ w ∈ elementWords es, tidy w = true) ∧ 3 ≤ (elementWords es).length := by
  induction es with
  | nil => exact absurd rfl hne
  | cons element rest ih =>
    obtain ⟨n, hn, hwr⟩ := (h element mem_cons_self).words
    have hs := (h element mem_cons_self).source
    have hnm : isNumber 5 (decimal n) = true := isNumber_decimal (by decide) hn
    have hl : tidy (decimal n ++ "s".toList) = true := tidy_decimal (by simp [isDataChar])
    have htm : tidy "timeout".toList = true := tidy_known (by decide)
    by_cases hr : rest = []
    · subst hr
      rw [elementWords, hwr]
      refine ⟨?_, ?_, le_refl _⟩
      · simp only [cons_append, nil_append, timedElements, hs, endsWith_append,
          hnm, BEq.rfl, Bool.and_self]
      · intro w hw
        simp only [mem_cons, not_mem_nil, or_false] at hw
        rcases hw with rfl | rfl | rfl
        · exact tidy_network hs
        · exact htm
        · exact hl
    · obtain ⟨second, os, rfl⟩ := exists_cons_of_ne_nil hr
      obtain ⟨ht, htd, hln⟩ := ih hr fun element hm => h element (mem_cons_of_mem _ hm)
      have hc : tidy (decimal n ++ "s,".toList) = true := tidy_decimal (by simp [isDataChar])
      have hj : elementWords (element :: second :: os) =
          element.source :: "timeout".toList :: (decimal n ++ "s,".toList) ::
            elementWords (second :: os) := by
        rw [elementWords, hwr]
        · simp [append_assoc]
        · simp
      rw [hj]
      refine ⟨?_, ?_, ?_⟩
      · rw [cons_append, cons_append, cons_append, timedElements_cons (by simp; omega),
          hs, endsWith_append, hnm, ht]
        rfl
      · intro w hw
        simp only [mem_cons] at hw
        rcases hw with rfl | rfl | rfl | hw
        · exact tidy_network hs
        · exact htm
        · exact hc
        · exact htd w (by simpa using hw)
      · simp only [length_cons]
        omega

variable {ws : List Str}

theorem count_tidy (h : ∀ w ∈ ws, tidy w = true) : ws.count ['{'] = 0 ∧ ws.count ['}'] = 0 := by
  refine ⟨count_eq_zero_of_not_mem fun hm => ?_, count_eq_zero_of_not_mem fun hm => ?_⟩
  · exact absurd (h _ hm) (by decide)
  · exact absurd (h _ hm) (by decide)

theorem opened_tidy {i : ℕ} (h : ∀ w ∈ ws, tidy w = true) : (Line.mk i ws).opened = 0 := by
  rw [Line.opened, (count_tidy h).1, (count_tidy h).2]
  rfl

theorem opened_brace {i : ℕ} (h : ∀ w ∈ ws, tidy w = true) :
    (Line.mk i (ws ++ ["\x7b".toList])).opened = 1 := by
  rw [Line.opened, count_append, count_append, (count_tidy h).1, (count_tidy h).2]
  rfl

section

variable {r : Str}

variable {it : ℕ}

/-- A line of tidy words that satisfies a pattern. -/
theorem flat_pattern {ws : List Str} (hne : ws ≠ []) (ht : ∀ w ∈ ws, tidy w = true)
    (hm : ws.head? ≠ some "meta".toList)
    (h : allowedTimedElements ws = true ∨ allowedSize ws = true ∨ allowedEndpointAction ws = true) :
    (Line.mk it ws).Flat r :=
  ⟨accepted_pattern hne (fun w hw => braced_of_tidy (ht w hw)) hm (.inr (.inr h)), opened_tidy ht⟩

theorem flat_fixed {ws : List Str} (h : fixedLine ws = true) (ht : ws.all tidy = true) :
    (Line.mk it ws).Flat r :=
  ⟨accepted_fixed h, opened_tidy (all_eq_true.mp ht)⟩

theorem accepted_close : (Line.mk it ["\x7d".toList]).Accepted r := accepted_fixed (by decide)

/-- A set whose texts the check knows. -/
structure SetDecl.Printable (set : SetDecl) : Prop where
  name : isEndpointSet set.name = true
  tidy : tidy set.name = true
  size : 1 ≤ set.size ∧ set.size ≤ 4096
  timeout : 1 ≤ set.timeout ∧ set.timeout ≤ 86400
  elements : ∀ element ∈ set.elements, element.Printable

theorem accepted_setDeclaration {n : Str} (hn : isEndpointSet n = true) (ht : tidy n = true) :
    (Line.mk it ["set".toList, n, "\x7b".toList]).Accepted r := by
  refine accepted_pattern (by simp) (fun w hw => ?_) (by simp) (.inl ?_)
  · simp only [mem_cons, not_mem_nil, or_false] at hw
    rcases hw with rfl | rfl | rfl
    · exact braced_of_tidy (tidy_known (by decide))
    · exact braced_of_tidy ht
    · exact braced_open
  · simp [managedSetDeclaration, hn]

/-- The number of a limit, with its unit behind it. -/
theorem tidy_limit {n : ℤ} {u : Str} (hl : 1 ≤ n) (hh : n ≤ 86400) (hu : u.all isDataChar = true) :
    isPositive 5 (integer n) = true ∧ tidy (integer n ++ u) = true := by
  obtain ⟨k, rfl⟩ := Int.eq_ofNat_of_zero_le (show 0 ≤ n by omega)
  exact ⟨isPositive_decimal (by decide) (by omega) (by omega), tidy_decimal hu⟩

theorem flat_size {n : ℤ} (hl : 1 ≤ n) (hh : n ≤ 4096) :
    (Line.mk it ["size".toList, integer n]).Flat r := by
  obtain ⟨hp, ht⟩ := tidy_limit (u := []) hl (by omega) rfl
  rw [append_nil] at ht
  refine flat_pattern (by simp) (tidy_pair (by decide) ht) (by simp) (.inr (.inl ?_))
  simp only [allowedSize, hp, BEq.rfl, Bool.and_self, Bool.true_or]

theorem flat_timeout {n : ℤ} (hl : 1 ≤ n) (hh : n ≤ 86400) :
    (Line.mk it ["timeout".toList, integer n ++ "s".toList]).Flat r := by
  obtain ⟨hp, ht⟩ := tidy_limit (u := "s".toList) hl hh (by simp [isDataChar])
  refine flat_pattern (by simp) (tidy_pair (by decide) ht) (by simp) (.inr (.inl ?_))
  simp only [allowedSize, endsWith_append, hp, BEq.rfl, Bool.and_self, Bool.or_true]

theorem flat_elements {es : List Element} (hne : es ≠ []) (h : ∀ element ∈ es, element.Printable) :
    (Line.mk it (["elements".toList, "=".toList, "\x7b".toList] ++ elementWords es ++
      ["\x7d".toList])).Flat r := by
  obtain ⟨ht, htd, -⟩ := elementWords_accepted hne h
  refine ⟨?_, ?_⟩
  · refine accepted_pattern (by simp) (fun w hw => ?_) (by simp)
      (.inr (.inr (.inl ?_)))
    · simp only [mem_append, mem_cons, not_mem_nil, or_false] at hw
      rcases hw with ((rfl | rfl | rfl) | hw) | rfl
      · exact braced_of_tidy (tidy_known (by decide))
      · exact braced_of_tidy (tidy_known (by decide))
      · exact braced_open
      · exact braced_of_tidy (htd w hw)
      · exact braced_close
    · simp only [cons_append, nil_append, allowedTimedElements, BEq.rfl, ht, Bool.and_self]
  · rw [Line.opened]
    simp only [count_append, (count_tidy htd).1, (count_tidy htd).2]
    rfl

/-- A declaration, flat lines and the closing brace. -/
theorem block_accepted {f : List Str} {i : List Line} (hfr : ∀ w ∈ f, tidy w = true)
    (hf : (Line.mk it (f ++ ["\x7b".toList])).Accepted r) (hinner : ∀ line ∈ i, line.Flat r) :
    (∀ line ∈ ⟨it, f ++ ["\x7b".toList]⟩ :: i ++ [⟨it, ["\x7d".toList]⟩], line.Accepted r) ∧
    Balanced (⟨it, f ++ ["\x7b".toList]⟩ :: i ++ [⟨it, ["\x7d".toList]⟩]) := by
  refine ⟨fun line hl => ?_, balanced_block hf accepted_close (balanced_of_flat hinner)
    (opened_brace hfr) rfl⟩
  simp only [mem_append, mem_cons, not_mem_nil, or_false] at hl
  rcases hl with (rfl | hl) | rfl
  · exact hf
  · exact (hinner line hl).toAccepted
  · exact accepted_close

theorem SetDecl.Printable.lines {st : SetDecl} (h : st.Printable) :
    (∀ line ∈ st.lines, line.Accepted r) ∧ Balanced st.lines := by
  have hf : ∀ w ∈ ["set".toList, st.name], Network.tidy w = true :=
    tidy_pair (by decide) h.tidy
  refine block_accepted hf (accepted_setDeclaration h.name h.tidy) fun line hln => ?_
  have hln : line ∈ [_, _, _, _] ++ _ := hln
  simp only [mem_append, mem_cons, not_mem_nil, or_false] at hln
  rcases hln with (rfl | rfl | rfl | rfl) | hln
  · split
    · exact flat_fixed (by decide) (by decide +kernel)
    · exact flat_fixed (by decide) (by decide +kernel)
  · exact flat_fixed (by decide) (by decide +kernel)
  · exact flat_size h.size.1 h.size.2
  · exact flat_timeout h.timeout.1 h.timeout.2
  · split at hln
    · cases hln
    next hne =>
      rw [mem_singleton.mp hln]
      exact flat_elements (by simpa using hne) h.elements

/-! ## Rules of an endpoint's chain -/

theorem familyKeyword_cases (f : Family) :
    familyKeyword f = "ip".toList ∨ familyKeyword f = "ip6".toList := by
  rw [familyKeyword]
  split
  · exact .inr rfl
  · exact .inl rfl

theorem tidy_familyKeyword (f : Family) : tidy (familyKeyword f) = true := by
  rcases familyKeyword_cases f with h | h <;> rw [h] <;> exact tidy_known (by decide)

theorem isIPKeyword_familyKeyword (f : Family) : isIPKeyword (familyKeyword f) = true := by
  rcases familyKeyword_cases f with h | h <;> simp [isIPKeyword, h]

theorem flat_action (f : Family) {st : Str} {rs : List Str} (hst : isEndpointSet st = true)
    (ht : tidy ('@' :: st) = true) (hr : rs.all tidy = true) (hd : allowedDrop rs = true) :
    (Line.mk it ([familyKeyword f, "saddr".toList, '@' :: st] ++ rs)).Flat
      r := by
  refine flat_pattern (by simp) (fun w hw => ?_) ?_ (.inr (.inr ?_))
  · simp only [mem_append, mem_cons, not_mem_nil, or_false] at hw
    rcases hw with (rfl | rfl | rfl) | hw
    · exact tidy_familyKeyword f
    · exact tidy_known (by decide)
    · exact ht
    · exact all_eq_true.mp hr w hw
  · rcases familyKeyword_cases f with h | h <;> rw [h] <;> simp
  · have hs : startsWith "@".toList isEndpointSet ('@' :: st) = true :=
      (startsWith_append "@".toList isEndpointSet st).trans hst
    simp only [cons_append, nil_append, allowedEndpointAction,
      isIPKeyword_familyKeyword, BEq.rfl, hs, hd, Bool.and_self]

/-- The limits that the planner lets through. -/
def knownLimits : List PacketLimit := [⟨5, 10⟩, ⟨20, 40⟩, ⟨2, 4⟩]

/-- A rule whose texts the check knows. -/
def EndpointRule.Printable : EndpointRule → Prop
  | .udpNew limit => limit = ⟨200, 400⟩
  | .limited _ set limit =>
    isEndpointSet set = true ∧ tidy ('@' :: set) = true ∧ limit ∈ knownLimits
  | .drop _ set => isEndpointSet set = true ∧ tidy ('@' :: set) = true
  | .accept => True

theorem EndpointRule.Printable.flat {rl : EndpointRule} (h : rl.Printable) :
    (Line.mk it rl.words).Flat r := by
  cases rl with
  | udpNew limit =>
    have hl : limit = ⟨200, 400⟩ := h
    subst hl
    exact flat_fixed (by decide) (by decide +kernel)
  | limited family set limit =>
    obtain ⟨hs, ht, hl⟩ := h
    have hw : ∀ limit ∈ knownLimits, (limit.words ++ counterDrop).all tidy = true ∧
        allowedDrop (limit.words ++ counterDrop) = true := by decide
    rw [EndpointRule.words, append_assoc]
    exact flat_action family hs ht (hw limit hl).1 (hw limit hl).2
  | drop family set => exact flat_action family h.1 h.2 (by decide) (by decide +kernel)
  | accept => exact flat_fixed (by decide) (by decide +kernel)

theorem Chain.lines_accepted {c : Chain} (hn : isEndpointChain c.name = true)
    (ht : tidy c.name = true) (hr : ∀ rl ∈ c.rules, rl.Printable) :
    (∀ line ∈ c.lines, line.Accepted r) ∧ Balanced c.lines := by
  have hfr : ∀ w ∈ ["chain".toList, c.name], tidy w = true := tidy_pair (by decide) ht
  have hf : (Line.mk 2 (["chain".toList, c.name] ++ ["\x7b".toList])).Accepted r := by
    refine accepted_pattern (by simp) (fun w hw => ?_) (by simp) (.inr (.inl ?_))
    · rcases mem_append.mp hw with hw | hw
      · exact braced_of_tidy (hfr w hw)
      · rw [mem_singleton.mp hw]
        exact braced_open
    · simp [managedChainDeclaration, hn]
  refine block_accepted hfr hf fun line hl => ?_
  obtain ⟨rl, hrl, rfl⟩ := mem_map.mp hl
  exact (hr rl hrl).flat

/-! ## Rules of the input chain -/

/-- A match whose texts the check knows. -/
structure SocketMatch.Printable (socket : SocketMatch) : Prop where
  family : socket.family = .ipv4 ∨ socket.family = .ipv6
  network : socket.network = .tcp ∨ socket.network = .udp
  source : ∀ text ∈ socket.source, isNetwork text = true
  destination : ∀ address ∈ socket.destination, isAddress address.text = true

theorem readAddressGroup_skip {d : Str} {a : Str → Bool} {k w : Str} {rs : List Str}
    (h : isIPKeyword k = false ∨ w ≠ d) :
    readAddressGroup d a (k :: w :: rs) = (none, k :: w :: rs) := by
  cases rs with
  | nil => rfl
  | cons value rs =>
    rw [readAddressGroup]
    rcases h with h | h
    · rw [h]
      rfl
    · rw [beq_false_of_ne h, Bool.and_false]
      rfl

/-- The words of a match up to its port. -/
def SocketMatch.portWords (socket : SocketMatch) : List Str :=
  ["meta".toList, "l4proto".toList, socket.network.text, socket.network.text, "dport".toList,
    decimal socket.port.toNat]

def SocketMatch.destinationWords (socket : SocketMatch) : List Str :=
  socket.destination.toList.flatMap fun address =>
    [familyKeyword socket.family, "daddr".toList, address.text]

def SocketMatch.sourceWords (socket : SocketMatch) : List Str :=
  socket.source.toList.flatMap fun source => [familyKeyword socket.family, "saddr".toList, source]

variable {s : SocketMatch} {t : List Str}

theorem readAddressGroup_destination (h : s.Printable) :
    readAddressGroup "daddr".toList isAddress (s.destinationWords ++ (s.portWords ++ t)) =
      (s.destination.map fun _ => familyKeyword s.family, s.portWords ++ t) := by
  rw [SocketMatch.destinationWords]
  cases hd : s.destination with
  | none => exact readAddressGroup_skip (.inl (by simp [isIPKeyword]))
  | some a =>
    have ha := h.destination a hd
    show readAddressGroup "daddr".toList isAddress (familyKeyword s.family ::
      "daddr".toList :: a.text :: (s.portWords ++ t)) = _
    rw [readAddressGroup, isIPKeyword_familyKeyword, ha]
    rfl

theorem readAddressGroup_source (h : s.Printable) : readAddressGroup "saddr".toList isNetwork
        (s.sourceWords ++ (s.destinationWords ++ (s.portWords ++ t))) =
      (s.source.map fun _ => familyKeyword s.family, s.destinationWords ++ (s.portWords ++ t)) := by
  rw [SocketMatch.sourceWords]
  cases hs : s.source with
  | none =>
    rw [SocketMatch.destinationWords]
    cases s.destination with
    | none => exact readAddressGroup_skip (.inl (by simp [isIPKeyword]))
    | some a => exact readAddressGroup_skip (.inr (by simp))
  | some source =>
    have hn := h.source source hs
    show readAddressGroup "saddr".toList isNetwork (familyKeyword s.family ::
      "saddr".toList :: source :: (s.destinationWords ++ (s.portWords ++ t))) = _
    rw [readAddressGroup, isIPKeyword_familyKeyword, hn]
    rfl

theorem readPort_portWords (h : s.Printable) : readPort (s.portWords ++ t) =
      some (s.network.text, s.network.text, t) := by
  have hp : isNumber 5 (decimal s.port.toNat) = true :=
    isNumber_decimal (by decide) (s.port.toNat_lt.trans (by decide))
  show (if (("meta".toList == "meta".toList) && ("l4proto".toList == "l4proto".toList) &&
    isProtocol s.network.text && isProtocol s.network.text &&
    ("dport".toList == "dport".toList) && isNumber 5 (decimal s.port.toNat)) = true then
      some (s.network.text, s.network.text, t) else none) = _
  rcases h.network with hn | hn <;> rw [hp, hn] <;> rfl

theorem SocketMatch.words_eq (s : SocketMatch) : s.words = ["meta".toList, "nfproto".toList,
      if s.family = .ipv4 then "ipv4".toList else "ipv6".toList] ++ s.sourceWords ++
        s.destinationWords ++ s.portWords := rfl

/-- The groups that the check finds in a rule of the input chain. -/
theorem allowedEndpointJump_words (h : s.Printable) :
    allowedEndpointJump (s.words ++ t) = (readAction (readExpires t).2).map fun jump =>
      ⟨if s.family = .ipv4 then "4".toList else "6".toList,
        s.source.map fun _ => familyKeyword s.family,
        s.destination.map fun _ => familyKeyword s.family,
        s.network.text, s.network.text, (readExpires t).1, jump⟩ := by
  have hf : (((if s.family = .ipv4 then "ipv4".toList else "ipv6".toList) ==
      "ipv4".toList) || ((if s.family = .ipv4 then "ipv4".toList else "ipv6".toList) ==
      "ipv6".toList)) = true := by
    split <;> simp
  have hd : (if s.family = .ipv4 then "ipv4".toList else "ipv6".toList).drop 3 =
      if s.family = .ipv4 then "4".toList else "6".toList := by
    split <;> rfl
  simp only [SocketMatch.words_eq, append_assoc, cons_append, nil_append,
    allowedEndpointJump, hf, BEq.rfl, Bool.and_self, if_true, readAddressGroup_source h,
    readAddressGroup_destination h, readPort_portWords h, hd]

theorem tidy_socket (h : s.Printable) : ∀ w ∈ s.words, tidy w = true := by
  have ha : ∀ a ∈ s.destination, tidy a.text = true := by
    intro a hm
    have hal := h.destination a hm
    simp only [isAddress, Bool.and_eq_true, Bool.not_eq_true', isEmpty_eq_false_iff,
      all_eq_true] at hal
    exact tidy_of_data hal.1 fun c hc => by simp [isDataChar, hal.2 c hc]
  have hn : tidy s.network.text = true := by
    rcases h.network with hn | hn <;> rw [hn] <;> exact tidy_known (by decide)
  have hp : tidy (decimal s.port.toNat ++ []) = true := tidy_decimal rfl
  rw [append_nil] at hp
  intro w hw
  simp only [SocketMatch.words, mem_append, mem_cons, not_mem_nil, or_false,
    mem_flatMap, Option.mem_toList] at hw
  rcases hw with (((rfl | rfl | rfl) | ⟨source, hs, hw⟩) | ⟨a, hd, hw⟩) |
    rfl | rfl | rfl | rfl | rfl | rfl
  · exact tidy_known (by decide)
  · exact tidy_known (by decide)
  · split <;> exact tidy_known (by decide)
  · rcases hw with rfl | rfl | rfl
    · exact tidy_familyKeyword _
    · exact tidy_known (by decide)
    · exact tidy_network (h.source _ hs)
  · rcases hw with rfl | rfl | rfl
    · exact tidy_familyKeyword _
    · exact tidy_known (by decide)
    · exact ha a hd
  · exact tidy_known (by decide)
  · exact tidy_known (by decide)
  · exact hn
  · exact hn
  · exact tidy_known (by decide)
  · exact hp

/-- A rule on a socket is flat when its end is read, and its deadline is in range. -/
theorem flat_socket (h : s.Printable) (ht : ∀ w ∈ t, tidy w = true) {j : Bool}
    (ha : readAction (readExpires t).2 = some j) (he : ∀ text ∈ (readExpires t).1, j = false ∧
      ∃ n, readDecimal text = some n ∧ 0 < n ∧ n ≤ 253402300799) :
    (Line.mk it (s.words ++ t)).Flat r := by
  have htd : ∀ w ∈ s.words ++ t, tidy w = true := by
    intro w hw
    rcases mem_append.mp hw with hw | hw
    · exact tidy_socket h w hw
    · exact ht w hw
  have hb : ∀ w ∈ (Line.mk it (s.words ++ t)).words, braced w = true :=
    fun w hw => braced_of_tidy (htd w hw)
  have hne : s.words ++ t ≠ [] := by simp [SocketMatch.words]
  refine ⟨⟨hne, hb, ?_⟩, opened_tidy htd⟩
  have hwr : words (unwords (s.words ++ t)) = s.words ++ t :=
    words_unwords hne fun w hw => braced_isWord (hb w hw)
  rw [checkLine, Line.trimSpace_text hb, hwr, allowedEndpointJump_words h, ha]
  refine if_neg ?_
  have hdl : ((readExpires t).1.any fun text => j || decide ((readDecimal text).getD 0 ≤ 0) ||
      decide (253402300799 < (readDecimal text).getD 0)) = false := by
    rw [Option.any_eq_false]
    intro text htx
    obtain ⟨hj, n, hn, hp, hm⟩ := he text htx
    simp [hj, hn]
    omega
  rw [EndpointLine.conflated, hdl, bne_self_eq_false]
  rcases h.family with hf | hf <;>
    cases s.source <;> cases s.destination <;>
      simp [hf, familyKeyword]

theorem readAction_accept : readAction counterAccept = some false := by rfl

theorem tidy_counterAccept : ∀ w ∈ counterAccept, tidy w = true := by
  intro w hw
  simp only [counterAccept, mem_cons, not_mem_nil, or_false] at hw
  rcases hw with rfl | rfl <;> exact tidy_known (by decide)

/-- An exemption's rule, with or without a deadline. -/
theorem flat_exempt (h : s.Printable) {d : Option ℤ} (hdl : ∀ i ∈ d, 0 < i ∧ i ≤ 253402300799) :
    (Line.mk it (InputRule.exempt s d).words).Flat r := by
  rw [InputRule.words, append_assoc]
  cases d with
  | none =>
    refine flat_socket h tidy_counterAccept readAction_accept fun text htx => ?_
    cases htx
  | some i =>
    obtain ⟨hps, hm⟩ := hdl i rfl
    obtain ⟨n, rfl⟩ := Int.eq_ofNat_of_zero_le hps.le
    have hp : isPositive 12 (decimal n) = true :=
      isPositive_decimal (by decide) (by omega) (by omega)
    have htd : tidy (decimal n ++ []) = true := tidy_decimal rfl
    rw [append_nil] at htd
    have ht : (some (n : ℤ)).toList.flatMap (fun i =>
        ["meta".toList, "time".toList, "<".toList, integer i]) ++ counterAccept =
        "meta".toList :: "time".toList :: "<".toList :: decimal n :: counterAccept := rfl
    have he : readExpires ("meta".toList :: "time".toList :: "<".toList :: decimal n ::
        counterAccept) = (some (decimal n), counterAccept) := by
      rw [readExpires, hp]
      rfl
    rw [ht]
    refine flat_socket h (fun w hw => ?_) (by rw [he, readAction_accept]) fun text htx => ?_
    · simp only [mem_cons] at hw
      rcases hw with rfl | rfl | rfl | rfl | hw
      · exact tidy_known (by decide)
      · exact tidy_known (by decide)
      · exact tidy_known (by decide)
      · exact htd
      · exact tidy_counterAccept w hw
    · rw [he] at htx
      cases htx
      exact ⟨rfl, n, readDecimal_decimal n, by omega, by omega⟩

theorem flat_jump (h : s.Printable) {c : Str} (hc : isEndpointChain c = true)
    (htd : tidy c = true) :
    (Line.mk it (InputRule.jump s c).words).Flat r := by
  have ha : readAction ["jump".toList, c] = some true := by
    rw [readAction, hc]
    rfl
  exact flat_socket h (tidy_pair (by decide) htd) ha nofun

end

/-! ## Compiled plans -/

theorem endpointMatch_printable {k : PublicEndpointKey} {s : Option Str} {sc : SocketMatch}
    (hk : validEndpoint k = true) (hs : ∀ text ∈ s, validSource k text = true)
    (h : endpointMatch k s = some sc) : sc.Printable := by
  obtain ⟨hn, hf, -⟩ := validEndpoint_fields hk
  have hnt : ∀ text ∈ s, isNetwork text = true := by
    intro text ht
    have hv := hs text ht
    rw [validSource] at hv
    split at hv
    · next p hp =>
      obtain ⟨hne, hal⟩ := readCanonical_all hp
      simp only [isNetwork, Bool.and_eq_true, Bool.not_eq_true', isEmpty_eq_false_iff, all_eq_true]
      exact ⟨hne, hal⟩
    · cases hv
  simp only [endpointMatch] at h
  split at h
  · cases h
  split at h
  · cases h
  split at h
  · cases h
    exact ⟨hf, hn, hnt, by simp⟩
  next hw =>
    split at h
    · next address had =>
      split at h
      · cases h
        refine ⟨hf, hn, hnt, ?_⟩
        intro a ha
        cases ha
        have hz : '%' ∉ (normalizeListen k.bindAddress).value := by
          simp only [validEndpoint, had] at hk
          split at hk
          · cases hk
          · rw [Bool.and_eq_true, decide_eq_true_eq] at hk
            exact hk.1
        have hal := Addr.text_all (readAddr_zone had hz)
        simp only [isAddress, hal, Bool.and_true, Bool.not_eq_true', isEmpty_eq_false_iff]
        exact Addr.text_ne_nil address
      · cases h
    · cases h

theorem validLimits_bounds {ls : ProtectionLimits} {rs : ProtectionRates}
    (h : validLimits ls rs = true) :
    (1 ≤ ls.maxElements ∧ ls.maxElements ≤ 4096) ∧
      (1 ≤ ls.defaultTTLSeconds ∧ ls.defaultTTLSeconds ≤ 86400) ∧
      ls.maxTTLSeconds ≤ 86400 ∧
      rs.gray ∈ knownLimits ∧ rs.rate ∈ knownLimits ∧ rs.quarantine ∈ knownLimits := by
  simp only [validLimits, Bool.and_eq_true, decide_eq_true_eq, beq_iff_eq] at h
  obtain ⟨⟨⟨⟨⟨⟨⟨hl, hh⟩, hd⟩, hm⟩, ho⟩, hg⟩, hr⟩, hq⟩ := h
  rw [hg, hr, hq]
  exact ⟨⟨hl, hh⟩, ⟨hd, ho.trans hm⟩, hm, by decide, by decide, by decide⟩

/-- No element is rendered with a date: there is no observation time, or by then every
contribution has expired. -/
def Undated (plan : ProtectionEnforcementIntent) (at_ : Option ℤ) : Prop :=
  at_ = none ∨ ∀ endpoint ∈ plan.endpoints, activeAt at_ endpoint.contributions = []

section

variable {pl : ProtectionEnforcementIntent} (hplan : Compiled pl)
include hplan

variable {en : ProtectionEndpoint} {a : Option ℤ}

theorem Compiled.element_printable (hm : en ∈ pl.endpoints) (hat : Undated pl a) {k : SetClass}
    {s : TimedSource} (hsr : s ∈ endpointElements pl.limits en.key
      (activeAt a en.contributions) k) : (elementAt a s).Printable := by
  have hv := (hplan.endpoints en hm).contributions
  have hpr := endpointElements_perm k (hplan.family hm) fun s hsr => hv s (activeAt_subset a _ hsr)
  have hac := mem_of_mem_filter (hpr.mem_iff.mp hsr)
  have hc := hv s (activeAt_subset a _ hac)
  simp only [validContribution, Bool.and_eq_true, decide_eq_true_eq, validSource] at hc
  obtain ⟨⟨⟨⟨hs, -⟩, hl⟩, hh⟩, -⟩ := hc
  split at hs
  · next p hp =>
    obtain ⟨hne, ha⟩ := readCanonical_all hp
    refine ⟨?_, hl, hh.trans (validLimits_bounds hplan.limits).2.2.1, ?_⟩
    · simp only [isNetwork, Bool.and_eq_true, Bool.not_eq_true', isEmpty_eq_false_iff, all_eq_true]
      exact ⟨hne, ha⟩
    · rcases hat with rfl | he
      · rfl
      · rw [he en hm] at hac
        cases hac
  · cases hs

theorem Compiled.set_printable (hm : en ∈ pl.endpoints) (hat : Undated pl a) {st : SetDecl}
    (hst : st ∈ endpointSets pl.limits a en) : st.Printable := by
  obtain ⟨k, hk, rfl⟩ := mem_map.mp hst
  obtain ⟨hn, ht, -⟩ := endpointSetName_known (hplan.endpoints en hm).revision
    (mem_of_mem_filter hk)
  obtain ⟨hs, htm, -⟩ := validLimits_bounds hplan.limits
  refine ⟨hn, ht, hs, htm, fun element he => ?_⟩
  obtain ⟨source, hsr, rfl⟩ := mem_map.mp he
  exact hplan.element_printable hm hat hsr

theorem Compiled.classRule_printable (hmm : en ∈ pl.endpoints) {k : SetClass} (hk : k ∈ setClasses)
    {m : Family → Str → EndpointRule}
    (hm : ∀ family set, isEndpointSet set = true → tidy ('@' :: set) = true →
      (m family set).Printable) {rl : EndpointRule} (hr : rl ∈ classRule pl.limits en k m) :
    rl.Printable := by
  obtain ⟨hn, -, ht⟩ := endpointSetName_known (hplan.endpoints en hmm).revision hk
  rw [classRule] at hr
  split at hr
  · cases hr
  · rw [mem_singleton.mp hr]
    exact hm _ _ hn ht

theorem Compiled.rule_printable (hm : en ∈ pl.endpoints) {rl : EndpointRule}
    (hrl : rl ∈ (endpointChain pl.limits pl.rates en).rules) :
    rl.Printable := by
  obtain ⟨-, -, -, hg, hr, hq⟩ := validLimits_bounds hplan.limits
  simp only [endpointChain, mem_append, mem_map, Option.mem_toList, mem_singleton] at hrl
  rcases hrl with ((((⟨limit, hl, rfl⟩ | hrl) | hrl) | hrl) | hrl) | rfl
  · exact (hplan.endpoints en hm).udpNew limit hl
  · refine hplan.classRule_printable hm (by decide) ?_ hrl
    exact fun _ _ hn ht => ⟨hn, ht, hg⟩
  · refine hplan.classRule_printable hm (by decide) ?_ hrl
    exact fun _ _ hn ht => ⟨hn, ht, hr⟩
  · refine hplan.classRule_printable hm (by decide) ?_ hrl
    exact fun _ _ hn ht => ⟨hn, ht, hq⟩
  · refine hplan.classRule_printable hm (by decide) ?_ hrl
    exact fun _ _ hn ht => ⟨hn, ht⟩
  · trivial

theorem Compiled.input_flat {rv : Str} {m : Bool} {ie : ℕ} (hd : ∀ e ∈ pl.managementExemptions,
      e.recoveryPathID ≠ trustedSource → e.expiresAt ≤ 253402300799) {rl : InputRule}
    (hr : rl ∈ (renderEndpointManaged pl m a).input) :
    (Line.mk ie rl.words).Flat rv := by
  simp only [renderEndpointManaged, mem_append, mem_filterMap, mem_cons,
    not_mem_nil, or_false] at hr
  rcases hr with (⟨e, hm, hr⟩ | rfl | rfl) | ⟨en, hm, hr⟩
  · have hv := hplan.exemptions e hm
    simp only [validExemption, Bool.and_eq_true, decide_eq_true_eq] at hv
    obtain ⟨⟨hk, hs⟩, he⟩ := hv
    obtain ⟨socket, hsc, rfl⟩ := Option.map_eq_some_iff.mp hr
    refine flat_exempt (endpointMatch_printable hk (fun text htx => ?_) hsc) fun i hin => ?_
    · split at htx
      · cases htx
      · cases htx
        exact hs
    · split at hin
      · cases hin
      next ht =>
        cases hin
        exact ⟨he.resolve_left ht, hd e hm ht⟩
  · exact flat_fixed (by decide) (by decide +kernel)
  · exact flat_fixed (by decide) (by decide +kernel)
  · obtain ⟨socket, hsc, rfl⟩ := Option.map_eq_some_iff.mp hr
    have hv := hplan.endpoints en hm
    obtain ⟨hc, htd⟩ := endpointChainName_known hv.revision
    exact flat_jump (endpointMatch_printable hv.key (by simp) hsc) hc htd

end

end Solovey.Network
