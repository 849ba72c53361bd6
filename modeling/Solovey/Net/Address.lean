import Solovey.Net.Prefix
import Solovey.Text.Strings

/-!
# Addresses and prefixes as texts

Addresses of both families with the texts a network library reads and prints: dotted decimal for
IPv4, and for IPv6 groups of hexadecimal digits without the first longest run of at least two zero
groups. An IPv6 address that embeds an IPv4 address is printed with its dotted form.
-/

namespace Solovey.Net

open Solovey.Text List

abbrev IPv6 := BitVec 128

/-- An IPv6 address may have a zone; the empty one stands for none. -/
inductive Addr
  | v4 (bits : IPv4)
  | v6 (bits : IPv6) (zone : Str)
  deriving DecidableEq

def Addr.is4 : Addr → Bool
  | .v4 _ => true
  | .v6 _ _ => false

def Addr.zone : Addr → Str
  | .v4 _ => []
  | .v6 _ zone => zone

/-- The number of bits of the family. -/
def Addr.width : Addr → ℕ
  | .v4 _ => 32
  | .v6 _ _ => 128

/-! ## Printing -/

def octets (a : IPv4) : List ℕ := [24, 16, 8, 0].map fun shift => a.toNat / 2 ^ shift % 256

def dotted (a : IPv4) : Str := ['.'].intercalate ((octets a).map decimal)

/-- The eight groups of sixteen bits. -/
def groups (a : IPv6) : List ℕ :=
  [112, 96, 80, 64, 48, 32, 16, 0].map fun shift => a.toNat / 2 ^ shift % 65536

def hex (n : ℕ) : Str := Nat.toDigits 16 n

/-- The first longest run of at least two zeros: where it starts and where it ends. -/
def zeroRun (gs : List ℕ) : Option (ℕ × ℕ) :=
  (List.range gs.length).foldl (fun best i =>
    let length := ((gs.drop i).takeWhile (· == 0)).length
    if 2 ≤ length ∧ (best.map fun run => run.2 - run.1).getD 0 < length then some (i, i + length)
    else best) none

def grouped (gs : List ℕ) : Str := [':'].intercalate (gs.map hex)

/-- The IPv4 address that an IPv6 address embeds. -/
def embedded (a : IPv6) : Option IPv4 :=
  if a.toNat / 2 ^ 32 = 0xffff then some (a.setWidth 32) else none

/-- The longest run of zero groups is left out. -/
def coloned (a : IPv6) : Str :=
  match embedded a with
  | some b => "::ffff:".toList ++ dotted b
  | none =>
    match zeroRun (groups a) with
    | some (first, last) =>
      grouped ((groups a).take first) ++ "::".toList ++ grouped ((groups a).drop last)
    | none => grouped (groups a)

def Addr.text : Addr → Str
  | .v4 a => dotted a
  | .v6 a [] => coloned a
  | .v6 a zone => coloned a ++ '%' :: zone

/-- An embedded IPv4 address taken out. -/
def Addr.unmap : Addr → Addr
  | .v4 a => .v4 a
  | .v6 a zone =>
    match embedded a with
    | some b => .v4 b
    | none => .v6 a zone

/-- In `127.0.0.0/8`, or `::1`. -/
def Addr.isLoopback : Addr → Bool
  | .v4 a => a.toNat / 2 ^ 24 == 127
  | .v6 a _ => a == 1#128

/-! ## Reading -/

/-- At most 255, without leading zeros. -/
def readOctet (s : Str) : Option ℕ :=
  match readDecimal s with
  | some n => if n ≤ 255 ∧ (s.length = 1 ∨ s.head? ≠ some '0') then some n else none
  | none => none

def readIPv4 (s : Str) : Option IPv4 :=
  match (s.splitOn '.').mapM readOctet with
  | some [a, b, c, d] => some (.ofNat 32 (((a * 256 + b) * 256 + c) * 256 + d))
  | _ => none

def isHexDigit (c : Char) : Bool :=
  c.isDigit || ('a' ≤ c && c ≤ 'f') || ('A' ≤ c && c ≤ 'F')

def hexValue (c : Char) : ℕ :=
  if c.isDigit then c.toNat - 48 else if 'a' ≤ c then c.toNat - 87 else c.toNat - 55

/-- The groups of an IPv6 text, with the place of the left-out zeros and the unread rest. The bound
is the number of groups still missing. -/
def readGroups : ℕ → Option ℕ → List ℕ → Str → Option (Option ℕ × List ℕ × Str)
  | 0, gap, gs, s => some (gap, gs, s)
  | n + 1, gap, gs, s =>
    let digits := s.takeWhile isHexDigit
    let value := digits.foldl (fun v c => 16 * v + hexValue c) 0
    if digits.isEmpty || 4 < digits.length then none
    else
      match s.dropWhile isHexDigit with
      | [] => some (gap, gs ++ [value], [])
      | '.' :: _ =>
        if gap.isNone && gs.length != 6 || 8 < gs.length + 2 then none
        else
          match readIPv4 s with
          | none => none
          | some a => some (gap, gs ++ [a.toNat / 65536, a.toNat % 65536], [])
      | [':'] => none
      | ':' :: ':' :: rest =>
        if gap.isSome then none
        else if rest.isEmpty then some (some (gs.length + 1), gs ++ [value], [])
        else readGroups n (some (gs.length + 1)) (gs ++ [value]) rest
      | ':' :: rest => readGroups n gap (gs ++ [value]) rest
      | _ => none

def ofGroups (gs : List ℕ) : IPv6 := .ofNat 128 (gs.foldl (fun v g => v * 65536 + g) 0)

/-- An IPv6 text without a zone: eight groups, or fewer with a `::`. -/
def readIPv6Digits (s : Str) : Option IPv6 :=
  if s = "::".toList then some 0
  else
    let start := if "::".toList.isPrefixOf s then (some 0, s.drop 2) else (none, s)
    match readGroups 8 start.1 [] start.2 with
    | some (gap, gs, []) =>
      match gap with
      | some i =>
        if gs.length < 8 then
          some (ofGroups (gs.take i ++ List.replicate (8 - gs.length) 0 ++ gs.drop i))
        else none
      | none => if gs.length = 8 then some (ofGroups gs) else none
    | _ => none

/-- A zone that is started must not be empty. -/
def readIPv6 (s : Str) : Option Addr :=
  match s.dropWhile (· != '%') with
  | [] => (readIPv6Digits s).map (.v6 · [])
  | ['%'] => none
  | _ :: zone => (readIPv6Digits (s.takeWhile (· != '%'))).map (.v6 · zone)

/-- The first separator decides the family. -/
def readAddr (s : Str) : Option Addr :=
  match s.find? (fun c => c == '.' || c == ':' || c == '%') with
  | some '.' => (readIPv4 s).map .v4
  | some ':' => readIPv6 s
  | _ => none

/-! ## Prefixes of either family -/

/-- An address of either family and the length of its network. -/
structure IPPrefix where
  addr : Addr
  bits : ℕ
  deriving DecidableEq

namespace IPPrefix

def text (p : IPPrefix) : Str := p.addr.text ++ '/' :: decimal p.bits

/-- The host bits cleared, and the zone dropped. -/
def masked (p : IPPrefix) : IPPrefix :=
  match p.addr with
  | .v4 a => { p with addr := .v4 (Prefix.mk a p.bits).masked.addr }
  | .v6 a _ => { p with addr := .v6 (Prefix.mk a p.bits).masked.addr [] }

/-- An address of the other family, or with a zone, is in no prefix. -/
def contains (p : IPPrefix) (a : Addr) : Bool :=
  match p.addr, a with
  | .v4 base, .v4 a => (Prefix.mk base p.bits).contains a
  | .v6 base _, .v6 a zone => zone.isEmpty && (Prefix.mk base p.bits).contains a
  | _, _ => false

end IPPrefix

def readPrefix (s : Str) : Option IPPrefix :=
  if '/' ∈ s then
    let bitsText := s.rtakeWhile (· != '/')
    match readAddr (s.take (s.length - bitsText.length - 1)), readDecimal bitsText with
    | some addr, some bits =>
      if addr.zone = [] ∧ bits ≤ addr.width ∧
          (bitsText.length ≤ 1 ∨ bitsText.head? ≠ some '0') then
        some ⟨addr, bits⟩
      else none
    | _, _ => none
  else none

/-- The prefix that a text writes in its one canonical form. -/
def readCanonical (s : Str) : Option IPPrefix :=
  match readPrefix s with
  | some p => if p.masked.text = s then some p else none
  | none => none

example : readCanonical "10.1.0.0/16".toList = some ⟨.v4 0x0a010000, 16⟩ := by decide

example : (readAddr "2001:DB8::1:0:0:9".toList).map Addr.text =
    some "2001:db8::1:0:0:9".toList := by decide

/-! ## The characters of a printed address -/

/-- Lower-case hexadecimal digits and the separators of addresses. -/
def isAddressChar (c : Char) : Bool :=
  c.isDigit || ('a' ≤ c && c ≤ 'f') || c == ':' || c == '.'

theorem isAddressChar_lt {c : Char} (h : isAddressChar c = true) : c.toNat < 128 := by
  simp only [isAddressChar, Char.isDigit, Bool.or_eq_true, Bool.and_eq_true, decide_eq_true_eq,
    beq_iff_eq, Char.le_def, UInt32.le_iff_toNat_le, ge_iff_le] at h
  rcases h with ((⟨-, h⟩ | ⟨-, h⟩) | rfl) | rfl
  · exact lt_of_le_of_lt h (by decide)
  · exact lt_of_le_of_lt h (by decide)
  · decide
  · decide

theorem isAddressChar_of_isDigit {c : Char} (h : c.isDigit = true) : isAddressChar c = true := by
  simp [isAddressChar, h]

theorem dotted_all (a : IPv4) : (dotted a).all isAddressChar = true := by
  refine all_intercalate (by decide) fun p hp => ?_
  obtain ⟨n, -, rfl⟩ := mem_map.mp hp
  rw [all_eq_true]
  exact fun c hc => isAddressChar_of_isDigit (all_eq_true.mp (decimal_all n) c hc)

theorem isAddressChar_digitChar : ∀ n < 16, isAddressChar (Nat.digitChar n) = true := by decide

theorem hex_all (n : ℕ) : (hex n).all isAddressChar = true := by
  induction n using Nat.strongRecOn with
  | ind n ih =>
    rw [hex, Nat.toDigits_eq_if (by decide)]
    split
    · next hlt => simp [isAddressChar_digitChar n hlt]
    · next hge =>
      rw [all_append, ← hex, ih (n / 16) (Nat.div_lt_self (by omega) (by decide))]
      simp [isAddressChar_digitChar (n % 16) (Nat.mod_lt _ (by decide))]

theorem grouped_all (gs : List ℕ) : (grouped gs).all isAddressChar = true := by
  refine all_intercalate (by decide) fun p hp => ?_
  obtain ⟨n, -, rfl⟩ := mem_map.mp hp
  exact hex_all n

theorem coloned_all (a : IPv6) : (coloned a).all isAddressChar = true := by
  rw [coloned]
  split
  · rw [all_append, dotted_all]
    decide
  · split
    · rw [all_append, all_append, grouped_all, grouped_all]
      decide
    · exact grouped_all _

theorem Addr.text_all {a : Addr} (h : a.zone = []) : a.text.all isAddressChar = true := by
  cases a with
  | v4 a => exact dotted_all a
  | v6 a zone =>
    rw [Addr.zone] at h
    subst h
    exact coloned_all a

theorem intercalate_ne_nil {s p : Str} (ps : List Str) (h : p ≠ []) :
    s.intercalate (p :: ps) ≠ [] := by
  cases ps with
  | nil => simpa [List.intercalate] using h
  | cons second rest => rw [intercalate_cons_cons]; simp [h]

theorem Addr.text_ne_nil (a : Addr) : a.text ≠ [] := by
  have hc : ∀ a : IPv6, coloned a ≠ [] := by
    intro a
    rw [coloned]
    split
    · simp
    · split
      · simp
      · exact intercalate_ne_nil _ Nat.toDigits_ne_nil
  cases a with
  | v4 a => exact intercalate_ne_nil _ (decimal_ne_nil _)
  | v6 a zone =>
    cases zone with
    | nil => exact hc a
    | cons c zone => simp [Addr.text]

theorem IPPrefix.masked_zone (p : IPPrefix) : p.masked.addr.zone = [] := by
  rw [IPPrefix.masked]
  split <;> rfl

theorem readCanonical_all {s : Str} {p : IPPrefix} (h : readCanonical s = some p) :
    s ≠ [] ∧ ∀ c ∈ s, (isAddressChar c || c == '/') = true := by
  simp only [readCanonical] at h
  split at h
  · split at h
    · next q _ hs =>
      subst hs
      refine ⟨by simp [IPPrefix.text], fun c hc => ?_⟩
      rw [IPPrefix.text, mem_append, mem_cons] at hc
      rcases hc with hc | rfl | hc
      · simp [all_eq_true.mp (Addr.text_all q.masked_zone) c hc]
      · rfl
      · simp [isAddressChar_of_isDigit (all_eq_true.mp (decimal_all _) c hc)]
    · cases h
  · cases h

theorem readAddr_zone {s : Str} {a : Addr} (h : readAddr s = some a) (hz : '%' ∉ s) :
    a.zone = [] := by
  simp only [readAddr] at h
  split at h
  · obtain ⟨b, -, rfl⟩ := Option.map_eq_some_iff.mp h
    rfl
  · have hn : s.dropWhile (· != '%') = [] := dropWhile_eq_nil_iff.mpr fun c hc => by
        simpa using fun heq : c = '%' => hz (heq ▸ hc)
    rw [readIPv6, hn] at h
    obtain ⟨b, -, rfl⟩ := Option.map_eq_some_iff.mp h
    rfl
  · cases h

end Solovey.Net
