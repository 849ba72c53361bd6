import Solovey.Text.Strings

/-!
# Tags of remote outbounds

`components/remote-outbound-subscriptions/domain/tagging.go` and `normalization.go`: a connection
gets a tag that no outbound has, made from the prefix of the subscription and the name of the
connection; while it is taken, a number is put behind it. The number is put there before the tag is
cut to its length, so that a long tag loses it again.
-/

namespace Solovey.RemoteOutbound

open Solovey.Text List

/-! ## Making a tag -/

/-- `strings.Trim`: both ends without the characters of a set. -/
def trimSet (set : Char → Bool) (s : Str) : Str := (s.dropWhile set).rdropWhile set

/-- The loop of `SanitizeTagText`; the flag says that the last rune was a dash. -/
def sanitizeRunes : Bool → Str → Str
  | _, [] => []
  | lastWasDash, r :: rest =>
    if isControl r then sanitizeRunes lastWasDash rest
    else if isSpace r then
      if lastWasDash then sanitizeRunes true rest else '-' :: sanitizeRunes true rest
    else r :: sanitizeRunes (r == '-') rest

def sanitizeTagText (value : Str) : Str := trimSet (· == '-') (sanitizeRunes false (trimSpace value))

def maxTagLength : ℕ := 96

/-- What a tag that is cut does not end with. -/
def trailing (r : Char) : Bool := r == '-' || r == '_' || r == '.' || isSpace r

def trimTag (value : Str) : Str :=
  let value := trimSpace value
  if value.length ≤ maxTagLength then value else (value.take maxTagLength).rdropWhile trailing

def separator (r : Char) : Bool := "-_. ".toList.contains r

def sanitizeTagPart (value : Str) : Str :=
  let value := trimSet separator (sanitizeTagText value)
  if value = [] then "connection".toList else value

def sanitizeTagPrefix (value : Str) : Str :=
  let value := trimSet separator (sanitizeTagText value)
  if value = [] then []
  else trimTag (if value.getLast?.any ("-_.".toList.contains ·) then value else value ++ ['-'])

def defaultTagPrefix (name : Str) (id : ℕ) : Str :=
  let id := if id ≠ 0 then decimal id else "\x7bid\x7d".toList
  "ros".toList ++ id ++ '-' :: sanitizeTagPart name ++ ['-']

structure Subscription where
  id : ℕ
  name : Str
  tagPrefix : Str
  deriving DecidableEq, Repr

/-- The first tag that is tried. -/
def tagBase (subscription : Subscription) (name : Str) : Str :=
  let start := sanitizeTagPrefix subscription.tagPrefix
  let start := if start = [] then defaultTagPrefix subscription.name subscription.id else start
  trimTag (start ++ sanitizeTagPart name)

def candidate (base : Str) (index : ℕ) : Str :=
  if index = 0 then base else trimTag (base ++ '-' :: decimal (index + 1))

/-! ## Finding a free one -/

structure Outbound where
  id : ℕ
  tag : Str
  remoteMissing : Bool

structure Connection where
  id : ℕ
  outboundTag : Str
  outboundId : Option ℕ

structure Tables where
  outbounds : List Outbound
  connections : List Connection

def reusableRemoteMissingOutboundID (db : Tables) (tag : Str) : ℕ :=
  match db.outbounds.find? fun outbound => outbound.tag == tag && outbound.remoteMissing with
  | none => 0
  | some outbound =>
    if db.connections.any fun c => c.outboundId == some outbound.id || c.outboundTag == tag then 0
    else outbound.id

def outboundTagAvailable (db : Tables) (tag : Str) (connectionID : ℕ) : Bool :=
  if db.outbounds.any (·.tag == tag) then
    if connectionID = 0 then reusableRemoteMissingOutboundID db tag != 0
    else db.connections.any fun c => c.outboundTag == tag && c.id == connectionID
  else !db.connections.any fun c => c.outboundTag == tag && (connectionID == 0 || c.id != connectionID)

/-- The tags that `UniqueOutboundTag` tries, in order. -/
def candidates (subscription : Subscription) (name : Str) : List Str :=
  (List.range 1000).map (candidate (tagBase subscription name))

def uniqueOutboundTag (db : Tables) (subscription : Subscription) (name : Str) (connectionID : ℕ) :
    Option Str :=
  (candidates subscription name).find? (outboundTagAvailable db · connectionID)

/-- The tags in use. -/
def Tables.tags (db : Tables) : List Str :=
  db.outbounds.map (·.tag) ++ db.connections.map (·.outboundTag)

/-! ## Tags and their length -/

variable {s base : Str} {index : ℕ}

theorem length_trimTag_le (s : Str) : (trimTag s).length ≤ maxTagLength := by
  simp only [trimTag]
  split
  next hle => exact hle
  · exact (List.rdropWhile_prefix _ _).length_le.trans (length_take_le _ _)

theorem trimTag_starts (s : Str) : trimTag s <+: s.dropWhile isSpace := by
  have ht : trimSpace s <+: s.dropWhile isSpace := List.rdropWhile_prefix _ _
  simp only [trimTag]
  split
  · exact ht
  · exact ((List.rdropWhile_prefix _ _).trans (List.take_prefix _ _)).trans ht

theorem isSpace_isDigit {c : Char} (h : c.isDigit = true) : isSpace c = false := by
  obtain ⟨hl, hh⟩ : 48 ≤ c.toNat ∧ c.toNat ≤ 57 := Char.isDigit_iff_toNat.mp h
  exact isSpace_visible (by omega) (by omega)

/-- A numbered tag has no white space at its ends. -/
theorem trimSpace_numbered (hb : trimTag s = base) (n : ℕ) :
    trimSpace (base ++ '-' :: decimal n) = base ++ '-' :: decimal n := by
  refine trimSpace_of_ends (fun c hc => ?_) fun c hc => ?_
  · cases base with
    | nil =>
      cases hc
      decide
    | cons d rest =>
      cases hc
      exact head?_dropWhile_isSpace (trimTag_starts s) c (by simp [hb])
  · rw [getLast?_append_of_ne_nil _ (cons_ne_nil _ _),
      getLast?_cons_of_ne_nil (decimal_ne_nil n)] at hc
    exact isSpace_isDigit (all_eq_true.mp (decimal_all n) c (mem_of_getLast? hc))

/-- A tag with room for every number keeps the number. -/
theorem candidate_eq (hb : trimTag s = base) (hl : base.length ≤ 91) (hp : index ≠ 0)
    (hlt : index < 1000) : candidate base index = base ++ '-' :: decimal (index + 1) := by
  have hd : (decimal (index + 1)).length ≤ 4 := decimal_length (by decide) (by omega)
  rw [candidate, if_neg hp, trimTag, trimSpace_numbered hb, if_pos]
  simp only [length_append, length_cons, maxTagLength]
  omega

theorem candidates_injective (hb : trimTag s = base) (hl : base.length ≤ 91) {i j : ℕ}
    (hi : i < 1000) (hj : j < 1000) (h : candidate base i = candidate base j) : i = j := by
  have hne : ∀ {k}, k ≠ 0 → k < 1000 → candidate base k ≠ base := by
    intro k hk hlt heq
    rw [candidate_eq hb hl hk hlt] at heq
    simpa using congrArg List.length heq
  by_cases hi0 : i = 0 <;> by_cases hj0 : j = 0
  · rw [hi0, hj0]
  · subst hi0
    exact absurd h.symm (hne hj0 hj)
  · subst hj0
    exact absurd h (hne hi0 hi)
  · rw [candidate_eq hb hl hi0 hi, candidate_eq hb hl hj0 hj, append_cancel_left_eq,
      List.cons.injEq] at h
    have hr := congrArg readDecimal h.2
    rw [readDecimal_decimal, readDecimal_decimal, Option.some.injEq] at hr
    omega

/-- A longer tag loses the last digit of 1000. -/
theorem candidate_collides (hb : trimTag s = base) (hln : 91 < base.length) :
    candidate base 99 = candidate base 999 := by
  have hs : decimal (99 + 1) = ['1', '0', '0'] := rfl
  have hl : decimal (999 + 1) = ['1', '0', '0'] ++ ['0'] := rfl
  have ht : (base ++ '-' :: decimal (999 + 1)).take maxTagLength =
      (base ++ '-' :: decimal (99 + 1)).take maxTagLength := by
    rw [hl, ← cons_append, ← append_assoc, hs, take_append_of_le_length]
    simp only [length_append, length_cons, length_nil, maxTagLength]
    omega
  have hc : ¬ (base ++ '-' :: decimal (999 + 1)).length ≤ maxTagLength := by
    rw [hl]
    simp only [length_append, length_cons, length_nil, maxTagLength]
    omega
  simp only [candidate, trimTag, trimSpace_numbered hb, if_neg hc, ht, OfNat.ofNat_ne_zero,
    if_false]
  split
  next hle =>
    rw [take_of_length_le hle, hs]
    have he : base ++ '-' :: ['1', '0', '0'] = base ++ ['-', '1', '0'] ++ ['0'] := by simp
    rw [he, rdropWhile_concat_neg _ _ _ (by decide)]
  · rfl

/-! ## Allocation -/

variable {db : Tables} {connectionID : ℕ}

theorem available_of_not_mem {t : Str} (h : t ∉ db.tags) :
    outboundTagAvailable db t connectionID = true := by
  simp only [Tables.tags, mem_append, mem_map, not_or, not_exists, not_and] at h
  have ho : db.outbounds.any (·.tag == t) = false := by simpa using h.1
  rw [outboundTagAvailable, ho, if_neg Bool.false_ne_true]
  simp only [Bool.not_eq_true', any_eq_false, Bool.and_eq_true, beq_iff_eq, not_and]
  exact fun c hc ht => absurd ht (h.2 c hc)

/-- The tags that are tried are pairwise different and have at most 96 runes, and one of them is
found to be free whenever fewer than 1000 tags are in use, exactly if the first one has at most 91
runes. -/
theorem tags_allocated_iff (subscription : Subscription) (name : Str) :
    ((candidates subscription name).Nodup ∧
      (∀ tag ∈ candidates subscription name, tag.length ≤ 96) ∧
      ∀ db connectionID, db.tags.dedup.length < 1000 →
        ∃ tag, uniqueOutboundTag db subscription name connectionID = some tag ∧
          outboundTagAvailable db tag connectionID = true) ↔
    (tagBase subscription name).length ≤ 91 := by
  obtain ⟨s, hb⟩ : ∃ s, trimTag s = tagBase subscription name := by
    simp only [tagBase, exists_apply_eq_apply]
  refine ⟨fun h => ?_, fun hln => ?_⟩
  · by_contra hl
    have heq := inj_on_of_nodup_map h.1 (mem_range.mpr (by decide))
      (mem_range.mpr (by decide)) (candidate_collides hb (not_le.mp hl))
    exact absurd heq (by decide)
  · have hnd : (candidates subscription name).Nodup :=
      nodup_range.map_on fun i hi j hj heq => candidates_injective hb hln
        (mem_range.mp hi) (mem_range.mp hj) heq
    refine ⟨hnd, fun tag ht => ?_, fun db connectionID hfw => ?_⟩
    · obtain ⟨index, -, rfl⟩ := mem_map.mp ht
      unfold candidate
      split
      · exact hb ▸ length_trimTag_le s
      · exact length_trimTag_le _
    · obtain ⟨tag, hin, hn⟩ : ∃ tag ∈ candidates subscription name, tag ∉ db.tags := by
        by_contra ha
        simp only [not_exists, not_and, not_not] at ha
        have hle := (subperm_of_subset hnd fun tag ht => mem_dedup.mpr (ha tag ht)).length_le
        rw [candidates, length_map, length_range] at hle
        omega
      unfold uniqueOutboundTag
      generalize candidates subscription name = tried at hin ⊢
      have hs : (tried.find? (outboundTagAvailable db · connectionID)).isSome :=
        find?_isSome.mpr ⟨tag, hin, available_of_not_mem hn⟩
      obtain ⟨found, hf⟩ := Option.isSome_iff_exists.mp hs
      have hfr := find?_some hf
      exact ⟨found, hf, hfr⟩

/-- A name of 96 runes: the second and the third try are the first one again. -/
theorem numbered_tag_repeats :
    let base := tagBase ⟨1, [], ['p']⟩ (List.replicate 96 'a')
    candidate base 1 = base ∧ candidate base 2 = base := by
  decide +kernel

end Solovey.RemoteOutbound
