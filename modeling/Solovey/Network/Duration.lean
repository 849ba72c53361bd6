import Solovey.Text.Strings

/-!
# Timeouts in the listing of a table

A rendered set names its default timeout in seconds; the listing of an applied table writes it in
days, hours, minutes and seconds. `normalizeNFTDuration` brings both to seconds, but knows only one
unit. A timeout is the same in both texts exactly if one unit is enough to write it.
-/

namespace Solovey.Network

open Solovey.Text List

/-- `strings.Fields` -/
def fields (s : Str) : List Str := (s.splitOnP isSpace).filter fun w => !w.isEmpty

/-- `strconv.ParseInt` in base ten, for 64 bits. -/
def parseInt64 : Str → Option ℤ
  | '-' :: digits => (readDecimal digits).bind fun n => if n ≤ 2 ^ 63 then some (-(n : ℤ)) else none
  | '+' :: digits => (readDecimal digits).bind fun n => if n < 2 ^ 63 then some (n : ℤ) else none
  | digits => (readDecimal digits).bind fun n => if n < 2 ^ 63 then some (n : ℤ) else none

def durationUnits : List (Char × ℤ) := [('s', 1), ('m', 60), ('h', 3600), ('d', 86400)]

/-- The number of a value and the seconds of its unit. At most one unit ends the value, whatever
order the map is read in. -/
def splitUnit (value : Str) : Str × ℤ :=
  match durationUnits.find? fun unit => [unit.1].isSuffixOf value with
  | some (suffix, seconds) => (trimSuffix [suffix] value, seconds)
  | none => (value, 1)

def normalizeNFTDuration (line : Str) : Str :=
  match fields line with
  | [keyword, value] =>
    if keyword ≠ "timeout".toList then line
    else
      match parseInt64 (splitUnit value).1 with
      | none => line
      | some number =>
        if number ≤ 0 then line
        else "timeout ".toList ++
          integer (Int.bmod (number * (splitUnit value).2) (2 ^ 64)) ++ ['s']
  | _ => line

/-! ## How `nft` writes a duration -/

/-- The parts of a duration, each with its unit; parts that are zero are left out. -/
def nftParts (n : ℕ) : List (ℕ × Char × ℤ) :=
  [(n / 86400, 'd', 86400), (n / 3600 % 24, 'h', 3600), (n / 60 % 60, 'm', 60),
    (n % 60, 's', 1)].filter (·.1 ≠ 0)

def partsText (parts : List (ℕ × Char × ℤ)) : Str :=
  parts.flatMap fun part => decimal part.1 ++ [part.2.1]

def partSeconds (part : ℕ × Char × ℤ) : ℤ := part.1 * part.2.2

/-! ## Values with a unit -/

variable {t f : Str} {c : Char} {n k : ℕ}

theorem isSpace_decimal (h : c ∈ decimal n) : isSpace c = false := by
  have hd := all_eq_true.mp (decimal_all n) c h
  simp only [Char.isDigit, Bool.and_eq_true, decide_eq_true_eq, UInt32.le_iff_toNat_le] at hd
  refine isSpace_visible (Nat.le_trans (by decide) hd.1) (Nat.le_trans hd.2 (by decide))

theorem fields_timeout (hne : t ≠ []) (h : ∀ c ∈ t, isSpace c = false) :
    fields ("timeout ".toList ++ t) = ["timeout".toList, t] := by
  have hb : ∀ c ∈ "timeout".toList, isSpace c = false := by simp [isSpace]
  have hs : ("timeout ".toList ++ t).splitOnP isSpace = ["timeout".toList, t] := by
    have hf := splitOnP_append_cons_of_forall_mem hb ' ' (by decide) t
    rw [splitOnP_eq_singleton h] at hf
    exact hf
  rw [fields, hs]
  simp [hne]

theorem splitUnit_append {ss : ℤ} (h : (c, ss) ∈ durationUnits) :
    splitUnit (f ++ [c]) = (f, ss) := by
  have hs : ∀ d, [d].isSuffixOf (f ++ [c]) = decide (d = c) := by
    intro d
    rw [Bool.eq_iff_iff, isSuffixOf_iff_suffix, decide_eq_true_eq]
    constructor
    · rintro ⟨rest, hr⟩
      exact (append_inj' hr rfl).2 |> head_eq_of_cons_eq
    · rintro rfl
      exact ⟨f, rfl⟩
  have ht : trimSuffix [c] (f ++ [c]) = f := by
    rw [trimSuffix, hs, decide_eq_true rfl, if_pos rfl]
    simp
  simp only [durationUnits, mem_cons, Prod.mk.injEq, not_mem_nil, or_false] at h
  rcases h with ⟨rfl, rfl⟩ | ⟨rfl, rfl⟩ | ⟨rfl, rfl⟩ | ⟨rfl, rfl⟩ <;>
    simp [splitUnit, durationUnits, List.find?, hs, ht]

theorem parseInt64_digit (h : c.isDigit = true) : parseInt64 (c :: t) =
    (readDecimal (c :: t)).bind fun n => if n < 2 ^ 63 then some (n : ℤ) else none := by
  unfold parseInt64
  split
  next heq =>
    cases heq
    exact absurd h (by decide)
  next heq =>
    cases heq
    exact absurd h (by decide)
  · rfl

theorem parseInt64_decimal (h : n < 2 ^ 63) : parseInt64 (decimal n) = some (n : ℤ) := by
  obtain ⟨c, rest, hdc⟩ := exists_cons_of_ne_nil (decimal_ne_nil n)
  have hd := all_eq_true.mp (decimal_all n) c (hdc ▸ mem_cons_self)
  rw [hdc, parseInt64_digit hd, ← hdc, readDecimal_decimal, Option.bind_some, if_pos h]

/-- A letter in a number. -/
theorem parseInt64_letter (hc : c.isDigit = false) : parseInt64 (decimal k ++ c :: f) = none := by
  obtain ⟨d, rest, hdc⟩ := exists_cons_of_ne_nil (decimal_ne_nil k)
  have hd := all_eq_true.mp (decimal_all k) d (hdc ▸ mem_cons_self)
  rw [hdc, cons_append, parseInt64_digit hd]
  simp [readDecimal, hc]

/-! ## Texts of parts -/

theorem mem_nftParts {part : ℕ × Char × ℤ} (h : part ∈ nftParts n) :
    0 < part.1 ∧ part.2 ∈ durationUnits := by
  simp only [nftParts, mem_filter, decide_eq_true_eq] at h
  refine ⟨Nat.pos_of_ne_zero h.2, ?_⟩
  have hm := h.1
  simp only [mem_cons, not_mem_nil, or_false] at hm
  rcases hm with rfl | rfl | rfl | rfl <;> simp [durationUnits]

theorem unit_letter {ss : ℤ} (h : (c, ss) ∈ durationUnits) :
    c.isDigit = false ∧ isSpace c = false := by
  simp only [durationUnits, mem_cons, Prod.mk.injEq, not_mem_nil, or_false] at h
  rcases h with ⟨rfl, -⟩ | ⟨rfl, -⟩ | ⟨rfl, -⟩ | ⟨rfl, -⟩ <;> decide

variable {part next : ℕ × Char × ℤ} {ps : List (ℕ × Char × ℤ)}

theorem isSpace_partsText (h : ∀ part ∈ ps, part.2 ∈ durationUnits) (hc : c ∈ partsText ps) :
    isSpace c = false := by
  obtain ⟨part, hp, hc⟩ := mem_flatMap.mp hc
  rcases mem_append.mp hc with hc | hc
  · exact isSpace_decimal hc
  · rw [mem_singleton.mp hc]
    exact (unit_letter (h part hp)).2

/-- A text of parts ends with a unit. -/
theorem partsText_append (hne : ps ≠ []) (h : ∀ part ∈ ps, part.2 ∈ durationUnits) :
    ∃ f c ss, partsText ps = f ++ [c] ∧ (c, ss) ∈ durationUnits := by
  obtain ⟨init, last, rfl⟩ := eq_nil_or_concat ps |>.resolve_left hne
  refine ⟨partsText init ++ decimal last.1, last.2.1, last.2.2, ?_, h last (by simp)⟩
  simp [partsText]

/-- What is normalised when the number reads. -/
theorem normalize_value (hne : t ≠ []) (h : ∀ c ∈ t, isSpace c = false) :
    normalizeNFTDuration ("timeout ".toList ++ t) =
      match parseInt64 (splitUnit t).1 with
      | none => "timeout ".toList ++ t
      | some nm =>
        if nm ≤ 0 then "timeout ".toList ++ t
        else "timeout ".toList ++ integer (Int.bmod (nm * (splitUnit t).2) (2 ^ 64)) ++ ['s'] := by
  unfold normalizeNFTDuration
  rw [fields_timeout hne h]
  exact if_neg (not_not_intro rfl)

/-- One part is read as its seconds. -/
theorem normalize_part {ss : ℤ} (hu : (c, ss) ∈ durationUnits) (hk : 0 < k) (hs : k * ss ≤ 86400) :
    normalizeNFTDuration ("timeout ".toList ++ (decimal k ++ [c])) =
      "timeout ".toList ++ integer (k * ss) ++ ['s'] := by
  have hbl : ∀ d ∈ decimal k ++ [c], isSpace d = false := by
    intro d hd
    rcases mem_append.mp hd with hd | hd
    · exact isSpace_decimal hd
    · rw [mem_singleton.mp hd]
      exact (unit_letter hu).2
  have hp : 0 < ss := by
    simp only [durationUnits, mem_cons, Prod.mk.injEq, not_mem_nil, or_false] at hu
    omega
  have hb : (k : ℤ) ≤ k * ss := le_mul_of_one_le_right (by omega) hp
  have hm : Int.bmod (k * ss) (2 ^ 64) = k * ss := by exact Int.bmod_eq_of_le (by omega) (by omega)
  rw [normalize_value (by simp) hbl, splitUnit_append hu, parseInt64_decimal (by omega)]
  simp only [hm]
  rw [if_neg (by omega)]

/-- A text with two parts stays as it is. -/
theorem normalize_parts (h : ∀ p ∈ part :: next :: ps, p.2 ∈ durationUnits) :
    normalizeNFTDuration ("timeout ".toList ++ partsText (part :: next :: ps)) =
      "timeout ".toList ++ partsText (part :: next :: ps) := by
  obtain ⟨f, c, ss, hf, hu⟩ := partsText_append (by simp)
    fun p hp => h p (mem_cons_of_mem part hp)
  have ht : partsText (part :: next :: ps) = decimal part.1 ++ part.2.1 :: f ++ [c] := by
    rw [show partsText (part :: next :: ps) =
      decimal part.1 ++ [part.2.1] ++ partsText (next :: ps) from rfl, hf]
    simp
  have hl := (unit_letter (h part mem_cons_self)).1
  rw [normalize_value (by rw [ht]; simp) fun d => isSpace_partsText h, ht,
    splitUnit_append hu, parseInt64_letter hl]

/-- Every part has one letter. -/
theorem countP_partsText (h : ∀ part ∈ ps, part.2 ∈ durationUnits) :
    (partsText ps).countP (fun c => !c.isDigit) = ps.length := by
  induction ps with
  | nil => rfl
  | cons part ps ih =>
    have hd : (decimal part.1).countP (fun c => !c.isDigit) = 0 := by
      refine countP_eq_zero.mpr fun c hc => ?_
      simp [all_eq_true.mp (decimal_all part.1) c hc]
    have hl := (unit_letter (h part mem_cons_self)).1
    have hr := ih fun p hp => h p (mem_cons_of_mem _ hp)
    rw [show partsText (part :: ps) = decimal part.1 ++ [part.2.1] ++ partsText ps from rfl,
      countP_append, countP_append, hd, hr, length_cons]
    simp [hl, Nat.add_comm]

/-- The parts make up the duration. -/
theorem sum_nftParts (n : ℕ) : ((nftParts n).map partSeconds).sum = n := by
  have hf : ∀ ps : List (ℕ × Char × ℤ),
      ((ps.filter (·.1 ≠ 0)).map partSeconds).sum = (ps.map partSeconds).sum := by
    intro ps
    induction ps with
    | nil => rfl
    | cons part ps ih =>
      by_cases hz : part.1 = 0
      · simpa [hz, partSeconds] using ih
      · simpa [hz] using ih
  rw [nftParts, hf]
  simp only [map_cons, map_nil, sum_cons, sum_nil, partSeconds]
  omega

/-- The rendered timeout and the listed one have the same normal form exactly if one unit is enough
to write it. -/
theorem timeout_normal_iff (hpos : 1 ≤ n) (hmax : n ≤ 86400) :
    normalizeNFTDuration ("timeout ".toList ++ partsText (nftParts n)) =
      normalizeNFTDuration ("timeout ".toList ++ (integer n ++ ['s'])) ↔
    (nftParts n).length = 1 := by
  have hu : ∀ part ∈ nftParts n, part.2 ∈ durationUnits := fun part h => (mem_nftParts h).2
  have hr : normalizeNFTDuration ("timeout ".toList ++ (integer n ++ ['s'])) =
      "timeout ".toList ++ (integer n ++ ['s']) := by
    have hun : ('s', (1 : ℤ)) ∈ durationUnits := by simp [durationUnits]
    have h := normalize_part hun hpos (by omega)
    rwa [mul_one, append_assoc] at h
  have hs := sum_nftParts n
  rw [hr]
  rcases hp : nftParts n with _ | ⟨⟨k, c, ss⟩, _ | ⟨next, rest⟩⟩
  · rw [hp] at hs
    simp only [map_nil, sum_nil] at hs
    omega
  · rw [hp] at hs
    simp only [map_cons, map_nil, sum_cons, sum_nil, add_zero, partSeconds] at hs
    have hm : (k, c, ss) ∈ nftParts n := by simp [hp]
    obtain ⟨hk, hun⟩ := mem_nftParts hm
    have ht : partsText [(k, c, ss)] = decimal k ++ [c] := by simp [partsText]
    refine iff_of_true ?_ rfl
    rw [ht, normalize_part hun hk (hs.trans_le (by omega)), hs, append_assoc]
  · rw [hp] at hu
    rw [normalize_parts hu]
    refine iff_of_false (fun heq => ?_) (by simp)
    have hc := congrArg (List.countP fun c => !c.isDigit) (append_cancel_left heq)
    rw [countP_partsText hu] at hc
    have hsn : ∀ part ∈ [(n, 's', (1 : ℤ))], part.2 ∈ durationUnits := by simp [durationUnits]
    have ho := countP_partsText hsn
    have ht : partsText [(n, 's', 1)] = integer n ++ ['s'] := by
      simp only [partsText, flatMap_cons, flatMap_nil, append_nil]
      rfl
    rw [ht] at ho
    rw [ho] at hc
    simp at hc

theorem timeout_normal_hour :
    (nftParts 3600).length = 1 ∧
      normalizeNFTDuration ("timeout ".toList ++ partsText (nftParts 3600)) =
        normalizeNFTDuration ("timeout ".toList ++ (integer (3600 : ℕ) ++ ['s'])) :=
  ⟨by decide, (timeout_normal_iff (by decide) (by decide)).mpr (by decide)⟩

/-- An hour and a half. -/
theorem timeout_compound :
    partsText (nftParts 5400) = "1h30m".toList ∧
    normalizeNFTDuration "timeout 1h30m".toList = "timeout 1h30m".toList ∧
    normalizeNFTDuration "timeout 5400s".toList = "timeout 5400s".toList := by
  decide +kernel

end Solovey.Network
