import Solovey.Migration.Version

/-!
# The order of versions

Versions are compared part by part, which orders them as the product of the orders of their parts,
and a normal form is read back as the version it was made from.
-/

namespace Solovey.Migration

open Solovey.Text List
open Std (TransCmp TransOrd OrientedOrd ReflOrd)

variable {s a b : Str} {v : Semver} {n : ℕ} {sep c : Char}

def versionIsNewer (candidate current : Str) : Bool :=
  match compareVersions candidate current with
  | none => normalizeVersion candidate ≠ [] && normalizeVersion candidate ≠ normalizeVersion current
  | some cmp => cmp = .gt

/-! ## The comparison of parsed versions -/

instance : TransCmp comparePrereleaseIdentifier where
  eq_swap {l r} := by
    unfold comparePrereleaseIdentifier
    cases parseNumericIdentifier l <;> cases parseNumericIdentifier r
    all_goals first | exact OrientedOrd.eq_swap | rfl
  isLE_trans {l m r} := by
    unfold comparePrereleaseIdentifier
    cases parseNumericIdentifier l <;> cases parseNumericIdentifier m <;>
      cases parseNumericIdentifier r
    all_goals first | exact TransOrd.isLE_trans | exact fun _ _ => rfl | nofun

theorem compareIdentifiers_eq (l r : List Str) :
    compareIdentifiers l r = List.compareLex comparePrereleaseIdentifier l r := by
  fun_induction compareIdentifiers l r with
  | case1 | case2 | case3 => rfl
  | case4 l left r right ih => rw [List.compareLex_cons_cons, ih]

/-- No pre-release is the greatest one. -/
theorem comparePrerelease_eq (l r : List Str) : comparePrerelease l r =
    compareLex (compareOn isEmpty) (List.compareLex comparePrereleaseIdentifier) l r := by
  rw [comparePrerelease, compareIdentifiers_eq]
  cases l <;> cases r <;> rfl

instance : Ord Semver := ⟨compareSemver⟩

instance : TransCmp comparePrerelease := by
  rw [funext₂ comparePrerelease_eq]
  infer_instance

instance : TransOrd Semver :=
  let _ : Ord (List Str) := ⟨comparePrerelease⟩
  have : TransOrd (List Str) := inferInstanceAs (TransCmp comparePrerelease)
  inferInstanceAs (TransCmp (compareLex (compareLex (compareOn Semver.major) (compareOn Semver.minor))
    (compareLex (compareOn Semver.patch) (compareOn Semver.prerelease))))

/-! ## Reading a normal form back -/

/-- A part that stands behind its separator, unless it is empty. -/
def after (sep : Char) (s : Str) : Str := if s = [] then [] else sep :: s

theorem mem_after (h : c ∈ after sep s) : c = sep ∨ c ∈ s := by
  unfold after at h
  split at h
  · cases h
  · exact mem_cons.mp h

theorem cut_after (ha : sep ∉ a) : cut sep (a ++ after sep b) = (a, b) := by
  have h : ∀ c ∈ a, decide (c ≠ sep) = true :=
    fun c hc => decide_eq_true (ne_of_mem_of_not_mem hc ha)
  rw [cut, takeWhile_append_of_pos h, dropWhile_append_of_pos h, after]
  split <;> simp_all

theorem splitOn_after (ha : sep ∉ a) (hb : sep ∉ b) :
    (a ++ after sep b).splitOn sep = if b = [] then [a] else [a, b] := by
  rw [after]
  split
  · simpa using splitOn_intercalate sep (show ∀ t ∈ [a], sep ∉ t by simpa) (by simp)
  · simpa using splitOn_intercalate sep (show ∀ t ∈ [a, b], sep ∉ t by simp [ha, hb]) (by simp)

/-- What a version that is read is written with. -/
structure Parts where
  major : ℕ
  minor : ℕ
  patch : ℕ
  prerelease : Str
  build : Str
  numbers : ∀ n ∈ [major, minor, patch], parseNumericIdentifier (decimal n) = some n
  identifiers : prerelease = [] ∨ validIdentifierList prerelease true = true
  metadata : build = [] ∨ validIdentifierList build false = true

namespace Parts

variable (p : Parts)

def version : Semver :=
  ⟨p.major, p.minor, p.patch, if p.prerelease = [] then [] else p.prerelease.splitOn '.', p.build⟩

def core : Str := ['.'].intercalate [decimal p.major, decimal p.minor, decimal p.patch]

def text : Str := p.core ++ after '-' p.prerelease ++ after '+' p.build

end Parts

theorem parseNumericIdentifier_decimal (h : parseNumericIdentifier s = some n) :
    parseNumericIdentifier (decimal n) = some n := by
  have hn : n < 2 ^ 63 := by
    unfold parseNumericIdentifier at h
    split at h
    · cases h
    · simpa using (Option.filter_eq_some_iff.mp h).2
  rw [parseNumericIdentifier, if_neg, readDecimal_decimal, Option.filter_some, if_pos (by simpa)]
  rintro ⟨hl, hz⟩
  rcases n.eq_zero_or_pos with rfl | hp
  · exact absurd hl (by decide)
  · exact decimal_head hp hz

theorem exists_parts_core {core : Str} (h : parseCore core b true = some v)
    (hb : b = [] ∨ validIdentifierList b false = true) : ∃ p : Parts, p.version = v := by
  unfold parseCore at h
  simp only at h
  split at h
  next major minor patch _ =>
    simp only [Option.bind_eq_bind, Option.bind_eq_some_iff] at h
    obtain ⟨x, hx, y, hy, z, hz, h⟩ := h
    have hn : ∀ n ∈ [x, y, z], parseNumericIdentifier (decimal n) = some n := by
      simp [parseNumericIdentifier_decimal hx, parseNumericIdentifier_decimal hy,
        parseNumericIdentifier_decimal hz]
    split at h
    · cases h
      exact ⟨⟨x, y, z, [], b, hn, .inl rfl, hb⟩, rfl⟩
    next hne =>
      split at h
      next hv =>
        cases h
        exact ⟨⟨x, y, z, _, b, hn, .inr hv, hb⟩, by rw [Parts.version, if_neg hne]⟩
      · cases h
  · cases h

theorem exists_parts (h : parseVersion s true = some v) : ∃ p : Parts, p.version = v := by
  unfold parseVersion at h
  simp only at h
  split at h
  · cases h
  split at h
  · exact exists_parts_core h (.inl rfl)
  next build _ =>
    split at h
    next hb => exact exists_parts_core h (.inr hb)
    · cases h
  · cases h

/-- The characters of numbers and identifiers, and between them. -/
def isVersionChar (c : Char) : Bool := c.isAlphanum || c = '-' || c = '.'

theorem isVersionChar_of_valid {z : Bool} (h : s = [] ∨ validIdentifierList s z = true)
    (hc : c ∈ s) : isVersionChar c = true := by
  have hv := h.resolve_left (ne_nil_of_mem hc)
  simp only [validIdentifierList, Bool.and_eq_true, all_eq_true] at hv
  have hs : (['.'].intercalate (s.splitOn '.')).all isVersionChar = true := by
    refine all_intercalate rfl fun id hi => all_eq_true.mpr fun c hc => ?_
    rw [isVersionChar, (hv.2 id hi).1.2 c hc, Bool.true_or]
  rw [intercalate_splitOn] at hs
  exact all_eq_true.mp hs c hc

theorem isSpace_isVersionChar (h : isVersionChar c = true) : isSpace c = false := by
  simp only [isVersionChar, Char.isAlphanum, Char.isAlpha, Char.isUpper, Char.isLower, Char.isDigit,
    Bool.or_eq_true, Bool.and_eq_true, decide_eq_true_eq, ge_iff_le, UInt32.le_iff_toNat_le] at h
  rcases h with (((h | h) | h) | rfl) | rfl
  iterate 3 exact isSpace_visible (h.1.trans' (by decide)) (h.2.trans (by decide))
  all_goals rfl

namespace Parts

variable (p : Parts)

theorem mem_core (h : c ∈ p.core) : c.isDigit = true ∨ c = '.' := by
  simp only [core, intercalate_cons_cons, intercalate_singleton, mem_append, mem_singleton] at h
  grind [digit_of_mem_decimal]

theorem isVersionChar_of_mem (h : c ∈ p.core ++ after '-' p.prerelease) :
    isVersionChar c = true := by
  rcases mem_append.mp h with h | h
  · rcases p.mem_core h with h | rfl
    · simp [isVersionChar, Char.isAlphanum, h]
    · rfl
  · rcases mem_after h with rfl | h
    · rfl
    · exact isVersionChar_of_valid p.identifiers h

theorem trimSpace_text : trimSpace p.text = p.text := by
  have hs : ∀ c ∈ p.text, isSpace c = false := by
    intro c hc
    rcases mem_append.mp hc with h | h
    · exact isSpace_isVersionChar (p.isVersionChar_of_mem h)
    · rcases mem_after h with rfl | h
      · rfl
      · exact isSpace_isVersionChar (isVersionChar_of_valid p.metadata h)
  exact trimSpace_of_ends (fun c hc => hs c (mem_of_head? hc)) fun c hc => hs c (mem_of_getLast? hc)

theorem text_cons : ∃ d r, p.text = d :: r ∧ d.isDigit = true := by
  obtain ⟨d, r, hd⟩ := exists_cons_of_ne_nil (decimal_ne_nil p.major)
  exact ⟨d, _, by simp [text, core, hd]; rfl, digit_of_mem_decimal (hd ▸ mem_cons_self)⟩

theorem parseCore_text :
    parseCore (p.core ++ after '-' p.prerelease) p.build true = some p.version := by
  have hd : '-' ∉ p.core := fun h => absurd (p.mem_core h) (by decide)
  have hs : p.core.splitOn '.' = [decimal p.major, decimal p.minor, decimal p.patch] := by
    have hn : ∀ n, '.' ∉ decimal n := fun n h => ne_of_mem_decimal h rfl rfl
    exact splitOn_intercalate '.' (by simp [hn]) (by simp)
  have hn := p.numbers
  simp only [forall_mem_cons] at hn
  simp only [parseCore, cut_after hd, hs, length_cons, length_nil, version]
  by_cases hne : p.prerelease = []
  · simp [hne, hn]
  · simp [hne, hn, p.identifiers.resolve_left hne]

theorem parseVersion_text : parseVersion p.text true = some p.version := by
  have hb : '+' ∉ p.build := fun h => absurd (isVersionChar_of_valid p.metadata h) (by decide)
  have hp : '+' ∉ p.core ++ after '-' p.prerelease :=
    fun h => absurd (p.isVersionChar_of_mem h) (by decide)
  have hs : p.text.splitOn '+' = _ := splitOn_after hp hb
  obtain ⟨d, r, hr, hd⟩ := p.text_cons
  have ht : ∀ x : Char, x.isDigit = false → trimPrefix [x] p.text = p.text := by
    rintro x hx
    have hne : x ≠ d := by
      rintro rfl
      simp [hd] at hx
    simp [hr, trimPrefix, hne]
  simp only [parseVersion, p.trimSpace_text, ht 'v' rfl, ht 'V' rfl, hs]
  rw [if_neg (by simp [hr])]
  by_cases hne : p.build = []
  · rw [if_pos hne, ← p.parseCore_text, hne]
  · simp only [if_neg hne, p.metadata.resolve_left hne, if_true]
    exact p.parseCore_text

theorem normalizeVersion_eq (h : parseVersion s true = some p.version) :
    normalizeVersion s = p.text := by
  rw [normalizeVersion, h]
  by_cases hne : p.prerelease = []
  · simp [text, core, after, version, hne]
  · simp [text, core, after, version, hne, intercalate_splitOn]

end Parts

theorem parseVersion_normalizeVersion (s : Str) :
    parseVersion (normalizeVersion s) true = parseVersion s true := by
  cases h : parseVersion s true with
  | none =>
    rw [normalizeVersion, h]
    rfl
  | some v =>
    obtain ⟨p, rfl⟩ := exists_parts h
    rw [p.normalizeVersion_eq h, p.parseVersion_text]

theorem normalizeVersion_eq_nil : normalizeVersion s = [] ↔ parseVersion s true = none := by
  refine ⟨fun h => ?_, fun h => by rw [normalizeVersion, h]⟩
  rw [← parseVersion_normalizeVersion, h]
  rfl

/-! ## Newer versions -/

/-- A version is newer than a text that is none. -/
theorem versionIsNewer_iff : versionIsNewer a b = true ↔
    compare (parseVersion a true) (parseVersion b true) = .gt := by
  have ha := @normalizeVersion_eq_nil a
  have hb := @normalizeVersion_eq_nil b
  unfold versionIsNewer compareVersions
  cases hl : parseVersion a true with
  | none => cases parseVersion b true <;> simp [ha.mpr hl]
  | some v =>
    cases hr : parseVersion b true with
    | none =>
      simp [hb.mpr hr, ha, hl]
      rfl
    | some w => exact decide_eq_true_iff

/-- Versions that are read are preordered, a normal form stands for the versions it is made from,
and of a chain of updates no version is newer than a later one. -/
theorem version_order (a b c : Str) :
    (compareVersions a b).isSome = ((parseVersion a true).isSome && (parseVersion b true).isSome) ∧
    compareVersions b a = (compareVersions a b).map Ordering.swap ∧
    (∀ l r, compareVersions a b = some l → compareVersions b c = some r → l.isLE → r.isLE →
      ∃ o, compareVersions a c = some o ∧ o.isLE) ∧
    normalizeVersion (normalizeVersion a) = normalizeVersion a ∧
    ((parseVersion a true).isSome → compareVersions (normalizeVersion a) a = some .eq) ∧
    versionIsNewer a a = false ∧
    (versionIsNewer a b → versionIsNewer b a = false) ∧
    (versionIsNewer a b → versionIsNewer b c → versionIsNewer a c) ∧
    ∀ vs : List Str, vs.IsChain (fun current candidate => versionIsNewer candidate current) →
      vs.Pairwise fun earlier later => versionIsNewer earlier later = false := by
  have htr : ∀ {a b c}, versionIsNewer a b → versionIsNewer b c → versionIsNewer a c := by
    intro a b c hab hbc
    rw [versionIsNewer_iff] at *
    exact TransCmp.gt_trans hab hbc
  have hir : ∀ a, versionIsNewer a a = false := by
    intro a
    rw [Bool.eq_false_iff, Ne, versionIsNewer_iff, ReflOrd.compare_self]
    decide
  have has : ∀ {a b}, versionIsNewer a b → versionIsNewer b a = false :=
    fun {a _} h => Bool.eq_false_iff.mpr fun hb => Bool.eq_false_iff.mp (hir a) (htr h hb)
  refine ⟨?_, ?_, fun l r hl hr hle hre => ?_, ?_, fun h => ?_, hir a, has, htr, fun vs h => ?_⟩
  · unfold compareVersions
    cases parseVersion a true <;> cases parseVersion b true <;> rfl
  · unfold compareVersions
    cases parseVersion a true <;> cases parseVersion b true
    case some.some v w => exact congrArg some (@OrientedOrd.eq_swap Semver _ _ w v)
    all_goals rfl
  · simp only [compareVersions, Option.bind_eq_bind, Option.bind_eq_some_iff] at *
    obtain ⟨u, hu, v, hv, hl⟩ := hl
    obtain ⟨v', hv', w, hw, hr⟩ := hr
    cases hv.symm.trans hv'
    cases hl
    cases hr
    exact ⟨_, ⟨u, hu, w, hw, rfl⟩, @TransOrd.isLE_trans Semver _ _ u v w hle hre⟩
  · conv_lhs => rw [normalizeVersion, parseVersion_normalizeVersion]
    rfl
  · obtain ⟨v, hv⟩ := Option.isSome_iff_exists.mp h
    rw [compareVersions, parseVersion_normalizeVersion, hv]
    exact congrArg some (@ReflOrd.compare_self Semver _ _ v)
  · have : IsTrans Str fun x y => versionIsNewer y x = true := ⟨fun _ _ _ h h' => htr h' h⟩
    exact (isChain_iff_pairwise.mp h).imp has

end Solovey.Migration
