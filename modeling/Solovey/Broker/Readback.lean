import Solovey.Broker.FileJournal

/-!
# Reading the journal back

The writer checks a row and its length, the reader also the limits of `decodeStrict`.
`decodeJournalRow_marshal` reduces the difference to `validateJSON` on the row.
`parseJournal_written` says what the reader sees in a file that the journal wrote, with or without a
torn tail.
-/

namespace Solovey.Broker

open Solovey.Text Solovey.Json Solovey.Data List

/-- The payload is as `MarshalPayload` leaves it, with its HTML escapes. -/
def JournalRow.Marshalled (row : JournalRow) : Prop :=
  row.payload.map Value.escapeHTML = row.payload

/-! ## One row -/

variable {row : JournalRow}

theorem JournalRow.Valid.response_payload (h : row.Valid) :
    ∀ r ∈ row.response, r.payload = none := by
  rcases h with ⟨h⟩ | ⟨h⟩ | ⟨h⟩
  · rw [h.row_eq]
    simp
  · rw [h.response]
    simp
  · rw [h.response_eq]
    rintro r ⟨⟩
    exact h.response_payload

/-- The reader accepts a written row if the limits do, and reads the same row. -/
theorem decodeJournalRow_marshal (hv : row.Valid) (hm : row.Marshalled) :
    decodeJournalRow (marshal row.toValue) =
      if validateJSON row.toValue then some row else none := by
  rw [decodeJournalRow, decodeStrict_marshal]
  split_ifs with hl
  · rw [JournalRow.read_toValue hm hv.response_payload]
    simp [validateJournalRow_ok.mpr hv]
  · rfl

/-! ## Lines of a file -/

theorem marshal_ne_nil (v : Value) : marshal v ≠ [] := by
  intro h
  have hp := v.text_pos
  have hl : utf8Len v.text = 0 := by rw [← length_encodeUtf8, ← marshal, h]; rfl
  cases ht : v.text with
  | nil => simp [ht] at hp
  | cons c l =>
    have := c.utf8Size_pos
    rw [ht, utf8Len_cons] at hl
    omega

theorem newline_notMem_marshal (v : Value) : newline ∉ marshal v := by
  rw [marshal, newline_mem_encodeUtf8]
  exact v.newline_notMem

theorem parseLine_marshal (he : row.Encodes) (hm : row.Marshalled) :
    parseLine (marshal row.toValue) =
      if validateJSON row.toValue then .ok row
      else .error (.internal "broker receipt journal contains an invalid committed record") := by
  rw [parseLine, if_neg (Nat.not_lt.mpr he.2), decodeJournalRow_marshal he.1 hm]
  split_ifs <;> rfl

variable {rows : List JournalRow}

/-- Lines in front of others are read on their own. -/
theorem parseLines_append {ls ms : List Bytes} (hms : ms ≠ []) : parseLines (ls ++ ms) = .ok rows ↔
      ∃ a b, List.Forall₂ (fun l r => l ≠ [] ∧ parseLine l = .ok r) ls a ∧
        parseLines ms = .ok b ∧ rows = a ++ b := by
  induction ls generalizing rows with
  | nil => simp [forall₂_nil_left_iff]
  | cons l ls ih =>
    have hne : ls ++ ms ≠ [] := by simp [hms]
    rw [cons_append, parseLines]
    split_ifs with hl
    · refine iff_of_false nofun ?_
      rintro ⟨a, b, hf, -⟩
      obtain ⟨r, a', hr, -, -⟩ := forall₂_cons_left_iff.mp hf
      exact hr.1 hl
    · simp only [bind_ok, ih]
      constructor
      · rintro ⟨r, hr, rest, ⟨a, b, hf, hb, rfl⟩, hrw⟩
        cases hrw
        exact ⟨r :: a, b, .cons ⟨hl, hr⟩ hf, hb, rfl⟩
      · rintro ⟨a, b, hf, hb, rfl⟩
        obtain ⟨r, a', hr, hf', rfl⟩ := forall₂_cons_left_iff.mp hf
        exact ⟨r, hr.2, a' ++ b, ⟨a', b, hf', hb, rfl⟩, rfl⟩

theorem complete_eq (d : Bytes) : (if torn d then completeLines d else d) = completeLines d := by
  unfold torn
  split_ifs with h
  · rfl
  · rcases eq_nil_or_concat' d with rfl | ⟨l, c, rfl⟩
    · rfl
    · have hc : c = newline := by simpa using h
      rw [hc, completeLines_concat]

theorem parseJournal_ok {d : Bytes} {L : LoadedJournal} : parseJournal d true = .ok L ↔
      ∃ rows s, parseLines (lines (completeLines d)) = .ok rows ∧ indexRows rows = .ok s ∧
        L = ⟨rows, s.indexes, (completeLines d).length,
          if torn d then some (completeLines d).length else none⟩ := by
  simp only [parseJournal, complete_eq, bind_ok, mapError_ok, buildJournalIndexes_ok, failIf_ok]
  constructor
  · rintro ⟨_, -, rows, hr, i, ⟨s, hs, rfl⟩, hL⟩
    cases hL
    exact ⟨rows, s, hr, hs, rfl⟩
  · rintro ⟨rows, s, hr, hs, rfl⟩
    exact ⟨(), by simp, rows, hr, s.indexes, ⟨s, hs, rfl⟩, rfl⟩

theorem indexRows_append {a b : List JournalRow} {s : IndexLoop} (h : indexRows (a ++ b) = .ok s) :
    ∃ s₀, indexRows a = .ok s₀ := by
  rw [indexRows, foldlM_append] at h
  obtain ⟨s₀, hs₀, -⟩ := bind_ok.mp h
  exact ⟨s₀, hs₀⟩

/-- The file of the rows. -/
def fileOf (rows : List JournalRow) : Bytes := joinLines (rows.map fun row => marshal row.toValue)

/-- A row that the reader accepts. -/
def JournalRow.Readable (row : JournalRow) : Prop :=
  row.Encodes ∧ row.Marshalled ∧ validateJSON row.toValue = true

theorem completeLines_fileOf (rows : List JournalRow) {tail : Bytes} (ht : newline ∉ tail) :
    completeLines (fileOf rows ++ tail) = fileOf rows :=
  completeLines_append (joinLines_getLast? _) ht

theorem lines_fileOf (rows : List JournalRow) :
    lines (fileOf rows) = (rows.map fun row => marshal row.toValue) ++ [[]] := by
  have := lines_joinLines_append (rows.map fun row => marshal row.toValue)
    (by simp [newline_notMem_marshal]) []
  simpa [fileOf] using this

/-- A file of readable rows is read back, whatever stands after its last newline. -/
theorem parseJournal_fileOf {s : IndexLoop} (hr : ∀ row ∈ rows, row.Readable)
    (hs : indexRows rows = .ok s) {tail : Bytes} (htl : newline ∉ tail) :
    parseJournal (fileOf rows ++ tail) true = .ok ⟨rows, s.indexes, (fileOf rows).length,
        if tail = [] then none else some (fileOf rows).length⟩ := by
  have hcm := completeLines_fileOf rows htl
  have hf : List.Forall₂ (fun l r => l ≠ [] ∧ parseLine l = .ok r)
      (rows.map fun row => marshal row.toValue) rows := by
    rw [forall₂_map_left_iff, forall₂_same]
    intro row hrw
    obtain ⟨he, hm, hl⟩ := hr row hrw
    exact ⟨marshal_ne_nil _, by rw [parseLine_marshal he hm, if_pos hl]⟩
  have ht : torn (fileOf rows ++ tail) = !tail.isEmpty := by
    rcases eq_nil_or_concat' tail with rfl | ⟨l, c, rfl⟩
    · rcases joinLines_getLast? (rows.map fun row => marshal row.toValue) with h | h
      · simp [torn, fileOf, h]
      · simp [torn, fileOf, h]
    · have hc : c ≠ newline := by
        rintro rfl
        simp at htl
      rw [Bool.eq_iff_iff]
      simp [torn, hc]
  refine parseJournal_ok.mpr ⟨rows, s, ?_, hs, ?_⟩
  · rw [hcm, lines_fileOf, parseLines_append (by simp)]
    exact ⟨rows, [], hf, rfl, by simp⟩
  · rw [hcm]
    rw [ht]
    cases tail <;> simp

/-- A row as the journal writes it. -/
def JournalRow.Written (row : JournalRow) : Prop := row.Encodes ∧ row.Marshalled

theorem parseLine_written {f : List JournalRow} (hr : ∀ row ∈ rows, row.Written)
    (h : List.Forall₂ (fun row r => marshal row.toValue ≠ [] ∧
      parseLine (marshal row.toValue) = .ok r) rows f) :
    f = rows ∧ ∀ row ∈ rows, row.Readable := by
  induction h with
  | nil => simp
  | @cons row r rows f hl _ ih =>
    obtain ⟨rfl, hrd⟩ := ih fun row hrw => hr row (by simp [hrw])
    obtain ⟨he, hm⟩ := hr row (by simp)
    have hrw := hl.2
    rw [parseLine_marshal he hm] at hrw
    split_ifs at hrw with hlm
    cases hrw
    simp only [forall_mem_cons, true_and]
    exact ⟨⟨he, hm, hlm⟩, hrd⟩

/-- The reader finds the rows that were written, if it accepts them. -/
theorem parseJournal_written (hr : ∀ row ∈ rows, row.Written) {tail : Bytes} (ht : newline ∉ tail)
    {L : LoadedJournal} :
    parseJournal (fileOf rows ++ tail) true = .ok L ↔
      (∀ row ∈ rows, row.Readable) ∧ ∃ s, indexRows rows = .ok s ∧
        L = ⟨rows, s.indexes, (fileOf rows).length,
          if tail = [] then none else some (fileOf rows).length⟩ := by
  constructor
  · intro h
    obtain ⟨found, s, hf, hs, -⟩ := parseJournal_ok.mp h
    have hn : ∀ l ∈ rows.map fun row => marshal row.toValue, newline ∉ l := by
      simp [newline_notMem_marshal]
    rw [fileOf, completeLines_joinLines_append, lines_joinLines_append _ hn,
      parseLines_append (lines_ne_nil _)] at hf
    obtain ⟨a, b, hfr, -, rfl⟩ := hf
    obtain ⟨rfl, hrd⟩ := parseLine_written hr (forall₂_map_left_iff.mp hfr)
    obtain ⟨s₀, hs₀⟩ := indexRows_append hs
    rw [parseJournal_fileOf hrd hs₀ ht] at h
    exact ⟨hrd, s₀, hs₀, (Except.ok.inj h).symm⟩
  · rintro ⟨hrd, s, hs, rfl⟩
    exact parseJournal_fileOf hrd hs ht

end Solovey.Broker
