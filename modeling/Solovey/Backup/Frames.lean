import Solovey.Backup.Stream

/-!
# What a sealing writes

Whatever its source and its destination do, a sealing seals a list of frames in order, numbered from
0: nonempty chunks of the source, then, if it gets to the end of the source, one empty frame.
-/

namespace Solovey.Backup

open List

open Text (Bytes)
open Crypto (Aead Record)

variable {Key : Type} {C : Suite Key} {key : Key} {header : Bytes}

/-! ## Writing -/

theorem writeFull_taken (rs : List Reply) (dt : Bytes) : (writeFull rs dt).1 <+: dt ∧
      ((writeFull rs dt).2.1 = none → (writeFull rs dt).1 = dt) := by
  induction rs generalizing dt with
  | nil => cases dt <;> simp [writeFull]
  | cons reply rs ih =>
    cases dt with
    | nil => simp [writeFull]
    | cons x dt =>
      simp only [writeFull]
      split
      · exact ⟨List.take_prefix _ _, fun h => by cases h⟩
      · split
        · exact ⟨List.nil_prefix, fun h => by cases h⟩
        · obtain ⟨ht, ha⟩ := ih ((x :: dt).drop (min reply.count (x :: dt).length))
          constructor
          · conv_rhs => rw [← take_append_drop (min reply.count (x :: dt).length) (x :: dt)]
            exact (prefix_append_right_inj _).mpr ht
          · intro hn
            rw [ha hn, take_append_drop]

/-- A destination that takes every byte. -/
def Accepting (replies : List Reply) : Prop := ∀ r ∈ replies, r.failed = false ∧ 0 < r.count

theorem writeFull_accepting {rs : List Reply} (h : Accepting rs) (dt : Bytes) :
    (writeFull rs dt).2.1 = none ∧ Accepting (writeFull rs dt).2.2 := by
  induction rs generalizing dt with
  | nil => cases dt <;> simp [writeFull, Accepting]
  | cons reply rs ih =>
    have ht : Accepting rs := fun r hr => h r (mem_cons_of_mem _ hr)
    obtain ⟨hf, hc⟩ := h reply mem_cons_self
    cases dt with
    | nil => exact ⟨rfl, h⟩
    | cons x dt =>
      have hp : min reply.count (x :: dt).length ≠ 0 := by
        simp only [length_cons]
        omega
      simp only [writeFull, hf, Bool.false_eq_true, if_false, hp]
      exact ih ht _

/-! ## The frames of a stream -/

/-- The calls of `gcm.Seal` for frames numbered from `n`. -/
def recordsFrom (key : Key) (header : Bytes) : ℕ → List Bytes → List (Record Key)
  | _, [] => []
  | n, p :: ps => frameRecord key header p n :: recordsFrom key header (n + 1) ps

variable (C) in
/-- The bytes of frames numbered from `n`. -/
def encodeFrom (key : Key) (header : Bytes) : ℕ → List Bytes → Bytes
  | _, [] => []
  | n, p :: ps => frameBytes C key header p n ++ encodeFrom key header (n + 1) ps

theorem recordsFrom_append (n : ℕ) (ps qs : List Bytes) : recordsFrom key header n (ps ++ qs) =
      recordsFrom key header n ps ++ recordsFrom key header (n + ps.length) qs := by
  induction ps generalizing n with
  | nil => rfl
  | cons p ps ih =>
    simp only [cons_append, recordsFrom, ih, length_cons]
    rw [Nat.add_right_comm, Nat.add_assoc]

theorem encodeFrom_append (n : ℕ) (ps qs : List Bytes) : encodeFrom C key header n (ps ++ qs) =
      encodeFrom C key header n ps ++ encodeFrom C key header (n + ps.length) qs := by
  induction ps generalizing n with
  | nil => rfl
  | cons p ps ih =>
    simp only [cons_append, encodeFrom, ih, length_cons, append_assoc]
    rw [Nat.add_right_comm, Nat.add_assoc]

theorem mem_recordsFrom {n : ℕ} {ps : List Bytes} {r : Record Key} :
    r ∈ recordsFrom key header n ps ↔
      ∃ k p, ps[k]? = some p ∧ r = frameRecord key header p (n + k) := by
  induction ps generalizing n with
  | nil => simp [recordsFrom]
  | cons p ps ih =>
    rw [recordsFrom, mem_cons, ih]
    constructor
    · rintro (rfl | ⟨k, q, hq, rfl⟩)
      · exact ⟨0, p, rfl, rfl⟩
      · exact ⟨k + 1, q, hq, by rw [Nat.add_assoc, Nat.add_comm 1 k]⟩
    · rintro ⟨k, q, hq, rfl⟩
      cases k with
      | zero =>
        left
        cases hq
        rfl
      | succ k =>
        right
        exact ⟨k, q, hq, by rw [Nat.add_assoc, Nat.add_comm 1 k]⟩

theorem map_plaintext_recordsFrom (n : ℕ) (ps : List Bytes) :
    (recordsFrom key header n ps).map (·.plaintext) = ps := by
  induction ps generalizing n with
  | nil => rfl
  | cons p ps ih => rw [recordsFrom, map_cons, ih]; rfl

variable {p : Bytes}

theorem encodeFrom_take_succ {ps : List Bytes} {k : ℕ} (h : ps[k]? = some p) :
    encodeFrom C key header 0 (ps.take (k + 1)) =
      encodeFrom C key header 0 (ps.take k) ++ frameBytes C key header p k := by
  obtain ⟨hk, rfl⟩ := List.getElem?_eq_some_iff.mp h
  rw [take_succ_eq_append_getElem hk, encodeFrom_append, length_take_of_le hk.le, Nat.zero_add]
  simp [encodeFrom]

/-! ## The sealing loop -/

/-- The bytes a source gives up to its end or its failure. -/
def sourceBytes : List Read → Bytes
  | [] => []
  | r :: reads => r.data ++ if r.status = .more then sourceBytes reads else []

def reachesEnd : List Read → Bool
  | [] => true
  | r :: reads =>
    match r.status with
    | .eof => true
    | .failed => false
    | .more => reachesEnd reads

/-- The state of a sealing that has sealed the chunks and no terminal frame. -/
structure Framed (C : Suite Key) (key : Key) (header : Bytes) (chunks : List Bytes)
    (s : Sealing Key) : Prop where
  nonempty : ∀ p ∈ chunks, p ≠ [] ∧ p.length ≤ streamChunkSize
  counter : s.counter = chunks.length
  plainBytes : s.plainBytes = chunks.flatten.length
  bound : chunks.flatten.length ≤ maxStreamBytes
  sealed : s.sealed = recordsFrom key header 0 chunks
  handed : s.handed = header ++ encodeFrom C key header 0 chunks
  ended : s.ended = false

/-- The frames of a sealing: the chunks, and the terminal frame once it is sealed. -/
structure Outcome (C : Suite Key) (key : Key) (header : Bytes) (reads : Bytes)
    (s : Sealing Key) (chunks : List Bytes) : Prop where
  nonempty : ∀ p ∈ chunks, p ≠ [] ∧ p.length ≤ streamChunkSize
  bound : chunks.flatten.length ≤ maxStreamBytes
  pre : chunks.flatten <+: reads
  sealed : s.sealed = recordsFrom key header 0 (if s.ended then chunks ++ [[]] else chunks)
  handed : s.ended = true →
    s.handed = header ++ encodeFrom C key header 0 (chunks ++ [[]]) ∧ chunks.flatten = reads

theorem Sealing.emit_eq (s : Sealing Key) (hp : p.length ≤ streamChunkSize) :
    s.emit C key header p =
      { s with sealed := s.sealed ++ [frameRecord key header p s.counter] }.write
        (frameBytes C key header p s.counter) := by
  unfold emit sealFrame
  rw [if_neg (by omega)]

variable {chunks : List Bytes} {s : Sealing Key} {d : Bytes}

section

variable (h : Framed C key header chunks s)
include h

theorem Framed.push (hd : d ≠ []) (hf : d.length ≤ streamChunkSize)
    (hb : s.plainBytes + d.length ≤ maxStreamBytes) :
    (∀ p ∈ chunks ++ [d], p ≠ [] ∧ p.length ≤ streamChunkSize) ∧
      (chunks ++ [d]).flatten = chunks.flatten ++ d ∧
      (chunks ++ [d]).flatten.length ≤ maxStreamBytes ∧
      s.sealed ++ [frameRecord key header d s.counter] = recordsFrom key header 0 (chunks ++ [d]) ∧
      s.handed ++ frameBytes C key header d s.counter =
        header ++ encodeFrom C key header 0 (chunks ++ [d]) := by
  have hfl : (chunks ++ [d]).flatten = chunks.flatten ++ d := by simp
  refine ⟨?_, hfl, ?_, ?_, ?_⟩
  · intro p hp
    rcases mem_append.mp hp with hp | hp
    · exact h.nonempty p hp
    · cases mem_singleton.mp hp
      exact ⟨hd, hf⟩
  · rw [hfl, length_append, ← h.plainBytes]
    exact hb
  · rw [h.sealed, h.counter, recordsFrom_append, Nat.zero_add]
    rfl
  · rw [h.handed, h.counter, encodeFrom_append, Nat.zero_add, append_assoc]
    simp [encodeFrom]

theorem Sealing.chunk_none (hf : d.length ≤ streamChunkSize)
    (hn : (s.chunk C key header d).2 = none) :
    ∃ chunks', Framed C key header chunks' (s.chunk C key header d).1 ∧
      chunks'.flatten = chunks.flatten ++ d := by
  unfold chunk at hn ⊢
  split at hn
  · next he =>
    subst he
    exact ⟨chunks, h, (append_nil _).symm⟩
  · next hd =>
    rw [if_neg hd]
    simp only at hn ⊢
    split at hn
    · cases hn
    · next hb =>
      rw [if_neg hb]
      have hle : s.plainBytes + d.length ≤ maxStreamBytes := by omega
      obtain ⟨hne, hfl, hl, hsl, hh⟩ := h.push hd hf hle
      rw [emit_eq _ hf] at hn ⊢
      split at hn
      · next hs => rw [hn] at hs; cases hs
      · next hs =>
        rw [if_neg hs]
        refine ⟨chunks ++ [d], ?_, hfl⟩
        exact {
          nonempty := hne
          counter := by simp [h.counter]
          plainBytes := by simp only [write]; rw [h.plainBytes, hfl, length_append]
          bound := hl
          sealed := hsl
          handed := hh
          ended := h.ended }

theorem Sealing.chunk_some (hf : d.length ≤ streamChunkSize)
    (hs : (s.chunk C key header d).2.isSome) {rs : Bytes} (hr : chunks.flatten ++ d <+: rs) :
    ∃ chunks', Outcome C key header rs (s.chunk C key header d).1 chunks' := by
  unfold chunk at hs ⊢
  split at hs
  · cases hs
  · next hd =>
    rw [if_neg hd]
    simp only at hs ⊢
    split at hs
    · next hb =>
      rw [if_pos hb]
      exact ⟨chunks, h.nonempty, h.bound, (prefix_append _ _).trans hr,
        by simpa [h.ended] using h.sealed, fun he => by simp [h.ended] at he⟩
    · next hb =>
      rw [if_neg hb]
      have hle : s.plainBytes + d.length ≤ maxStreamBytes := by omega
      obtain ⟨hne, hfl, hl, hsl, -⟩ := h.push hd hf hle
      rw [emit_eq _ hf] at hs ⊢
      split at hs
      · next hw =>
        rw [if_pos hw]
        exact ⟨chunks ++ [d], hne, hl, by rwa [hfl],
          by simpa [write, h.ended] using hsl,
          fun he => by simp [write, h.ended] at he⟩
      · cases hs

theorem Sealing.terminal_outcome :
    Outcome C key header chunks.flatten (s.terminal C key header).1 chunks := by
  unfold terminal
  rw [emit_eq _ (Nat.zero_le _)]
  have hs : s.sealed ++ [frameRecord key header [] s.counter] =
      recordsFrom key header 0 (chunks ++ [[]]) := by
    rw [h.sealed, h.counter, recordsFrom_append, Nat.zero_add]
    rfl
  have hh : s.handed ++ frameBytes C key header [] s.counter =
      header ++ encodeFrom C key header 0 (chunks ++ [[]]) := by
    rw [h.handed, h.counter, encodeFrom_append, Nat.zero_add, append_assoc]
    simp [encodeFrom]
  exact ⟨h.nonempty, h.bound, prefix_rfl, hs, fun _ => ⟨hh, rfl⟩⟩

theorem Sealing.run_outcome (rs : List Read) :
    ∃ chunks', Outcome C key header (chunks.flatten ++ sourceBytes rs)
      (s.run C key header rs).1 chunks' := by
  induction rs generalizing chunks s with
  | nil =>
    rw [sourceBytes, append_nil]
    exact ⟨chunks, terminal_outcome h⟩
  | cons r rs ih =>
    simp only [run, sourceBytes]
    by_cases hs : (s.chunk C key header r.data).2.isSome
    · rw [if_pos hs]
      refine chunk_some h r.fits hs ?_
      rw [← append_assoc]
      exact prefix_append _ _
    · rw [if_neg hs]
      obtain ⟨chunks', hf, hfl⟩ := chunk_none h r.fits (by simpa using hs)
      cases hst : r.status with
      | eof =>
        have ho := terminal_outcome hf
        rw [hfl] at ho
        exact ⟨chunks', by simpa using ho⟩
      | failed =>
        refine ⟨chunks', hf.nonempty, hf.bound, ?_, ?_, ?_⟩
        · simp [hfl]
        · simpa [hf.ended] using hf.sealed
        · intro he
          simp [hf.ended] at he
      | more =>
        obtain ⟨chunks'', ho⟩ := ih hf
        rw [hfl, append_assoc] at ho
        exact ⟨chunks'', by simpa using ho⟩

end

theorem SealCall.start_framed (c : SealCall) :
    Framed C (c.key C) c.header [] ((c.start : Sealing Key).write c.header).1 where
  nonempty := by simp
  counter := rfl
  plainBytes := rfl
  bound := Nat.zero_le _
  sealed := rfl
  handed := by simp [Sealing.write, start, encodeFrom]
  ended := rfl

/-- Whatever a sealing meets, what it sealed is a sequence of frames. -/
theorem sealStream_outcome (C : Suite Key) (c : SealCall) :
    ∃ chunks, Outcome C (c.key C) c.header (sourceBytes c.reads) (sealStream C c).1 chunks := by
  unfold sealStream
  split
  · exact ⟨[], by simp, Nat.zero_le _, List.nil_prefix, rfl, fun he => by cases he⟩
  · simp only
    split
    · exact ⟨[], by simp, Nat.zero_le _, List.nil_prefix, rfl, fun he => by cases he⟩
    · exact Sealing.run_outcome (SealCall.start_framed c) c.reads

/-! ## A sealing that nothing disturbs -/

/-- The destination has taken everything so far, and will. -/
def Sealing.Whole (s : Sealing Key) : Prop := Accepting s.replies ∧ s.taken = s.handed

theorem Sealing.Whole.write (h : s.Whole) (d : Bytes) :
    (s.write d).2 = none ∧ (s.write d).1.Whole := by
  obtain ⟨hn, ha⟩ := writeFull_accepting h.1 d
  refine ⟨by simp [Sealing.write, hn], ha, ?_⟩
  simp only [Sealing.write]
  rw [h.2, (writeFull_taken s.replies d).2 hn]

theorem Sealing.Whole.emit (C : Suite Key) (key : Key) (header : Bytes) (h : s.Whole)
    (hp : p.length ≤ streamChunkSize) :
    (s.emit C key header p).2 = none ∧ (s.emit C key header p).1.Whole := by
  rw [Sealing.emit_eq _ hp]
  exact write (s := { s with sealed := _ }) h _

theorem length_le_flatten (h : ∀ p ∈ chunks, p ≠ []) : chunks.length ≤ chunks.flatten.length := by
  induction chunks with
  | nil => exact le_rfl
  | cons p ps ih =>
    have hp := length_pos_iff.mpr (h p mem_cons_self)
    have ht := ih fun q hq => h q (mem_cons_of_mem _ hq)
    simp only [length_cons, flatten_cons, length_append]
    omega

theorem Framed.counter_lt (h : Framed C key header chunks s) : s.counter < maxUint32 := by
  have hl := length_le_flatten fun p hp => (h.nonempty p hp).1
  have hb := h.bound
  rw [h.counter]
  unfold maxStreamBytes at hb
  unfold maxUint32
  omega

theorem Sealing.Whole.chunk (h : s.Whole) (hf : Framed C key header chunks s)
    (hft : d.length ≤ streamChunkSize) (hb : chunks.flatten.length + d.length ≤ maxStreamBytes) :
    (s.chunk C key header d).2 = none ∧ (s.chunk C key header d).1.Whole := by
  unfold Sealing.chunk
  split
  · exact ⟨rfl, h⟩
  · have hc := hf.counter_lt
    have hp := hf.plainBytes
    have hok : ¬(s.plainBytes + d.length > maxStreamBytes ∨ s.counter = maxUint32) := by omega
    obtain ⟨hn, hw⟩ := emit C key header
      (s := { s with plainBytes := s.plainBytes + d.length }) h hft
    simp only [if_neg hok, hn, Option.isSome_none, Bool.false_eq_true, if_false]
    exact ⟨trivial, hw⟩

theorem Sealing.Whole.run (h : s.Whole) (hf : Framed C key header chunks s) {rs : List Read}
    (he : reachesEnd rs) (hb : (chunks.flatten ++ sourceBytes rs).length ≤ maxStreamBytes) :
    (s.run C key header rs).2 = none ∧ (s.run C key header rs).1.Whole ∧
      (s.run C key header rs).1.ended := by
  have ht : ∀ {s : Sealing Key}, s.Whole → (s.terminal C key header).2 = none ∧
      (s.terminal C key header).1.Whole ∧ (s.terminal C key header).1.ended := by
    intro s hs
    obtain ⟨hn, hw⟩ := emit C key header
      (s := { s with ended := true }) hs (p := []) (Nat.zero_le _)
    refine ⟨hn, hw, ?_⟩
    unfold Sealing.terminal
    rw [Sealing.emit_eq _ (Nat.zero_le _)]
    rfl
  induction rs generalizing chunks s with
  | nil => exact ht h
  | cons r rs ih =>
    simp only [sourceBytes, length_append] at hb
    obtain ⟨hn, hw⟩ := h.chunk hf r.fits (by omega)
    simp only [Sealing.run, hn, Option.isSome_none, Bool.false_eq_true, if_false]
    cases hst : r.status with
    | eof => exact ht hw
    | failed => simp [reachesEnd, hst] at he
    | more =>
      obtain ⟨chunks', hf', hfl⟩ := Sealing.chunk_none hf r.fits hn
      refine ih hw hf' (by simpa [reachesEnd, hst] using he) ?_
      rw [hfl]
      simp only [hst, if_true] at hb
      simpa [Nat.add_assoc] using hb

/-- A source that reaches its end within the bound is sealed to the end. -/
theorem sealStream_succeeds {c : SealCall} (hp : c.passphrase ≠ []) (hed : reachesEnd c.reads)
    (hb : (sourceBytes c.reads).length ≤ maxStreamBytes) (ha : Accepting c.replies) :
    (sealStream C c).2 = none ∧ (sealStream C c).1.taken = (sealStream C c).1.handed ∧
      (sealStream C c).1.ended := by
  have hs : (c.start : Sealing Key).Whole := ⟨ha, rfl⟩
  obtain ⟨hn, hw⟩ := hs.write c.header
  unfold sealStream
  rw [if_neg hp]
  simp only [hn, Option.isSome_none, Bool.false_eq_true, if_false]
  obtain ⟨he, hd, hen⟩ := hw.run (SealCall.start_framed c) hed (by simpa using hb)
  exact ⟨he, hd.2, hen⟩

end Solovey.Backup
