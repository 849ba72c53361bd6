import Solovey.Backup.Frames

/-!
# Opening a stream

If whatever decrypts as frame `n` is the `n`-th of a list of frames, then opening delivers frames of
that list in order from the first on, and succeeds only at an empty frame that ends the source. The
frames of a sealing are all delivered.
-/

namespace Solovey.Backup

open List

open Text (Bytes)
open Hash (bigEndian)
open Data (fromBigEndian)
open Crypto (Aead Record)

/-! ## Headers -/

@[simp] theorem length_headerBytes (v : UInt8) (d : Draw) :
    (headerBytes v d).length = headerSize := by
  simp only [headerBytes, length_append, d.length_salt, d.length_nonce, Data.length_bigEndian]
  rfl

theorem headerBytes_injective {v w : UInt8} {d e : Draw} (h : headerBytes v d = headerBytes w e) :
    d = e := by
  obtain ⟨hf, hn⟩ := append_inj' h (by rw [d.length_nonce, e.length_nonce])
  have hs := append_inj_right' hf (by rw [d.length_salt, e.length_salt])
  obtain ⟨sl, n, _, _⟩ := d
  obtain ⟨sl', n', _, _⟩ := e
  cases hs
  cases hn
  rfl

theorem parseHeader_nonce {b : Bytes} {h : Header} (hl : b.length = headerSize)
    (hp : parseHeader b = .ok h) : h.nonce = b.drop (headerSize - nonceSize) := by
  unfold parseHeader at hp
  split at hp
  · cases hp
  · split at hp
    · cases hp
      refine take_of_length_le ?_
      rw [length_drop, hl]
      decide
    · cases hp

/-- The fixed bytes of a stream's header. -/
def streamPreamble : Bytes :=
  magic ++ [versionStream, kdfArgon2ID] ++ [0x00, 0x01, 0x00, 0x00, 0x00, 0x00, 0x00, 0x03, 0x01] ++
    List.replicate 7 0

theorem newStreamHeader_eq (d : Draw) :
    newStreamHeader d = streamPreamble ++ (d.salt ++ d.nonce) := by
  rw [← append_assoc]
  rfl

/-- A header as written is read back. -/
theorem parseHeader_newStreamHeader (d : Draw) :
    ∃ h, parseHeader (newStreamHeader d) = .ok h ∧ h.version = versionStream ∧
      h.kdfID = kdfArgon2ID ∧ h.kdfParams = defaultKDFParams ∧ h.salt = d.salt := by
  have hl : ¬(newStreamHeader d).length < headerSize := by
    rw [newStreamHeader, length_headerBytes]
    exact Nat.lt_irrefl _
  have he : isEnvelope (newStreamHeader d) = true := by
    unfold isEnvelope
    rw [newStreamHeader_eq]
    exact decide_eq_true ⟨by simp [streamPreamble, magic, magicSize], rfl⟩
  unfold parseHeader
  rw [if_neg hl, if_pos he, newStreamHeader_eq]
  refine ⟨_, rfl, rfl, rfl, rfl, ?_⟩
  exact take_left' d.length_salt

/-! ## One round of the opening loop -/

variable {Key : Type} [DecidableEq Key] {C : Suite Key} {o : Opener Key}

/-- The state between the read of a frame and its delivery. -/
def Opening.after (s : Opening) (ciphertext rest : Bytes) : Opening :=
  { s with rest, cipherBytes := s.cipherBytes + 4 + ciphertext.length }

theorem Opening.frame_cases (s : Opening) :
    (∃ s' e, s.frame C o = .error (s', some e) ∧ s'.taken = s.taken ∧ ∀ w, e ≠ .joined w) ∨
    ∃ size ciphertext rest p, s.rest = size ++ ciphertext ++ rest ∧ size.length = 4 ∧
      fromBigEndian size ≤ streamChunkSize ∧
      C.aead.decrypt o.log o.key (streamNonce o.nonce s.counter) ciphertext
        (streamAAD o.header s.counter (fromBigEndian size)) = some p ∧
      ((fromBigEndian size = 0 ∧ rest = [] ∧ o.ends = true ∧
          s.frame C o = .error (s.after ciphertext rest, none)) ∨
        (fromBigEndian size ≠ 0 ∧ s.frame C o =
          (s.after ciphertext rest).deliver (fromBigEndian size) p)) := by
  cases hs : readFull 4 s.rest with
  | none =>
    left
    exact ⟨s, .decryptionFailed, by simp [frame, hs, fail], rfl, by simp⟩
  | some f =>
    obtain ⟨size, rest⟩ := f
    obtain ⟨hr, hfr⟩ := readFull_eq_some hs
    by_cases hb : fromBigEndian size > streamChunkSize ∨ s.plainBytes + fromBigEndian size > o.limit
    · left
      refine ⟨{ s with rest, cipherBytes := s.cipherBytes + 4 }, .invalidEnvelope, ?_, rfl, by simp⟩
      simp [frame, hs, hb, fail]
    · cases hc : readFull (fromBigEndian size + C.aead.overhead) rest with
      | none =>
        left
        refine ⟨{ s with rest, cipherBytes := s.cipherBytes + 4 }, .decryptionFailed, ?_, rfl,
          by simp⟩
        simp only [frame, hs, if_neg hb, hc, fail]
      | some f =>
        obtain ⟨ciphertext, rest'⟩ := f
        obtain ⟨hr', -⟩ := readFull_eq_some hc
        have hf : s.frame C o =
            (s.after ciphertext rest').accept C o (fromBigEndian size) ciphertext := by
          simp only [frame, hs, if_neg hb, hc, after]
        cases ho : C.aead.decrypt o.log o.key (streamNonce o.nonce s.counter) ciphertext
            (streamAAD o.header s.counter (fromBigEndian size)) with
        | none =>
          left
          refine ⟨s.after ciphertext rest', .decryptionFailed, ?_, rfl, by simp⟩
          rw [hf]
          simp only [accept, after, ho, fail]
        | some p =>
          by_cases hz : fromBigEndian size = 0
          · by_cases hd : rest' = [] ∧ o.ends
            · right
              refine ⟨size, ciphertext, rest', p, ?_, hfr, by omega, ho, .inl ?_⟩
              · rw [hr, hr', append_assoc]
              · refine ⟨hz, hd.1, hd.2, ?_⟩
                rw [hf]
                simp only [accept, after, ho, if_pos hz]
                exact if_pos hd
            · left
              refine ⟨s.after ciphertext rest', .invalidEnvelope, ?_, rfl, by simp⟩
              rw [hf]
              simp only [accept, after, ho, if_pos hz, fail]
              exact if_neg hd
          · right
            refine ⟨size, ciphertext, rest', p, ?_, hfr, by omega, ho, .inr ⟨hz, ?_⟩⟩
            · rw [hr, hr', append_assoc]
            · rw [hf]
              simp only [accept, after, ho, if_neg hz]

variable {p : Bytes}

theorem Opening.deliver_cases (s : Opening) {ps : ℕ} (hp : p.length = ps) :
    (∃ s', s.deliver ps p = .ok s' ∧ s.counter ≠ maxUint32 ∧ s'.counter = s.counter + 1 ∧
      s'.taken = s.taken ++ p ∧ s'.plainBytes = s.plainBytes + p.length ∧
      s'.replies = (writeFull s.replies p).2.2 ∧ s'.rest = s.rest) ∨
    (∃ s' e, s.deliver ps p = .error (s', some e) ∧
      ((e = .invalidEnvelope ∧ s.counter = maxUint32 ∧ s'.taken = s.taken ++ p) ∨
        (∃ w, e = .joined (some w) ∧ (writeFull s.replies p).2.1 = some w) ∧
          ∃ pr, pr <+: p ∧ s'.taken = s.taken ++ pr)) := by
  obtain ⟨ht, ha⟩ := writeFull_taken s.replies p
  simp only [deliver]
  cases he : (writeFull s.replies p).2.1 with
  | some w =>
    right
    rw [if_pos (.inl rfl)]
    exact ⟨_, _, rfl, .inr ⟨⟨w, rfl, rfl⟩, _, ht, rfl⟩⟩
  | none =>
    have hs := ha he
    rw [if_neg (by simp [hs, hp])]
    by_cases hc : s.counter = maxUint32
    · right
      rw [if_pos hc]
      exact ⟨_, _, rfl, .inl ⟨rfl, hc, by rw [hs]⟩⟩
    · left
      rw [if_neg hc]
      exact ⟨_, rfl, hc, rfl, by rw [hs], by rw [hs], rfl, rfl⟩

/-! ## Opening follows the frames of one sealing -/

/-- Whatever decrypts as frame `n` is the `n`-th of the frames. -/
def Opener.Follows (C : Suite Key) (o : Opener Key) (frames : List Bytes) : Prop :=
  ∀ {counter size : ℕ} {ciphertext p : Bytes}, counter ≤ maxUint32 → size ≤ streamChunkSize →
    C.aead.decrypt o.log o.key (streamNonce o.nonce counter) ciphertext
        (streamAAD o.header counter size) = some p →
      frames[counter]? = some p ∧ p.length = size ∧
        ciphertext = C.aead.ciphertext (frameRecord o.key o.header p counter)

/-- The frames before the counter have been read and delivered. -/
structure Progress (C : Suite Key) (o : Opener Key) (frames : List Bytes) (input : Bytes)
    (s : Opening) : Prop where
  counter : s.counter ≤ maxUint32
  length : s.counter ≤ frames.length
  taken : s.taken = (frames.take s.counter).flatten
  read : input = encodeFrom C o.key o.header 0 (frames.take s.counter) ++ s.rest

/-- How an opening of the input ends. -/
structure Stopped (C : Suite Key) (o : Opener Key) (frames : List Bytes) (input : Bytes)
    (result : Opening × Option Error) : Prop where
  aligned : ∃ k, result.1.taken <+: (frames.take k).flatten ∧
    ((∀ w, result.2 ≠ some (.joined w)) → result.1.taken = (frames.take k).flatten)
  whole : result.2 = none → ∃ k, frames[k]? = some [] ∧
    result.1.taken = (frames.take k).flatten ∧
    input = encodeFrom C o.key o.header 0 (frames.take (k + 1))

variable {fs : List Bytes} {i : Bytes}

omit [DecidableEq Key] in
theorem frameBytes_of_read {sz c : Bytes} {n : ℕ} (hs : sz.length = 4)
    (hp : p.length = fromBigEndian sz)
    (hc : c = C.aead.ciphertext (frameRecord o.key o.header p n)) :
    sz ++ c = frameBytes C o.key o.header p n := by
  rw [frameBytes, hp, Data.bigEndian_fromBigEndian hs, hc]

theorem flatten_take_succ {k : ℕ} (h : fs[k]? = some p) :
    (fs.take (k + 1)).flatten = (fs.take k).flatten ++ p := by
  obtain ⟨hk, rfl⟩ := List.getElem?_eq_some_iff.mp h
  rw [take_succ_eq_append_getElem hk, flatten_append, flatten_singleton]

variable {s : Opening}

theorem Progress.frame (hf : o.Follows C fs) (h : Progress C o fs i s) :
    (∃ s', s.frame C o = .ok s' ∧ Progress C o fs i s') ∨
      ∃ result, s.frame C o = .error result ∧ Stopped C o fs i result := by
  rcases s.frame_cases (C := C) (o := o) with
    ⟨s', e, hfr, ht, he⟩ | ⟨size, ciphertext, rest, p, hr, hfo, hsz, ho, hc⟩
  · right
    refine ⟨_, hfr, ⟨s.counter, ?_, ?_⟩, fun hn => by cases hn⟩
    · rw [ht, h.taken]
    · intro _
      rw [ht, h.taken]
  · obtain ⟨hp, hln, hcp⟩ := hf h.counter hsz ho
    have hb := frameBytes_of_read hfo hln hcp
    have hi : i = encodeFrom C o.key o.header 0 (fs.take (s.counter + 1)) ++ rest := by
      rw [encodeFrom_take_succ hp, ← hb, h.read, hr]
      simp only [append_assoc]
    have hfl := flatten_take_succ hp
    rcases hc with ⟨hz, hen, -, hfr⟩ | ⟨-, hfr⟩
    · right
      have hem : p = [] := length_eq_zero_iff.mp (by rw [hln, hz])
      refine ⟨_, hfr, ⟨s.counter, ?_, ?_⟩, ?_⟩
      · exact h.taken ▸ prefix_rfl
      · intro _
        exact h.taken
      · intro _
        refine ⟨s.counter, by rw [hp, hem], h.taken, ?_⟩
        rw [hi, hen, append_nil]
    · rcases (s.after ciphertext rest).deliver_cases hln with
        ⟨s', hd, hct, hnx, ht, -, -, hl⟩ | ⟨s', e, hd, hs⟩
      · left
        refine ⟨s', by rw [hfr, hd], ?_⟩
        have hc' : s'.counter = s.counter + 1 := hnx
        have ht' : s'.taken = s.taken ++ p := ht
        have hl' : s'.rest = rest := hl
        have hne : s.counter ≠ maxUint32 := hct
        have hk := (List.getElem?_eq_some_iff.mp hp).1
        have hle := h.counter
        refine ⟨by omega, by omega, ?_, ?_⟩
        · rw [ht', h.taken, hc', hfl]
        · rw [hc', hl', hi]
      · right
        refine ⟨_, by rw [hfr, hd], ⟨s.counter + 1, ?_⟩, fun hn => by cases hn⟩
        rw [hfl]
        rcases hs with ⟨-, -, ht⟩ | ⟨⟨w, rfl, -⟩, pr, hpr, ht⟩
        · have ht' : s'.taken = s.taken ++ p := ht
          rw [ht', h.taken]
          exact ⟨prefix_rfl, fun _ => rfl⟩
        · have ht' : s'.taken = s.taken ++ pr := ht
          rw [ht', h.taken]
          exact ⟨(prefix_append_right_inj _).mpr hpr, fun hno => absurd rfl (hno (some w))⟩

theorem Progress.run (hf : o.Follows C fs) (h : Progress C o fs i s) :
    Stopped C o fs i (s.frames C o) := by
  induction s using Opening.frames.induct C o with
  | case1 s result hst =>
    rw [Opening.frames]
    rcases h.frame hf with ⟨s', hfr, -⟩ | ⟨result', hfr, hs⟩
    · rw [hst] at hfr
      cases hfr
    · rw [hfr]
      exact hs
  | case2 s s' hn ih =>
    rw [Opening.frames]
    rcases h.frame hf with ⟨s'', hfr, hp⟩ | ⟨result', hfr, -⟩
    · rw [hn] at hfr
      cases hfr
      rw [hn]
      exact ih hp
    · rw [hn] at hfr
      cases hfr

/-! ## Opening the frames of a sealing -/

theorem readFull_append {n : ℕ} {f r : Bytes} (h : f.length = n) :
    readFull n (f ++ r) = some (f, r) := by
  unfold readFull
  rw [if_pos (by rw [length_append]; omega), take_left' h, drop_left' h]

theorem Opening.frame_of_rest {r : Bytes} (hn : o.nonce = o.header.drop (headerSize - nonceSize))
    (hm : frameRecord o.key o.header p s.counter ∈ o.log)
    (hrs : s.rest = frameBytes C o.key o.header p s.counter ++ r) (hf : p.length ≤ streamChunkSize)
    (hl : s.plainBytes + p.length ≤ o.limit) :
    s.frame C o =
      (s.after (C.aead.ciphertext (frameRecord o.key o.header p s.counter)) r).accept C o
        p.length (C.aead.ciphertext (frameRecord o.key o.header p s.counter)) ∧
    C.aead.decrypt o.log o.key (streamNonce o.nonce s.counter)
      (C.aead.ciphertext (frameRecord o.key o.header p s.counter))
      (streamAAD o.header s.counter p.length) = some p := by
  have hs : p.length < 256 ^ 4 := by
    unfold streamChunkSize at hf
    omega
  have hfr : readFull 4 s.rest = some (bigEndian 4 p.length,
      C.aead.ciphertext (frameRecord o.key o.header p s.counter) ++ r) := by
    rw [hrs, frameBytes, append_assoc]
    exact readFull_append (Data.length_bigEndian 4 _)
  have hr : readFull (p.length + C.aead.overhead)
      (C.aead.ciphertext (frameRecord o.key o.header p s.counter) ++ r) =
      some (C.aead.ciphertext (frameRecord o.key o.header p s.counter), r) :=
    readFull_append (C.aead.length_encrypt _ _ _ _)
  have hb : ¬(p.length > streamChunkSize ∨ s.plainBytes + p.length > o.limit) := by omega
  constructor
  · simp only [frame, hfr, Data.fromBigEndian_bigEndian hs, if_neg hb, hr, after]
  · rw [hn]
    exact Aead.decrypt_encrypt hm

/-- The frames of a sealing from the `n`-th on are all delivered. -/
theorem Opening.frames_complete {cs : List Bytes}
    (hn : o.nonce = o.header.drop (headerSize - nonceSize)) (he : o.ends = true)
    (hc : ∀ p ∈ cs, p ≠ [] ∧ p.length ≤ streamChunkSize)
    (hlg : ∀ r ∈ recordsFrom o.key o.header s.counter (cs ++ [[]]), r ∈ o.log)
    (hrs : s.rest = encodeFrom C o.key o.header s.counter (cs ++ [[]]))
    (hl : s.plainBytes + cs.flatten.length ≤ o.limit) (hct : s.counter + cs.length < maxUint32)
    (ha : Accepting s.replies) :
    (s.frames C o).2 = none ∧ (s.frames C o).1.taken = s.taken ++ cs.flatten := by
  induction cs generalizing s with
  | nil =>
    have hmm : frameRecord o.key o.header [] s.counter ∈ o.log := hlg _ mem_cons_self
    have hf : s.rest = frameBytes C o.key o.header [] s.counter ++ [] := hrs
    obtain ⟨hfr, ho⟩ := frame_of_rest hn hmm hf (Nat.zero_le _) hl
    have hd : s.frame C o =
        .error (s.after (C.aead.ciphertext (frameRecord o.key o.header [] s.counter)) [], none) := by
      rw [length_nil] at ho
      rw [hfr]
      simp only [accept, after, ho, length_nil, if_true]
      exact if_pos ⟨trivial, he⟩
    rw [Opening.frames, hd]
    exact ⟨rfl, by simp [after]⟩
  | cons p cs ih =>
    have hmm : frameRecord o.key o.header p s.counter ∈ o.log := hlg _ mem_cons_self
    obtain ⟨hp, hft⟩ := hc p mem_cons_self
    simp only [flatten_cons, length_append, length_cons] at hl hct
    obtain ⟨hfr, ho⟩ := frame_of_rest hn hmm hrs hft (by omega)
    have hdl : s.frame C o = (s.after (C.aead.ciphertext (frameRecord o.key o.header p s.counter))
        (encodeFrom C o.key o.header (s.counter + 1) (cs ++ [[]]))).deliver p.length p := by
      rw [hfr]
      simp only [accept, after, ho]
      exact if_neg (by simpa using hp)
    obtain ⟨hw, hlt⟩ := writeFull_accepting ha p
    rcases deliver_cases (s.after _ _) rfl with
      ⟨s', hok, -, hnx, ht, hpl, hrp, hlf⟩ | ⟨s', e, hb, hwh⟩
    · have hs := hdl.trans hok
      rw [Opening.frames, hs]
      have hn' : s'.counter = s.counter + 1 := hnx
      have ht' : s'.taken = s.taken ++ p := ht
      have hp' : s'.plainBytes = s.plainBytes + p.length := hpl
      have hr' : s'.replies = (writeFull s.replies p).2.2 := hrp
      obtain ⟨hnn, hal⟩ := ih (s := s') (fun q hq => hc q (mem_cons_of_mem _ hq))
        (by rw [hn']; exact fun r hr => hlg r (mem_cons_of_mem _ hr))
        (by rw [hn']; exact hlf) (by omega) (by omega) (by rw [hr']; exact hlt)
      exact ⟨hnn, by rw [hal, ht', flatten_cons, append_assoc]⟩
    · rcases hwh with ⟨-, hm, -⟩ | ⟨⟨w, -, hfl⟩, -⟩
      · have hm' : s.counter = maxUint32 := hm
        omega
      · have hf' : (writeFull s.replies p).2.1 = some w := hfl
        rw [hw] at hf'
        cases hf'

end Solovey.Backup
