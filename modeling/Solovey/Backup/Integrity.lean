import Solovey.Backup.Opening

/-!
# Integrity of an encrypted stream

What the cipher has sealed is the history of all sealings and whole-buffer envelopes. A frame that
opens is the frame of its number in the sealing with this header and passphrase, so a stream is
accepted only as the whole output of one sealing.
-/

namespace Solovey.Backup

open List

open Text (Bytes)
open Hash (bigEndian)
open Data (fromBigEndian)
open Crypto (Aead Record)

/-- The calls that have sealed something so far; no two sealings drew the same random bytes. -/
structure History where
  sealings : List SealCall
  builds : List BuildCall
  fresh : sealings.Pairwise fun a b => a.draw ≠ b.draw

variable {Key : Type} {C : Suite Key}

def History.log (C : Suite Key) (H : History) : List (Record Key) :=
  H.sealings.flatMap (fun c => (sealStream C c).1.sealed) ++ H.builds.flatMap (build C)

/-- The plaintexts of the frames that a sealing sealed. -/
def SealCall.frames (C : Suite Key) (c : SealCall) : List Bytes :=
  (sealStream C c).1.sealed.map (·.plaintext)

/-- The stream is all that a sealing under the passphrase handed to its destination, to the end. -/
def History.Whole (C : Suite Key) (H : History) (passphrase stream : Bytes) (c : SealCall) : Prop :=
  c ∈ H.sealings ∧ c.passphrase = passphrase ∧ (sealStream C c).1.ended = true ∧
    stream = (sealStream C c).1.handed

variable {c : SealCall}

theorem Outcome.frames {cs : List Bytes}
    (h : Outcome C (c.key C) c.header (sourceBytes c.reads) (sealStream C c).1 cs) :
    c.frames C = if (sealStream C c).1.ended then cs ++ [[]] else cs := by
  rw [SealCall.frames, h.sealed, map_plaintext_recordsFrom]

theorem sealed_eq (C : Suite Key) (c : SealCall) :
    (sealStream C c).1.sealed = recordsFrom (c.key C) c.header 0 (c.frames C) := by
  obtain ⟨cs, h⟩ := sealStream_outcome C c
  rw [h.frames, h.sealed]

theorem length_frames_le (C : Suite Key) (c : SealCall) : (c.frames C).length ≤ maxUint32 := by
  obtain ⟨cs, h⟩ := sealStream_outcome C c
  have hl := length_le_flatten fun p hp => (h.nonempty p hp).1
  have hb := h.bound
  have hf : (c.frames C).length ≤ cs.length + 1 := by
    rw [h.frames]
    split <;> simp
  unfold maxStreamBytes at hb
  unfold maxUint32
  omega

theorem flatten_frames_prefix (C : Suite Key) (c : SealCall) :
    (c.frames C).flatten <+: sourceBytes c.reads := by
  obtain ⟨cs, h⟩ := sealStream_outcome C c
  have hf : (c.frames C).flatten = cs.flatten := by
    rw [h.frames]
    split <;> simp
  rw [hf]
  exact h.pre

theorem streamNonce_injective {b : Bytes} {m n : ℕ} (hm : m ≤ maxUint32) (hn : n ≤ maxUint32)
    (h : streamNonce b m = streamNonce b n) : m = n := by
  unfold maxUint32 at hm hn
  exact Data.bigEndian_injective (n := 4) (by omega) (by omega) (append_cancel_left h)

theorem map_nonce_recordsFrom (k : Key) (header : Bytes) (n : ℕ) (ps : List Bytes) :
    (recordsFrom k header n ps).map (·.nonce) =
      (List.range' n ps.length).map (streamNonce (header.drop (headerSize - nonceSize))) := by
  induction ps generalizing n with
  | nil => rfl
  | cons p ps ih => rw [recordsFrom, map_cons, ih, length_cons, range'_succ]; rfl

/-- The frames of a sealing have different nonces. -/
theorem nonces_nodup (C : Suite Key) (c : SealCall) :
    ((sealStream C c).1.sealed.map (·.nonce)).Nodup := by
  rw [sealed_eq, map_nonce_recordsFrom]
  refine List.Nodup.map_on ?_ nodup_range'
  intro m hm n hn h
  have hl := length_frames_le C c
  rw [mem_range'_1] at hm hn
  exact streamNonce_injective (by omega) (by omega) h

theorem streamAAD_injective {header he' : Bytes} {m n s s' : ℕ} (hh : header.length = he'.length)
    (hm : m ≤ maxUint32) (hn : n ≤ maxUint32) (hs : s ≤ streamChunkSize)
    (hs' : s' ≤ streamChunkSize) (h : streamAAD header m s = streamAAD he' n s') :
    header = he' ∧ m = n ∧ s = s' := by
  unfold maxUint32 at hm hn
  unfold streamChunkSize at hs hs'
  obtain ⟨hf, hl⟩ := append_inj' h (by simp)
  obtain ⟨hb, hc⟩ := append_inj hf hh
  exact ⟨hb, Data.bigEndian_injective (n := 4) (by omega) (by omega) hc,
    Data.bigEndian_injective (n := 4) (by omega) (by omega) hl⟩

theorem frames_fit {k : ℕ} {p : Bytes} (h : (c.frames C)[k]? = some p) :
    p.length ≤ streamChunkSize := by
  obtain ⟨cs, ho⟩ := sealStream_outcome C c
  have hm := mem_of_getElem? h
  rw [ho.frames] at hm
  split at hm
  · rcases mem_append.mp hm with hp | hp
    · exact (ho.nonempty p hp).2
    · rw [mem_singleton.mp hp]
      exact Nat.zero_le _
  · exact (ho.nonempty p hm).2

variable {H : History}

/-- What the history holds under a frame's associated data is that frame of a sealing. -/
theorem History.mem_log {ky : Key} {n header p : Bytes} {cn s : ℕ} (hh : header.length = headerSize)
    (hct : cn ≤ maxUint32) (hs : s ≤ streamChunkSize)
    (h : ⟨ky, n, streamAAD header cn s, p⟩ ∈ H.log C) :
    ∃ c ∈ H.sealings, c.header = header ∧ c.key C = ky ∧ (c.frames C)[cn]? = some p ∧
      p.length = s := by
  rcases mem_append.mp h with h | h
  · obtain ⟨c, hc, hm⟩ := mem_flatMap.mp h
    rw [sealed_eq] at hm
    obtain ⟨k, q, hq, hr⟩ := mem_recordsFrom.mp hm
    rw [Nat.zero_add] at hr
    have hk := (List.getElem?_eq_some_iff.mp hq).1
    have hle := length_frames_le C c
    have ha : streamAAD header cn s = streamAAD c.header k q.length := congrArg Record.aad hr
    have hky : ky = c.key C := congrArg Record.key hr
    have hp : p = q := congrArg Record.plaintext hr
    have hl : header.length = c.header.length := by
      rw [hh, SealCall.header, newStreamHeader, length_headerBytes]
    obtain ⟨rfl, rfl, rfl⟩ := streamAAD_injective hl hct (by omega) hs (frames_fit hq) ha
    exact ⟨c, hc, rfl, hky.symm, hp ▸ hq, by rw [hp]⟩
  · -- an envelope's associated data is its header alone
    obtain ⟨b, -, hm⟩ := mem_flatMap.mp h
    unfold build at hm
    split at hm
    · cases hm
    · have hr := mem_singleton.mp hm
      have ha := congrArg (fun r => r.aad.length) hr
      simp only [streamAAD, length_append, Data.length_bigEndian, hh, length_headerBytes] at ha
      omega

theorem History.header_injective {a b : SealCall} (ha : a ∈ H.sealings) (hb : b ∈ H.sealings)
    (h : a.header = b.header) : a = b := by
  have hn : (H.sealings.map (·.draw)).Nodup := pairwise_map.mpr H.fresh
  exact inj_on_of_nodup_map hn ha hb (headerBytes_injective h)

theorem SealCall.passphrase_of_key {p s : Bytes} {k : KDFParams} (h : c.key C = C.deriveKey p s k) :
    c.passphrase = p :=
  (C.deriveKey_injective h).1

/-- Only the last frame of a sealing is empty. -/
theorem whole_of_empty_frame {k : ℕ} (h : (c.frames C)[k]? = some []) :
    (sealStream C c).1.ended = true ∧ (c.frames C).take (k + 1) = c.frames C ∧
      ((c.frames C).take k).flatten = sourceBytes c.reads ∧
      (sealStream C c).1.handed = c.header ++ encodeFrom C (c.key C) c.header 0 (c.frames C) := by
  obtain ⟨cs, ho⟩ := sealStream_outcome C c
  have hno : cs[k]? ≠ some [] := fun hk => (ho.nonempty [] (mem_of_getElem? hk)).1 rfl
  have hf := ho.frames
  cases he : (sealStream C c).1.ended with
  | false =>
    rw [he, if_neg (by simp)] at hf
    rw [hf] at h
    exact absurd h hno
  | true =>
    rw [he, if_pos rfl] at hf
    obtain ⟨hh, hfl⟩ := ho.handed he
    have hk : k = cs.length := by
      rw [hf] at h
      rcases Nat.lt_trichotomy k cs.length with hlt | heq | hgt
      · rw [getElem?_append_left hlt] at h
        exact absurd h hno
      · exact heq
      · rw [getElem?_append_right hgt.le, getElem?_eq_none (by simp; omega)] at h
        cases h
    subst hk
    refine ⟨rfl, ?_, ?_, ?_⟩
    · rw [hf]
      exact take_of_length_le (by simp)
    · rw [hf, take_left, hfl]
    · rw [hf, hh]

variable [DecidableEq Key]

/-- Opening under a header and a passphrase follows the sealing that has both, if there is one. -/
theorem History.follows {o : Opener Key} (hlg : o.log = H.log C) (hh : o.header.length = headerSize)
    (hn : o.nonce = o.header.drop (headerSize - nonceSize)) :
    o.Follows C [] ∨ ∃ c ∈ H.sealings, c.header = o.header ∧ c.key C = o.key ∧
      o.Follows C (c.frames C) := by
  by_cases hex : ∃ c ∈ H.sealings, c.header = o.header ∧ c.key C = o.key
  · right
    obtain ⟨c, hc, hch, hck⟩ := hex
    refine ⟨c, hc, hch, hck, ?_⟩
    intro cn size ciphertext p hct hs ho
    obtain ⟨hm, hcp⟩ := Aead.decrypt_eq_some ho
    rw [hlg] at hm
    obtain ⟨c', hc', hch', -, hp, hl⟩ := mem_log hh hct hs hm
    cases header_injective hc hc' (hch.trans hch'.symm)
    refine ⟨hp, hl, ?_⟩
    rw [hcp, hn, ← hl]
    rfl
  · left
    intro cn size ciphertext p hct hs ho
    obtain ⟨hm, -⟩ := Aead.decrypt_eq_some ho
    rw [hlg] at hm
    obtain ⟨c, hc, hch, hck, -⟩ := mem_log hh hct hs hm
    exact absurd ⟨c, hc, hch, hck⟩ hex

/-- The loop's fixed data for a header that has been read. -/
def openerFor (C : Suite Key) (log : List (Record Key)) (header passphrase : Bytes)
    (parsed : Header) (maxPlainBytes : ℤ) (ends : Bool) : Opener Key where
  log := log
  key := C.deriveKey passphrase parsed.salt parsed.kdfParams
  header := header
  nonce := parsed.nonce
  limit := effectiveLimit maxPlainBytes
  ends := ends

theorem openStream_cases (C : Suite Key) (l : List (Record Key)) (sr : Source) (ps : Bytes) (ms : ℤ)
    (rs : List Reply) :
    (∃ s e, openStream C l sr ps ms rs = (s, some e) ∧ s.taken = [] ∧ ∀ w, e ≠ .joined w) ∨
    ∃ header rest p, sr.data = header ++ rest ∧ header.length = headerSize ∧
      parseHeader header = .ok p ∧
      openStream C l sr ps ms rs = Opening.frames C (openerFor C l header ps p ms sr.ends)
          ⟨0, 0, header.length, rs, [], rest⟩ := by
  unfold openStream
  split
  · left
    exact ⟨_, _, rfl, rfl, by simp⟩
  · simp only
    split
    · left
      exact ⟨_, _, rfl, rfl, by simp⟩
    · next header rest hr =>
      obtain ⟨hd, hl⟩ := Opening.readFull_eq_some hr
      split
      · left
        exact ⟨_, _, rfl, rfl, by simp⟩
      · next p hp =>
        split
        · right
          exact ⟨header, rest, p, hd, hl, hp, rfl⟩
        · left
          exact ⟨_, _, rfl, rfl, by simp⟩

/-- How opening any source ends. -/
theorem openStream_stopped (C : Suite Key) (H : History) (sr : Source) (p : Bytes) (ms : ℤ)
    (rs : List Reply) {r : Opening × Option Error} (hrs : openStream C (H.log C) sr p ms rs = r) :
    (∃ frames k, (frames = [] ∨ ∃ c ∈ H.sealings, c.passphrase = p ∧
        frames = c.frames C) ∧ r.1.taken <+: (frames.take k).flatten ∧
      ((∀ w, r.2 ≠ some (.joined w)) → r.1.taken = (frames.take k).flatten)) ∧
    (r.2 = none → ∃ c, H.Whole C p sr.data c ∧ r.1.taken = sourceBytes c.reads) := by
  rcases openStream_cases C (H.log C) sr p ms rs with
    ⟨s, e, ho, ht, -⟩ | ⟨header, rest, parsed, hd, hl, hp, ho⟩
  · rw [ho] at hrs
    subst hrs
    exact ⟨⟨[], 0, .inl rfl, by simp [ht], fun _ => by simp [ht]⟩, fun hnn => by cases hnn⟩
  · rw [ho] at hrs
    subst hrs
    have hn := parseHeader_nonce hl hp
    have hs : ∀ frames, Progress C (openerFor C (H.log C) header p parsed ms sr.ends) frames rest
        ⟨0, 0, header.length, rs, [], rest⟩ := by
      intro frames
      exact ⟨Nat.zero_le _, Nat.zero_le _, rfl, rfl⟩
    rcases History.follows (C := C) (H := H)
        (o := openerFor C (H.log C) header p parsed ms sr.ends) rfl hl
        hn with hf | ⟨c, hc, hh, hky, hf⟩
    · obtain ⟨⟨k, hk⟩, hw⟩ := (hs []).run hf
      refine ⟨⟨[], k, .inl rfl, hk⟩, ?_⟩
      intro hnn
      obtain ⟨j, hj, -⟩ := hw hnn
      cases hj
    · obtain ⟨⟨k, hk⟩, hw⟩ := (hs (c.frames C)).run hf
      have hps := SealCall.passphrase_of_key hky
      refine ⟨⟨c.frames C, k, .inr ⟨c, hc, hps, rfl⟩, hk⟩, ?_⟩
      intro hnn
      obtain ⟨j, hj, ht, hr⟩ := hw hnn
      obtain ⟨he, htk, hpl, hhn⟩ := whole_of_empty_frame hj
      refine ⟨c, ⟨hc, hps, he, ?_⟩, ht.trans hpl⟩
      rw [hd, hhn, hr, htk, ← hky, ← hh]
      exact congrArg (· ++ _) hh.symm

/-- The whole output of a sealing opens to its plaintext. -/
theorem openStream_sealed (hc : c ∈ H.sealings) (hps : c.passphrase ≠ [])
    (he : (sealStream C c).1.ended = true) {ms : ℤ}
    (hl : (sourceBytes c.reads).length ≤ effectiveLimit ms) {rs : List Reply} (ha : Accepting rs)
    {rl : Opening × Option Error}
    (hrs : openStream C (H.log C) ⟨(sealStream C c).1.handed, true⟩ c.passphrase ms rs = rl) :
    rl.2 = none ∧ rl.1.taken = sourceBytes c.reads := by
  obtain ⟨cs, hot⟩ := sealStream_outcome C c
  obtain ⟨hhn, hf⟩ := hot.handed he
  obtain ⟨pr, hpr, hv, hk, hpa, hsl⟩ := parseHeader_newStreamHeader c.draw
  have hh : c.header.length = headerSize := length_headerBytes _ _
  have hn := parseHeader_nonce hh hpr
  have ho : rl = Opening.frames C (openerFor C (H.log C) c.header c.passphrase pr ms true)
      ⟨0, 0, c.header.length, rs, [], encodeFrom C (c.key C) c.header 0 (cs ++ [[]])⟩ := by
    rw [← hrs, hhn]
    unfold openStream
    rw [if_neg hps]
    simp only [readFull_append hh]
    have hp' : parseHeader c.header = .ok pr := hpr
    have hok : pr.version = versionStream ∧ pr.kdfID = kdfArgon2ID ∧
        validateKDFParams pr.kdfParams := ⟨hv, hk, by rw [hpa]; decide⟩
    simp only [hp']
    rw [if_pos hok]
    rfl
  have hky : C.deriveKey c.passphrase pr.salt pr.kdfParams = c.key C := by
    rw [hsl, hpa]
    rfl
  have hln := length_le_flatten fun p hp => (hot.nonempty p hp).1
  have hb := hot.bound
  have hlg : ∀ r ∈ recordsFrom (C.deriveKey c.passphrase pr.salt pr.kdfParams) c.header 0
      (cs ++ [[]]), r ∈ H.log C := by
    intro r hr
    have hs := hot.sealed
    rw [he, if_pos rfl] at hs
    refine mem_append_left _ (mem_flatMap.mpr ⟨c, hc, ?_⟩)
    rw [hs, ← hky]
    exact hr
  have hct : 0 + cs.length < maxUint32 := by
    unfold maxStreamBytes at hb
    unfold maxUint32
    omega
  rw [← hf, ← Nat.zero_add cs.flatten.length] at hl
  rw [← hky] at ho
  obtain ⟨hnn, ht⟩ := Opening.frames_complete (C := C)
    (o := openerFor C (H.log C) c.header c.passphrase pr ms true)
    (s := ⟨0, 0, c.header.length, rs, [],
      encodeFrom C (C.deriveKey c.passphrase pr.salt pr.kdfParams) c.header 0 (cs ++ [[]])⟩)
    hn rfl hot.nonempty hlg rfl hl hct ha
  rw [ho]
  exact ⟨hnn, ht.trans hf⟩

/-- Sealing and opening give back the plaintext; a source that is not the whole output of a sealing
under the passphrase is refused after whole frames of at most one sealing; and the frames of a
sealing have different nonces. -/
theorem stream_integrity (C : Suite Key) (H : History) :
    (∀ c ∈ H.sealings, c.passphrase ≠ [] → reachesEnd c.reads →
      (sourceBytes c.reads).length ≤ maxStreamBytes → Accepting c.replies →
      (sealStream C c).2 = none ∧
        ∀ (maxPlainBytes : ℤ) (replies : List Reply),
          (sourceBytes c.reads).length ≤ effectiveLimit maxPlainBytes → Accepting replies →
          (openStream C (H.log C) ⟨(sealStream C c).1.taken, true⟩ c.passphrase maxPlainBytes
            replies).2 = none ∧
          (openStream C (H.log C) ⟨(sealStream C c).1.taken, true⟩ c.passphrase maxPlainBytes
            replies).1.taken = sourceBytes c.reads) ∧
    (∀ (source : Source) (passphrase : Bytes) (maxPlainBytes : ℤ) (replies : List Reply)
      (result : Opening × Option Error),
      openStream C (H.log C) source passphrase maxPlainBytes replies = result →
      ((¬∃ c, H.Whole C passphrase source.data c) → result.2 ≠ none) ∧
      (result.2 = none →
        ∃ c, H.Whole C passphrase source.data c ∧ result.1.taken = sourceBytes c.reads) ∧
      ∃ frames k, (frames = [] ∨ ∃ c ∈ H.sealings, c.passphrase = passphrase ∧
          frames = c.frames C ∧ frames.flatten <+: sourceBytes c.reads) ∧
        result.1.taken <+: (frames.take k).flatten ∧
        ((∀ w, result.2 ≠ some (.joined w)) → result.1.taken = (frames.take k).flatten)) ∧
    ∀ c, ((sealStream C c).1.sealed.map (·.nonce)).Nodup := by
  refine ⟨?_, ?_, nonces_nodup C⟩
  · intro c hc hp hed hb hac
    obtain ⟨her, ht, hen⟩ := sealStream_succeeds (C := C) hp hed hb hac
    refine ⟨her, ?_⟩
    intro maxPlainBytes replies hl hrp
    rw [ht]
    exact openStream_sealed hc hp hen hl hrp rfl
  · intro source passphrase maxPlainBytes replies result hr
    obtain ⟨⟨frames, k, hf, ha⟩, hw⟩ :=
      openStream_stopped C H source passphrase maxPlainBytes replies hr
    refine ⟨?_, hw, frames, k, ?_, ha⟩
    · intro hno hn
      obtain ⟨c, hc, -⟩ := hw hn
      exact hno ⟨c, hc⟩
    · rcases hf with he | ⟨c, hc, hp, hf⟩
      · exact .inl he
      · exact .inr ⟨c, hc, hp, hf, by rw [hf]; exact flatten_frames_prefix C c⟩

/-! A suite whose cipher only adds a tag, and a sealing of two bytes in two reads. -/

def sampleSuite : Suite (Bytes × Bytes × KDFParams) where
  aead := {
    encrypt := fun _ _ plaintext _ => plaintext ++ List.replicate 16 0
    overhead := 16
    length_encrypt := by simp
    encrypt_injective := fun h => List.append_cancel_right h }
  deriveKey passphrase salt k := (passphrase, salt, k)
  deriveKey_injective := by
    intro p p' salt salt' k k' h
    cases h
    exact ⟨rfl, rfl, rfl⟩

def sampleCall : SealCall where
  passphrase := [0x70]
  draw := ⟨List.replicate 16 1, List.replicate 12 2, rfl, rfl⟩
  reads := [⟨[7], .more, by decide⟩, ⟨[8], .eof, by decide⟩]
  replies := []

def sampleHistory : History := ⟨[sampleCall], [], List.pairwise_singleton _ _⟩

theorem stream_integrity_sample :
    (openStream sampleSuite (sampleHistory.log sampleSuite)
      ⟨(sealStream sampleSuite sampleCall).1.taken, true⟩ [0x70] 2 []).1.taken = [7, 8] := by
  obtain ⟨-, ho⟩ := (stream_integrity sampleSuite sampleHistory).1 sampleCall
    mem_cons_self (by decide) rfl (by decide) (by simp [Accepting, sampleCall])
  exact (ho 2 [] (by decide) (by simp [Accepting])).2

end Solovey.Backup
