import Solovey.Crypto.Aead
import Solovey.Data.BigEndian

/-!
# The encrypted backup stream

A stream is a header and a sequence of frames, one for each nonempty read of the source, then an
empty terminal frame. A frame is its plaintext size in four bytes and the sealed plaintext, with
the frame's number in the nonce and the header, the number and the size as associated data.

AES-GCM and the key derivation are parameters. The random salt and nonce of a header, the answers
of a source's `Read` and of a destination's `Write` are inputs.
-/

namespace Solovey.Backup

open Text (Bytes)
open Hash (bigEndian)
open Data (fromBigEndian)
open Crypto (Aead Record)

/-! ## Constants -/

/-- The bytes of `"SUI-TGBKP\x00"`. -/
def magic : Bytes := [0x53, 0x55, 0x49, 0x2d, 0x54, 0x47, 0x42, 0x4b, 0x50, 0x00]

def version : UInt8 := 1

def versionStream : UInt8 := 2

def kdfArgon2ID : UInt8 := 1

def magicSize : ℕ := 10

def versionSize : ℕ := 1

def kdfIDSize : ℕ := 1

def kdfParamsSize : ℕ := 16

def saltSize : ℕ := 16

def nonceSize : ℕ := 12

def headerSize : ℕ := magicSize + versionSize + kdfIDSize + kdfParamsSize + saltSize + nonceSize

def streamChunkSize : ℕ := 2 ^ 20

def maxStreamBytes : ℕ := 512 * 2 ^ 20

def maxUint32 : ℕ := 2 ^ 32 - 1

inductive WriteError
  | failed
  | shortWrite
  deriving DecidableEq, Repr

inductive Error
  | missingPassphrase
  | decryptionFailed
  | invalidEnvelope
  | exceedsBounds
  | readFailed
  | write (e : WriteError)
  /-- The write's error, if any, joined with a short write. -/
  | joined (e : Option WriteError)
  deriving DecidableEq, Repr

/-! ## The header -/

structure KDFParams where
  memoryKiB : ℕ
  iterations : ℕ
  parallelism : UInt8
  deriving DecidableEq, Repr

def defaultKDFParams : KDFParams := ⟨64 * 1024, 3, 1⟩

structure Header where
  version : UInt8
  kdfID : UInt8
  kdfParams : KDFParams
  rawKDFParams : Bytes
  salt : Bytes
  nonce : Bytes
  deriving DecidableEq, Repr

/-- The salt and the nonce that `rand.Reader` gives for one header. -/
structure Draw where
  salt : Bytes
  nonce : Bytes
  length_salt : salt.length = saltSize
  length_nonce : nonce.length = nonceSize
  deriving DecidableEq

def headerBytes (version : UInt8) (d : Draw) : Bytes :=
  magic ++ [version, kdfArgon2ID] ++ bigEndian 4 defaultKDFParams.memoryKiB ++
    bigEndian 4 defaultKDFParams.iterations ++ [defaultKDFParams.parallelism] ++
    List.replicate 7 0 ++ d.salt ++ d.nonce

def newStreamHeader (d : Draw) : Bytes := headerBytes versionStream d

/-- The bytes `b[from:from+n]`. -/
def slice (b : Bytes) (start n : ℕ) : Bytes := (b.drop start).take n

def isEnvelope (b : Bytes) : Bool := magicSize ≤ b.length ∧ b.take magicSize = magic

def parseHeader (b : Bytes) : Except Error Header :=
  if b.length < headerSize then .error .invalidEnvelope
  else if isEnvelope b then
    let kdfID := b.getD 11 0
    let raw := slice b 12 kdfParamsSize
    .ok {
      version := b.getD 10 0
      kdfID
      kdfParams :=
        if kdfID = kdfArgon2ID then
          ⟨fromBigEndian (slice raw 0 4), fromBigEndian (slice raw 4 4), raw.getD 8 0⟩
        else ⟨0, 0, 0⟩
      rawKDFParams := raw
      salt := slice b 28 saltSize
      nonce := slice b 44 nonceSize }
  else .error .invalidEnvelope

def validateKDFParams (k : KDFParams) : Bool :=
  64 * 1024 ≤ k.memoryKiB ∧ k.memoryKiB ≤ 1024 * 1024 ∧ 3 ≤ k.iterations ∧ k.iterations ≤ 16 ∧
    1 ≤ k.parallelism ∧ k.parallelism ≤ 4

/-! ## Sources and destinations -/

/-- What a `Read` reports besides its bytes. -/
inductive ReadStatus
  | more
  | eof
  | failed
  deriving DecidableEq, Repr

/-- The answer to one `Read` into the chunk buffer. -/
structure Read where
  data : Bytes
  status : ReadStatus
  fits : data.length ≤ streamChunkSize
  deriving DecidableEq

/-- The answer to one `Write`: how many of the bytes it took, and whether it reports an error. -/
structure Reply where
  count : ℕ
  failed : Bool
  deriving DecidableEq, Repr

/-- The bytes a destination takes of `data`, the error, and the destination's later answers. A
destination whose answers are used up takes everything. -/
def writeFull : List Reply → Bytes → Bytes × Option WriteError × List Reply
  | replies, [] => ([], none, replies)
  | [], data => (data, none, [])
  | reply :: replies, data =>
    let count := min reply.count data.length
    if reply.failed then (data.take count, some .failed, replies)
    else if count = 0 then ([], some .shortWrite, replies)
    else
      let rest := writeFull replies (data.drop count)
      (data.take count ++ rest.1, rest.2)

/-- `io.ReadFull`: the first `n` bytes and what follows them. -/
def readFull (n : ℕ) (source : Bytes) : Option (Bytes × Bytes) :=
  if n ≤ source.length then some (source.take n, source.drop n) else none

/-! ## Sealing -/

/-- The cipher and the key derivation. -/
structure Suite (Key : Type) where
  aead : Aead Key
  deriveKey : Bytes → Bytes → KDFParams → Key
  deriveKey_injective : ∀ {p p' salt salt' k k'},
    deriveKey p salt k = deriveKey p' salt' k' → p = p' ∧ salt = salt' ∧ k = k'

variable {Key : Type} (C : Suite Key)

def streamNonce (base : Bytes) (counter : ℕ) : Bytes := base.take 8 ++ bigEndian 4 counter

def streamAAD (header : Bytes) (counter size : ℕ) : Bytes :=
  header ++ bigEndian 4 counter ++ bigEndian 4 size

/-- The call of `gcm.Seal` for one frame. -/
def frameRecord (key : Key) (header plaintext : Bytes) (counter : ℕ) : Record Key where
  key := key
  nonce := streamNonce (header.drop (headerSize - nonceSize)) counter
  aad := streamAAD header counter plaintext.length
  plaintext := plaintext

def frameBytes (key : Key) (header plaintext : Bytes) (counter : ℕ) : Bytes :=
  bigEndian 4 plaintext.length ++ C.aead.ciphertext (frameRecord key header plaintext counter)

def sealFrame (key : Key) (header plaintext : Bytes) (counter : ℕ) : Except Error Bytes :=
  if plaintext.length > streamChunkSize then .error .invalidEnvelope
  else .ok (frameBytes C key header plaintext counter)

/-- The state of a sealing loop. `handed` is what has been handed to the destination, `taken` what
it took, `sealed` the calls of `gcm.Seal` and `ended` whether the terminal frame has been sealed. -/
structure Sealing (Key : Type) where
  counter : ℕ
  plainBytes : ℕ
  replies : List Reply
  handed : Bytes
  taken : Bytes
  sealed : List (Record Key)
  ended : Bool
  deriving DecidableEq

namespace Sealing

variable {C}

/-- `writeFull` to the destination. -/
def write (s : Sealing Key) (data : Bytes) : Sealing Key × Option Error :=
  let out := writeFull s.replies data
  ({ s with replies := out.2.2, handed := s.handed ++ data, taken := s.taken ++ out.1 },
    out.2.1.map .write)

variable (C) in
/-- `sealFrame` and the write of the frame. -/
def emit (key : Key) (header : Bytes) (s : Sealing Key) (plaintext : Bytes) :
    Sealing Key × Option Error :=
  match sealFrame C key header plaintext s.counter with
  | .error e => (s, some e)
  | .ok frame =>
    { s with sealed := s.sealed ++ [frameRecord key header plaintext s.counter] }.write frame

variable (C) in
/-- The body of the loop for the bytes of one read. -/
def chunk (key : Key) (header : Bytes) (s : Sealing Key) (data : Bytes) :
    Sealing Key × Option Error :=
  if data = [] then (s, none)
  else
    let s := { s with plainBytes := s.plainBytes + data.length }
    if s.plainBytes > maxStreamBytes ∨ s.counter = maxUint32 then (s, some .exceedsBounds)
    else
      let out := s.emit C key header data
      if out.2.isSome then out else ({ out.1 with counter := s.counter + 1 }, none)

variable (C) in
def terminal (key : Key) (header : Bytes) (s : Sealing Key) : Sealing Key × Option Error :=
  { s with ended := true }.emit C key header []

variable (C) in
/-- The loop over the source's reads; after the last one the source is at its end. -/
def run (key : Key) (header : Bytes) : List Read → Sealing Key → Sealing Key × Option Error
  | [], s => s.terminal C key header
  | r :: reads, s =>
    let out := s.chunk C key header r.data
    if out.2.isSome then out
    else
      match r.status with
      | .eof => out.1.terminal C key header
      | .failed => (out.1, some .readFailed)
      | .more => run key header reads out.1

end Sealing

/-- A call of `SealStream`. -/
structure SealCall where
  passphrase : Bytes
  draw : Draw
  reads : List Read
  replies : List Reply
  deriving DecidableEq

def SealCall.start (c : SealCall) : Sealing Key where
  counter := 0
  plainBytes := 0
  replies := c.replies
  handed := []
  taken := []
  sealed := []
  ended := false

def SealCall.header (c : SealCall) : Bytes := newStreamHeader c.draw

def SealCall.key (c : SealCall) : Key := C.deriveKey c.passphrase c.draw.salt defaultKDFParams

def sealStream (c : SealCall) : Sealing Key × Option Error :=
  if c.passphrase = [] then (c.start, some .missingPassphrase)
  else
    let out := (c.start : Sealing Key).write c.header
    if out.2.isSome then out else out.1.run C (c.key C) c.header c.reads

/-- A call of the whole-buffer `Build`; it seals once, under a header of version 1. -/
structure BuildCall where
  passphrase : Bytes
  draw : Draw
  plaintext : Bytes
  deriving DecidableEq

def build (b : BuildCall) : List (Record Key) :=
  if b.passphrase = [] then []
  else [⟨C.deriveKey b.passphrase b.draw.salt defaultKDFParams, b.draw.nonce,
    headerBytes version b.draw, b.plaintext⟩]

/-! ## Opening -/

/-- What a reader of an envelope gets: its bytes, and whether the `Read` after them reports the
end. -/
structure Source where
  data : Bytes
  ends : Bool
  deriving DecidableEq

/-- The state of an opening loop; `rest` is the part of the source not read yet. -/
structure Opening where
  counter : ℕ
  plainBytes : ℕ
  cipherBytes : ℕ
  replies : List Reply
  taken : Bytes
  rest : Bytes
  deriving DecidableEq

def effectiveLimit (maxPlainBytes : ℤ) : ℕ :=
  if maxPlainBytes ≤ 0 ∨ maxPlainBytes > maxStreamBytes then maxStreamBytes else maxPlainBytes.toNat

variable [DecidableEq Key]

/-- What stays fixed while a stream is opened. -/
structure Opener (Key : Type) where
  log : List (Record Key)
  key : Key
  header : Bytes
  nonce : Bytes
  limit : ℕ
  ends : Bool

namespace Opening

variable (o : Opener Key)

def fail (s : Opening) (e : Error) : Except (Opening × Option Error) Opening := .error (s, some e)

/-- The end of the body of the loop: the plaintext of a frame goes to the destination. -/
def deliver (s : Opening) (plainSize : ℕ) (plaintext : Bytes) :
    Except (Opening × Option Error) Opening :=
  let out := writeFull s.replies plaintext
  let s := { s with
    plainBytes := s.plainBytes + out.1.length, taken := s.taken ++ out.1, replies := out.2.2 }
  if out.2.1.isSome ∨ out.1.length ≠ plainSize then s.fail (.joined out.2.1)
  else if s.counter = maxUint32 then s.fail .invalidEnvelope
  else .ok { s with counter := s.counter + 1 }

/-- The body of the loop after the ciphertext has been read. -/
def accept (s : Opening) (plainSize : ℕ) (ciphertext : Bytes) :
    Except (Opening × Option Error) Opening :=
  match C.aead.decrypt o.log o.key (streamNonce o.nonce s.counter) ciphertext
      (streamAAD o.header s.counter plainSize) with
  | none => s.fail .decryptionFailed
  | some plaintext =>
    if plainSize = 0 then
      if s.rest = [] ∧ o.ends then .error (s, none) else s.fail .invalidEnvelope
    else s.deliver plainSize plaintext

/-- One round of the loop: a state to go on from, or the result. -/
def frame (s : Opening) : Except (Opening × Option Error) Opening :=
  match readFull 4 s.rest with
  | none => s.fail .decryptionFailed
  | some (size, rest) =>
    let s := { s with rest, cipherBytes := s.cipherBytes + 4 }
    let plainSize := fromBigEndian size
    if plainSize > streamChunkSize ∨ s.plainBytes + plainSize > o.limit then s.fail .invalidEnvelope
    else
      match readFull (plainSize + C.aead.overhead) s.rest with
      | none => s.fail .decryptionFailed
      | some (ciphertext, rest) =>
        { s with rest, cipherBytes := s.cipherBytes + ciphertext.length }.accept C o plainSize
          ciphertext

variable {C o}

variable {s s' : Opening}

theorem deliver_rest {ps : ℕ} {p : Bytes} (h : s.deliver ps p = .ok s') : s'.rest = s.rest := by
  unfold deliver at h
  simp only at h
  split at h
  · cases h
  · split at h
    · cases h
    · cases h
      rfl

theorem accept_rest {ps : ℕ} {c : Bytes} (h : s.accept C o ps c = .ok s') : s'.rest = s.rest := by
  unfold accept at h
  split at h
  · cases h
  · split at h
    · split at h <;> cases h
    · exact deliver_rest h

theorem readFull_eq_some {n : ℕ} {sr f r : Bytes} (h : readFull n sr = some (f, r)) :
    sr = f ++ r ∧ f.length = n := by
  unfold readFull at h
  split at h
  · next hn =>
    cases h
    exact ⟨(List.take_append_drop n sr).symm, List.length_take_of_le hn⟩
  · cases h

/-- Every round reads at least the four bytes of a size. -/
theorem frame_rest_lt (h : s.frame C o = .ok s') : s'.rest.length < s.rest.length := by
  unfold frame at h
  split at h
  · cases h
  · next size rest hsz =>
    simp only at h
    split at h
    · cases h
    · split at h
      · cases h
      · next ciphertext rest' hc =>
        obtain ⟨hs, hl⟩ := readFull_eq_some hsz
        obtain ⟨hr, -⟩ := readFull_eq_some hc
        rw [accept_rest h, hs, hr]
        simp only [List.length_append]
        omega

variable (C o) in
def frames (s : Opening) : Opening × Option Error :=
  match _h : s.frame C o with
  | .error result => result
  | .ok s' => frames s'
termination_by s.rest.length
decreasing_by exact frame_rest_lt _h

end Opening

def openStream (log : List (Record Key)) (source : Source) (passphrase : Bytes) (maxPlainBytes : ℤ)
    (replies : List Reply) : Opening × Option Error :=
  let start : Opening := ⟨0, 0, 0, replies, [], source.data⟩
  if passphrase = [] then (start, some .decryptionFailed)
  else
    match readFull headerSize source.data with
    | none => (start, some .invalidEnvelope)
    | some (header, rest) =>
      let s := { start with rest, cipherBytes := header.length }
      match parseHeader header with
      | .error _ => (s, some .invalidEnvelope)
      | .ok parsed =>
        if parsed.version = versionStream ∧ parsed.kdfID = kdfArgon2ID ∧
            validateKDFParams parsed.kdfParams then
          s.frames C {
            log
            key := C.deriveKey passphrase parsed.salt parsed.kdfParams
            header
            nonce := parsed.nonce
            limit := effectiveLimit maxPlainBytes
            ends := source.ends }
        else (s, some .invalidEnvelope)

end Solovey.Backup
