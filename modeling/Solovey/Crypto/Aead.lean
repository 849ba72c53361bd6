import Solovey.Text.Utf8

/-!
# Ideal authenticated encryption

What has been sealed so far is a log of records. Opening accepts a ciphertext exactly when the log
has a record with the same key, nonce and associated data whose ciphertext it is, and gives that
record's plaintext: nobody forges a ciphertext.
-/

namespace Solovey.Crypto

open List

open Text (Bytes)

/-- One call of the sealing operation. -/
structure Record (Key : Type) where
  key : Key
  nonce : Bytes
  aad : Bytes
  plaintext : Bytes
  deriving DecidableEq

/-- The sealing operation: a ciphertext is `overhead` bytes longer than its plaintext, and for one
key, nonce and associated data no two plaintexts share one. -/
structure Aead (Key : Type) where
  encrypt : Key → Bytes → Bytes → Bytes → Bytes
  overhead : ℕ
  length_encrypt : ∀ key nonce plaintext aad,
    (encrypt key nonce plaintext aad).length = plaintext.length + overhead
  encrypt_injective : ∀ {key nonce plaintext plaintext' aad},
    encrypt key nonce plaintext aad = encrypt key nonce plaintext' aad → plaintext = plaintext'

variable {Key : Type} [DecidableEq Key]

namespace Aead

variable (A : Aead Key)

def ciphertext (r : Record Key) : Bytes := A.encrypt r.key r.nonce r.plaintext r.aad

/-- Opening under the log of what has been sealed. -/
def decrypt (log : List (Record Key)) (key : Key) (nonce ciphertext aad : Bytes) : Option Bytes :=
  (log.find? fun r => r.key = key ∧ r.nonce = nonce ∧ r.aad = aad ∧ A.ciphertext r = ciphertext).map
    (·.plaintext)

variable {A}

theorem decrypt_eq_some {l : List (Record Key)} {k : Key} {n c a p : Bytes}
    (h : A.decrypt l k n c a = some p) :
    ⟨k, n, a, p⟩ ∈ l ∧ c = A.encrypt k n p a := by
  obtain ⟨r, hf, rfl⟩ := Option.map_eq_some_iff.mp h
  have hm := mem_of_find?_eq_some hf
  have hr := find?_some hf
  simp only [decide_eq_true_eq] at hr
  obtain ⟨rfl, rfl, rfl, rfl⟩ := hr
  exact ⟨hm, rfl⟩

theorem decrypt_encrypt {l : List (Record Key)} {k : Key} {n a p : Bytes} (h : ⟨k, n, a, p⟩ ∈ l) :
    A.decrypt l k n (A.encrypt k n p a) a = some p := by
  unfold decrypt
  obtain ⟨r, hf⟩ : ∃ r, l.find? (fun r => r.key = k ∧ r.nonce = n ∧ r.aad = a ∧
      A.ciphertext r = A.encrypt k n p a) = some r := by
    rw [← Option.isSome_iff_exists, find?_isSome]
    exact ⟨_, h, by simp [ciphertext]⟩
  have hr := find?_some hf
  simp only [decide_eq_true_eq] at hr
  obtain ⟨rfl, rfl, rfl, hc⟩ := hr
  rw [hf, Option.map_some, A.encrypt_injective hc]

end Aead

end Solovey.Crypto
