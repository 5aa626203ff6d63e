import CoinRelay.Crypto.ChaCha20
import CoinRelay.Crypto.Poly1305

/-!
# Authenticated encryption

XChaCha20-Poly1305: the key stream hides a message, and a tag over the associated octets and the hidden ones shows
whether either was changed.

- `Aead.encrypt`, `Aead.decrypt?`;
- `Aead.decrypt?_encrypt`: what was encrypted decrypts under the same key, nonce and associated octets.
-/

namespace CoinRelay.Crypto.Aead

/-- The length of a tag. -/
def tagLength : Nat := 16

/-- The length of a nonce. -/
def nonceLength : Nat := 24

/-- The key and the short nonce that a long nonce stands for. -/
def session (key nonce : Octets) : Octets × Octets :=
  (ChaCha20.subkey key nonce, nonce.drop 16)

/-- Combines a message with the key stream. -/
def conceal (stream message : Octets) : Octets :=
  List.zipWith (· ^^^ ·) message stream

/-- The zeros that fill octets up to whole blocks of sixteen. -/
def padding (n : Nat) : Octets := List.replicate ((16 - n % 16) % 16) 0

/-- What a tag is computed over. -/
def tagged (associated hidden : Octets) : Octets :=
  associated ++ padding associated.length ++ hidden ++ padding hidden.length ++
    (Octets.bigEndian 8 associated.length).reverse ++ (Octets.bigEndian 8 hidden.length).reverse

/-- The tag of hidden octets under a key, a short nonce and associated octets. -/
def tag (key nonce associated hidden : Octets) : Octets :=
  poly1305 ((ChaCha20.block key nonce 0).take 32) (tagged associated hidden)

/-- Hides a message and puts the tag behind it. -/
def encrypt (key nonce associated message : Octets) : Octets :=
  let (key, nonce) := session key nonce
  let hidden := conceal (ChaCha20.stream key nonce 1 message.length) message
  hidden ++ tag key nonce associated hidden

/-- The message in a box, if its tag is right. -/
def decrypt? (key nonce associated box : Octets) : Option Octets :=
  let (key, nonce) := session key nonce
  let hidden := box.take (box.length - tagLength)
  if tagLength ≤ box.length ∧ box.drop (box.length - tagLength) = tag key nonce associated hidden then
    some (conceal (ChaCha20.stream key nonce 1 hidden.length) hidden)
  else none

/-! ## Decrypting what was encrypted -/

theorem length_block (key nonce : Octets) (counter : UInt32) : (ChaCha20.block key nonce counter).length = 64 := by
  simp [ChaCha20.block, ChaCha20.State.octets, ChaCha20.Row.octets, ChaCha20.wordOctets]

theorem le_length_stream (key nonce : Octets) (counter : UInt32) (n : Nat) :
    n ≤ (ChaCha20.stream key nonce counter n).length := by
  simp only [ChaCha20.stream, List.length_flatMap, length_block, List.map_const', List.length_range,
    List.sum_replicate_nat]
  omega

theorem conceal_conceal {stream message : Octets} (h : message.length ≤ stream.length) :
    conceal stream (conceal stream message) = message := by
  induction message generalizing stream with
  | nil => simp [conceal]
  | cons b message ih =>
    cases stream with
    | nil => simp at h
    | cons k stream =>
      have := @ih stream (by simpa using h)
      simp only [conceal, List.zipWith_cons_cons, List.cons.injEq] at this ⊢
      exact ⟨by rw [UInt8.xor_assoc, UInt8.xor_self, UInt8.xor_zero], this⟩

theorem length_conceal {stream message : Octets} (h : message.length ≤ stream.length) :
    (conceal stream message).length = message.length := by
  simp [conceal, h]

theorem length_tag (key nonce associated hidden : Octets) : (tag key nonce associated hidden).length = tagLength :=
  length_poly1305 _ _

theorem length_encrypt (key nonce associated message : Octets) :
    (encrypt key nonce associated message).length = message.length + tagLength := by
  simp only [encrypt, List.length_append, length_tag, length_conceal (le_length_stream _ _ _ _)]

theorem take_sub_length {hidden t : Octets} (h : t.length = tagLength) :
    (hidden ++ t).take ((hidden ++ t).length - tagLength) = hidden := by
  simp [h]

theorem drop_sub_length {hidden t : Octets} (h : t.length = tagLength) :
    (hidden ++ t).drop ((hidden ++ t).length - tagLength) = t := by
  simp [h]

/-- A box opens under the key, the nonce and the associated octets that it was made with. -/
theorem decrypt?_encrypt (key nonce associated message : Octets) :
    decrypt? key nonce associated (encrypt key nonce associated message) = some message := by
  have hle : tagLength ≤ (encrypt key nonce associated message).length := by
    rw [length_encrypt]
    exact Nat.le_add_left _ _
  unfold decrypt?
  simp only [hle, true_and]
  unfold encrypt
  generalize session key nonce = keyNonce
  obtain ⟨k, n⟩ := keyNonce
  simp only
  have hs := le_length_stream k n 1 message.length
  have hc := length_conceal hs
  rw [take_sub_length (length_tag _ _ _ _), drop_sub_length (length_tag _ _ _ _), if_pos rfl, hc, conceal_conceal hs]

end CoinRelay.Crypto.Aead
