/-
The encrypted values of the HD backend's database.

`encrypt_data` puts a 4-byte little-endian length header in front of a value, pads it with zeros so that, with the
random 32-byte iv in front, it fills a power of two of at least 256 bytes, and encrypts it with `chacha(20, ...)`
under a key hashed from the wallet key and the iv. `decrypt_data` reads the iv, decrypts and cuts the value out by its
header.

- `growActualSize_spec`: the doubling loop stops at the least power of two that is at least 256 and at least the
  value's length plus 36, as long as that power is reachable in the loop's 64 rounds.
- `decryptData_encryptData`: for every value shorter than `2^31` bytes decryption gives the value back with neither
  `invariant` failing, and the ciphertext is exactly that power of two long.
-/
import BytecoinWallet.Types

namespace BytecoinWallet.HD

/-! ## The model -/

/-- `MIN_SIZE` -/
def minSize : ℕ := 256

/-- `EXTRA_SIZE`: the iv and the actual size -/
def extraSize : ℕ := 32 + 4

/-- `while (actual_size < data.size() + EXTRA_SIZE || actual_size < MIN_SIZE) actual_size *= 2`, for a value of
`dataSize` bytes, run at most `fuel` times -/
def growActualSize : ℕ → ℕ → ℕ → ℕ
  | 0, _, actualSize => actualSize
  | fuel + 1, dataSize, actualSize =>
    if actualSize < dataSize + extraSize ∨ actualSize < minSize then growActualSize fuel dataSize (actualSize * 2)
    else actualSize

/-- the chacha key of one value: `cn_fast_hash(wallet_key ‖ iv)` -/
def valueKey (P : Primitives) (walletKey : ChachaKey) (iv : Hash) : ChachaKey :=
  P.cnFastHash (walletKey.data ++ iv.data)

/-- `WalletHD::encrypt_data(wallet_key, data)`, with `iv` the value `crypto::rand<Hash>()` drew. The loop starts at 1
and doubles a `size_t`, so it runs at most 64 times. `large_data` is `actual_size - 32` zero bytes with the header
and the value copied to its start; the loop makes it long enough for both. -/
def encryptData (P : Primitives) (walletKey : ChachaKey) (iv : Hash) (data : BinaryArray) : BinaryArray :=
  let actualSize := growActualSize 64 data.length 1
  let largeData := uintLeToBytes 4 data.length ++ data ++ List.replicate (actualSize - 32 - 4 - data.length) 0
  iv.data ++ chachaXor (P.chacha 20 (valueKey P walletKey iv) (Pod.zero 8)) largeData

/-- `WalletHD::decrypt_data(wallet_key, value_data, value_size)`; a failed `invariant` throws -/
def decryptData (P : Primitives) (walletKey : ChachaKey) (value : BinaryArray) : Except Failure BinaryArray :=
  if value.length < 4 + 32 then .error .invariantFailed
  else
    let iv := Pod.ofBytes 32 value
    let result := chachaXor (P.chacha 20 (valueKey P walletKey iv) (Pod.zero 8)) (value.drop 32)
    let realSize := uintLeFromBytes (result.take 4)
    if realSize ≤ result.length - 4 then .ok ((result.drop 4).take realSize) else .error .invariantFailed

/-! ## The size loop -/

/-- from `2 ^ i`, with a large enough power of two within `fuel` doublings, the loop stops at the first power of two
from `2 ^ i` on that is at least 256 and at least `n + 36` -/
theorem growActualSize_spec (n : ℕ) : ∀ (fuel i : ℕ), n + extraSize ≤ 2 ^ (i + fuel) → minSize ≤ 2 ^ (i + fuel) →
    ∃ k, growActualSize fuel n (2 ^ i) = 2 ^ k ∧ minSize ≤ 2 ^ k ∧ n + extraSize ≤ 2 ^ k ∧
      ∀ j, i ≤ j → j < k → 2 ^ j < n + extraSize ∨ 2 ^ j < minSize
  | 0, i, hn, hmin => ⟨i, rfl, hmin, hn, fun j hij hjk => absurd hjk (by omega)⟩
  | fuel + 1, i, hn, hmin => by
    by_cases hc : 2 ^ i < n + extraSize ∨ 2 ^ i < minSize
    · obtain ⟨k, hk, hkmin, hkn, hleast⟩ :=
        growActualSize_spec n fuel (i + 1) (by rwa [Nat.add_right_comm]) (by rwa [Nat.add_right_comm])
      refine ⟨k, by rw [growActualSize, if_pos hc, ← pow_succ, hk], hkmin, hkn, fun j hij hjk => ?_⟩
      rcases Nat.eq_or_lt_of_le hij with rfl | hij
      · exact hc
      · exact hleast j hij hjk
    · refine ⟨i, by rw [growActualSize, if_neg hc], ?_, ?_, fun j hij hjk => absurd hjk (by omega)⟩ <;> omega

/-- the length `encrypt_data` gives a value of `n < 2 ^ 31` bytes: the least power of two that is at least 256 and at
least `n + 36` -/
theorem growActualSize_encrypt {n : ℕ} (hn : n < 2 ^ 31) :
    ∃ k, growActualSize 64 n 1 = 2 ^ k ∧ 256 ≤ 2 ^ k ∧ n + 36 ≤ 2 ^ k ∧
      ∀ j, 256 ≤ 2 ^ j → n + 36 ≤ 2 ^ j → k ≤ j := by
  obtain ⟨k, hk, hkmin, hkn, hleast⟩ :=
    growActualSize_spec n 64 0 (by simp only [extraSize]; omega) (by simp only [minSize]; omega)
  refine ⟨k, hk, hkmin, hkn, fun j hmin hj => Nat.le_of_not_lt fun hjk => ?_⟩
  rcases hleast j (Nat.zero_le j) hjk with h | h <;> simp only [extraSize, minSize] at h <;> omega

/-! ## The round trip -/

/-- the ciphertext of a value shorter than `2 ^ 31` bytes is the iv and the `2 ^ k - 32` bytes of the header, the
value and the padding, where `2 ^ k` is the size the loop stops at -/
theorem length_encryptData {P : Primitives} {walletKey : ChachaKey} {iv : Hash} {p : BinaryArray} {k : ℕ}
    (hk : growActualSize 64 p.length 1 = 2 ^ k) (hkn : p.length + 36 ≤ 2 ^ k) :
    (encryptData P walletKey iv p).length = 2 ^ k := by
  simp only [encryptData, hk, List.length_append, iv.size_eq, length_chachaXor, List.length_replicate,
    length_uintLeToBytes]
  omega

/-- the round trip under one key, whatever the iv, for a value shorter than `2 ^ 31` bytes -/
theorem decryptData_encryptData_of_lt {P : Primitives} {walletKey : ChachaKey} {iv : Hash} {p : BinaryArray}
    (hp : p.length < 2 ^ 31) : decryptData P walletKey (encryptData P walletKey iv p) = .ok p := by
  obtain ⟨k, hk, hkmin, hkn, -⟩ := growActualSize_encrypt hp
  have hlarge : (uintLeToBytes 4 p.length ++ p ++ List.replicate (2 ^ k - 32 - 4 - p.length) 0).length =
      2 ^ k - 32 := by simp; omega
  have hheader : uintLeFromBytes (uintLeToBytes 4 p.length) = p.length :=
    uintLeFromBytes_uintLeToBytes_of_lt (by omega)
  have htake : (uintLeToBytes 4 p.length ++ p ++ List.replicate (2 ^ k - 32 - 4 - p.length) 0).take 4 =
      uintLeToBytes 4 p.length := by
    rw [List.append_assoc, List.take_left' (length_uintLeToBytes 4 p.length)]
  have hdrop : (uintLeToBytes 4 p.length ++ p ++ List.replicate (2 ^ k - 32 - 4 - p.length) 0).drop 4 =
      p ++ List.replicate (2 ^ k - 32 - 4 - p.length) 0 := by
    rw [List.append_assoc, List.drop_left' (length_uintLeToBytes 4 p.length)]
  rw [decryptData, if_neg (by rw [length_encryptData hk hkn]; omega)]
  simp only [encryptData, hk, Pod.ofBytes_append, List.drop_left' iv.size_eq, chachaXor_chachaXor, htake, hdrop,
    hheader, hlarge, List.take_left']
  rw [if_pos (by omega)]

/-- **Encrypted values decrypt.** Under the same wallet key, `decrypt_data` gives back every value shorter than
`2 ^ 31` bytes that `encrypt_data` encrypted, with whatever iv, and neither `invariant` fails; the ciphertext is
exactly the least power of two that is at least 256 and at least the value's length plus 36, so two values in one
such bucket give ciphertexts of one length. -/
theorem decryptData_encryptData (P : Primitives) (walletKey : ChachaKey) (iv : Hash) (p : BinaryArray)
    (hp : p.length < 2 ^ 31) :
    decryptData P walletKey (encryptData P walletKey iv p) = .ok p ∧
      ∃ k, (encryptData P walletKey iv p).length = 2 ^ k ∧ 256 ≤ 2 ^ k ∧ p.length + 36 ≤ 2 ^ k ∧
        ∀ j, 256 ≤ 2 ^ j → p.length + 36 ≤ 2 ^ j → k ≤ j := by
  obtain ⟨k, hk, hkmin, hkn, hleast⟩ := growActualSize_encrypt hp
  exact ⟨decryptData_encryptData_of_lt hp, k, length_encryptData hk hkn, hkmin, hkn, hleast⟩

theorem decrypt_three_bytes : ([1, 2, 3] : BinaryArray).length < 2 ^ 31 ∧
    decryptData plainPrimitives (Pod.zero 32) (encryptData plainPrimitives (Pod.zero 32) (Pod.zero 32) [1, 2, 3]) =
      .ok [1, 2, 3] :=
  ⟨by decide, (decryptData_encryptData plainPrimitives (Pod.zero 32) (Pod.zero 32) [1, 2, 3] (by decide)).1⟩

end BytecoinWallet.HD
