/-
Keys, records, errors and the crypto primitives of the wallet storage core.

The primitives (`crypto/`, BIP-32/39) are external collaborators: `Primitives` carries them as plain functions, so
every result holds for every implementation of them. Randomness is an input of the calls that draw it: a
`RandomKeypair` is one result of `crypto::random_keypair`, and ivs and salts are passed as values.
-/
import BytecoinWallet.Bytes
import Mathlib.Order.Fin.Basic

namespace BytecoinWallet

/-- a fixed-size POD of `n` bytes (`PublicKey`, `SecretKey`, `Hash`, `crypto::chacha_key`, `crypto::chacha_iv`) -/
structure Pod (n : ℕ) where
  data : BinaryArray
  size_eq : data.length = n
deriving DecidableEq

/-- the all-zero value, `T{}` -/
def Pod.zero (n : ℕ) : Pod n := ⟨List.replicate n 0, List.length_replicate n 0⟩

/-- the POD `memcpy` fills from the start of a buffer; bytes past the buffer's end stay zero -/
def Pod.ofBytes (n : ℕ) (bs : BinaryArray) : Pod n :=
  ⟨(bs ++ List.replicate n 0).take n, by simp⟩

@[simp] theorem Pod.ofBytes_append {n : ℕ} (p : Pod n) (rest : BinaryArray) : Pod.ofBytes n (p.data ++ rest) = p := by
  cases p with | mk d hd => ?_
  simp only [Pod.ofBytes, Pod.mk.injEq]
  rw [List.append_assoc, List.take_append_of_le_length hd.ge, ← hd, List.take_length]

@[simp] theorem Pod.ofBytes_data {n : ℕ} (p : Pod n) : Pod.ofBytes n p.data = p := by
  simpa using Pod.ofBytes_append p []

abbrev PublicKey := Pod 32
abbrev SecretKey := Pod 32
abbrev Hash := Pod 32
abbrev KeyDerivation := Pod 32
abbrev ChachaKey := Pod 32
/-- `crypto::chacha_iv`, declared with the primitives outside src/: `CHACHA_IV_SIZE` bytes -/
abbrev ChachaIv := Pod 8

/-- `Timestamp`, seconds since the epoch; the container stores it as a little-endian u64 (spec §4.2) -/
abbrev Timestamp := Fin (2 ^ 64)

/-- `std::numeric_limits<Timestamp>::max()` -/
def timestampMax : Timestamp := ⟨2 ^ 64 - 1, by decide⟩

/-- `KeyPair` -/
structure KeyPair where
  publicKey : PublicKey
  secretKey : SecretKey
deriving DecidableEq

/-- `WalletRecord`: one addressable sub-account; a zero secret means tracking only -/
structure WalletRecord where
  spendPublicKey : PublicKey
  spendSecretKey : SecretKey
  creationTimestamp : Timestamp
deriving DecidableEq

/-- `WalletRecord{}` -/
def WalletRecord.empty : WalletRecord := ⟨Pod.zero 32, Pod.zero 32, 0⟩

/-- `std::map<PublicKey, size_t> m_records_map`: the index of each spend public key in `m_wallet_records` -/
abbrev RecordsMap := PublicKey → Option ℕ

/-- `std::map::insert`: a key already present keeps its index -/
def RecordsMap.insert (m : RecordsMap) (k : PublicKey) (i : ℕ) : RecordsMap :=
  fun k' => if k' = k then some ((m k).getD i) else m k'

@[simp] theorem RecordsMap.insert_self (m : RecordsMap) (k : PublicKey) (i : ℕ) :
    m.insert k i k = some ((m k).getD i) := by simp [RecordsMap.insert]

@[simp] theorem RecordsMap.insert_of_ne {m : RecordsMap} {k k' : PublicKey} (i : ℕ) (h : k' ≠ k) :
    m.insert k i k' = m k' := by simp [RecordsMap.insert, h]

/-- the records/index invariant: the map sends the key of each record to its index and holds no other key, so the
keys of the records are pairwise distinct -/
structure RecordsIndexed (records : List WalletRecord) (m : RecordsMap) : Prop where
  index_of_record : ∀ i r, records[i]? = some r → m r.spendPublicKey = some i
  record_of_index : ∀ k i, m k = some i → ∃ r, records[i]? = some r ∧ r.spendPublicKey = k

namespace RecordsIndexed

variable {records : List WalletRecord} {m : RecordsMap}

theorem index_unique (h : RecordsIndexed records m) {i j : ℕ} {r r' : WalletRecord} (hi : records[i]? = some r)
    (hj : records[j]? = some r') (hk : r.spendPublicKey = r'.spendPublicKey) : i = j :=
  Option.some.inj ((h.index_of_record i r hi).symm.trans (hk ▸ h.index_of_record j r' hj))

theorem nil : RecordsIndexed [] fun _ => none := ⟨by simp, by simp⟩

/-- appending the record of a key the map does not hold, and indexing it, as `m_records_map.insert` then
`m_wallet_records.push_back` do -/
theorem push (h : RecordsIndexed records m) {r : WalletRecord} (hk : m r.spendPublicKey = none) :
    RecordsIndexed (records ++ [r]) (m.insert r.spendPublicKey records.length) where
  index_of_record i r' hr' := by
    rcases lt_or_ge i records.length with hi | hi
    · rw [List.getElem?_append_left hi] at hr'
      have hm := h.index_of_record i r' hr'
      rw [RecordsMap.insert_of_ne _ fun he => by simp [he, hk] at hm, hm]
    · rw [List.getElem?_append_right hi] at hr'
      obtain rfl : i = records.length := by
        have := (List.getElem?_eq_some_iff.1 hr').1; simp only [List.length_singleton] at this; omega
      simp only [Nat.sub_self, List.getElem?_cons_zero, Option.some.injEq] at hr'
      simp [← hr', hk]
  record_of_index k i hki := by
    by_cases he : k = r.spendPublicKey
    · subst he
      simp only [RecordsMap.insert_self, hk, Option.getD_none, Option.some.injEq] at hki
      exact ⟨r, by simp [← hki], rfl⟩
    · rw [RecordsMap.insert_of_ne _ he] at hki
      obtain ⟨r', hr', hk'⟩ := h.record_of_index k i hki
      exact ⟨r', by rw [List.getElem?_append_left (List.getElem?_eq_some_iff.1 hr').1, hr'], hk'⟩

theorem set (h : RecordsIndexed records m) {i : ℕ} {r r' : WalletRecord} (hi : records[i]? = some r)
    (hk : r'.spendPublicKey = r.spendPublicKey) : RecordsIndexed (records.set i r') m where
  index_of_record j x hx := by
    by_cases hij : i = j
    · subst hij
      rw [List.getElem?_set_self (List.getElem?_eq_some_iff.1 hi).1, Option.some.injEq] at hx
      rw [← hx, hk]
      exact h.index_of_record i r hi
    · rw [List.getElem?_set_ne hij] at hx
      exact h.index_of_record j x hx
  record_of_index k j hkj := by
    obtain ⟨x, hx, hxk⟩ := h.record_of_index k j hkj
    by_cases hij : i = j
    · subst hij
      rw [hi, Option.some.injEq] at hx
      exact ⟨r', List.getElem?_set_self (List.getElem?_eq_some_iff.1 hi).1, by rw [hk, hx, hxk]⟩
    · exact ⟨x, by rw [List.getElem?_set_ne hij]; exact hx, hxk⟩

end RecordsIndexed

/-! ## Addresses -/

/-- `AccountAddressSimple`: the public keys of an address -/
structure AccountAddressSimple where
  spendPublicKey : PublicKey
  viewPublicKey : PublicKey
deriving DecidableEq

/-- `AccountAddressUnlinkable`: the spend key `s`, `s_v` and whether the address is auditable -/
structure AccountAddressUnlinkable where
  s : PublicKey
  sv : PublicKey
  isAuditable : Bool
deriving DecidableEq

/-- `AccountAddress`, a `boost::variant` of the two kinds; `==` compares the kind, then the fields -/
inductive AccountAddress where
  | simple (a : AccountAddressSimple)
  | unlinkable (a : AccountAddressUnlinkable)
deriving DecidableEq

/-! ## Errors -/

/-- the `api::` codes the core throws with `cn::Exception` -/
inductive ErrorCode where
  | walletFileDecryptError
  | walletFileUnknownVersion
  | walletFileReadError
  | walletFileWriteError
  | walletdMnemonicCrc
  /-- the bare code 101 of "impossible for this wallet" conditions -/
  | code101
deriving DecidableEq, Repr

/-- what a call can throw -/
inductive Failure where
  /-- `cn::Exception(code, what)` -/
  | exception (code : ErrorCode) (what : String)
  /-- `std::runtime_error(what)` -/
  | runtimeError (what : String)
  /-- `common::StreamError`, thrown by a short read -/
  | streamError
  /-- a failed `invariant(...)` -/
  | invariantFailed
  /-- `std::out_of_range`, thrown by `std::vector::at` -/
  | outOfRange
  /-- `std::length_error`, thrown by `std::vector::push_back` on a vector of `max_size()` elements -/
  | lengthError
  /-- a failed statement of `platform::sqlite`, such as an `INSERT` of a primary key already there -/
  | sqliteError
  /-- `cn::Bip32Key::Exception`, thrown by the mnemonic checks and the key derivation -/
  | bip32Error (what : String)
  /-- `std::throw_with_nested(outer)` in the handler of `inner`; the tail of the outer message, `common::what(inner)`,
  is the nested failure itself -/
  | nested (outer inner : Failure)
deriving DecidableEq, Repr

/-- `common::to_hex` and `common::pod_to_hex`: two lower-case hex digits a byte -/
def toHex (bs : BinaryArray) : String :=
  String.join (bs.map fun b => String.mk [Nat.digitChar (b.toNat / 16), Nat.digitChar (b.toNat % 16)])

/-- the value of an ASCII hex digit -/
def hexDigitValue (b : UInt8) : Option ℕ :=
  if 48 ≤ b.toNat ∧ b.toNat ≤ 57 then some (b.toNat - 48)
  else if 97 ≤ b.toNat ∧ b.toNat ≤ 102 then some (b.toNat - 87)
  else if 65 ≤ b.toNat ∧ b.toNat ≤ 70 then some (b.toNat - 55)
  else none

/-- hex digits, two a byte, most significant first -/
def fromHex : BinaryArray → Option BinaryArray
  | [] => some []
  | [_] => none
  | a :: b :: rest =>
    match hexDigitValue a, hexDigitValue b, fromHex rest with
    | some x, some y, some r => some (UInt8.ofNat (16 * x + y) :: r)
    | _, _, _ => none

/-- Modelled from the spec: `common::pod_from_hex(s, &pod)` (outside src/) decodes the `2 * n` hex digits of a POD of
`n` bytes and fails on any other string -/
def podFromHex (n : ℕ) (s : BinaryArray) : Option (Pod n) :=
  match fromHex s with
  | some bs => if h : bs.length = n then some ⟨bs, h⟩ else none
  | none => none

/-! ## Primitives -/

/-- the collaborators the core calls, all outside src/: the crypto primitives and the legacy file reader -/
structure Primitives where
  /-- `crypto::secret_key_to_public_key`; `none` when it returns false -/
  secretKeyToPublicKey : SecretKey → Option PublicKey
  /-- `crypto::key_isvalid`: the key is a point of the curve -/
  keyIsvalid : PublicKey → Bool
  /-- the keystream of `chacha(rounds, ..., key, iv, ...)`; `chacha8` is eight rounds -/
  chacha : ℕ → ChachaKey → ChachaIv → Keystream
  /-- `crypto::cn_fast_hash` -/
  cnFastHash : BinaryArray → Hash
  /-- `generate_chacha8_key`: the CryptoNight hash of the given bytes, as a chacha key -/
  generateChacha8Key : BinaryArray → ChachaKey
  /-- `crypto::derive_public_key(kd, output_index, spend_public_key)` -/
  derivePublicKey : KeyDerivation → ℕ → PublicKey → PublicKey
  /-- `crypto::derive_secret_key(kd, output_index, spend_secret_key)` -/
  deriveSecretKey : KeyDerivation → ℕ → SecretKey → SecretKey
  /-- `WalletSerializerV1::load(wallet_key, file)`: the view keys and the records of a legacy file, or what it throws -/
  walletSerializerV1Load : ChachaKey → BinaryArray → Except Failure (PublicKey × SecretKey × List WalletRecord)
  /-- a public key computed from a secret key is a point of the curve -/
  keyIsvalid_of_secretKeyToPublicKey : ∀ sk pk, secretKeyToPublicKey sk = some pk → keyIsvalid pk = true

/-- Modelled from the spec: `crypto::keys_match(sk, pk)` holds when `secret_key_to_public_key(sk)` succeeds and
gives `pk` (§3: `secret_key_to_public_key(view_secret_key) == view_public_key`) -/
def keysMatch (P : Primitives) (sk : SecretKey) (pk : PublicKey) : Bool :=
  P.secretKeyToPublicKey sk == some pk

@[simp] theorem keysMatch_eq_true {P : Primitives} {sk : SecretKey} {pk : PublicKey} :
    keysMatch P sk pk = true ↔ P.secretKeyToPublicKey sk = some pk := by
  simp [keysMatch]

/-- one result of `crypto::random_keypair`: a matching pair whose secret is a random nonzero scalar -/
structure RandomKeypair (P : Primitives) where
  pair : KeyPair
  secret_ne_zero : pair.secretKey ≠ Pod.zero 32
  public_of_secret : P.secretKeyToPublicKey pair.secretKey = some pair.publicKey

/-! ## A computable instance -/

/-- the POD of `n` copies of the byte `b` -/
def Pod.fill (n : ℕ) (b : UInt8) : Pod n := ⟨List.replicate n b, List.length_replicate n b⟩

/-- primitives that compute, to run the model on concrete wallets: a secret key is its own public key, except the
zero key and the keys that start with byte 255, which have none; the chacha keystream is zero -/
def plainPrimitives : Primitives where
  secretKeyToPublicKey sk := if sk = Pod.zero 32 ∨ sk.data.headD 0 = 255 then none else some sk
  keyIsvalid pk := decide (pk.data.headD 0 ≠ 255)
  chacha _ _ _ _ := 0
  cnFastHash _ := Pod.zero 32
  generateChacha8Key bs := Pod.ofBytes 32 bs
  derivePublicKey _ _ pk := pk
  deriveSecretKey _ _ sk := sk
  walletSerializerV1Load _ _ := .error .streamError
  keyIsvalid_of_secretKeyToPublicKey sk pk h := by
    beta_reduce at h ⊢
    by_cases hc : sk = Pod.zero 32 ∨ sk.data.headD 0 = 255
    · rw [if_pos hc] at h; cases h
    · rw [if_neg hc] at h
      cases h
      exact decide_eq_true fun h => hc (Or.inr h)

/-- a draw of `crypto::random_keypair` under `plainPrimitives`: the key of 32 bytes `b` -/
def plainKeypair (b : UInt8) (h0 : b ≠ 0) (h255 : b ≠ 255) : RandomKeypair plainPrimitives where
  pair := ⟨Pod.fill 32 b, Pod.fill 32 b⟩
  secret_ne_zero h := h0 (by simpa [Pod.fill, Pod.zero] using congrArg (fun p : Pod 32 => p.data.headD 1) h)
  public_of_secret := by
    have hz : Pod.fill 32 b ≠ Pod.zero 32 := fun h =>
      h0 (by simpa [Pod.fill, Pod.zero] using congrArg (fun p : Pod 32 => p.data.headD 1) h)
    have hh : (Pod.fill 32 b).data.headD 0 ≠ 255 := h255
    exact if_neg (not_or.2 ⟨hz, hh⟩)

end BytecoinWallet
