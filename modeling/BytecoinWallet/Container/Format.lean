/-
The flat container file of `WalletContainerStorage` (format version 6): its layout, the bytes `save` writes and the
reader `load_container_storage`.

    offset 0     version byte, 6
    offset 1     ContainerStoragePrefix: next_iv (8 bytes, left zero), encrypted view-key record (80 bytes)
    offset 89    item_capacity, u64 little-endian
    offset 97    item_count, u64 little-endian
    offset 105   EncryptedWalletRecords of 80 bytes: iv (8), then chacha8 of pk (32) | sk (32) | ct (u64 LE)

`load_container_storage` reads min(item_count, item_capacity) records, checks every record's tracking mode against
record 0's and the keys of the first and the last `CHECK_KEYS_COUNT` records, truncates a longer file, and appends to
the fields of the object it runs on: it does not clear them.
-/
import BytecoinWallet.Types

namespace BytecoinWallet.Container

/-! ## Layout -/

/-- `SERIALIZATION_VERSION_V2` -/
def serializationVersionV2 : UInt8 := 6

/-- `CHECK_KEYS_COUNT`: records checked at each end of the file -/
def checkKeysCount : ℕ := 128

/-- `sizeof(EncryptedWalletRecord)`: the iv, then a public key, a secret key and a u64 -/
def sizeofEncryptedWalletRecord : ℕ := 8 + (32 + 32 + 8)

/-- `sizeof(ContainerStoragePrefix)` -/
def sizeofContainerStoragePrefix : ℕ := 8 + sizeofEncryptedWalletRecord

/-- `WalletContainerStorage::wallet_file_size` -/
def walletFileSize (records : ℕ) : ℕ :=
  1 + sizeofContainerStoragePrefix + 8 * 2 + sizeofEncryptedWalletRecord * records

/-- `std::numeric_limits<size_t>::max()` -/
def sizeMax : ℕ := 2 ^ 64 - 1

/-- `std::vector<WalletRecord>::max_size()`: `PTRDIFF_MAX` bytes over records of 72 bytes -/
def vectorMaxSize : ℕ := (2 ^ 63 - 1) / (32 + 32 + 8)

/-- `a - b` on `size_t`, which wraps below zero -/
def sizeSub (a b : ℕ) : ℕ := (a + (2 ^ 64 - b)) % 2 ^ 64

/-- `EncryptedWalletRecord`: an iv and the 72 encrypted bytes of a key pair and its creation timestamp -/
structure EncryptedWalletRecord where
  iv : ChachaIv
  data : Pod 72

/-- the packed bytes of an `EncryptedWalletRecord` -/
def EncryptedWalletRecord.bytes (r : EncryptedWalletRecord) : BinaryArray := r.iv.data ++ r.data.data

/-- the `EncryptedWalletRecord` packed at the start of a buffer -/
def EncryptedWalletRecord.ofBytes (bs : BinaryArray) : EncryptedWalletRecord :=
  ⟨Pod.ofBytes 8 bs, Pod.ofBytes 72 (bs.drop 8)⟩

/-- `ContainerStoragePrefix` -/
structure ContainerStoragePrefix where
  nextIv : ChachaIv
  encryptedViewKeys : EncryptedWalletRecord

def ContainerStoragePrefix.bytes (p : ContainerStoragePrefix) : BinaryArray :=
  p.nextIv.data ++ p.encryptedViewKeys.bytes

def ContainerStoragePrefix.ofBytes (bs : BinaryArray) : ContainerStoragePrefix :=
  ⟨Pod.ofBytes 8 bs, EncryptedWalletRecord.ofBytes (bs.drop 8)⟩

/-- `common::uint_le_from_bytes<uint64_t>(p, 8)` -/
def uintLeFromBytes64 (bs : BinaryArray) : Fin (2 ^ 64) :=
  ⟨uintLeFromBytes (bs.take 8), calc
    uintLeFromBytes (bs.take 8) < 256 ^ (bs.take 8).length := uintLeFromBytes_lt _
    _ ≤ 256 ^ 8 := Nat.pow_le_pow_right (by decide) (by simp)
    _ = 2 ^ 64 := by decide⟩

/-! ## Records -/

section
variable (P : Primitives)

/-- `decrypt_key_pair`: chacha8 under the wallet key and the record's iv, then pk | sk | ct; the three values it
writes back are returned as a `WalletRecord` -/
def decryptKeyPair (r : EncryptedWalletRecord) (key : ChachaKey) : WalletRecord :=
  let recData := chachaXor (P.chacha 8 key r.iv) r.data.data
  ⟨Pod.ofBytes 32 recData, Pod.ofBytes 32 (recData.drop 32), uintLeFromBytes64 (recData.drop 64)⟩

/-- `encrypt_key_pair`, where `iv` is the value `crypto::rand<chacha_iv>()` drew -/
def encryptKeyPair (pk : PublicKey) (sk : SecretKey) (ct : Timestamp) (key : ChachaKey) (iv : ChachaIv) :
    EncryptedWalletRecord :=
  ⟨iv, ⟨chachaXor (P.chacha 8 key iv) (pk.data ++ sk.data ++ uintLeToBytes 8 ct.val), by simp [pk.size_eq, sk.size_eq]⟩⟩

end

/-! ## The object -/

/-- a `WalletContainerStorage` and the file at its `m_path` -/
structure WalletContainerStorage where
  /-- the bytes of the file at `m_path` -/
  file : BinaryArray
  /-- `m_file` is open: it is `nullptr` after a legacy-format load whose overwrite failed -/
  fileOpen : Bool
  walletKey : ChachaKey
  viewPublicKey : PublicKey
  viewSecretKey : SecretKey
  walletRecords : List WalletRecord
  recordsMap : RecordsMap
  oldestTimestamp : Timestamp
  seed : Hash
  txDerivationSeed : Hash
  historyFilenameSeed : Hash
  historyKey : ChachaKey
  /-- the operations issued on the file at `m_path`, oldest first -/
  journal : List FileEvent

/-- Modelled from the spec: an object as the member initialisers of `Wallet` (in the header, outside src/) leave it
before `load()`; `m_oldest_timestamp` starts at the largest `Timestamp`, the value from which `load` takes the
minimum creation timestamp over the records (§3 "Oldest timestamp") -/
def WalletContainerStorage.fresh (key : ChachaKey) (file : BinaryArray) : WalletContainerStorage where
  file := file
  fileOpen := true
  walletKey := key
  viewPublicKey := Pod.zero 32
  viewSecretKey := Pod.zero 32
  walletRecords := []
  recordsMap := fun _ => none
  oldestTimestamp := timestampMax
  seed := Pod.zero 32
  txDerivationSeed := Pod.zero 32
  historyFilenameSeed := Pod.zero 32
  historyKey := Pod.zero 32
  journal := []

/-- `WalletContainerStorage::operator==`: view keys, oldest timestamp and records -/
def WalletContainerStorage.sameWallet (a b : WalletContainerStorage) : Bool :=
  a.viewPublicKey == b.viewPublicKey && a.viewSecretKey == b.viewSecretKey &&
    a.oldestTimestamp == b.oldestTimestamp && a.walletRecords == b.walletRecords

/-- what the record loop of `load_container_storage` does with one record: lower `m_oldest_timestamp`, index the
key unless it is already indexed, append the record -/
def WalletContainerStorage.pushRecord (c : WalletContainerStorage) (rec : WalletRecord) : WalletContainerStorage :=
  { c with
    oldestTimestamp := min c.oldestTimestamp rec.creationTimestamp
    recordsMap := c.recordsMap.insert rec.spendPublicKey c.walletRecords.length
    walletRecords := c.walletRecords ++ [rec] }

/-- one more operation on the file at `m_path` -/
def WalletContainerStorage.emit (c : WalletContainerStorage) (e : FileEvent) : WalletContainerStorage :=
  { c with file := e.apply c.file, journal := c.journal ++ [e] }

/-- the end of `load_container_storage`: a file longer than `size` is truncated to it (the truncate succeeds) -/
def WalletContainerStorage.truncateFile (c : WalletContainerStorage) (size : ℕ) : WalletContainerStorage :=
  if c.file.length > size then c.emit (.truncate size) else c

/-! ## Reader and writer -/

section
variable (P : Primitives)

/-- the key check of one record: `keys_match` for a spending record, `key_isvalid` for a tracking one -/
def checkRecordKeys (pk : PublicKey) (sk : SecretKey) : Except Failure Unit :=
  if sk ≠ Pod.zero 32 then
    if keysMatch P sk pk then .ok ()
    else .error (.exception .walletFileDecryptError "Restored spend public key doesn't correspond to secret key")
  else if P.keyIsvalid pk then .ok ()
  else .error (.exception .walletFileDecryptError "Public spend key is incorrect")

/-- record `i` of `itemCount` has its keys checked: one of the first or of the last `CHECK_KEYS_COUNT` -/
def isCheckedIndex (itemCount i : ℕ) : Bool :=
  i < checkKeysCount || sizeSub itemCount checkKeysCount ≤ i

/-- the record loop of `load_container_storage`, from record `i` on; `trackingMode` is record 0's -/
def loadRecords (itemCount : ℕ) :
    ℕ → Bool → List EncryptedWalletRecord → WalletContainerStorage → Except Failure WalletContainerStorage
  | _, _, [], c => .ok c
  | i, trackingMode, r :: rs, c => do
    let record := decryptKeyPair P r c.walletKey
    let trackingMode := if i = 0 then decide (record.spendSecretKey = Pod.zero 32) else trackingMode
    if i ≠ 0 ∧ trackingMode ≠ decide (record.spendSecretKey = Pod.zero 32) then
      throw (.exception .walletFileDecryptError "All addresses must be either tracking or not")
    if isCheckedIndex itemCount i then checkRecordKeys P record.spendPublicKey record.spendSecretKey
    loadRecords itemCount (i + 1) trackingMode rs (c.pushRecord record)

/-- the `n` records packed one after another at the start of a buffer -/
def unpackRecords (bs : BinaryArray) (n : ℕ) : List EncryptedWalletRecord :=
  (List.range n).map fun i => EncryptedWalletRecord.ofBytes (bs.drop (sizeofEncryptedWalletRecord * i))

/-- `WalletContainerStorage::load_container_storage` on the object `c`, reading `c.file`; the three header reads
come first, and a short one throws `common::StreamError` -/
def loadContainerStorage (c : WalletContainerStorage) : Except Failure WalletContainerStorage :=
  match readAt c.file 0 1, readAt c.file 1 sizeofContainerStoragePrefix,
      readAt c.file (1 + sizeofContainerStoragePrefix) (2 * 8) with
  | some versionData, some prefixData, some countCapacityData =>
    let fItemCapacity := uintLeFromBytes64 countCapacityData
    let fItemCount := uintLeFromBytes64 (countCapacityData.drop 8)
    if versionData.headD 0 < serializationVersionV2 then
      .error (.exception .walletFileDecryptError "Wallet version too old")
    else
      let view := decryptKeyPair P (ContainerStoragePrefix.ofBytes prefixData).encryptedViewKeys c.walletKey
      let c := { c with viewPublicKey := view.spendPublicKey, viewSecretKey := view.spendSecretKey }
      if !keysMatch P c.viewSecretKey c.viewPublicKey then
        .error (.exception .walletFileDecryptError "Restored view public key doesn't correspond to secret key")
      else
        let itemCount := min fItemCount.val fItemCapacity.val
        if itemCount > sizeMax / sizeofEncryptedWalletRecord then
          .error (.exception .walletFileDecryptError ("Restored item count is too big " ++ toString itemCount))
        else
          match readAt c.file (walletFileSize 0) (sizeofEncryptedWalletRecord * itemCount) with
          | none => .error .streamError
          | some allEncrypted =>
            (loadRecords P itemCount 0 false (unpackRecords allEncrypted itemCount) c).map
              (·.truncateFile (walletFileSize itemCount))
  | _, _, _ => .error .streamError

/-- the records `WalletContainerStorage::save` encrypts: `ivs (i + 1)` is the iv drawn for record `i` -/
def encryptRecords (records : List WalletRecord) (walletKey : ChachaKey) (viewOnly : Bool)
    (ivs : ℕ → ChachaIv) : List EncryptedWalletRecord :=
  records.mapIdx fun i rec =>
    encryptKeyPair P rec.spendPublicKey (if viewOnly then Pod.zero 32 else rec.spendSecretKey)
      rec.creationTimestamp walletKey (ivs (i + 1))

/-- the bytes `WalletContainerStorage::save` writes: `ivs 0` is the iv drawn for the view keys -/
def saveBytes (c : WalletContainerStorage) (walletKey : ChachaKey) (viewOnly : Bool) (ivs : ℕ → ChachaIv) :
    BinaryArray :=
  let storagePrefix : ContainerStoragePrefix :=
    ⟨Pod.zero 8, encryptKeyPair P c.viewPublicKey c.viewSecretKey c.oldestTimestamp walletKey (ivs 0)⟩
  let countCapacityData := uintLeToBytes 8 c.walletRecords.length
  [serializationVersionV2] ++ storagePrefix.bytes ++ countCapacityData ++ countCapacityData ++
    ((encryptRecords P c.walletRecords walletKey viewOnly ivs).map EncryptedWalletRecord.bytes).flatten

end

end BytecoinWallet.Container
