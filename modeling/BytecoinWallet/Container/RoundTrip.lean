/-
Container files as values, and `save` then `load_container_storage`.

`containerBytes` is a container file: version 6, a prefix, `item_capacity`, `item_count` and the packed records. What
the reader sees in one (`fileItemCount_containerBytes`, `fileViewKeys_containerBytes`, `fileRecords_containerBytes`)
gives `load_containerBytes`: a fresh object loads it when its view keys match and its first `min(count, capacity)`
records pass. Every later result on files goes through it: `save` writes such a file (`saveBytes_eq`),
`generate_new_addresses` appends to one and rewrites its counts, and a crash leaves one.

`load_saveBytes_roundtrip`: the bytes `save` writes are exactly `wallet_file_size(n)` long, and a fresh object reading
them gets back the view keys, the records (secret keys zeroed in a view-only export), the index of the first
occurrence of each key and the minimum of its initial oldest timestamp and the records' timestamps, with nothing
truncated. The records need only agree on the tracking mode and pass their key check: the reader checks at most the
first and the last 128, and every record passes.
-/
import BytecoinWallet.Container.Decode

namespace BytecoinWallet.Container

/-! ## Container files -/

/-- a container file: version 6, `storagePrefix`, the two counts as u64 little-endian, then the packed records -/
def containerBytes (storagePrefix : ContainerStoragePrefix) (itemCapacity itemCount : ℕ)
    (records : List EncryptedWalletRecord) : BinaryArray :=
  serializationVersionV2 :: (storagePrefix.bytes ++ (uintLeToBytes 8 itemCapacity ++ (uintLeToBytes 8 itemCount ++
    (records.map EncryptedWalletRecord.bytes).flatten)))

theorem length_flatten_bytes (es : List EncryptedWalletRecord) :
    (es.map EncryptedWalletRecord.bytes).flatten.length = sizeofEncryptedWalletRecord * es.length := by
  induction es with
  | nil => rfl
  | cons e es ih => simp [ih, Nat.mul_succ, Nat.add_comm]

theorem take_flatten_bytes (es : List EncryptedWalletRecord) (n : ℕ) :
    (es.map EncryptedWalletRecord.bytes).flatten.take (sizeofEncryptedWalletRecord * n) =
      ((es.take n).map EncryptedWalletRecord.bytes).flatten := by
  induction es generalizing n with
  | nil => simp
  | cons e es ih =>
    cases n with
    | zero => simp
    | succ n =>
      rw [Nat.mul_succ, Nat.add_comm, List.map_cons, List.flatten_cons, List.take_append_eq_append_take,
        List.take_of_length_le (by simp), length_bytes, Nat.add_sub_cancel_left, ih]
      rfl

@[simp] theorem length_storagePrefix_bytes (p : ContainerStoragePrefix) :
    p.bytes.length = sizeofContainerStoragePrefix := by
  simp [ContainerStoragePrefix.bytes, p.nextIv.size_eq, sizeofContainerStoragePrefix]

@[simp] theorem ContainerStoragePrefix.ofBytes_bytes_append (p : ContainerStoragePrefix) (rest : BinaryArray) :
    ContainerStoragePrefix.ofBytes (p.bytes ++ rest) = p := by
  cases p with | mk iv e => ?_
  simp only [ContainerStoragePrefix.ofBytes, ContainerStoragePrefix.bytes, List.append_assoc,
    List.drop_left' iv.size_eq, Pod.ofBytes_append, EncryptedWalletRecord.ofBytes_bytes_append]

@[simp] theorem ContainerStoragePrefix.ofBytes_bytes (p : ContainerStoragePrefix) :
    ContainerStoragePrefix.ofBytes p.bytes = p := by
  simpa using ContainerStoragePrefix.ofBytes_bytes_append p []

theorem val_uintLeFromBytes64_uintLeToBytes (n : ℕ) (rest : BinaryArray) :
    (uintLeFromBytes64 (uintLeToBytes 8 n ++ rest)).val = n % 2 ^ 64 := by
  simp only [uintLeFromBytes64, List.take_left' (length_uintLeToBytes 8 n), uintLeFromBytes_uintLeToBytes]
  rfl

theorem drop_header (p : ContainerStoragePrefix) (rest : BinaryArray) :
    (serializationVersionV2 :: (p.bytes ++ rest)).drop (1 + sizeofContainerStoragePrefix) = rest := by
  rw [Nat.add_comm, List.drop_succ_cons, List.drop_left' (length_storagePrefix_bytes p)]

section
variable (P : Primitives) (p : ContainerStoragePrefix) (cap cnt : ℕ) (es : List EncryptedWalletRecord)

theorem length_containerBytes : (containerBytes p cap cnt es).length = walletFileSize es.length := by
  simp only [containerBytes, List.length_cons, List.length_append, length_storagePrefix_bytes, length_uintLeToBytes,
    length_flatten_bytes, walletFileSize]
  omega

theorem headD_containerBytes (rest : BinaryArray) :
    (containerBytes p cap cnt es ++ rest).headD 0 = serializationVersionV2 := rfl

theorem fileItemCount_containerBytes (rest : BinaryArray) (hcap : cap < 2 ^ 64) (hcnt : cnt < 2 ^ 64) :
    fileItemCount (containerBytes p cap cnt es ++ rest) = min cnt cap := by
  simp only [containerBytes, List.cons_append, List.append_assoc]
  rw [fileItemCount, drop_header, List.drop_left' (length_uintLeToBytes 8 _), val_uintLeFromBytes64_uintLeToBytes,
    val_uintLeFromBytes64_uintLeToBytes, Nat.mod_eq_of_lt hcap, Nat.mod_eq_of_lt hcnt]

theorem fileViewKeys_containerBytes (rest : BinaryArray) (key : ChachaKey) :
    fileViewKeys P key (containerBytes p cap cnt es ++ rest) = decryptKeyPair P p.encryptedViewKeys key := by
  rw [containerBytes, List.cons_append, fileViewKeys, List.drop_one, List.tail_cons, List.append_assoc,
    List.take_left' (length_storagePrefix_bytes _), ContainerStoragePrefix.ofBytes_bytes]

theorem fileRecords_containerBytes (rest : BinaryArray) (key : ChachaKey) {n : ℕ} (hn : n ≤ es.length) :
    fileRecords P key (containerBytes p cap cnt es ++ rest) n = (es.take n).map (decryptKeyPair P · key) := by
  have hdrop : (containerBytes p cap cnt es ++ rest).drop (walletFileSize 0) =
      (es.map EncryptedWalletRecord.bytes).flatten ++ rest := by
    rw [show walletFileSize 0 = 1 + sizeofContainerStoragePrefix + 8 * 2 from rfl, ← List.drop_drop]
    simp only [containerBytes, List.cons_append, List.append_assoc]
    rw [drop_header, ← List.append_assoc, List.drop_left' (by simp)]
  have hlen : (es.take n).length = n := List.length_take_of_le hn
  have hunpack := unpackRecords_flatten (es.take n)
  rw [hlen] at hunpack
  have htake : ((es.map EncryptedWalletRecord.bytes).flatten ++ rest).take (sizeofEncryptedWalletRecord * n) =
      (es.map EncryptedWalletRecord.bytes).flatten.take (sizeofEncryptedWalletRecord * n) :=
    List.take_append_of_le_length (by rw [length_flatten_bytes]; exact Nat.mul_le_mul_left _ hn)
  rw [fileRecords, hdrop, htake, take_flatten_bytes, hunpack]

/-- **Loading a container file.** A fresh object with any oldest timestamp `t0` loads a file whose view keys match
and whose first `n = min(count, capacity)` records are present and pass the reader's checks, whatever bytes follow
them: it gets the view keys, those records, the index of each key's first occurrence and the minimum of `t0` and their
timestamps, and it cuts the file to `wallet_file_size(n)` bytes. -/
theorem load_containerBytes_append (rest : BinaryArray) (key : ChachaKey) (t0 : Timestamp) (hcap : cap < 2 ^ 64)
    (hcnt : cnt < 2 ^ 64)
    (hn : min cnt cap ≤ es.length) (hcount : min cnt cap ≤ sizeMax / sizeofEncryptedWalletRecord)
    (hview : P.secretKeyToPublicKey (decryptKeyPair P p.encryptedViewKeys key).spendSecretKey =
      some (decryptKeyPair P p.encryptedViewKeys key).spendPublicKey)
    (hpass : RecordsPass P (min cnt cap) ((es.take (min cnt cap)).map (decryptKeyPair P · key))) :
    ∃ c', loadContainerStorage P
        { WalletContainerStorage.fresh key (containerBytes p cap cnt es ++ rest) with oldestTimestamp := t0 } = .ok c' ∧
      c'.viewPublicKey = (decryptKeyPair P p.encryptedViewKeys key).spendPublicKey ∧
      c'.viewSecretKey = (decryptKeyPair P p.encryptedViewKeys key).spendSecretKey ∧
      c'.walletRecords = (es.take (min cnt cap)).map (decryptKeyPair P · key) ∧
      (∀ pk, c'.recordsMap pk = c'.walletRecords.findIdx? fun r => r.spendPublicKey = pk) ∧
      c'.oldestTimestamp = c'.walletRecords.foldl (fun t r => min t r.creationTimestamp) t0 ∧
      c'.file = (containerBytes p cap cnt es ++ rest).take (walletFileSize (min cnt cap)) := by
  have hcount' := fileItemCount_containerBytes p cap cnt es rest hcap hcnt
  have hacc : FileAccepted P key (containerBytes p cap cnt es ++ rest) :=
    { length_ge := by
        rw [hcount', List.length_append, length_containerBytes]
        simp only [walletFileSize]
        exact le_add_right (Nat.add_le_add_left (Nat.mul_le_mul_left _ hn) _)
      version_ge := by rw [headD_containerBytes]; decide
      view_keys := by rw [fileViewKeys_containerBytes]; exact hview
      count_le := by rw [hcount']; exact hcount
      records_pass := by rw [hcount', fileRecords_containerBytes P p cap cnt es rest key hn]; exact hpass }
  refine ⟨_, (loadContainerStorage_eq_ok P).2 ⟨hacc, rfl⟩, ?_⟩
  set c0 : WalletContainerStorage :=
    { WalletContainerStorage.fresh key (containerBytes p cap cnt es ++ rest) with oldestTimestamp := t0 }
  rw [loadedObject, show c0.file = containerBytes p cap cnt es ++ rest from rfl, show c0.walletKey = key from rfl, hcount',
    fileRecords_containerBytes P p cap cnt es rest key hn, fileViewKeys_containerBytes, foldl_pushRecord]
  refine ⟨?_, ?_, ?_, fun pk => ?_, ?_, ?_⟩ <;>
    simp only [WalletContainerStorage.truncateFile, WalletContainerStorage.emit] <;> split <;>
    simp [foldl_insert_enumFrom, WalletContainerStorage.fresh, c0, FileEvent.apply]
  rw [← List.length_append]
  exact Nat.le_of_not_lt ‹_›

theorem load_containerBytes (key : ChachaKey) (t0 : Timestamp) (hcap : cap < 2 ^ 64) (hcnt : cnt < 2 ^ 64)
    (hn : min cnt cap ≤ es.length) (hcount : min cnt cap ≤ sizeMax / sizeofEncryptedWalletRecord)
    (hview : P.secretKeyToPublicKey (decryptKeyPair P p.encryptedViewKeys key).spendSecretKey =
      some (decryptKeyPair P p.encryptedViewKeys key).spendPublicKey)
    (hpass : RecordsPass P (min cnt cap) ((es.take (min cnt cap)).map (decryptKeyPair P · key))) :
    ∃ c', loadContainerStorage P
        { WalletContainerStorage.fresh key (containerBytes p cap cnt es) with oldestTimestamp := t0 } = .ok c' ∧
      c'.viewPublicKey = (decryptKeyPair P p.encryptedViewKeys key).spendPublicKey ∧
      c'.viewSecretKey = (decryptKeyPair P p.encryptedViewKeys key).spendSecretKey ∧
      c'.walletRecords = (es.take (min cnt cap)).map (decryptKeyPair P · key) ∧
      (∀ pk, c'.recordsMap pk = c'.walletRecords.findIdx? fun r => r.spendPublicKey = pk) ∧
      c'.oldestTimestamp = c'.walletRecords.foldl (fun t r => min t r.creationTimestamp) t0 ∧
      c'.file = (containerBytes p cap cnt es).take (walletFileSize (min cnt cap)) := by
  simpa using load_containerBytes_append P p cap cnt es [] key t0 hcap hcnt hn hcount hview hpass

end

/-! ## The bytes `save` writes -/

section
variable (P : Primitives)

/-- the record `save` writes for `rec`: its secret key is zeroed in a view-only export -/
def savedRecord (viewOnly : Bool) (rec : WalletRecord) : WalletRecord :=
  ⟨rec.spendPublicKey, if viewOnly then Pod.zero 32 else rec.spendSecretKey, rec.creationTimestamp⟩

theorem map_decryptKeyPair_encryptRecords (rs : List WalletRecord) (key : ChachaKey) (viewOnly : Bool)
    (ivs : ℕ → ChachaIv) :
    (encryptRecords P rs key viewOnly ivs).map (decryptKeyPair P · key) = rs.map (savedRecord viewOnly) := by
  induction rs generalizing ivs with
  | nil => rfl
  | cons r rs ih =>
    simp only [encryptRecords, List.mapIdx_cons, List.map_cons, decryptKeyPair_encryptKeyPair] at ih ⊢
    exact congrArg₂ List.cons rfl (ih fun i => ivs (i + 1))

@[simp] theorem length_encryptRecords (rs : List WalletRecord) (key : ChachaKey) (viewOnly : Bool)
    (ivs : ℕ → ChachaIv) : (encryptRecords P rs key viewOnly ivs).length = rs.length := by
  simp [encryptRecords]

theorem saveBytes_eq (c : WalletContainerStorage) (key : ChachaKey) (viewOnly : Bool) (ivs : ℕ → ChachaIv) :
    saveBytes P c key viewOnly ivs =
      containerBytes ⟨Pod.zero 8, encryptKeyPair P c.viewPublicKey c.viewSecretKey c.oldestTimestamp key (ivs 0)⟩
        c.walletRecords.length c.walletRecords.length (encryptRecords P c.walletRecords key viewOnly ivs) := by
  simp [saveBytes, containerBytes]

theorem length_saveBytes (c : WalletContainerStorage) (key : ChachaKey) (viewOnly : Bool) (ivs : ℕ → ChachaIv) :
    (saveBytes P c key viewOnly ivs).length = walletFileSize c.walletRecords.length := by
  rw [saveBytes_eq, length_containerBytes, length_encryptRecords]

/-- what the reader sees in the bytes `save` wrote: the record count, the view keys and the saved records -/
theorem fileReads_saveBytes (c : WalletContainerStorage) (key : ChachaKey) (viewOnly : Bool) (ivs : ℕ → ChachaIv)
    (hn : c.walletRecords.length < 2 ^ 64) :
    fileItemCount (saveBytes P c key viewOnly ivs) = c.walletRecords.length ∧
    fileViewKeys P key (saveBytes P c key viewOnly ivs) = ⟨c.viewPublicKey, c.viewSecretKey, c.oldestTimestamp⟩ ∧
    fileRecords P key (saveBytes P c key viewOnly ivs) c.walletRecords.length =
      c.walletRecords.map (savedRecord viewOnly) := by
  rw [saveBytes_eq, ← List.append_nil (containerBytes _ _ _ _), fileItemCount_containerBytes _ _ _ _ _ hn hn,
    min_self, fileViewKeys_containerBytes, fileRecords_containerBytes _ _ _ _ _ _ _ (by simp),
    List.take_of_length_le (by simp), map_decryptKeyPair_encryptRecords, decryptKeyPair_encryptKeyPair]
  exact ⟨rfl, rfl, rfl⟩

theorem vectorMaxSize_lt : vectorMaxSize ≤ sizeMax / sizeofEncryptedWalletRecord := by decide

/-- records that agree on the tracking mode and pass their key check, saved in either mode, pass the reader -/
theorem recordsPass_savedRecords {n : ℕ} {rs : List WalletRecord} (viewOnly : Bool)
    (hrecords : (∀ r ∈ rs, r.spendSecretKey = Pod.zero 32 ∧ P.keyIsvalid r.spendPublicKey = true) ∨
      ∀ r ∈ rs, r.spendSecretKey ≠ Pod.zero 32 ∧ P.secretKeyToPublicKey r.spendSecretKey = some r.spendPublicKey) :
    RecordsPass P n (rs.map (savedRecord viewOnly)) := by
  refine recordsPass_of_forall P ?_ ?_ <;> simp only [List.mem_map]
  · rintro _ ⟨a, ha, rfl⟩ _ ⟨b, hb, rfl⟩
    cases viewOnly
    · rcases hrecords with h | h <;> simp [savedRecord, (h a ha).1, (h b hb).1]
    · simp [savedRecord]
  · rintro _ ⟨a, ha, rfl⟩
    rw [checkRecordKeys_eq_ok]
    rcases hrecords with h | h
    · cases viewOnly <;> simp [savedRecord, h a ha]
    · have := P.keyIsvalid_of_secretKeyToPublicKey _ _ (h a ha).2
      cases viewOnly <;> simp [savedRecord, h a ha, this]

/-! ## The round trip -/

/-- **`save` then `load_container_storage`.** For view keys that match, records that agree on the tracking mode
and pass their key check, and any iv draws: the bytes are `wallet_file_size(n)` long, and a fresh object with any
initial oldest timestamp `t0` loads them without throwing into the same view keys, the saved records, the index of
each key's first occurrence and the minimum of `t0` and the records' timestamps, truncating nothing. -/
theorem load_saveBytes_roundtrip (c : WalletContainerStorage) (key : ChachaKey) (viewOnly : Bool)
    (ivs : ℕ → ChachaIv) (t0 : Timestamp)
    (hview : P.secretKeyToPublicKey c.viewSecretKey = some c.viewPublicKey)
    (hrecords : (∀ r ∈ c.walletRecords, r.spendSecretKey = Pod.zero 32 ∧ P.keyIsvalid r.spendPublicKey = true) ∨
      ∀ r ∈ c.walletRecords, r.spendSecretKey ≠ Pod.zero 32 ∧
        P.secretKeyToPublicKey r.spendSecretKey = some r.spendPublicKey)
    (hsize : c.walletRecords.length ≤ vectorMaxSize) :
    (saveBytes P c key viewOnly ivs).length = walletFileSize c.walletRecords.length ∧
    ∃ c', loadContainerStorage P
        { WalletContainerStorage.fresh key (saveBytes P c key viewOnly ivs) with oldestTimestamp := t0 } = .ok c' ∧
      c'.viewPublicKey = c.viewPublicKey ∧ c'.viewSecretKey = c.viewSecretKey ∧
      c'.walletRecords = c.walletRecords.map (savedRecord viewOnly) ∧
      (∀ pk, c'.recordsMap pk = c.walletRecords.findIdx? fun r => r.spendPublicKey = pk) ∧
      c'.oldestTimestamp = c.walletRecords.foldl (fun t r => min t r.creationTimestamp) t0 ∧
      c'.file = saveBytes P c key viewOnly ivs := by
  have hn : c.walletRecords.length < 2 ^ 64 := lt_of_le_of_lt hsize (by decide)
  have hall : (encryptRecords P c.walletRecords key viewOnly ivs).take c.walletRecords.length =
      encryptRecords P c.walletRecords key viewOnly ivs := List.take_of_length_le (by simp)
  refine ⟨length_saveBytes P c key viewOnly ivs, ?_⟩
  rw [saveBytes_eq]
  obtain ⟨c', hload, hvp, hvs, hrs, hmap, hold, hfile⟩ := load_containerBytes P
    ⟨Pod.zero 8, encryptKeyPair P c.viewPublicKey c.viewSecretKey c.oldestTimestamp key (ivs 0)⟩ _ _
    (encryptRecords P c.walletRecords key viewOnly ivs) key t0 hn hn
    (by simp) (by simpa using le_trans hsize vectorMaxSize_lt) (by simpa using hview)
    (by rw [min_self, hall, map_decryptKeyPair_encryptRecords]; exact recordsPass_savedRecords P viewOnly hrecords)
  rw [min_self, hall, map_decryptKeyPair_encryptRecords] at hrs
  refine ⟨c', hload, by simpa using hvp, by simpa using hvs, hrs, fun pk => ?_, ?_, ?_⟩
  · rw [hmap, hrs, List.findIdx?_map]; rfl
  · rw [hold, hrs, List.foldl_map]; rfl
  · rw [hfile, min_self, ← length_encryptRecords P c.walletRecords key viewOnly ivs, ← length_containerBytes]
    exact List.take_length _

end

/-- ivs that are all zero -/
def zeroIvs : ℕ → ChachaIv := fun _ => Pod.zero 8

/-- a spending wallet of one record under `plainPrimitives` -/
def sampleWallet : WalletContainerStorage :=
  { WalletContainerStorage.fresh (Pod.zero 32) [] with
    viewPublicKey := Pod.fill 32 2
    viewSecretKey := Pod.fill 32 2
    walletRecords := [⟨Pod.fill 32 1, Pod.fill 32 1, 5⟩]
    oldestTimestamp := 5 }

/-- `sampleWallet` saved and loaded back -/
theorem sampleWallet_roundtrip :
    ∃ c', loadContainerStorage plainPrimitives { WalletContainerStorage.fresh (Pod.zero 32)
        (saveBytes plainPrimitives sampleWallet (Pod.zero 32) false zeroIvs) with oldestTimestamp := timestampMax } =
      .ok c' ∧ c'.walletRecords = sampleWallet.walletRecords := by
  obtain ⟨-, c', h1, -, -, h2, -⟩ := load_saveBytes_roundtrip plainPrimitives sampleWallet (Pod.zero 32) false zeroIvs
    timestampMax (by decide) (.inr (by decide)) (by decide)
  exact ⟨c', h1, by simpa using h2⟩

end BytecoinWallet.Container
