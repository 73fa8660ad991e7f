/-
What `load_container_storage` accepts and what it yields.

`loadRecords_eq_ok` says in one statement everything the record loop can do, and `loadContainerStorage_eq_ok`
everything the reader can do: it succeeds exactly when the file holds the `min(count, capacity)` records it announces,
the view keys match, the records agree on the tracking mode and the checked ones pass their key check; it then sets
the view keys, appends the decrypted records with `pushRecord` and truncates the file. The later results on the
container use these two lemmas and never unfold the reader.
-/
import BytecoinWallet.Container.Format

namespace BytecoinWallet.Container

/-- below `2 ^ 64` records, record `i` is checked exactly when it is one of the first or of the last
`CHECK_KEYS_COUNT`: the unsigned `item_count - CHECK_KEYS_COUNT` wraps only when every record is among the first -/
theorem isCheckedIndex_iff {n i : ℕ} (hn : n < 2 ^ 64) (hi : i < n) :
    isCheckedIndex n i = true ↔ i < checkKeysCount ∨ n ≤ i + checkKeysCount := by
  simp only [isCheckedIndex, checkKeysCount, sizeSub, Bool.or_eq_true, decide_eq_true_eq]
  omega

section
variable (P : Primitives)

/-! ## Records -/

@[simp] theorem length_bytes (r : EncryptedWalletRecord) : r.bytes.length = sizeofEncryptedWalletRecord := by
  simp [EncryptedWalletRecord.bytes, r.iv.size_eq, r.data.size_eq, sizeofEncryptedWalletRecord]

@[simp] theorem EncryptedWalletRecord.ofBytes_bytes_append (r : EncryptedWalletRecord) (rest : BinaryArray) :
    EncryptedWalletRecord.ofBytes (r.bytes ++ rest) = r := by
  cases r with | mk iv data => ?_
  simp only [EncryptedWalletRecord.ofBytes, EncryptedWalletRecord.bytes, List.append_assoc,
    List.drop_left' iv.size_eq, Pod.ofBytes_append]

theorem uintLeFromBytes64_uintLeToBytes (t : Timestamp) (rest : BinaryArray) :
    uintLeFromBytes64 (uintLeToBytes 8 t.val ++ rest) = t := by
  apply Fin.ext
  simp only [uintLeFromBytes64, List.take_left' (length_uintLeToBytes 8 t.val)]
  exact uintLeFromBytes_uintLeToBytes_of_lt (by simp)

/-- `decrypt_key_pair` undoes `encrypt_key_pair` under the same key, whatever the iv -/
@[simp] theorem decryptKeyPair_encryptKeyPair (pk : PublicKey) (sk : SecretKey) (ct : Timestamp) (key : ChachaKey)
    (iv : ChachaIv) : decryptKeyPair P (encryptKeyPair P pk sk ct key iv) key = ⟨pk, sk, ct⟩ := by
  have hct := uintLeFromBytes64_uintLeToBytes ct []
  have h64 : (pk.data ++ (sk.data ++ uintLeToBytes 8 ct.val)).drop 64 = uintLeToBytes 8 ct.val := by
    have h := List.drop_drop 32 32 (pk.data ++ (sk.data ++ uintLeToBytes 8 ct.val))
    rw [List.drop_left' pk.size_eq, List.drop_left' sk.size_eq] at h
    exact h.symm
  simp only [decryptKeyPair, encryptKeyPair, chachaXor_chachaXor, List.append_assoc, Pod.ofBytes_append,
    List.drop_left' pk.size_eq, h64]
  simpa using hct

theorem unpackRecords_flatten (es : List EncryptedWalletRecord) :
    unpackRecords (es.map EncryptedWalletRecord.bytes).flatten es.length = es := by
  induction es with
  | nil => rfl
  | cons e es ih =>
    simp only [unpackRecords, List.length_cons, List.range_succ_eq_map, List.map_cons, List.map_map] at ih ⊢
    refine congrArg₂ List.cons (by simp) ?_
    conv => rhs; rw [← ih]
    refine List.map_congr_left fun i _ => ?_
    have h : sizeofEncryptedWalletRecord * (i + 1) = e.bytes.length + sizeofEncryptedWalletRecord * i := by
      rw [length_bytes, Nat.mul_succ, Nat.add_comm]
    simp only [Function.comp_apply, List.flatten_cons, h, List.drop_append]

/-! ## The record loop -/

@[simp] theorem pushRecord_walletKey (c : WalletContainerStorage) (r : WalletRecord) :
    (c.pushRecord r).walletKey = c.walletKey := rfl

theorem foldl_pushRecord (c : WalletContainerStorage) (rs : List WalletRecord) :
    rs.foldl WalletContainerStorage.pushRecord c =
      { c with
        oldestTimestamp := rs.foldl (fun t r => min t r.creationTimestamp) c.oldestTimestamp
        recordsMap := (rs.enumFrom c.walletRecords.length).foldl
          (fun m p => m.insert p.2.spendPublicKey p.1) c.recordsMap
        walletRecords := c.walletRecords ++ rs } := by
  induction rs generalizing c with
  | nil => simp only [List.foldl_nil, List.append_nil, List.enumFrom_nil]
  | cons r rs ih =>
    rw [List.foldl_cons, ih]
    simp [WalletContainerStorage.pushRecord, List.enumFrom_cons]

/-- record `i` of a file of `n` records passes the loop's checks, `trackingMode` being record 0's -/
def RecordPasses (n : ℕ) (trackingMode : Bool) (i : ℕ) (record : WalletRecord) : Prop :=
  decide (record.spendSecretKey = Pod.zero 32) = trackingMode ∧
    (isCheckedIndex n i = true → checkRecordKeys P record.spendPublicKey record.spendSecretKey = .ok ())

/-- everything the record loop does from record `i + 1` on -/
theorem loadRecords_succ_eq_ok {n i : ℕ} {t : Bool} {rs : List EncryptedWalletRecord}
    {c c' : WalletContainerStorage} :
    loadRecords P n (i + 1) t rs c = .ok c' ↔
      (∀ p ∈ (rs.map (decryptKeyPair P · c.walletKey)).enumFrom (i + 1), RecordPasses P n t p.1 p.2) ∧
      c' = (rs.map (decryptKeyPair P · c.walletKey)).foldl WalletContainerStorage.pushRecord c := by
  induction rs generalizing i c with
  | nil => simp [loadRecords, eq_comm]
  | cons r rs ih =>
    by_cases h1 : decide ((decryptKeyPair P r c.walletKey).spendSecretKey = Pod.zero 32) = t
    · cases h2 : isCheckedIndex n (i + 1)
      · simp [loadRecords, h1, h2, ih, RecordPasses, List.enumFrom_cons]
      · cases h3 : checkRecordKeys P (decryptKeyPair P r c.walletKey).spendPublicKey
          (decryptKeyPair P r c.walletKey).spendSecretKey
        · simp [loadRecords, h1, h2, h3, RecordPasses, List.enumFrom_cons, bind, Except.bind, pure, Except.pure]
        · simp [loadRecords, h1, h2, h3, ih, RecordPasses, List.enumFrom_cons, bind, Except.bind, pure, Except.pure]
    · have h1' : ¬t = decide ((decryptKeyPair P r c.walletKey).spendSecretKey = Pod.zero 32) := fun h => h1 h.symm
      simp [loadRecords, h1, h1', RecordPasses, List.enumFrom_cons, throw, throwThe, bind, Except.bind]

/-- the checks `load_container_storage` makes on the decrypted records of a file of `n` records: each has record
0's tracking mode, and the checked ones pass their key check -/
def RecordsPass (n : ℕ) : List WalletRecord → Prop
  | [] => True
  | r :: rs => ∀ p ∈ (r :: rs).enumFrom 0, RecordPasses P n (decide (r.spendSecretKey = Pod.zero 32)) p.1 p.2

/-- everything the record loop does -/
theorem loadRecords_eq_ok {n : ℕ} {t : Bool} {rs : List EncryptedWalletRecord} {c c' : WalletContainerStorage} :
    loadRecords P n 0 t rs c = .ok c' ↔
      RecordsPass P n (rs.map (decryptKeyPair P · c.walletKey)) ∧
      c' = (rs.map (decryptKeyPair P · c.walletKey)).foldl WalletContainerStorage.pushRecord c := by
  cases rs with
  | nil => simp [loadRecords, RecordsPass, eq_comm]
  | cons r rs =>
    have h0 : isCheckedIndex n 0 = true := by simp [isCheckedIndex, checkKeysCount]
    have hsucc := @loadRecords_succ_eq_ok P n 0 (decide ((decryptKeyPair P r c.walletKey).spendSecretKey = Pod.zero 32))
      rs (c.pushRecord (decryptKeyPair P r c.walletKey)) c'
    cases h3 : checkRecordKeys P (decryptKeyPair P r c.walletKey).spendPublicKey
        (decryptKeyPair P r c.walletKey).spendSecretKey
    · simp [loadRecords, h0, h3, RecordsPass, RecordPasses, List.enumFrom_cons, bind, Except.bind, pure,
        Except.pure]
    · simp only [zero_add, pushRecord_walletKey] at hsucc
      simp [loadRecords, h0, h3, hsucc, RecordsPass, RecordPasses, List.enumFrom_cons, bind, Except.bind, pure,
        Except.pure]

theorem checkRecordKeys_eq_ok {pk : PublicKey} {sk : SecretKey} :
    checkRecordKeys P pk sk = .ok () ↔
      (sk ≠ Pod.zero 32 → P.secretKeyToPublicKey sk = some pk) ∧ (sk = Pod.zero 32 → P.keyIsvalid pk = true) := by
  by_cases h : sk = Pod.zero 32
  · cases hv : P.keyIsvalid pk <;> simp [checkRecordKeys, h, hv]
  · cases hm : keysMatch P sk pk <;> simp_all [checkRecordKeys, keysMatch]

/-- records that agree on the tracking mode and all pass their key check pass the reader, whatever the count -/
theorem recordsPass_of_forall {n : ℕ} {rs : List WalletRecord}
    (hmode : ∀ r ∈ rs, ∀ r' ∈ rs, (r.spendSecretKey = Pod.zero 32 ↔ r'.spendSecretKey = Pod.zero 32))
    (hkeys : ∀ r ∈ rs, checkRecordKeys P r.spendPublicKey r.spendSecretKey = .ok ()) : RecordsPass P n rs := by
  cases rs with
  | nil => trivial
  | cons r rs =>
    intro p hp
    obtain ⟨-, -, hx⟩ := List.mem_enumFrom hp
    have hmem : p.2 ∈ r :: rs := hx ▸ List.getElem_mem _
    exact ⟨by simpa using hmode _ hmem r (List.mem_cons_self _ _), fun _ => hkeys _ hmem⟩

/-- the index the record loop builds: each key goes to its first occurrence, unless it was indexed before -/
theorem foldl_insert_enumFrom (rs : List WalletRecord) (i : ℕ) (m : RecordsMap) (pk : PublicKey) :
    (rs.enumFrom i).foldl (fun m p => m.insert p.2.spendPublicKey p.1) m pk =
      (m pk).or (rs.findIdx? (fun r => r.spendPublicKey = pk) i) := by
  induction rs generalizing i m with
  | nil => simp
  | cons r rs ih =>
    rw [List.enumFrom_cons, List.foldl_cons, ih, List.findIdx?_cons]
    by_cases h : r.spendPublicKey = pk
    · subst h
      cases hm : m r.spendPublicKey <;> simp [hm]
    · simp [h, RecordsMap.insert_of_ne _ (Ne.symm h)]

/-! ## The reader -/

/-- `min(item_count, item_capacity)` as a file stores them -/
def fileItemCount (f : BinaryArray) : ℕ :=
  min (uintLeFromBytes64 ((f.drop (1 + sizeofContainerStoragePrefix)).drop 8)).val
    (uintLeFromBytes64 (f.drop (1 + sizeofContainerStoragePrefix))).val

/-- the view keys a file's prefix decrypts to under `key` -/
def fileViewKeys (key : ChachaKey) (f : BinaryArray) : WalletRecord :=
  decryptKeyPair P (ContainerStoragePrefix.ofBytes ((f.drop 1).take sizeofContainerStoragePrefix)).encryptedViewKeys
    key

/-- the first `n` records of a file, decrypted under `key` -/
def fileRecords (key : ChachaKey) (f : BinaryArray) (n : ℕ) : List WalletRecord :=
  (unpackRecords ((f.drop (walletFileSize 0)).take (sizeofEncryptedWalletRecord * n)) n).map
    (decryptKeyPair P · key)

/-- a file passes every check of `load_container_storage` under `key` -/
structure FileAccepted (key : ChachaKey) (f : BinaryArray) : Prop where
  length_ge : walletFileSize (fileItemCount f) ≤ f.length
  version_ge : ¬f.headD 0 < serializationVersionV2
  view_keys : P.secretKeyToPublicKey (fileViewKeys P key f).spendSecretKey = some (fileViewKeys P key f).spendPublicKey
  count_le : fileItemCount f ≤ sizeMax / sizeofEncryptedWalletRecord
  records_pass : RecordsPass P (fileItemCount f) (fileRecords P key f (fileItemCount f))

/-- the object `load_container_storage` leaves when it succeeds on `c` -/
def loadedObject (c : WalletContainerStorage) : WalletContainerStorage :=
  ((fileRecords P c.walletKey c.file (fileItemCount c.file)).foldl WalletContainerStorage.pushRecord
    { c with
      viewPublicKey := (fileViewKeys P c.walletKey c.file).spendPublicKey
      viewSecretKey := (fileViewKeys P c.walletKey c.file).spendSecretKey }).truncateFile
    (walletFileSize (fileItemCount c.file))

theorem uintLeFromBytes64_take (l : BinaryArray) {k : ℕ} (hk : 8 ≤ k) :
    uintLeFromBytes64 (l.take k) = uintLeFromBytes64 l :=
  Fin.ext (by simp [uintLeFromBytes64, List.take_take, min_eq_left hk])

/-- everything `load_container_storage` does -/
theorem loadContainerStorage_eq_ok {c c' : WalletContainerStorage} :
    loadContainerStorage P c = .ok c' ↔ FileAccepted P c.walletKey c.file ∧ c' = loadedObject P c := by
  have hv : ((c.file.drop 0).take 1).headD 0 = c.file.headD 0 := by cases c.file <;> rfl
  have hcap : uintLeFromBytes64 ((c.file.drop (1 + sizeofContainerStoragePrefix)).take (2 * 8)) =
      uintLeFromBytes64 (c.file.drop (1 + sizeofContainerStoragePrefix)) := uintLeFromBytes64_take _ (by decide)
  have hcount : uintLeFromBytes64 (((c.file.drop (1 + sizeofContainerStoragePrefix)).take (2 * 8)).drop 8) =
      uintLeFromBytes64 ((c.file.drop (1 + sizeofContainerStoragePrefix)).drop 8) := by
    rw [List.drop_take]; exact uintLeFromBytes64_take _ (by decide)
  have hsize : ∀ n, walletFileSize 0 + sizeofEncryptedWalletRecord * n = walletFileSize n := by
    intro n; simp [walletFileSize]
  by_cases h105 : walletFileSize 0 ≤ c.file.length
  · have r0 : readAt c.file 0 1 = some ((c.file.drop 0).take 1) := readAt_of_le (by simp [walletFileSize] at h105 ⊢; omega)
    have r1 : readAt c.file 1 sizeofContainerStoragePrefix = some ((c.file.drop 1).take sizeofContainerStoragePrefix) :=
      readAt_of_le (by simp [walletFileSize] at h105 ⊢; omega)
    have r2 : readAt c.file (1 + sizeofContainerStoragePrefix) (2 * 8) =
        some ((c.file.drop (1 + sizeofContainerStoragePrefix)).take (2 * 8)) :=
      readAt_of_le (by simp [walletFileSize] at h105 ⊢; omega)
    simp only [loadContainerStorage, r0, r1, r2, hv, hcap, hcount]
    rw [show min (uintLeFromBytes64 ((c.file.drop (1 + sizeofContainerStoragePrefix)).drop 8)).val
        (uintLeFromBytes64 (c.file.drop (1 + sizeofContainerStoragePrefix))).val = fileItemCount c.file from rfl,
      show decryptKeyPair P (ContainerStoragePrefix.ofBytes ((c.file.drop 1).take sizeofContainerStoragePrefix)).encryptedViewKeys
        c.walletKey = fileViewKeys P c.walletKey c.file from rfl]
    by_cases hver : c.file.headD 0 < serializationVersionV2
    · rw [if_pos hver]
      exact ⟨nofun, fun h => absurd hver h.1.version_ge⟩
    rw [if_neg hver]
    by_cases hkeys : P.secretKeyToPublicKey (fileViewKeys P c.walletKey c.file).spendSecretKey =
        some (fileViewKeys P c.walletKey c.file).spendPublicKey
    swap
    · rw [if_pos (by simpa [keysMatch] using hkeys)]
      exact ⟨nofun, fun h => absurd h.1.view_keys hkeys⟩
    rw [if_neg (by simpa [keysMatch] using hkeys)]
    by_cases hcnt : fileItemCount c.file ≤ sizeMax / sizeofEncryptedWalletRecord
    swap
    · rw [if_pos (by omega)]
      exact ⟨nofun, fun h => absurd h.1.count_le hcnt⟩
    rw [if_neg (by omega)]
    by_cases hlen : walletFileSize (fileItemCount c.file) ≤ c.file.length
    swap
    · rw [readAt_of_lt (by rw [hsize]; omega)]
      exact ⟨nofun, fun h => absurd h.1.length_ge hlen⟩
    rw [readAt_of_le (by rw [hsize]; omega)]
    dsimp only
    set c₁ : WalletContainerStorage :=
      { c with
        viewPublicKey := (fileViewKeys P c.walletKey c.file).spendPublicKey
        viewSecretKey := (fileViewKeys P c.walletKey c.file).spendSecretKey }
    cases hrec : loadRecords P (fileItemCount c.file) 0 false (unpackRecords ((c.file.drop (walletFileSize 0)).take
        (sizeofEncryptedWalletRecord * fileItemCount c.file)) (fileItemCount c.file)) c₁ with
    | error e =>
      have hfail : ¬RecordsPass P (fileItemCount c.file) (fileRecords P c.walletKey c.file (fileItemCount c.file)) :=
        fun hp => by rw [(loadRecords_eq_ok P (c := c₁)).2 ⟨hp, rfl⟩] at hrec; cases hrec
      simp only [hrec, Except.map]
      exact ⟨nofun, fun h => (hfail h.1.records_pass).elim⟩
    | ok c'' =>
      obtain ⟨hpass, rfl⟩ := (loadRecords_eq_ok P).1 hrec
      simp only [hrec, Except.map, Except.ok.injEq]
      exact ⟨fun h => ⟨⟨hlen, hver, hkeys, hcnt, hpass⟩, h.symm⟩, fun h => h.2.symm⟩
  · have r2 : readAt c.file (1 + sizeofContainerStoragePrefix) (2 * 8) = none :=
      readAt_of_lt (by simp [walletFileSize] at h105 ⊢; omega)
    have hR : ¬FileAccepted P c.walletKey c.file := fun h =>
      h105 (le_trans (by simp [walletFileSize]) h.length_ge)
    rw [loadContainerStorage]
    split
    · simp_all
    · exact ⟨nofun, fun h => absurd h.1 hR⟩

/-- what `load_container_storage` leaves: the file's view keys, and its records after the object's own -/
theorem loadedObject_fields (c : WalletContainerStorage) :
    (loadedObject P c).viewPublicKey = (fileViewKeys P c.walletKey c.file).spendPublicKey ∧
    (loadedObject P c).viewSecretKey = (fileViewKeys P c.walletKey c.file).spendSecretKey ∧
    (loadedObject P c).walletRecords = c.walletRecords ++ fileRecords P c.walletKey c.file (fileItemCount c.file) := by
  unfold loadedObject WalletContainerStorage.truncateFile
  split <;> simp [foldl_pushRecord, WalletContainerStorage.emit]

/-! ## Files of version 6 -/

theorem fileItemCount_lt (f : BinaryArray) : fileItemCount f < 2 ^ 64 :=
  lt_of_le_of_lt (min_le_right _ _) (Fin.isLt _)

@[simp] theorem length_fileRecords (key : ChachaKey) (f : BinaryArray) (n : ℕ) :
    (fileRecords P key f n).length = n := by
  simp [fileRecords, unpackRecords]

/-- the reader's record checks, one condition at a time: every record has record 0's tracking mode, and every
checked one passes its key check -/
theorem recordsPass_iff {n : ℕ} {rs : List WalletRecord} :
    RecordsPass P n rs ↔
      (∀ r ∈ rs, ∀ r0 ∈ rs.head?, (r.spendSecretKey = Pod.zero 32 ↔ r0.spendSecretKey = Pod.zero 32)) ∧
      ∀ i r, rs[i]? = some r → isCheckedIndex n i = true →
        checkRecordKeys P r.spendPublicKey r.spendSecretKey = .ok () := by
  cases rs with
  | nil => simp [RecordsPass]
  | cons r0 rs =>
    have hp : ∀ Q : ℕ → WalletRecord → Prop,
        (∀ p ∈ (r0 :: rs).enumFrom 0, Q p.1 p.2) ↔ ∀ i r, (r0 :: rs)[i]? = some r → Q i r :=
      fun Q => ⟨fun h i r hi => h (i, r) (List.mem_enum_iff_getElem?.2 hi),
        fun h p hp => h p.1 p.2 (List.mem_enum_iff_getElem?.1 hp)⟩
    rw [RecordsPass, hp]
    simp only [RecordPasses, List.head?_cons, Option.mem_def, Option.some.injEq, forall_eq',
      List.mem_iff_getElem?, forall_exists_index, decide_eq_decide]
    exact ⟨fun h => ⟨fun r i hi => (h i r hi).1, fun i r hi => (h i r hi).2⟩,
      fun h i r hi => ⟨h.1 r i hi, h.2 i r hi⟩⟩

/-- the checks of `load_container_storage` on a file of version 6 or more, one condition at a time -/
theorem fileAccepted_iff {key : ChachaKey} {f : BinaryArray} (hv : ¬f.headD 0 < serializationVersionV2) :
    FileAccepted P key f ↔
      keysMatch P (fileViewKeys P key f).spendSecretKey (fileViewKeys P key f).spendPublicKey = true ∧
      walletFileSize (fileItemCount f) ≤ f.length ∧
      (∀ r ∈ fileRecords P key f (fileItemCount f), ∀ r0 ∈ (fileRecords P key f (fileItemCount f)).head?,
        (r.spendSecretKey = Pod.zero 32 ↔ r0.spendSecretKey = Pod.zero 32)) ∧
      (∀ i r, (fileRecords P key f (fileItemCount f))[i]? = some r →
        i < checkKeysCount ∨ fileItemCount f ≤ i + checkKeysCount →
        checkRecordKeys P r.spendPublicKey r.spendSecretKey = .ok ()) ∧
      fileItemCount f ≤ sizeMax / sizeofEncryptedWalletRecord := by
  have hchecked : ∀ i r, (fileRecords P key f (fileItemCount f))[i]? = some r →
      (isCheckedIndex (fileItemCount f) i = true ↔ i < checkKeysCount ∨ fileItemCount f ≤ i + checkKeysCount) :=
    fun i r hi => isCheckedIndex_iff (fileItemCount_lt f)
      (by simpa using (List.getElem?_eq_some_iff.1 hi).1)
  rw [keysMatch_eq_true]
  refine ⟨fun ⟨h1, _, h3, h4, h5⟩ => ?_, fun ⟨h3, h1, h5, h6, h4⟩ => ⟨h1, hv, h3, h4, (recordsPass_iff P).2
    ⟨h5, fun i r hi hc => h6 i r hi ((hchecked i r hi).1 hc)⟩⟩⟩
  obtain ⟨h5, h6⟩ := (recordsPass_iff P).1 h5
  exact ⟨h3, h1, h5, fun i r hi hc => h6 i r hi ((hchecked i r hi).2 hc), h4⟩

/-- **`load_container_storage` on a file of version 6.** On a new object with wallet key `key` whose file is `b`,
the reader either throws, or sets the view keys to the prefix's decrypted view record and the records to the first
`n = min(count, capacity)` decrypted records in file order; it throws exactly when the view keys do not match, the
file is shorter than `wallet_file_size(n)`, a record's tracking mode differs from record 0's, a record among the
first or the last `CHECK_KEYS_COUNT` fails its key check, or `n` records would not fit in a `size_t` of bytes, which a
file of at most `SIZE_MAX` bytes already rules out by its length -/
theorem loadContainerStorage_version6 (key : ChachaKey) (b : BinaryArray) (h6 : b.headD 0 = 6) :
    (∀ c', loadContainerStorage P (WalletContainerStorage.fresh key b) = .ok c' →
      c'.viewPublicKey = (fileViewKeys P key b).spendPublicKey ∧
      c'.viewSecretKey = (fileViewKeys P key b).spendSecretKey ∧
      c'.walletRecords = fileRecords P key b (fileItemCount b)) ∧
    ((∃ e, loadContainerStorage P (WalletContainerStorage.fresh key b) = .error e) ↔
      keysMatch P (fileViewKeys P key b).spendSecretKey (fileViewKeys P key b).spendPublicKey = false ∨
      b.length < walletFileSize (fileItemCount b) ∨
      (∃ r ∈ fileRecords P key b (fileItemCount b), ∃ r0 ∈ (fileRecords P key b (fileItemCount b)).head?,
        ¬(r.spendSecretKey = Pod.zero 32 ↔ r0.spendSecretKey = Pod.zero 32)) ∨
      (∃ i r, (fileRecords P key b (fileItemCount b))[i]? = some r ∧
        (i < checkKeysCount ∨ fileItemCount b ≤ i + checkKeysCount) ∧
        checkRecordKeys P r.spendPublicKey r.spendSecretKey ≠ .ok ()) ∨
      sizeMax / sizeofEncryptedWalletRecord < fileItemCount b) ∧
    (b.length ≤ sizeMax → sizeMax / sizeofEncryptedWalletRecord < fileItemCount b →
      b.length < walletFileSize (fileItemCount b)) := by
  have hv : ¬b.headD 0 < serializationVersionV2 := by rw [h6]; decide
  refine ⟨fun c' h => ?_, ?_, fun hb hn => ?_⟩
  · obtain ⟨-, rfl⟩ := (loadContainerStorage_eq_ok P).1 h
    obtain ⟨h1, h2, h3⟩ := loadedObject_fields P (WalletContainerStorage.fresh key b)
    exact ⟨h1, h2, by simpa [WalletContainerStorage.fresh] using h3⟩
  · have hok : (∃ c', loadContainerStorage P (WalletContainerStorage.fresh key b) = .ok c') ↔
        FileAccepted P key b :=
      ⟨fun ⟨_, h⟩ => ((loadContainerStorage_eq_ok P).1 h).1, fun h => ⟨_, (loadContainerStorage_eq_ok P).2 ⟨h, rfl⟩⟩⟩
    have herr : (∃ e, loadContainerStorage P (WalletContainerStorage.fresh key b) = .error e) ↔
        ¬∃ c', loadContainerStorage P (WalletContainerStorage.fresh key b) = .ok c' := by
      cases loadContainerStorage P (WalletContainerStorage.fresh key b) <;> simp
    rw [herr, hok, fileAccepted_iff P hv]
    simp only [not_and_or, Bool.not_eq_true, not_le, not_forall, Classical.not_imp, exists_prop]
  · rw [Nat.div_lt_iff_lt_mul (by decide)] at hn
    simp only [walletFileSize, sizeofContainerStoragePrefix, sizeofEncryptedWalletRecord, sizeMax] at hb hn ⊢
    omega

end

/-- a wallet of a spending record and a tracking one, which `save` writes but the reader must refuse -/
def mixedWallet : WalletContainerStorage :=
  { WalletContainerStorage.fresh (Pod.zero 32) [] with
    viewPublicKey := Pod.fill 32 2
    viewSecretKey := Pod.fill 32 2
    walletRecords := [⟨Pod.fill 32 1, Pod.fill 32 1, 5⟩, ⟨Pod.fill 32 3, Pod.zero 32, 5⟩] }

/-- the file `save` writes from `mixedWallet` decodes to its two records, whose tracking modes differ: the reader
throws -/
theorem mixed_file_throws :
    fileRecords plainPrimitives (Pod.zero 32) (saveBytes plainPrimitives mixedWallet (Pod.zero 32) false fun _ => Pod.zero 8)
        (fileItemCount (saveBytes plainPrimitives mixedWallet (Pod.zero 32) false fun _ => Pod.zero 8)) =
      mixedWallet.walletRecords ∧
    ∃ e, loadContainerStorage plainPrimitives (WalletContainerStorage.fresh (Pod.zero 32)
      (saveBytes plainPrimitives mixedWallet (Pod.zero 32) false fun _ => Pod.zero 8)) = .error e := by
  have hrec : fileRecords plainPrimitives (Pod.zero 32)
      (saveBytes plainPrimitives mixedWallet (Pod.zero 32) false fun _ => Pod.zero 8)
      (fileItemCount (saveBytes plainPrimitives mixedWallet (Pod.zero 32) false fun _ => Pod.zero 8)) =
      mixedWallet.walletRecords := rfl
  refine ⟨hrec, (loadContainerStorage_version6 plainPrimitives (Pod.zero 32)
    (saveBytes plainPrimitives mixedWallet (Pod.zero 32) false fun _ => Pod.zero 8) rfl).2.1.2 (.inr (.inr (.inl ?_)))⟩
  rw [hrec]
  exact ⟨_, .tail _ (.head _), _, rfl, by decide⟩

end BytecoinWallet.Container
