/-
What `save_and_check`, `load()` and the constructors do, stated once: later results cite these lemmas and never
unfold the calls.

- `saveAndCheck_eq`: on an object whose keys pass the reader's checks, `save_and_check` replaces the file at `m_path`
  by the bytes `save` wrote exactly when the cached oldest timestamp is the minimum of the records' timestamps, and
  throws `WALLET_FILE_WRITE_ERROR` otherwise; `saveAndCheck_fst_of_error`: a throw leaves the object as it was.
- `Stored`: the object agrees with its file, which is a container file of exactly its view keys and records.
  `stored_of_openWithKey` (opening a file `save` wrote) and `stored_saveAndCheck` establish it, and
  `fileMatches_of_stored` reads it back: decoding the file gives the object's view keys and records.
-/
import BytecoinWallet.Container.Storage

namespace BytecoinWallet.Container

/-! ## Small lemmas -/

@[simp] theorem savedRecord_false (r : WalletRecord) : savedRecord false r = r := rfl

@[simp] theorem map_savedRecord_false (rs : List WalletRecord) : rs.map (savedRecord false) = rs := by
  induction rs with
  | nil => rfl
  | cons r rs ih => simp [ih]

@[simp] theorem sameWallet_eq_true {a b : WalletContainerStorage} :
    a.sameWallet b = true ↔ a.viewPublicKey = b.viewPublicKey ∧ a.viewSecretKey = b.viewSecretKey ∧
      a.oldestTimestamp = b.oldestTimestamp ∧ a.walletRecords = b.walletRecords := by
  simp [WalletContainerStorage.sameWallet, and_assoc]

theorem fresh_eq (key : ChachaKey) (f : BinaryArray) :
    WalletContainerStorage.fresh key f = { WalletContainerStorage.fresh key f with oldestTimestamp := timestampMax } :=
  rfl

section
variable (P : Primitives)

@[simp] theorem deriveSeeds_file (c : WalletContainerStorage) : (c.deriveSeeds P).file = c.file := rfl
@[simp] theorem deriveSeeds_fileOpen (c : WalletContainerStorage) : (c.deriveSeeds P).fileOpen = c.fileOpen := rfl
@[simp] theorem deriveSeeds_walletKey (c : WalletContainerStorage) : (c.deriveSeeds P).walletKey = c.walletKey := rfl
@[simp] theorem deriveSeeds_viewPublicKey (c : WalletContainerStorage) :
    (c.deriveSeeds P).viewPublicKey = c.viewPublicKey := rfl
@[simp] theorem deriveSeeds_viewSecretKey (c : WalletContainerStorage) :
    (c.deriveSeeds P).viewSecretKey = c.viewSecretKey := rfl
@[simp] theorem deriveSeeds_walletRecords (c : WalletContainerStorage) :
    (c.deriveSeeds P).walletRecords = c.walletRecords := rfl
@[simp] theorem deriveSeeds_recordsMap (c : WalletContainerStorage) :
    (c.deriveSeeds P).recordsMap = c.recordsMap := rfl
@[simp] theorem deriveSeeds_oldestTimestamp (c : WalletContainerStorage) :
    (c.deriveSeeds P).oldestTimestamp = c.oldestTimestamp := rfl

/-! ## Loading -/

theorem loadContainerStorage_ok_frame {c c' : WalletContainerStorage} (h : loadContainerStorage P c = .ok c') :
    c'.walletKey = c.walletKey ∧ c'.fileOpen = c.fileOpen := by
  obtain ⟨-, rfl⟩ := (loadContainerStorage_eq_ok P).1 h
  rw [loadedObject, foldl_pushRecord]
  unfold WalletContainerStorage.truncateFile
  split <;> exact ⟨rfl, rfl⟩

/-- the end of `load()` on a wallet with records keeps the object, up to the derived seeds -/
theorem finishLoad_of_ne_nil {c : WalletContainerStorage} (h : c.walletRecords ≠ []) :
    finishLoad P c = .ok (if c.isViewOnly then c else c.deriveSeeds P) := by
  rw [finishLoad, if_neg h]
  split <;> rfl

/-- `load()` on a file of format 6 is `load_container_storage` then the end of `load()`, whatever its legacy branch -/
theorem loadWith_of_headD (legacy : WalletContainerStorage → Except Failure WalletContainerStorage)
    {c : WalletContainerStorage} (hne : c.file ≠ []) (hv : c.file.headD 0 = serializationVersionV2) :
    loadWith P legacy c = (loadContainerStorage P c).bind (finishLoad P) := by
  obtain ⟨b, f, hf⟩ := List.exists_cons_of_ne_nil hne
  have hb : b = serializationVersionV2 := by rw [hf] at hv; exact hv
  rw [loadWith, hf, readAt_of_le (by simp)]
  simp [hb, serializationVersionV2]

/-! ## `save_and_check` -/

/-- the keys of an object pass every check `load_container_storage` makes on them: the view keys match, and the
records are all tracking with valid public keys or all spending with matching keys; there is at least one record and
no more than a vector holds -/
structure KeysValid (c : WalletContainerStorage) : Prop where
  view_keys : P.secretKeyToPublicKey c.viewSecretKey = some c.viewPublicKey
  records : (∀ r ∈ c.walletRecords, r.spendSecretKey = Pod.zero 32 ∧ P.keyIsvalid r.spendPublicKey = true) ∨
    ∀ r ∈ c.walletRecords, r.spendSecretKey ≠ Pod.zero 32 ∧
      P.secretKeyToPublicKey r.spendSecretKey = some r.spendPublicKey
  nonempty : c.walletRecords ≠ []
  size_le : c.walletRecords.length ≤ vectorMaxSize

/-- **`save_and_check`.** On an object whose keys pass the reader's checks, the second object reads back the view
keys and records, so the comparison fails exactly when the cached oldest timestamp is not the minimum over the
records: then it throws `WALLET_FILE_WRITE_ERROR` and changes nothing, and otherwise the file at `m_path` becomes the
bytes `save` wrote. -/
theorem saveAndCheck_eq (ivs : ℕ → ChachaIv) {c : WalletContainerStorage} (hc : KeysValid P c) :
    saveAndCheck P ivs c =
      if c.oldestTimestamp = c.walletRecords.foldl (fun t r => min t r.creationTimestamp) timestampMax then
        ({ c.emit (.replace (saveBytes P c c.walletKey false ivs)) with fileOpen := true }, .ok ())
      else (c, .error (.exception .walletFileWriteError "Error writing wallet file - records do not match")) := by
  obtain ⟨-, c', hload, hvp, hvs, hrs, -, hold, hfile⟩ :=
    load_saveBytes_roundtrip P c c.walletKey false ivs timestampMax hc.view_keys hc.records hc.size_le
  rw [map_savedRecord_false] at hrs
  have hne : saveBytes P c c.walletKey false ivs ≠ [] := by rw [saveBytes_eq]; exact List.cons_ne_nil _ _
  have hfin := finishLoad_of_ne_nil P (c := c') (by rw [hrs]; exact hc.nonempty)
  rw [saveAndCheck, loadWith_of_headD P _ hne (by rw [saveBytes_eq]; rfl), fresh_eq, hload, Except.bind, hfin]
  dsimp only
  have hsame : c.sameWallet (if c'.isViewOnly then c' else c'.deriveSeeds P) = true ↔
      c.oldestTimestamp = c.walletRecords.foldl (fun t r => min t r.creationTimestamp) timestampMax := by
    split <;> simp [hvp, hvs, hrs, hold]
  by_cases h : c.oldestTimestamp = c.walletRecords.foldl (fun t r => min t r.creationTimestamp) timestampMax
  · rw [if_pos (hsame.2 h), if_pos h]
    split <;> simp [hfile]
  · rw [if_neg (mt hsame.1 h), if_neg h]

theorem saveAndCheck_fst_eq (ivs : ℕ → ChachaIv) (c : WalletContainerStorage) :
    ∃ f j o, (saveAndCheck P ivs c).1 = { c with file := f, journal := j, fileOpen := o } := by
  unfold saveAndCheck
  split
  · exact ⟨c.file, c.journal, c.fileOpen, rfl⟩
  · split
    · exact ⟨_, _, true, rfl⟩
    · exact ⟨c.file, c.journal, c.fileOpen, rfl⟩

theorem saveAndCheck_fst_of_error (ivs : ℕ → ChachaIv) (c : WalletContainerStorage) {e : Failure}
    (h : (saveAndCheck P ivs c).2 = .error e) : (saveAndCheck P ivs c).1 = c := by
  cases hl : loadWith P (loadLegacyBranch P)
      (WalletContainerStorage.fresh c.walletKey (saveBytes P c c.walletKey false ivs)) with
  | error => simp [saveAndCheck, hl]
  | ok other => by_cases hs : c.sameWallet other <;> simp [saveAndCheck, hl, hs] at h ⊢

/-- a `save_and_check` that returns has read its own file back: the reader accepted it -/
theorem fileAccepted_of_saveAndCheck {ivs : ℕ → ChachaIv} {c : WalletContainerStorage}
    (h : (saveAndCheck P ivs c).2 = .ok ()) : FileAccepted P c.walletKey (saveBytes P c c.walletKey false ivs) := by
  have hne : saveBytes P c c.walletKey false ivs ≠ [] := by rw [saveBytes_eq]; exact List.cons_ne_nil _ _
  have hv : (saveBytes P c c.walletKey false ivs).headD 0 = serializationVersionV2 := by rw [saveBytes_eq]; rfl
  unfold saveAndCheck at h
  rw [loadWith_of_headD P _ (c := WalletContainerStorage.fresh c.walletKey (saveBytes P c c.walletKey false ivs))
    hne hv] at h
  cases hl : loadContainerStorage P (WalletContainerStorage.fresh c.walletKey (saveBytes P c c.walletKey false ivs))
  · simp [hl, Except.bind] at h
  · exact ((loadContainerStorage_eq_ok P).1 hl).1

theorem KeysValid.congr {c c' : WalletContainerStorage} (h : KeysValid P c) (hvp : c'.viewPublicKey = c.viewPublicKey)
    (hvs : c'.viewSecretKey = c.viewSecretKey) (hrs : c'.walletRecords = c.walletRecords) : KeysValid P c' := by
  obtain ⟨h1, h2, h3, h4⟩ := h
  exact ⟨hvp ▸ hvs ▸ h1, hrs ▸ h2, hrs ▸ h3, hrs ▸ h4⟩

/-- keys that pass stay passing on a nonempty object of no more records, each one of the old records -/
theorem KeysValid.of_subset {c c' : WalletContainerStorage} (h : KeysValid P c)
    (hvp : c'.viewPublicKey = c.viewPublicKey) (hvs : c'.viewSecretKey = c.viewSecretKey)
    (hsub : ∀ r ∈ c'.walletRecords, r ∈ c.walletRecords) (hne : c'.walletRecords ≠ [])
    (hsize : c'.walletRecords.length ≤ vectorMaxSize) : KeysValid P c' := by
  refine ⟨hvp ▸ hvs ▸ h.view_keys, ?_, hne, hsize⟩
  rcases h.records with h' | h'
  · exact .inl fun r hr => h' r (hsub r hr)
  · exact .inr fun r hr => h' r (hsub r hr)

theorem keysValid_saveAndCheck (ivs : ℕ → ChachaIv) {c : WalletContainerStorage} (hc : KeysValid P c) :
    KeysValid P (saveAndCheck P ivs c).1 := by
  obtain ⟨f, j, o, h⟩ := saveAndCheck_fst_eq P ivs c
  rw [h]
  exact hc.congr P rfl rfl rfl

/-- a wallet of at most `CHECK_KEYS_COUNT` records whose saved file the reader accepts has its keys checked: they
pass -/
theorem keysValid_of_saveAccepted {c : WalletContainerStorage} {key : ChachaKey} {ivs : ℕ → ChachaIv}
    (hne : c.walletRecords ≠ []) (hsmall : c.walletRecords.length ≤ checkKeysCount)
    (hacc : FileAccepted P key (saveBytes P c key false ivs)) : KeysValid P c := by
  obtain ⟨hcount, hview, hrecs⟩ := fileReads_saveBytes P c key false ivs (by simp [checkKeysCount] at hsmall; omega)
  generalize saveBytes P c key false ivs = f at hacc hcount hview hrecs
  have hpass := hacc.records_pass
  rw [hcount, hrecs, map_savedRecord_false, recordsPass_iff] at hpass
  have hkeys : ∀ r ∈ c.walletRecords, checkRecordKeys P r.spendPublicKey r.spendSecretKey = .ok () := fun r hr => by
    obtain ⟨i, hi⟩ := List.mem_iff_getElem?.1 hr
    have hlt := (List.getElem?_eq_some_iff.1 hi).1
    exact hpass.2 i r hi (by simp [isCheckedIndex]; omega)
  obtain ⟨r0, rs, hrs⟩ := List.exists_cons_of_ne_nil hne
  have hmode : ∀ r ∈ c.walletRecords, (r.spendSecretKey = Pod.zero 32 ↔ r0.spendSecretKey = Pod.zero 32) :=
    fun r hr => hpass.1 r hr r0 (by simp [hrs])
  refine ⟨by simpa [hview] using hacc.view_keys, ?_, hne, le_trans hsmall (by decide)⟩
  by_cases hz : r0.spendSecretKey = Pod.zero 32
  · exact .inl fun r hr => ⟨(hmode r hr).2 hz, ((checkRecordKeys_eq_ok P).1 (hkeys r hr)).2 ((hmode r hr).2 hz)⟩
  · exact .inr fun r hr => ⟨fun h => hz ((hmode r hr).1 h), ((checkRecordKeys_eq_ok P).1 (hkeys r hr)).1
      fun h => hz ((hmode r hr).1 h)⟩

/-- records that pass the reader's checks still do once saved, in either mode -/
theorem savedRecords_valid {rs : List WalletRecord} (viewOnly : Bool)
    (h : (∀ r ∈ rs, r.spendSecretKey = Pod.zero 32 ∧ P.keyIsvalid r.spendPublicKey = true) ∨
      ∀ r ∈ rs, r.spendSecretKey ≠ Pod.zero 32 ∧ P.secretKeyToPublicKey r.spendSecretKey = some r.spendPublicKey) :
    (∀ r ∈ rs.map (savedRecord viewOnly), r.spendSecretKey = Pod.zero 32 ∧ P.keyIsvalid r.spendPublicKey = true) ∨
      ∀ r ∈ rs.map (savedRecord viewOnly), r.spendSecretKey ≠ Pod.zero 32 ∧
        P.secretKeyToPublicKey r.spendSecretKey = some r.spendPublicKey := by
  cases viewOnly
  · simpa using h
  · refine .inl fun r hr => ?_
    obtain ⟨a, ha, rfl⟩ := List.mem_map.1 hr
    refine ⟨rfl, ?_⟩
    rcases h with h | h
    · exact (h a ha).2
    · exact P.keyIsvalid_of_secretKeyToPublicKey _ _ (h a ha).2

/-! ## The object and its file -/

/-- the file is a container file of exactly the object's view keys and records, under its wallet key -/
def FileHolds (c : WalletContainerStorage) : Prop :=
  ∃ (p : ContainerStoragePrefix) (es : List EncryptedWalletRecord),
    c.file = containerBytes p c.walletRecords.length c.walletRecords.length es ∧
    (decryptKeyPair P p.encryptedViewKeys c.walletKey).spendPublicKey = c.viewPublicKey ∧
    (decryptKeyPair P p.encryptedViewKeys c.walletKey).spendSecretKey = c.viewSecretKey ∧
    es.map (decryptKeyPair P · c.walletKey) = c.walletRecords

/-- **The object agrees with its file**: its keys pass the reader's checks, its open file holds them -/
structure Stored (c : WalletContainerStorage) : Prop where
  keys : KeysValid P c
  file : FileHolds P c
  file_open : c.fileOpen = true

/-- decoding the file at `m_path` with `load_container_storage` under the wallet key yields the object's view keys
and records, and the file is `wallet_file_size(n)` bytes long -/
def fileMatches (c : WalletContainerStorage) : Bool :=
  match loadContainerStorage P (WalletContainerStorage.fresh c.walletKey c.file) with
  | .ok d =>
    d.viewPublicKey == c.viewPublicKey && d.viewSecretKey == c.viewSecretKey && d.walletRecords == c.walletRecords &&
      c.file.length == walletFileSize c.walletRecords.length
  | .error _ => false

theorem fileMatches_of_stored {c : WalletContainerStorage} (h : Stored P c) : fileMatches P c = true := by
  obtain ⟨p, es, hf, hvp, hvs, hrs⟩ := h.file
  have hlen : es.length = c.walletRecords.length := by rw [← hrs, List.length_map]
  have hn : c.walletRecords.length < 2 ^ 64 := lt_of_le_of_lt h.keys.size_le (by decide)
  have hall : (es.take (min c.walletRecords.length c.walletRecords.length)).map (decryptKeyPair P · c.walletKey) =
      c.walletRecords := by rw [min_self, ← hlen, List.take_length, hrs]
  obtain ⟨d, hload, hdvp, hdvs, hdrs, -⟩ := load_containerBytes P p _ _ es c.walletKey timestampMax hn hn
    (by rw [min_self, hlen]) (by rw [min_self]; exact le_trans h.keys.size_le vectorMaxSize_lt)
    (by rw [hvp, hvs]; exact h.keys.view_keys)
    (by rw [hall]; simpa using recordsPass_savedRecords P (n := c.walletRecords.length) false h.keys.records)
  rw [fileMatches, hf, fresh_eq, hload]
  simp [hdvp, hdvs, hdrs.trans hall, hvp, hvs, length_containerBytes, hlen]

theorem truncateFile_fields (c : WalletContainerStorage) (n : ℕ) :
    (c.truncateFile n).walletKey = c.walletKey ∧ (c.truncateFile n).fileOpen = c.fileOpen ∧
      (c.truncateFile n).walletRecords = c.walletRecords ∧ (c.truncateFile n).recordsMap = c.recordsMap := by
  unfold WalletContainerStorage.truncateFile
  split <;> exact ⟨rfl, rfl, rfl, rfl⟩

/-- `load_container_storage` on any object whose file `save` wrote from `c0` under the object's key appends the saved
records to the object's own and indexes them after its own -/
theorem loadContainerStorage_of_saveBytes (viewOnly : Bool) (ivs : ℕ → ChachaIv) {c c0 : WalletContainerStorage}
    (hc0 : KeysValid P c0) (hf : c.file = saveBytes P c0 c.walletKey viewOnly ivs) :
    ∃ c', loadContainerStorage P c = .ok c' ∧ c'.walletKey = c.walletKey ∧ c'.fileOpen = c.fileOpen ∧
      c'.walletRecords = c.walletRecords ++ c0.walletRecords.map (savedRecord viewOnly) ∧
      c'.recordsMap = ((c0.walletRecords.map (savedRecord viewOnly)).enumFrom c.walletRecords.length).foldl
        (fun m p => m.insert p.2.spendPublicKey p.1) c.recordsMap := by
  obtain ⟨-, c'', hload, -⟩ :=
    load_saveBytes_roundtrip P c0 c.walletKey viewOnly ivs timestampMax hc0.view_keys hc0.records hc0.size_le
  have hacc : FileAccepted P c.walletKey c.file := hf ▸ ((loadContainerStorage_eq_ok P).1 hload).1
  have hn : c0.walletRecords.length < 2 ^ 64 := lt_of_le_of_lt hc0.size_le (by decide)
  have hrecs : fileRecords P c.walletKey c.file (fileItemCount c.file) = c0.walletRecords.map (savedRecord viewOnly) := by
    rw [hf, saveBytes_eq, ← List.append_nil (containerBytes _ _ _ _), fileItemCount_containerBytes _ _ _ _ _ hn hn,
      min_self, fileRecords_containerBytes _ _ _ _ _ _ _ (by simp), List.take_of_length_le (by simp),
      map_decryptKeyPair_encryptRecords]
  refine ⟨_, (loadContainerStorage_eq_ok P).2 ⟨hacc, rfl⟩, ?_⟩
  obtain ⟨h1, h2, h3, h4⟩ := truncateFile_fields
    ((fileRecords P c.walletKey c.file (fileItemCount c.file)).foldl WalletContainerStorage.pushRecord
      { c with
        viewPublicKey := (fileViewKeys P c.walletKey c.file).spendPublicKey
        viewSecretKey := (fileViewKeys P c.walletKey c.file).spendSecretKey }) (walletFileSize (fileItemCount c.file))
  rw [loadedObject, h1, h2, h3, h4, hrecs, foldl_pushRecord]
  exact ⟨rfl, rfl, rfl, rfl⟩

/-- `load()` of a file `save` wrote, onto an object whose own records are among the saved ones, leaves keys that pass
the reader's checks -/
theorem keysValid_load_saveBytes {c0 c c' : WalletContainerStorage} {ivs0 ivs : ℕ → ChachaIv} (hc0 : KeysValid P c0)
    (hf : c.file = saveBytes P c0 c.walletKey false ivs0) (hsub : ∀ r ∈ c.walletRecords, r ∈ c0.walletRecords)
    (hsize : c.walletRecords.length + c0.walletRecords.length ≤ vectorMaxSize) (h : load P ivs c = .ok c') :
    KeysValid P c' := by
  have hne : c.file ≠ [] := by rw [hf, saveBytes_eq]; exact List.cons_ne_nil _ _
  have hv : c.file.headD 0 = serializationVersionV2 := by rw [hf, saveBytes_eq]; rfl
  obtain ⟨-, hview, -⟩ := fileReads_saveBytes P c0 c.walletKey false ivs0 (lt_of_le_of_lt hc0.size_le (by decide))
  obtain ⟨c4, hl, -, -, hrs, -⟩ := loadContainerStorage_of_saveBytes P false ivs0 hc0 hf
  obtain ⟨hvp, hvs, -⟩ := loadedObject_fields P c
  rw [← ((loadContainerStorage_eq_ok P).1 hl).2, hf, hview] at hvp hvs
  rw [map_savedRecord_false] at hrs
  have hc4 : KeysValid P c4 := hc0.of_subset P hvp hvs
    (fun x hx => by rw [hrs, List.mem_append] at hx; exact hx.elim (hsub x) id)
    (by rw [hrs]; exact List.append_ne_nil_of_right_ne_nil _ hc0.nonempty) (by rw [hrs, List.length_append]; exact hsize)
  rw [load, loadWith_of_headD P _ hne hv, hl, Except.bind, finishLoad_of_ne_nil P hc4.nonempty] at h
  cases h
  split
  · exact hc4
  · exact hc4.congr P rfl rfl rfl

theorem stored_saveAndCheck (ivs : ℕ → ChachaIv) {c : WalletContainerStorage} (hc : KeysValid P c)
    (h : (saveAndCheck P ivs c).2 = .ok ()) : Stored P (saveAndCheck P ivs c).1 := by
  rw [saveAndCheck_eq P ivs hc] at h ⊢
  split at h
  · rw [if_pos ‹_›]
    refine ⟨hc.congr P rfl rfl rfl, ⟨_, _, saveBytes_eq P _ _ _ _, ?_, ?_, ?_⟩, rfl⟩ <;>
      simp [WalletContainerStorage.emit, map_decryptKeyPair_encryptRecords]
  · cases h

/-- opening a file `save` wrote, from an object whose keys pass the reader's checks, gives an object that agrees with
its file -/
theorem stored_of_openWithKey {c0 c : WalletContainerStorage} {key : ChachaKey} {viewOnly : Bool}
    {ivs0 ivs : ℕ → ChachaIv} (hc0 : KeysValid P c0) (h : openWithKey P key (saveBytes P c0 key viewOnly ivs0) ivs = .ok c) :
    Stored P c := by
  obtain ⟨-, c', hload, hvp, hvs, hrs, -, -, hfile⟩ :=
    load_saveBytes_roundtrip P c0 key viewOnly ivs0 timestampMax hc0.view_keys hc0.records hc0.size_le
  have hne : saveBytes P c0 key viewOnly ivs0 ≠ [] := by rw [saveBytes_eq]; exact List.cons_ne_nil _ _
  obtain ⟨hk, hopen⟩ := loadContainerStorage_ok_frame P hload
  replace hk : c'.walletKey = key := hk
  replace hopen : c'.fileOpen = true := hopen
  have hkeys : KeysValid P c' :=
    ⟨by rw [hvp, hvs]; exact hc0.view_keys, by rw [hrs]; exact savedRecords_valid P viewOnly hc0.records,
      by rw [hrs]; simpa using hc0.nonempty, by rw [hrs, List.length_map]; exact hc0.size_le⟩
  have hst : Stored P c' := by
    refine ⟨hkeys, ⟨_, _, by rw [hfile, hrs, List.length_map]; exact saveBytes_eq P _ _ _ _, ?_, ?_, ?_⟩, ?_⟩
    · simp [hk, hvp]
    · simp [hk, hvs]
    · rw [hk, map_decryptKeyPair_encryptRecords, hrs]
    · exact hopen
  rw [openWithKey, load, loadWith_of_headD P _ hne (by rw [saveBytes_eq]; rfl), fresh_eq, hload, Except.bind,
    finishLoad_of_ne_nil P hkeys.nonempty] at h
  cases h
  split
  · exact hst
  · exact ⟨hkeys.congr P rfl rfl rfl, hst.file, hst.file_open⟩

end

end BytecoinWallet.Container
