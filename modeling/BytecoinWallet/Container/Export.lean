/-
`export_wallet` and `export_keys` of the container wallet, and the import of keys by the creating constructor.

`export_wallet` checks each record as the reader checks the first and last ones (a spending record's keys match, a
tracking record's public key is a point), then `save`s the wallet under the key of the new password, zeroing every
spend secret key for a view-only export; it never reads `view_outgoing_addresses`. `export_keys` writes the first
record's keys and the view keys in hex, the format the creating constructor imports.

- `exportWallet_openWithPassword`: from every reachable object `export_wallet` returns, and opening the exported file
  with the new password gives a reachable object, with the same view keys and the records saved in the export's mode.
- `exportKeys_create`: from an object whose keys pass the reader's checks, the creating constructor given the string of
  `export_keys` and creation timestamp 0 returns a wallet with the same view keys that holds the first record twice
  (`create_import_zero`: an import at timestamp 0 completes, where any other timestamp throws).
-/
import BytecoinWallet.Container.Crash
import Mathlib.Data.String.Basic

namespace BytecoinWallet.Container

/-! ## Hex -/

/-- the two digits `to_hex` writes for a byte, as bytes -/
def hexPair (b : UInt8) : BinaryArray :=
  [UInt8.ofNat (Nat.digitChar (b.toNat / 16)).toNat, UInt8.ofNat (Nat.digitChar (b.toNat % 16)).toNat]

theorem asBinaryArray_toHex (bs : BinaryArray) : asBinaryArray (toHex bs) = bs.flatMap hexPair := by
  simp only [asBinaryArray, String.toList, toHex, String.data_join, List.map_map, Function.comp_def]
  induction bs with
  | nil => rfl
  | cons b bs ih => simp only [List.map_cons, List.flatten_cons, List.map_append, ih, List.flatMap_cons]; rfl

theorem hexDigitValue_digitChar : ∀ d < 16, hexDigitValue (UInt8.ofNat (Nat.digitChar d).toNat) = some d := by
  decide

theorem fromHex_flatMap_hexPair (bs : BinaryArray) : fromHex (bs.flatMap hexPair) = some bs := by
  induction bs with
  | nil => rfl
  | cons b bs ih =>
    have hb : b.toNat < 256 := b.toNat_lt_size
    rw [List.flatMap_cons, hexPair, List.cons_append, List.cons_append, List.nil_append, fromHex,
      hexDigitValue_digitChar _ (by omega), hexDigitValue_digitChar _ (Nat.mod_lt _ (by decide)), ih]
    dsimp only
    rw [show 16 * (b.toNat / 16) + b.toNat % 16 = b.toNat by omega, byte_ofNat_toNat]

theorem length_flatMap_hexPair (bs : BinaryArray) : (bs.flatMap hexPair).length = 2 * bs.length := by
  induction bs with
  | nil => rfl
  | cons b bs ih =>
    simp only [List.flatMap_cons, List.length_append, ih, hexPair, List.length_cons, List.length_nil]
    omega

theorem podFromHex_hexPair {n : ℕ} (p : Pod n) : podFromHex n (p.data.flatMap hexPair) = some p := by
  rw [podFromHex, fromHex_flatMap_hexPair]
  exact dif_pos p.size_eq

section
variable (P : Primitives)

/-! ## Model -/

/-- the check `export_wallet` makes of each record: a spending record's keys must match, a tracking record's public
key must be a point -/
def exportCheck (rec : WalletRecord) : Except Failure Unit :=
  if rec.spendSecretKey ≠ Pod.zero 32 then
    if !keysMatch P rec.spendSecretKey rec.spendPublicKey then
      .error (.exception .walletFileDecryptError "Spend public key doesn't correspond to secret key (corrupted wallet?)")
    else .ok ()
  else if !P.keyIsvalid rec.spendPublicKey then
    .error (.exception .walletFileDecryptError "Public spend key is incorrect (corrupted wallet?)")
  else .ok ()

/-- `export_wallet(export_path, new_password, view_only, view_outgoing_addresses)`: the bytes `save` writes at
`export_path` under the key of the new password, or what the record check throws; `ivs` are the ivs `save` draws. The
container wallet does not read `view_outgoing_addresses`. -/
def exportWallet (newPassword : BinaryArray) (viewOnly _viewOutgoingAddresses : Bool) (ivs : ℕ → ChachaIv)
    (c : WalletContainerStorage) : Except Failure BinaryArray :=
  match c.walletRecords.forM (exportCheck P) with
  | .error e => .error e
  | .ok () => .ok (saveBytes P c (P.generateChacha8Key newPassword) viewOnly ivs)

/-- `export_keys()`: in hex, the first record's spend public key, the view public key, the first record's spend secret
key and the view secret key; `at(0)` throws `std::out_of_range` on a wallet without records -/
def exportKeys (c : WalletContainerStorage) : Except Failure String :=
  match c.walletRecords with
  | [] => .error .outOfRange
  | r :: _ =>
    .ok (toHex (r.spendPublicKey.data ++ c.viewPublicKey.data ++ r.spendSecretKey.data ++ c.viewSecretKey.data))

/-! ## The record check -/

theorem exportCheck_eq_ok (r : WalletRecord) :
    exportCheck P r = .ok () ↔
      (r.spendSecretKey ≠ Pod.zero 32 → P.secretKeyToPublicKey r.spendSecretKey = some r.spendPublicKey) ∧
      (r.spendSecretKey = Pod.zero 32 → P.keyIsvalid r.spendPublicKey = true) := by
  unfold exportCheck
  by_cases h : r.spendSecretKey = Pod.zero 32 <;> simp [h, keysMatch]

theorem forM_eq_ok {α : Type} (f : α → Except Failure Unit) :
    ∀ l : List α, l.forM f = .ok () ↔ ∀ a ∈ l, f a = .ok ()
  | [] => by simp [pure, Except.pure]
  | a :: l => by
    rw [List.forM]
    cases h : f a <;> simp [bind, Except.bind, h, forM_eq_ok f l]

/-- records that pass the reader's checks pass the export's -/
theorem exportWallet_of_keysValid {c : WalletContainerStorage} (hc : KeysValid P c) (newPassword : BinaryArray)
    (viewOnly voa : Bool) (ivs : ℕ → ChachaIv) :
    exportWallet P newPassword viewOnly voa ivs c = .ok (saveBytes P c (P.generateChacha8Key newPassword) viewOnly ivs) := by
  have hcheck : c.walletRecords.forM (exportCheck P) = .ok () := (forM_eq_ok _ _).2 fun r hr => by
    refine (exportCheck_eq_ok P r).2 ⟨fun hz => ?_, fun hz => ?_⟩ <;> rcases hc.records with h | h
    exacts [absurd (h r hr).1 hz, (h r hr).2, (h r hr).2, absurd hz (h r hr).1]
  rw [exportWallet, hcheck]

/-! ## Reopening an export -/

/-- opening the bytes `save` wrote, from an object whose keys pass the reader's checks, returns its view keys and the
records saved in the mode asked -/
theorem openWithKey_saveBytes {c0 : WalletContainerStorage} (hc0 : KeysValid P c0) (key : ChachaKey) (viewOnly : Bool)
    (ivs0 ivs : ℕ → ChachaIv) :
    ∃ c, openWithKey P key (saveBytes P c0 key viewOnly ivs0) ivs = .ok c ∧ c.viewPublicKey = c0.viewPublicKey ∧
      c.viewSecretKey = c0.viewSecretKey ∧ c.walletRecords = c0.walletRecords.map (savedRecord viewOnly) := by
  have hall : (encryptRecords P c0.walletRecords key viewOnly ivs0).take
      (min c0.walletRecords.length c0.walletRecords.length) = encryptRecords P c0.walletRecords key viewOnly ivs0 := by
    rw [min_self]; exact List.take_of_length_le (by simp)
  obtain ⟨c, ho, hvp, hvs, hrs⟩ := openWithKey_containerBytes P
    ⟨Pod.zero 8, encryptKeyPair P c0.viewPublicKey c0.viewSecretKey c0.oldestTimestamp key (ivs0 0)⟩
    _ _ (encryptRecords P c0.walletRecords key viewOnly ivs0) [] key ivs hc0.size_le hc0.size_le (by simp)
    (by simpa using List.length_pos.2 hc0.nonempty) (by simpa using hc0.view_keys)
    (by rw [hall, map_decryptKeyPair_encryptRecords]; exact savedRecords_valid P viewOnly hc0.records)
  rw [List.append_nil, ← saveBytes_eq] at ho
  rw [hall, map_decryptKeyPair_encryptRecords] at hrs
  exact ⟨c, ho, by simpa using hvp, by simpa using hvs, hrs⟩

/-- **A reopened export is reachable.** From every object reached by opening a file `save` wrote and making calls that
return, `export_wallet` returns, and opening the exported file with the new password gives an object that is reached
as well, so that every result about runs holds of it, with the same view keys and the records saved in the export's
mode: a view-only export zeroes every spend secret key -/
theorem exportWallet_openWithPassword {net : String} {c : WalletContainerStorage} (hc : Reachable P net c)
    (newPassword : BinaryArray) (viewOnly voa : Bool) (ivs ivs' : ℕ → ChachaIv) :
    ∃ f c', exportWallet P newPassword viewOnly voa ivs c = .ok f ∧ openWithPassword P newPassword f ivs' = .ok c' ∧
      Reachable P net c' ∧ c'.viewPublicKey = c.viewPublicKey ∧ c'.viewSecretKey = c.viewSecretKey ∧
      c'.walletRecords = c.walletRecords.map (savedRecord viewOnly) := by
  have hk := (stored_of_reachable P hc).keys
  obtain ⟨c', ho, hvp, hvs, hrs⟩ := openWithKey_saveBytes P hk (P.generateChacha8Key newPassword) viewOnly ivs ivs'
  exact ⟨_, c', exportWallet_of_keysValid P hk newPassword viewOnly voa ivs, ho, .opened c _ viewOnly ivs ivs' hk ho,
    hvp, hvs, hrs⟩


set_option maxRecDepth 100000 in
/-- the opened `sampleWallet`, exported view-only under the password `[1]` and reopened, is reachable and keeps no
spend secret key -/
theorem sampleWallet_export_reopens :
    ∃ c f c', Reachable plainPrimitives "main" c ∧ exportWallet plainPrimitives [1] true false zeroIvs c = .ok f ∧
      openWithPassword plainPrimitives [1] f zeroIvs = .ok c' ∧ Reachable plainPrimitives "main" c' ∧
      ∀ r ∈ c'.walletRecords, r.spendSecretKey = Pod.zero 32 := by
  obtain ⟨c, hc⟩ : ∃ c, Reachable plainPrimitives "main" c :=
    ⟨_, .opened sampleWallet (Pod.zero 32) false zeroIvs zeroIvs sampleWallet_keysValid rfl⟩
  obtain ⟨f, c', hf, ho, hr, -, -, hrs⟩ :=
    exportWallet_openWithPassword plainPrimitives hc [1] true false zeroIvs zeroIvs
  refine ⟨c, f, c', hc, hf, ho, hr, fun r hr' => ?_⟩
  rw [hrs] at hr'
  obtain ⟨a, -, rfl⟩ := List.mem_map.1 hr'
  rfl

/-! ## `export_keys` and the import -/

/-- the creating constructor reads back the keys `export_keys` writes: the first record's keys and the view keys, when
these pass the import's checks -/
theorem importedKeys_exportKeys {c : WalletContainerStorage} {r : WalletRecord} {rs : List WalletRecord}
    (hrs : c.walletRecords = r :: rs) (hview : P.secretKeyToPublicKey c.viewSecretKey = some c.viewPublicKey)
    (hspend : r.spendSecretKey ≠ Pod.zero 32 → P.secretKeyToPublicKey r.spendSecretKey = some r.spendPublicKey)
    (ct : Timestamp) :
    ∃ s, exportKeys c = .ok s ∧
      importedKeys P (asBinaryArray s) ct = .ok (⟨r.spendPublicKey, r.spendSecretKey, ct⟩, c.viewPublicKey,
        c.viewSecretKey) := by
  refine ⟨_, by rw [exportKeys, hrs], ?_⟩
  have h64 : ∀ p : Pod 32, (p.data.flatMap hexPair).length = 64 := fun p => by
    rw [length_flatMap_hexPair, p.size_eq]
  unfold importedKeys
  rw [asBinaryArray_toHex, List.flatMap_append, List.flatMap_append, List.flatMap_append]
  rw [if_neg (by simp only [List.length_append, h64]; decide)]
  have hd : ∀ (p : Pod 32) (rest : BinaryArray) (k : ℕ), (p.data.flatMap hexPair ++ rest).drop (k + 64) = rest.drop k :=
    fun p rest k => by rw [Nat.add_comm, ← h64 p]; exact List.drop_append k
  simp only [List.append_assoc, hd, List.drop_zero, List.take_left' (h64 _), List.take_of_length_le (h64 _).le,
    podFromHex_hexPair]
  by_cases hz : r.spendSecretKey = Pod.zero 32 <;> simp [keysMatch, hview, hz, hspend]



/-- **An import with creation timestamp 0 completes.** The constructor sets `m_oldest_timestamp = 0` beside a record of
timestamp 0, so `save_and_check` passes, and `load()` then appends the record read back: the wallet holds the
imported view keys and the imported record twice -/
theorem create_import_zero {importKeys : BinaryArray} {record : WalletRecord} {viewPublicKey : PublicKey}
    {viewSecretKey : SecretKey} (himport : importedKeys P importKeys 0 = .ok (record, viewPublicKey, viewSecretKey))
    (htracking : record.spendSecretKey = Pod.zero 32 → P.keyIsvalid record.spendPublicKey = true)
    (password : BinaryArray) (now : Timestamp) (viewKeys spendKeys : RandomKeypair P) (saveIvs loadIvs : ℕ → ChachaIv) :
    ∃ c4 : WalletContainerStorage, create P password importKeys 0 now viewKeys spendKeys saveIvs loadIvs =
        .ok (if c4.isViewOnly then c4 else c4.deriveSeeds P) ∧
      c4.viewPublicKey = viewPublicKey ∧ c4.viewSecretKey = viewSecretKey ∧ c4.walletRecords = [record, record] := by
  obtain ⟨hlen, hrct, hview, hspend⟩ := importedKeys_eq_ok P himport
  have hne : importKeys ≠ [] := fun h => by rw [h] at hlen; cases hlen
  set c : WalletContainerStorage :=
    { WalletContainerStorage.fresh (P.generateChacha8Key password) [] with
      viewPublicKey := viewPublicKey
      viewSecretKey := viewSecretKey
      walletRecords := [record]
      oldestTimestamp := 0 } with hc
  have hkeys : KeysValid P c := by
    refine ⟨hview, ?_, List.cons_ne_nil _ _, show 1 ≤ vectorMaxSize by decide⟩
    by_cases hz : record.spendSecretKey = Pod.zero 32
    · exact .inl fun r hr => by rw [List.mem_singleton.1 hr]; exact ⟨hz, htracking hz⟩
    · exact .inr fun r hr => by rw [List.mem_singleton.1 hr]; exact ⟨hz, hspend hz⟩
  have hold : c.oldestTimestamp = c.walletRecords.foldl (fun t r => min t r.creationTimestamp) timestampMax := by
    simp only [hc, List.foldl_cons, List.foldl_nil, hrct, min_eq_right (le_timestampMax 0)]
  set c3 : WalletContainerStorage :=
    { c.indexFirst.emit (.replace (saveBytes P c.indexFirst c.walletKey false saveIvs)) with fileOpen := true } with hc3
  obtain ⟨c4, hload, -, -, hrs, -⟩ :=
    loadContainerStorage_of_saveBytes P false saveIvs (c := c3)
      (show KeysValid P c.indexFirst from hkeys.congr P rfl rfl rfl) rfl
  have hne4 : c4.walletRecords ≠ [] := by
    rw [hrs]; exact List.append_ne_nil_of_left_ne_nil (List.cons_ne_nil _ _) _
  have hfile : c3.file ≠ [] := by
    show saveBytes P c.indexFirst c.walletKey false saveIvs ≠ []
    rw [saveBytes_eq]; exact List.cons_ne_nil _ _
  have hv : c3.file.headD 0 = serializationVersionV2 := by
    show (saveBytes P c.indexFirst c.walletKey false saveIvs).headD 0 = _
    rw [saveBytes_eq]
    rfl
  -- the view keys `load_container_storage` reads back
  have hfv : fileViewKeys P c3.walletKey c3.file = ⟨viewPublicKey, viewSecretKey, 0⟩ :=
    (fileReads_saveBytes P c.indexFirst c.walletKey false saveIvs (by simp [hc, WalletContainerStorage.indexFirst])).2.1
  obtain ⟨-, hc4⟩ := (loadContainerStorage_eq_ok P).1 hload
  obtain ⟨hvp, hvs, -⟩ := loadedObject_fields P c3
  refine ⟨c4, ?_, by rw [hc4, hvp, hfv], by rw [hc4, hvs, hfv], by simp [hrs, hc3, hc, WalletContainerStorage.emit,
    WalletContainerStorage.indexFirst]⟩
  rw [create, createFill, if_neg hne, himport]
  dsimp only
  rw [← hc, createSave_eq P saveIvs loadIvs hkeys, if_pos hold, ← hc3, load, loadWith_of_headD P _ hfile hv, hload,
    Except.bind, finishLoad_of_ne_nil P hne4]

/-- **The keys `export_keys` writes re-create the wallet.** From an object whose keys pass the reader's checks,
`export_keys` returns, and the creating constructor given that string and creation timestamp 0 returns a wallet with
the same view keys that holds the first record's keys, at timestamp 0, twice -/
theorem exportKeys_create {c : WalletContainerStorage} (hc : KeysValid P c) (password : BinaryArray) (now : Timestamp)
    (viewKeys spendKeys : RandomKeypair P) (saveIvs loadIvs : ℕ → ChachaIv) :
    ∃ r s c4, c.walletRecords.head? = some r ∧ exportKeys c = .ok s ∧
      create P password (asBinaryArray s) 0 now viewKeys spendKeys saveIvs loadIvs =
        .ok (if c4.isViewOnly then c4 else c4.deriveSeeds P) ∧
      c4.viewPublicKey = c.viewPublicKey ∧ c4.viewSecretKey = c.viewSecretKey ∧
      c4.walletRecords = [⟨r.spendPublicKey, r.spendSecretKey, 0⟩, ⟨r.spendPublicKey, r.spendSecretKey, 0⟩] := by
  obtain ⟨r, rs, hrs⟩ := List.exists_cons_of_ne_nil hc.nonempty
  have hr : r ∈ c.walletRecords := hrs ▸ List.mem_cons_self r rs
  obtain ⟨s, hs, himport⟩ := importedKeys_exportKeys P hrs hc.view_keys
    (fun hz => hc.records.elim (fun h => absurd (h r hr).1 hz) fun h => (h r hr).2) 0
  obtain ⟨c4, hcreate, hvp, hvs, hrs4⟩ := create_import_zero P himport
    (fun hz => hc.records.elim (fun h => (h r hr).2) fun h => absurd hz (h r hr).1) password now viewKeys spendKeys
    saveIvs loadIvs
  exact ⟨r, s, c4, by rw [hrs]; rfl, hs, hcreate, hvp, hvs, hrs4⟩

/-- the keys of `sampleWallet`, imported at creation timestamp 0, give back its view public key -/
theorem sampleWallet_keys_recreate :
    ∃ s c, exportKeys sampleWallet = .ok s ∧
      create plainPrimitives [] (asBinaryArray s) 0 0 (plainKeypair 3 (by decide) (by decide))
        (plainKeypair 4 (by decide) (by decide)) zeroIvs zeroIvs = .ok c ∧
      c.viewPublicKey = sampleWallet.viewPublicKey := by
  obtain ⟨r, s, c4, -, hs, hc, hvp, -⟩ := exportKeys_create plainPrimitives sampleWallet_keysValid [] 0
    (plainKeypair 3 (by decide) (by decide)) (plainKeypair 4 (by decide) (by decide)) zeroIvs zeroIvs
  refine ⟨s, _, hs, hc, ?_⟩
  split <;> simp [hvp]

end

end BytecoinWallet.Container
