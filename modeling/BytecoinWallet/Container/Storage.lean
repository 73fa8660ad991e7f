/-
The operations of `WalletContainerStorage`, as the code runs them on the object and on the file at `m_path`.

A call maps the object to the object it leaves and to what it returns or throws. The object of a call that throws is
kept, as the C++ object is: nothing is rolled back. Randomness is an argument: ivs are `ℕ → ChachaIv`, and
`generate_new_addresses` draws key pairs from a list (`none` when the list runs out before its loop ends). Every file
operation succeeds and is recorded in the object's journal by `emit`.

`load()` reaches the legacy reader only for a version below 6. `save_and_check` loads its own temporary file, which
starts with version 6, so the legacy overwrite of that second object is left out of its `load` (`loadWith`), which
keeps the definitions free of recursion.
-/
import BytecoinWallet.Container.RoundTrip

namespace BytecoinWallet.Container

/-- Modelled from the spec: `is_view_only()` (declared outside src/) holds when the first record has no spend secret
(§4.1); an empty wallet, which `load()` never leaves, reads as not view-only -/
def WalletContainerStorage.isViewOnly (c : WalletContainerStorage) : Bool :=
  match c.walletRecords with
  | [] => false
  | r :: _ => decide (r.spendSecretKey = Pod.zero 32)

section
variable (P : Primitives)

/-! ## Loading -/

/-- `derive_from_seed_legacy`: the hash of the label, then the seed -/
def deriveFromSeedLegacy (seed : Hash) (append : String) : Hash :=
  P.cnFastHash (asBinaryArray append ++ seed.data)

/-- the end of `load()` for a spending wallet: the seed of the first record and the view key, and the three keys
derived from it -/
def WalletContainerStorage.deriveSeeds (c : WalletContainerStorage) : WalletContainerStorage :=
  let seed := P.cnFastHash (c.viewSecretKey.data ++ (c.walletRecords.headD WalletRecord.empty).spendSecretKey.data)
  { c with
    seed := seed
    txDerivationSeed := deriveFromSeedLegacy P seed "tx_derivation"
    historyFilenameSeed := deriveFromSeedLegacy P seed "history_filename"
    historyKey := deriveFromSeedLegacy P seed "history" }

/-- `load_legacy_wallet_file`: the legacy reader sets the view keys and the records, then each record lowers the
oldest timestamp and is indexed -/
def loadLegacyWalletFile (c : WalletContainerStorage) : Except Failure WalletContainerStorage :=
  match P.walletSerializerV1Load c.walletKey c.file with
  | .error e => .error e
  | .ok (viewPublicKey, viewSecretKey, records) =>
    .ok (records.enum.foldl
      (fun c p => { c with
        oldestTimestamp := min c.oldestTimestamp p.2.creationTimestamp
        recordsMap := c.recordsMap.insert p.2.spendPublicKey p.1 })
      { c with viewPublicKey := viewPublicKey, viewSecretKey := viewSecretKey, walletRecords := records })

/-- the exception `load()` throws for one from the legacy reader: a read error for a `common::StreamError`, a
decrypt error for anything else -/
def legacyFailure : Failure → Failure
  | .streamError => .nested (.exception .walletFileReadError "Error reading wallet file ") .streamError
  | e => .nested (.exception .walletFileDecryptError "Error decrypting wallet file ") e

/-- the end of `load()`: an empty wallet throws, a spending one derives its seeds -/
def finishLoad (c : WalletContainerStorage) : Except Failure WalletContainerStorage :=
  if c.walletRecords = [] then .error (.exception .walletFileDecryptError "Error reading wallet file")
  else if c.isViewOnly then .ok c
  else .ok (c.deriveSeeds P)

/-- `load()` on the object `c`, where `legacy` is what its legacy branch does -/
def loadWith (legacy : WalletContainerStorage → Except Failure WalletContainerStorage) (c : WalletContainerStorage) :
    Except Failure WalletContainerStorage :=
  match readAt c.file 0 1 with
  | none => .error .streamError
  | some versionData =>
    let version := versionData.headD 0
    if version > serializationVersionV2 then .error (.exception .walletFileUnknownVersion "Unknown version")
    else (if version < serializationVersionV2 then legacy c else loadContainerStorage P c).bind (finishLoad P)

/-- the legacy branch of the `load()` of `save_and_check`'s second object, whose file starts with version 6: the
legacy reader, without the overwrite -/
def loadLegacyBranch (c : WalletContainerStorage) : Except Failure WalletContainerStorage :=
  match loadLegacyWalletFile P c with
  | .error e => .error (legacyFailure e)
  | .ok c => .ok { c with fileOpen := false }

/-! ## Saving -/

/-- `save_and_check`: `save` to `<path>.tmp` under the wallet key, load it into a second object with the same key,
compare, replace the file at `m_path` by it and take the second object's handle -/
def saveAndCheck (ivs : ℕ → ChachaIv) (c : WalletContainerStorage) : WalletContainerStorage × Except Failure Unit :=
  match loadWith P (loadLegacyBranch P) (WalletContainerStorage.fresh c.walletKey (saveBytes P c c.walletKey false ivs))
  with
  | .error e => (c, .error e)
  | .ok other =>
    if c.sameWallet other then ({ c.emit (.replace other.file) with fileOpen := true }, .ok ())
    else (c, .error (.exception .walletFileWriteError "Error writing wallet file - records do not match"))

/-- `load()`: the legacy branch reads the file, then tries to overwrite it in format 6 and ignores a failure -/
def load (ivs : ℕ → ChachaIv) : WalletContainerStorage → Except Failure WalletContainerStorage :=
  loadWith P fun c =>
    match loadLegacyWalletFile P c with
    | .error e => .error (legacyFailure e)
    | .ok c => .ok (saveAndCheck P ivs { c with fileOpen := false }).1

/-- `set_password(password)` -/
def setPassword (password : BinaryArray) (ivs : ℕ → ChachaIv) (c : WalletContainerStorage) :
    WalletContainerStorage × Except Failure Unit :=
  saveAndCheck P ivs { c with walletKey := P.generateChacha8Key password }

/-- `on_first_output_found(ts)` of a wallet on the network `net` -/
def onFirstOutputFound (net : String) (ts : Timestamp) (ivs : ℕ → ChachaIv) (c : WalletContainerStorage) :
    WalletContainerStorage × Except Failure Unit :=
  if net ≠ "main" then (c, .ok ())
  else if ts = 0 ∨ c.oldestTimestamp ≠ 0 then (c, .ok ())
  else
    saveAndCheck P ivs
      { c with
        oldestTimestamp := ts
        walletRecords := c.walletRecords.map fun rec =>
          if rec.creationTimestamp = 0 then { rec with creationTimestamp := ts } else rec }

/-! ## Generating addresses -/

/-- the randomness one `generate_new_addresses` call draws -/
structure GenerateDraws (P : Primitives) where
  /-- the successive results of `crypto::random_keypair` -/
  keypairs : List (RandomKeypair P)
  /-- the iv of the `j`-th record appended to the file -/
  recordIvs : ℕ → ChachaIv
  /-- the ivs of the `save_and_check` that overwrites a legacy file first -/
  legacyIvs : ℕ → ChachaIv
  /-- the ivs of the `save_and_check` after a lowered creation timestamp -/
  rescanIvs : ℕ → ChachaIv

/-- the state of the loop of `generate_new_addresses`: the object, the records returned so far, `*rescan_from_ct`,
the key pairs not drawn yet and the number of records appended to the file -/
structure GenerateLoop (P : Primitives) where
  c : WalletContainerStorage
  result : List WalletRecord
  rescanFromCt : Bool
  keypairs : List (RandomKeypair P)
  appended : ℕ

/-- the `do ... while` of `generate_new_addresses`: draws until a key pair whose public key is not indexed -/
def drawUnindexed (m : RecordsMap) : List (RandomKeypair P) → Option (RandomKeypair P × List (RandomKeypair P))
  | [] => none
  | d :: ds => if m d.pair.publicKey = none then some (d, ds) else drawUnindexed m ds

/-- the part of the loop body after `record` is built: an indexed key has its creation timestamp lowered, a new one is
indexed, appended and written at `appendPos` plus the records already written; the failure is what the body throws -/
def placeRecord (recordIvs : ℕ → ChachaIv) (appendPos : ℕ) (g : GenerateLoop P) (record : WalletRecord) :
    GenerateLoop P × Option Failure :=
  match g.c.recordsMap record.spendPublicKey with
  | some i =>
    match g.c.walletRecords[i]? with
    | none => (g, some .outOfRange)
    | some r =>
      if r.creationTimestamp > record.creationTimestamp then
        let r := { r with creationTimestamp := record.creationTimestamp }
        ({ g with
          c := { g.c with
            walletRecords := g.c.walletRecords.set i r
            oldestTimestamp := min g.c.oldestTimestamp record.creationTimestamp }
          rescanFromCt := true
          result := g.result ++ [r] }, none)
      else ({ g with result := g.result ++ [r] }, none)
  | none =>
    let c := { g.c with recordsMap := g.c.recordsMap.insert record.spendPublicKey g.c.walletRecords.length }
    if g.c.walletRecords.length < vectorMaxSize then
      let encRecord := encryptKeyPair P record.spendPublicKey record.spendSecretKey record.creationTimestamp
        c.walletKey (recordIvs g.appended)
      ({ g with
        c := { c with walletRecords := c.walletRecords ++ [record] }.emit
          (.write (appendPos + sizeofEncryptedWalletRecord * g.appended) encRecord.bytes)
        result := g.result ++ [record]
        appended := g.appended + 1 }, none)
    else ({ g with c := c }, some .lengthError)

/-- the loop body of `generate_new_addresses` for one input key: a zero key draws a fresh random pair created at
`now`, any other is imported with creation time `ct` -/
def generateOne (ct now : Timestamp) (recordIvs : ℕ → ChachaIv) (appendPos : ℕ) (g : GenerateLoop P)
    (sk : SecretKey) : Option (GenerateLoop P × Option Failure) :=
  if sk = Pod.zero 32 then
    (drawUnindexed P g.c.recordsMap g.keypairs).map fun (d, keypairs) =>
      placeRecord P recordIvs appendPos
        { g with c := { g.c with oldestTimestamp := min g.c.oldestTimestamp now }, keypairs := keypairs }
        ⟨d.pair.publicKey, d.pair.secretKey, now⟩
  else
    match P.secretKeyToPublicKey sk with
    | none => some (g, some (.exception .code101 ("Imported keypair is invalid - sk=" ++ toHex sk.data)))
    | some pk => some (placeRecord P recordIvs appendPos g ⟨pk, sk, ct⟩)

/-- the loop of `generate_new_addresses` over the input keys, up to the first one that throws -/
def generateLoop (ct now : Timestamp) (recordIvs : ℕ → ChachaIv) (appendPos : ℕ) :
    List SecretKey → GenerateLoop P → Option (GenerateLoop P × Option Failure)
  | [], g => some (g, none)
  | sk :: sks, g =>
    (generateOne P ct now recordIvs appendPos g sk).bind fun (g, e) =>
      match e with
      | some e => some (g, some e)
      | none => generateLoop ct now recordIvs appendPos sks g

/-- the end of `generate_new_addresses`: `fsync`, the record count written as capacity and as count, `fsync` -/
def WalletContainerStorage.writeCounts (c : WalletContainerStorage) : WalletContainerStorage :=
  let countCapacityData := uintLeToBytes 8 c.walletRecords.length
  (((c.emit .fsync).emit (.write (1 + sizeofContainerStoragePrefix) countCapacityData)).emit
    (.write (1 + sizeofContainerStoragePrefix + 8) countCapacityData)).emit .fsync

/-- `generate_new_addresses(sks, ct, now, &rescan_from_ct)`: the object it leaves and the records it returns with
`*rescan_from_ct`, or what it throws -/
def generateNewAddresses (sks : List SecretKey) (ct now : Timestamp) (draws : GenerateDraws P)
    (c : WalletContainerStorage) : Option (WalletContainerStorage × Except Failure (List WalletRecord × Bool)) :=
  if c.isViewOnly then
    some (c, .error (.exception .code101 "Generate new addresses impossible for view-only wallet"))
  else
    match (if c.fileOpen then (c, .ok ()) else saveAndCheck P draws.legacyIvs c) with
    | (c, .error e) => some (c, .error e)
    | (c, .ok ()) =>
      (generateLoop P ct now draws.recordIvs (walletFileSize c.walletRecords.length) sks
          ⟨c, [], false, draws.keypairs, 0⟩).map fun (g, e) =>
        match e with
        | some e => (g.c, .error e)
        | none =>
          if g.rescanFromCt then
            match saveAndCheck P draws.rescanIvs g.c.writeCounts with
            | (c, .error e) => (c, .error e)
            | (c, .ok ()) => (c, .ok (g.result, true))
          else (g.c.writeCounts, .ok (g.result, false))

/-! ## Output detection -/

/-- `Wallet::get_look_ahead_record`; the container's `create_look_ahead_records` does nothing (spec §4.4) -/
def getLookAheadRecord (c : WalletContainerStorage) (spendPublicKey : PublicKey) :
    Except Failure (Option WalletRecord) :=
  match c.recordsMap spendPublicKey with
  | none => .ok none
  | some i =>
    match c.walletRecords[i]? with
    | none => .error .outOfRange
    | some r => if r.spendPublicKey = spendPublicKey then .ok (some r) else .error .invariantFailed

/-- what `detect_our_output` reports for an output of the wallet: the amount, the output key pair (set for a spending
record only) and the address `AccountAddressSimple{spend_public_key, view_public_key}` -/
structure DetectedOutput where
  amount : ℕ
  outputKeypair : Option KeyPair
  spendPublicKey : PublicKey
  viewPublicKey : PublicKey

/-- `WalletContainerStorage::detect_our_output` for an output with key `outputPublicKey` and amount `amount` -/
def detectOurOutput (c : WalletContainerStorage) (kd : Option KeyDerivation) (outIndex : ℕ)
    (spendPublicKey outputPublicKey : PublicKey) (amount : ℕ) : Except Failure (Option DetectedOutput) :=
  match getLookAheadRecord c spendPublicKey with
  | .error e => .error e
  | .ok none => .ok none
  | .ok (some record) =>
    if record.spendSecretKey ≠ Pod.zero 32 then
      match kd with
      | none => .ok none
      | some kd =>
        let outputKeypair : KeyPair :=
          ⟨P.derivePublicKey kd outIndex spendPublicKey, P.deriveSecretKey kd outIndex record.spendSecretKey⟩
        if outputKeypair.publicKey ≠ outputPublicKey then .ok none
        else .ok (some ⟨amount, some outputKeypair, spendPublicKey, c.viewPublicKey⟩)
    else .ok (some ⟨amount, none, spendPublicKey, c.viewPublicKey⟩)

/-! ## Constructors -/

/-- `WalletContainerStorage(currency, log, path, wallet_key)` on the file `file` -/
def openWithKey (key : ChachaKey) (file : BinaryArray) (ivs : ℕ → ChachaIv) : Except Failure WalletContainerStorage :=
  load P ivs (WalletContainerStorage.fresh key file)

/-- `WalletContainerStorage(currency, log, path, password)` on the file `file` -/
def openWithPassword (password file : BinaryArray) (ivs : ℕ → ChachaIv) : Except Failure WalletContainerStorage :=
  openWithKey P (P.generateChacha8Key password) file ivs

/-- the keys an import string holds, checked as the creating constructor checks them -/
def importedKeys (importKeys : BinaryArray) (creationTimestamp : Timestamp) :
    Except Failure (WalletRecord × PublicKey × SecretKey) :=
  if importKeys.length ≠ 256 then
    .error (.exception .walletFileDecryptError "Imported keys should be exactly 128 hex bytes")
  else
    match podFromHex 32 (importKeys.take 64), podFromHex 32 ((importKeys.drop 64).take 64),
        podFromHex 32 ((importKeys.drop 128).take 64), podFromHex 32 ((importKeys.drop 192).take 64) with
    | some spendPublicKey, some viewPublicKey, some spendSecretKey, some viewSecretKey =>
      if !keysMatch P viewSecretKey viewPublicKey then
        .error (.exception .walletFileDecryptError "Imported secret view key does not match corresponding public key")
      else if spendSecretKey ≠ Pod.zero 32 ∧ !keysMatch P spendSecretKey spendPublicKey then
        .error (.exception .walletFileDecryptError "Imported secret spend key does not match corresponding public key")
      else .ok (⟨spendPublicKey, spendSecretKey, creationTimestamp⟩, viewPublicKey, viewSecretKey)
    | _, _, _, _ => .error (.exception .walletFileDecryptError "Imported keys should contain only hex bytes")

/-- the object the creating constructor fills before saving it: `now` is `platform::now_unix_timestamp()`, `viewKeys`
and `spendKeys` the two `random_keypair` draws, unless keys are imported -/
def createFill (c : WalletContainerStorage) (importKeys : BinaryArray) (creationTimestamp now : Timestamp)
    (viewKeys spendKeys : RandomKeypair P) : Except Failure WalletContainerStorage :=
  if importKeys = [] then
    .ok { c with
      oldestTimestamp := now
      viewPublicKey := viewKeys.pair.publicKey
      viewSecretKey := viewKeys.pair.secretKey
      walletRecords := [⟨spendKeys.pair.publicKey, spendKeys.pair.secretKey, now⟩] }
  else
    match importedKeys P importKeys creationTimestamp with
    | .error e => .error e
    | .ok (record, viewPublicKey, viewSecretKey) =>
      .ok { c with
        viewPublicKey := viewPublicKey
        viewSecretKey := viewSecretKey
        walletRecords := [record]
        oldestTimestamp := 0 }

/-- the first record indexed, as the creating constructor does after filling it -/
def WalletContainerStorage.indexFirst (c : WalletContainerStorage) : WalletContainerStorage :=
  { c with recordsMap := c.recordsMap.insert (c.walletRecords.headD WalletRecord.empty).spendPublicKey 0 }

/-- the end of the creating constructor: index the first record, `save_and_check`, then `load()` on itself -/
def createSave (saveIvs loadIvs : ℕ → ChachaIv) (c : WalletContainerStorage) : Except Failure WalletContainerStorage :=
  match saveAndCheck P saveIvs c.indexFirst with
  | (_, .error e) => .error e
  | (c, .ok ()) => load P loadIvs c

/-- `WalletContainerStorage(currency, log, path, password, import_keys, creation_timestamp)` where no file exists
yet -/
def create (password importKeys : BinaryArray) (creationTimestamp now : Timestamp) (viewKeys spendKeys : RandomKeypair P)
    (saveIvs loadIvs : ℕ → ChachaIv) : Except Failure WalletContainerStorage :=
  match createFill P (WalletContainerStorage.fresh (P.generateChacha8Key password) []) importKeys creationTimestamp now
      viewKeys spendKeys with
  | .error e => .error e
  | .ok c => createSave P saveIvs loadIvs c

end

end BytecoinWallet.Container
