/-
The HD backend, `WalletHD`: an SQLite database of encrypted rows and a window of deterministic addresses.

The database has four tables keyed by their primary key (`Rows`); every statement runs in one long transaction that
`commit()` makes durable, and the file keeps only what was committed (`Database`). A parameter, label or payment is
found by a hash of the wallet key and its logical key (`derive_from_key`), and its columns are stored with
`encrypt_data`. `std::string` values are their bytes. The randomness the code draws (`crypto::rand<Hash>()` for every
encrypted column, 32 random bytes for a salt) is a stream in the object (`randomHashes`, `drawn`), so every result
holds for every random choice.

The address window keeps `m_used_address_count + GENERATE_AHEAD` records: `generate_ahead` fills it from
`generate_hd_spendkeys`, in one batch below 1000 records and otherwise in `hardware_concurrency()` slices, which is an
input of each call (`thc`).
-/
import BytecoinWallet.HD.Crypt

namespace BytecoinWallet.HD

/-! ## Tables -/

/-- the rows of a table, keyed by its primary key -/
abbrev Rows (K V : Type) := List (K × V)

namespace Rows

variable {K V : Type} [DecidableEq K]

/-- `REPLACE INTO`: the row replaces any row with its key -/
def replace (rows : Rows K V) (k : K) (v : V) : Rows K V :=
  rows.filter (fun r => decide (r.1 ≠ k)) ++ [(k, v)]

/-- `INSERT INTO`: a row whose key is taken fails the statement -/
def insert (rows : Rows K V) (k : K) (v : V) : Except Failure (Rows K V) :=
  if rows.any (fun r => decide (r.1 = k)) then .error .sqliteError else .ok (rows ++ [(k, v)])

/-- `DELETE FROM ... WHERE` the key is `k` -/
def delete (rows : Rows K V) (k : K) : Rows K V :=
  rows.filter (fun r => decide (r.1 ≠ k))

/-- `SELECT ... WHERE` the key is `k` -/
def lookup (rows : Rows K V) (k : K) : Option V :=
  (rows.find? (fun r => decide (r.1 = k))).map Prod.snd

/-- `m[k] = v` of a `std::map` ordered by `lt`, whose entries stay in the order of their keys -/
def assign (lt : K → K → Bool) : Rows K V → K → V → Rows K V
  | [], k, v => [(k, v)]
  | r :: rows, k, v =>
    if r.1 = k then (k, v) :: rows else if lt k r.1 then (k, v) :: r :: rows else r :: assign lt rows k v

end Rows

/-- the four tables of the database -/
structure Tables where
  /-- `unencrypted`: its only row is the salt -/
  salt : Option BinaryArray
  /-- `parameters(key_hash, key, value)` -/
  parameters : Rows Hash (BinaryArray × BinaryArray)
  /-- `labels(address_hash, address, label)` -/
  labels : Rows Hash (BinaryArray × BinaryArray)
  /-- `payment_queue(tid_hash, net_hash, tid, net, binary_transaction)` -/
  paymentQueue : Rows (Hash × Hash) (BinaryArray × BinaryArray × BinaryArray)

/-- the tables `CREATE TABLE` makes -/
def Tables.empty : Tables := ⟨none, [], [], []⟩

/-- Modelled from the spec: the database is operated in one long transaction that `commit()` ends and begins again
(§4.3, §5). `sqlite::Dbi` is outside src/; closing it without a commit rolls the open transaction back, as SQLite
does. -/
structure Database where
  /-- the tables the last commit made durable: what the file holds -/
  committed : Tables
  /-- the tables the open transaction sees -/
  current : Tables

/-! ## The object -/

/-- the collaborators of the HD backend outside src/ -/
structure HdPrimitives where
  /-- `cn::Bip32Key::check_bip39_mnemonic`: the normalised mnemonic, or the `Bip32Key::Exception` it throws -/
  checkBip39Mnemonic : BinaryArray → Except Failure BinaryArray
  /-- the private key of `m/44'/768'/address_type'/0/0` below `create_master_key(mnemonic, mnemonic_password)` -/
  bip32PrivKey : BinaryArray → BinaryArray → UInt8 → Except Failure BinaryArray
  /-- `crypto::hash_to_scalar` -/
  hashToScalar : BinaryArray → SecretKey
  /-- `crypto::generate_hd_spendkeys(base, view_seed, c, &out)` fills `out[j]` with entry `c + j` of this sequence -/
  hdSpendKey : KeyPair → Hash → ℕ → KeyPair
  /-- `crypto::generate_address_s_v(spend_public_key, view_secret_key)` -/
  generateAddressSV : PublicKey → SecretKey → PublicKey
  /-- `crypto::unlinkable_derive_secret_key(spend_secret_key, secret_scalar)` -/
  unlinkableDeriveSecretKey : SecretKey → SecretKey → SecretKey
  /-- `seria::to_binary` and `seria::from_binary` of a `size_t` -/
  sizeToBinary : ℕ → BinaryArray
  sizeFromBinary : BinaryArray → Except Failure ℕ
  /-- `seria::to_binary` and `seria::from_binary` of a `Timestamp` -/
  timestampToBinary : Timestamp → BinaryArray
  timestampFromBinary : BinaryArray → Except Failure Timestamp
  /-- `CRYPTONOTE_NAME` -/
  cryptonoteName : BinaryArray
  /-- `AccountAddressUnlinkable::type_tag` and `AccountAddressUnlinkable::type_tag_auditable` -/
  typeTag : UInt8
  typeTagAuditable : UInt8
  /-- `seria` reads back what it wrote -/
  sizeFromBinary_sizeToBinary : ∀ n, sizeFromBinary (sizeToBinary n) = .ok n
  timestampFromBinary_timestampToBinary : ∀ t, timestampFromBinary (timestampToBinary t) = .ok t

/-- a `WalletHD` and its database -/
structure WalletHD where
  db : Database
  /-- `m_currency.net` -/
  net : String
  walletKey : ChachaKey
  addressType : UInt8
  seed : Hash
  txDerivationSeed : Hash
  spendKeyBase : KeyPair
  viewPublicKey : PublicKey
  viewSecretKey : SecretKey
  usedAddressCount : ℕ
  oldestTimestamp : Timestamp
  walletRecords : List WalletRecord
  recordsMap : RecordsMap
  /-- `m_labels`, a `std::map` in the order of its keys -/
  labels : Rows BinaryArray BinaryArray
  /-- the values the random draws give, in order -/
  randomHashes : ℕ → Hash
  /-- how many have been drawn -/
  drawn : ℕ

/-- Modelled from the spec: an object as the member initialisers (in the header, outside src/) leave it on the
database `db` before its constructor runs: zero keys, no records, `m_used_address_count = 0` and, as for the container,
`m_oldest_timestamp` at the largest `Timestamp` -/
def WalletHD.fresh (net : String) (db : Database) (randomHashes : ℕ → Hash) : WalletHD where
  db := db
  net := net
  walletKey := Pod.zero 32
  addressType := 0
  seed := Pod.zero 32
  txDerivationSeed := Pod.zero 32
  spendKeyBase := ⟨Pod.zero 32, Pod.zero 32⟩
  viewPublicKey := Pod.zero 32
  viewSecretKey := Pod.zero 32
  usedAddressCount := 0
  oldestTimestamp := timestampMax
  walletRecords := []
  recordsMap := fun _ => none
  labels := []
  randomHashes := randomHashes
  drawn := 0

/-- the next random value -/
def WalletHD.draw (w : WalletHD) : Hash × WalletHD :=
  (w.randomHashes w.drawn, { w with drawn := w.drawn + 1 })

/-- the open transaction's tables replaced -/
def WalletHD.setTables (w : WalletHD) (t : Tables) : WalletHD :=
  { w with db := { w.db with current := t } }

/-- `commit()`: the open transaction becomes durable and a new one begins -/
def WalletHD.commit (w : WalletHD) : WalletHD :=
  { w with db := { w.db with committed := w.db.current } }

/-! ## Encrypted rows -/

section
variable (P : Primitives)

/-- `derive_from_key(key, append)`: `cn_fast_hash(key ‖ append ‖ key)` -/
def deriveFromKey (key : ChachaKey) (append : BinaryArray) : Hash :=
  P.cnFastHash (key.data ++ append ++ key.data)

/-- `derive_from_seed(seed, append)`: `cn_fast_hash(seed ‖ append)` -/
def deriveFromSeed (seed : Hash) (append : BinaryArray) : Hash :=
  P.cnFastHash (seed.data ++ append)

/-- `encrypt_data(m_wallet_key, data)` with the next random iv -/
def WalletHD.encrypt (w : WalletHD) (data : BinaryArray) : BinaryArray × WalletHD :=
  let (iv, w) := w.draw
  (encryptData P w.walletKey iv data, w)

/-- `common::as_string` -/
def asString (bs : BinaryArray) : String :=
  String.mk (bs.map fun b => Char.ofNat b.toNat)

/-- `net_append(net)`: nothing for `"main"`, else `"_" + net + "net"` -/
def netAppend (net : String) : String :=
  if net = "main" then "" else "_" ++ net ++ "net"

/-- `ADDRESS_COUNT_PREFIX` -/
def addressCountPrefix : BinaryArray := asBinaryArray "total_address_count"

/-- the key `CREATION_TIMESTAMP_PREFIX + net_append(net)` -/
def creationTimestampKey (net : String) : BinaryArray := asBinaryArray ("creation_timestamp" ++ netAppend net)

/-- `current_version` -/
def currentVersion : BinaryArray := asBinaryArray "CryptoNoteWallet1"

/-- `GENERATE_AHEAD` -/
def generateAheadCount : ℕ := 20000

/-- the primary key of the parameter `key`: `derive_from_key(m_wallet_key, "db_parameters" + key)` -/
def parameterHash (walletKey : ChachaKey) (key : BinaryArray) : Hash :=
  deriveFromKey P walletKey (asBinaryArray "db_parameters" ++ key)

/-- the primary key of the label of `address`: `derive_from_key(m_wallet_key, "db_labels" + address)` -/
def labelHash (walletKey : ChachaKey) (address : BinaryArray) : Hash :=
  deriveFromKey P walletKey (asBinaryArray "db_labels" ++ address)

/-- the primary key of the transaction queued under a tid for a net: `tid_hash` and `net_hash` -/
def queueHash (walletKey : ChachaKey) (q : Hash × BinaryArray) : Hash × Hash :=
  (deriveFromKey P walletKey (asBinaryArray "db_payment_queue_tid" ++ q.1.data),
    deriveFromKey P walletKey (asBinaryArray "db_payment_queue_net" ++ q.2))

/-- `put(key, value, nooverwrite)`: `INSERT` when `nooverwrite`, else `REPLACE` -/
def put (key value : BinaryArray) (nooverwrite : Bool) (w : WalletHD) : WalletHD × Except Failure Unit :=
  let keyHash := parameterHash P w.walletKey key
  let (encKey, w) := w.encrypt P key
  let (encValue, w) := w.encrypt P value
  let t := w.db.current
  if nooverwrite then
    match t.parameters.insert keyHash (encKey, encValue) with
    | .ok rows => (w.setTables { t with parameters := rows }, .ok ())
    | .error e => (w, .error e)
  else (w.setTables { t with parameters := t.parameters.replace keyHash (encKey, encValue) }, .ok ())

/-- `get(key, value)`: the decrypted value, `none` when there is no row -/
def get (key : BinaryArray) (w : WalletHD) : Except Failure (Option BinaryArray) :=
  match w.db.current.parameters.lookup (parameterHash P w.walletKey key) with
  | none => .ok none
  | some (_, encValue) => (decryptData P w.walletKey encValue).map some

/-- `set_label(address, label)`: an empty label erases; both columns are encrypted either way; it commits -/
def setLabel (address label : BinaryArray) (w : WalletHD) : WalletHD :=
  let addressHash := labelHash P w.walletKey address
  let (encAddress, w) := w.encrypt P address
  let (encLabel, w) := w.encrypt P label
  let t := w.db.current
  let w :=
    if label = [] then { w.setTables { t with labels := t.labels.delete addressHash } with labels := w.labels.delete address }
    else
      { w.setTables { t with labels := t.labels.replace addressHash (encAddress, encLabel) } with
        labels := w.labels.assign bytesLt address label }
  w.commit

/-- `get_label(address)`: the empty string when there is none -/
def getLabel (address : BinaryArray) (w : WalletHD) : BinaryArray :=
  (w.labels.lookup address).getD []

/-- `payment_queue_add(tid, net, binary_transaction)` -/
def paymentQueueAdd (tid : Hash) (net transaction : BinaryArray) (w : WalletHD) : WalletHD :=
  let tidNetHash := queueHash P w.walletKey (tid, net)
  let (encTid, w) := w.encrypt P tid.data
  let (encNet, w) := w.encrypt P net
  let (encValue, w) := w.encrypt P transaction
  let t := w.db.current
  w.setTables { t with paymentQueue := t.paymentQueue.replace tidNetHash (encTid, encNet, encValue) }

/-- `payment_queue_remove(tid)` of the wallet's own net; it commits only when the first byte of `tid` is `'x'` -/
def paymentQueueRemove (tid : Hash) (w : WalletHD) : WalletHD :=
  let t := w.db.current
  let w := w.setTables
    { t with paymentQueue := t.paymentQueue.delete (queueHash P w.walletKey (tid, asBinaryArray w.net)) }
  if tid.data.headD 0 = 120 then w.commit else w

/-- the rows of a `SELECT` over a whole table, each decrypted by `f`, up to the first that throws -/
def decryptRows {α β : Type} (f : α → Except Failure β) : List α → Except Failure (List β)
  | [] => .ok []
  | a :: as =>
    match f a, decryptRows f as with
    | .ok b, .ok bs => .ok (b :: bs)
    | .error e, _ => .error e
    | .ok _, .error e => .error e

/-- a row of `parameters` or `labels` with its two encrypted columns decrypted -/
def decryptPair (walletKey : ChachaKey) (r : Hash × BinaryArray × BinaryArray) :
    Except Failure (BinaryArray × BinaryArray) :=
  match decryptData P walletKey r.2.1, decryptData P walletKey r.2.2 with
  | .ok k, .ok v => .ok (k, v)
  | .error e, _ => .error e
  | .ok _, .error e => .error e

/-- `parameters_get()`: every parameter, decrypted -/
def parametersGet (w : WalletHD) : Except Failure (List (BinaryArray × BinaryArray)) :=
  decryptRows (decryptPair P w.walletKey) w.db.current.parameters

/-- a row of `payment_queue` with its three encrypted columns decrypted; the tid must have 32 bytes -/
def decryptQueued (walletKey : ChachaKey) (r : (Hash × Hash) × BinaryArray × BinaryArray × BinaryArray) :
    Except Failure (Hash × BinaryArray × BinaryArray) :=
  match decryptData P walletKey r.2.1 with
  | .error e => .error e
  | .ok key =>
    if h : key.length = 32 then
      match decryptData P walletKey r.2.2.1, decryptData P walletKey r.2.2.2 with
      | .ok net, .ok ba => .ok (⟨key, h⟩, net, ba)
      | .error e, _ => .error e
      | .ok _, .error e => .error e
    else .error .invariantFailed

/-- `payment_queue_get2()`: every queued transaction with its tid and net, decrypted -/
def paymentQueueGet2 (w : WalletHD) : Except Failure (List (Hash × BinaryArray × BinaryArray)) :=
  decryptRows (decryptQueued P w.walletKey) w.db.current.paymentQueue

/-- `payment_queue_get()`: the queued transactions of the wallet's own net -/
def paymentQueueGet (w : WalletHD) : Except Failure (List BinaryArray) :=
  (paymentQueueGet2 P w).map fun pq2 => (pq2.filter fun el => decide (el.2.1 = asBinaryArray w.net)).map (·.2.2)

/-- the loop of `set_password` that puts the parameters back with `nooverwrite`, up to the first that throws -/
def putAll : List (BinaryArray × BinaryArray) → WalletHD → WalletHD × Except Failure Unit
  | [], w => (w, .ok ())
  | (k, v) :: rest, w =>
    match put P k v true w with
    | (w, .error e) => (w, .error e)
    | (w, .ok ()) => putAll rest w

/-- the middle of `set_password`: the three tables emptied, a new salt drawn and put, and the key derived from it -/
def rekey (password : BinaryArray) (w : WalletHD) : WalletHD :=
  let w := w.setTables { w.db.current with paymentQueue := [], parameters := [], labels := [] }
  let (salt, w) := w.draw
  let w := w.setTables { w.db.current with salt := some salt.data }
  { w with walletKey := P.generateChacha8Key (salt.data ++ password) }

/-- the end of `set_password`: every label of `m_labels` and every queued transaction written again under the new
key; every `set_label` commits, and so does the end -/
def rewriteLabelsQueue (pq2 : List (Hash × BinaryArray × BinaryArray)) (w : WalletHD) : WalletHD :=
  let w := w.labels.foldl (fun w l => setLabel P l.1 l.2 w) w
  (pq2.foldl (fun w el => paymentQueueAdd P el.1 el.2.1 el.2.2 w) w).commit

/-- `set_password(password)`: read the parameters and the payment queue, empty the three tables, draw a new salt,
derive the new key and write everything back under it -/
def setPassword (password : BinaryArray) (w : WalletHD) : WalletHD × Except Failure Unit :=
  match parametersGet P w, paymentQueueGet2 P w with
  | .error e, _ => (w, .error e)
  | .ok _, .error e => (w, .error e)
  | .ok parameters, .ok pq2 =>
    match putAll P parameters (rekey P password w) with
    | (w, .error e) => (w, .error e)
    | (w, .ok ()) => (rewriteLabelsQueue P pq2 w, .ok ())

end

/-! ## The address window -/

section
variable (P : Primitives) (H : HdPrimitives)

/-- the record `generate_ahead1` stores for entry `i` of the key sequence of `spend_key_base`, whose view seed is the
base's public key: created at the largest `Timestamp` so that adding it never rescans -/
def aheadRecord (spendKeyBase : KeyPair) (i : ℕ) : WalletRecord :=
  let kp := H.hdSpendKey spendKeyBase spendKeyBase.publicKey i
  ⟨kp.publicKey, kp.secretKey, timestampMax⟩

/-- `generate_ahead1(counter, result)` for a result of `size` records: entries `counter, counter + 1, ...` -/
def generateAhead1 (w : WalletHD) (counter size : ℕ) : List WalletRecord :=
  (List.range size).map fun i => aheadRecord H w.spendKeyBase (counter + i)

/-- the results `generate_ahead` joins: one batch below 1000 records, else the slice
`[delta * i / thc, delta * (i + 1) / thc)` of each of `thc` workers -/
def aheadResults (thc : ℕ) (w : WalletHD) (delta : ℕ) : List (List WalletRecord) :=
  if delta < 1000 then [generateAhead1 H w w.walletRecords.length delta]
  else (List.range thc).map fun i =>
    let start := delta * i / thc
    generateAhead1 H w (w.walletRecords.length + start) (delta * (i + 1) / thc - start)

/-- indexing and appending one record, as the last loop of `generate_ahead` does -/
def WalletHD.pushRecord (w : WalletHD) (record : WalletRecord) : WalletHD :=
  { w with
    recordsMap := w.recordsMap.insert record.spendPublicKey w.walletRecords.length
    walletRecords := w.walletRecords ++ [record] }

/-- `generate_ahead()` with `std::thread::hardware_concurrency()` returning `thc` -/
def generateAhead (thc : ℕ) (w : WalletHD) : WalletHD :=
  if w.walletRecords.length ≥ w.usedAddressCount + generateAheadCount then w
  else
    let delta := w.usedAddressCount + generateAheadCount - w.walletRecords.length
    (aheadResults H thc w delta).flatten.foldl WalletHD.pushRecord w

/-- `create_look_ahead_records(count)` -/
def createLookAheadRecords (thc count : ℕ) (w : WalletHD) : WalletHD :=
  if count ≤ w.usedAddressCount then w
  else
    let w := generateAhead H thc { w with usedAddressCount := count }
    (put P addressCountPrefix (H.sizeToBinary w.usedAddressCount) false w).1.commit

/-- `get_look_ahead_record(record, spend_public_key)`: the record of an indexed key, after growing the window past it -/
def getLookAheadRecord (thc : ℕ) (w : WalletHD) (spendPublicKey : PublicKey) :
    WalletHD × Except Failure (Option WalletRecord) :=
  match w.recordsMap spendPublicKey with
  | none => (w, .ok none)
  | some i =>
    match w.walletRecords[i]? with
    | none => (w, .error .outOfRange)
    | some r =>
      if r.spendPublicKey = spendPublicKey then (createLookAheadRecords P H thc (i + 1) w, .ok (some r))
      else (w, .error .invariantFailed)

/-- the records `m_wallet_records.at(start + i)` for `i < n`; `at` throws `std::out_of_range` past the end -/
def recordsAt (records : List WalletRecord) (start n : ℕ) : Option (List WalletRecord) :=
  if start + n ≤ records.length then some ((records.drop start).take n) else none

/-- `generate_new_addresses(sks, ct, now, &rescan_from_ct)`: only zero keys; it consumes the next `|sks|` records of
the window, which it first grows -/
def generateNewAddresses (thc : ℕ) (sks : List SecretKey) (w : WalletHD) :
    WalletHD × Except Failure (List WalletRecord) :=
  if sks.any (fun sk => decide (sk ≠ Pod.zero 32)) then
    (w, .error (.runtimeError "Generating non-deterministic addreses not supported by HD wallet"))
  else if sks = [] then (w, .ok [])
  else
    let wasUsedAddressCount := w.usedAddressCount
    let w := generateAhead H thc { w with usedAddressCount := w.usedAddressCount + sks.length }
    match recordsAt w.walletRecords wasUsedAddressCount sks.length with
    | none => (w, .error .outOfRange)
    | some result => ((put P addressCountPrefix (H.sizeToBinary w.usedAddressCount) false w).1.commit, .ok result)

/-- `on_first_output_found(ts)`: it persists the timestamp of the wallet's net and commits -/
def onFirstOutputFound (ts : Timestamp) (w : WalletHD) : WalletHD :=
  if w.oldestTimestamp ≠ 0 ∨ ts = 0 then w
  else (put P (creationTimestampKey w.net) (H.timestampToBinary ts) false w).1.commit

/-! ## Opening -/

/-- the key material `load()` derives -/
structure HdKeys where
  addressType : UInt8
  seed : Hash
  txDerivationSeed : Hash
  spendKeyBase : KeyPair
  viewPublicKey : PublicKey
  viewSecretKey : SecretKey

/-- the object with its key material replaced -/
def WalletHD.setKeys (w : WalletHD) (k : HdKeys) : WalletHD :=
  { w with
    addressType := k.addressType
    seed := k.seed
    txDerivationSeed := k.txDerivationSeed
    spendKeyBase := k.spendKeyBase
    viewPublicKey := k.viewPublicKey
    viewSecretKey := k.viewSecretKey }

/-- the part of `load()` that reads the keys: version, coin, address type, then the mnemonic chain, or for a view-only
wallet the stored spend key base; then the view keys -/
def readKeys (w : WalletHD) : Except Failure HdKeys := do
  let version ← get P (asBinaryArray "version") w
  if version ≠ some currentVersion then
    throw (.exception .walletFileDecryptError ("Wallet version unknown - " ++ asString (version.getD [])))
  let coinname ← get P (asBinaryArray "coinname") w
  if coinname ≠ some H.cryptonoteName then
    throw (.exception .walletFileDecryptError ("Wallet is for different coin - " ++ asString (coinname.getD [])))
  let addressType ← get P (asBinaryArray "address-type") w
  let addressType ← match addressType with
    | some [t] => pure t
    | _ => throw (.exception .walletFileDecryptError "Wallet corrupted, no address type")
  if addressType ≠ H.typeTag ∧ addressType ≠ H.typeTagAuditable then
    throw (.exception .walletFileDecryptError "Wallet address type unknown")
  let mnemonic ← get P (asBinaryArray "mnemonic") w
  let (seed, txDerivationSeed, spendKeyBase) ← match mnemonic with
    | some mnemonic => do
      let some mnemonicPassword ← get P (asBinaryArray "mnemonic-password") w | throw .invariantFailed
      let mnemonic ← H.checkBip39Mnemonic mnemonic
      let privKey ← H.bip32PrivKey mnemonic mnemonicPassword addressType
      let seed := P.cnFastHash privKey
      let spendSecretKey := H.hashToScalar (seed.data ++ asBinaryArray "spend_key_base")
      let some spendPublicKey := P.secretKeyToPublicKey spendSecretKey | throw .invariantFailed
      pure (seed, deriveFromSeed P seed (asBinaryArray "tx_derivation"), (⟨spendPublicKey, spendSecretKey⟩ : KeyPair))
    | none => do
      let some ba ← get P (asBinaryArray "spend_key_base_public_key") w | throw .invariantFailed
      if h : ba.length = 32 then
        let spendPublicKey : PublicKey := ⟨ba, h⟩
        if !P.keyIsvalid spendPublicKey then throw .invariantFailed
        let seedBytes ← get P (asBinaryArray "tx_derivation_seed") w
        let txDerivationSeed := match seedBytes with
          | some s => if hs : s.length = 32 then ⟨s, hs⟩ else w.txDerivationSeed
          | none => w.txDerivationSeed
        pure (w.seed, txDerivationSeed, { w.spendKeyBase with publicKey := spendPublicKey })
      else throw .invariantFailed
  let viewSecretKey := H.hashToScalar (spendKeyBase.publicKey.data ++ asBinaryArray "view_key")
  let some viewPublicKey := P.secretKeyToPublicKey viewSecretKey | throw .invariantFailed
  pure ⟨addressType, seed, txDerivationSeed, spendKeyBase, viewPublicKey, viewSecretKey⟩

/-- the object with the keys `load()` reads -/
def loadKeys (w : WalletHD) : Except Failure WalletHD :=
  (readKeys P H w).map w.setKeys

/-- the part of `load()` that reads the address count and the creation timestamp of the wallet's net (0 when there
is none) -/
def readCounts (w : WalletHD) : Except Failure (ℕ × Timestamp) := do
  let count ← get P addressCountPrefix w
  let usedAddressCount ← match count with
    | some ba => H.sizeFromBinary ba
    | none => pure w.usedAddressCount
  let ts ← get P (creationTimestampKey w.net) w
  let oldestTimestamp ← match ts with
    | some ba => H.timestampFromBinary ba
    | none => pure 0
  pure (usedAddressCount, oldestTimestamp)

/-- the object with the counts `load()` reads -/
def loadCounts (w : WalletHD) : Except Failure WalletHD :=
  (readCounts P H w).map fun c => { w with usedAddressCount := c.1, oldestTimestamp := c.2 }

/-- the end of `load()`: every label row, decrypted, into `m_labels` -/
def loadLabels (w : WalletHD) : Except Failure WalletHD :=
  (decryptRows (decryptPair P w.walletKey) w.db.current.labels).map fun rows =>
    { w with labels := rows.foldl (fun m r => m.assign bytesLt r.1 r.2) w.labels }

/-- `load()`, with `hardware_concurrency()` returning `thc` -/
def load (thc : ℕ) (w : WalletHD) : Except Failure WalletHD := do
  let w ← loadKeys P H w
  let w ← loadCounts P H w
  loadLabels P (generateAhead H thc w)

/-- what the constructors throw for a failed `load()`: a `Bip32Key::Exception` nested in `WALLETD_MNEMONIC_CRC`,
anything else in `WALLET_FILE_DECRYPT_ERROR` -/
def loadFailure : Failure → Failure
  | .bip32Error what => .nested (.exception .walletdMnemonicCrc "Wrong mnemonic") (.bip32Error what)
  | e => .nested (.exception .walletFileDecryptError "Wallet file invalid or wrong password") e

/-- `get_salt()`: the salt row must be there -/
def getSalt (w : WalletHD) : Except Failure BinaryArray :=
  match w.db.current.salt with
  | some salt => .ok salt
  | none => .error .invariantFailed

/-- `WalletHD(currency, log, path, password, readonly)` on the database file `committed`: the open transaction starts
from what was committed -/
def openWallet (net : String) (thc : ℕ) (password : BinaryArray) (committed : Tables) (randomHashes : ℕ → Hash)
    (drawn : ℕ) : Except Failure WalletHD :=
  let w := { WalletHD.fresh net ⟨committed, committed⟩ randomHashes with drawn := drawn }
  match getSalt w with
  | .error e => .error e
  | .ok salt =>
    match load P H thc { w with walletKey := P.generateChacha8Key (salt ++ password) } with
    | .ok w => .ok w
    | .error e => .error (loadFailure e)

/-- the `put`s of the creating constructor, each with `nooverwrite`, up to the first that throws; the mnemonic is
checked between the third and the fourth -/
def putCreated (mnemonic : BinaryArray) (addressType : UInt8) (mnemonicPassword : BinaryArray) (w : WalletHD) :
    Except Failure WalletHD :=
  match putAll P [(asBinaryArray "version", currentVersion), (asBinaryArray "coinname", H.cryptonoteName),
      (asBinaryArray "address-type", [addressType])] w with
  | (_, .error e) => .error e
  | (w, .ok ()) =>
    match H.checkBip39Mnemonic mnemonic with
    | .error e => .error e
    | .ok mnemonic =>
      match putAll P [(asBinaryArray "mnemonic", mnemonic), (asBinaryArray "mnemonic-password", mnemonicPassword),
          (addressCountPrefix, H.sizeToBinary w.usedAddressCount)] w with
      | (_, .error e) => .error e
      | (w, .ok ()) => .ok w

/-- `WalletHD(currency, log, path, password, mnemonic, address_type, creation_timestamp, mnemonic_password)` on a new
database: a random salt, the parameters, the creation timestamp, `load()`, `commit()`; without a mnemonic it stops
after the salt, with nothing committed -/
def createWallet (net : String) (thc : ℕ) (password mnemonic : BinaryArray) (addressType : UInt8)
    (creationTimestamp : Timestamp) (mnemonicPassword : BinaryArray) (randomHashes : ℕ → Hash) (drawn : ℕ) :
    Except Failure WalletHD :=
  let w := { WalletHD.fresh net ⟨Tables.empty, Tables.empty⟩ randomHashes with drawn := drawn }
  let (salt, w) := w.draw
  let w := w.setTables { w.db.current with salt := some salt.data }
  let w := { w with walletKey := P.generateChacha8Key (salt.data ++ password) }
  if mnemonic = [] then .ok w
  else
    match putCreated P H mnemonic addressType mnemonicPassword w with
    | .error e => .error e
    | .ok w =>
      match load P H thc (onFirstOutputFound P H creationTimestamp w) with
      | .ok w => .ok w.commit
      | .error e => .error (loadFailure e)

/-! ## What the calls leave alone -/

/-- the part of the object `generate_ahead` reads and writes: the key base, the used count, the records and their
index -/
def WalletHD.window (w : WalletHD) : KeyPair × ℕ × List WalletRecord × RecordsMap :=
  (w.spendKeyBase, w.usedAddressCount, w.walletRecords, w.recordsMap)

@[simp] theorem commit_window (w : WalletHD) : w.commit.window = w.window := rfl

@[simp] theorem put_window (key value : BinaryArray) (nooverwrite : Bool) (w : WalletHD) :
    (put P key value nooverwrite w).1.window = w.window := by
  simp only [put, WalletHD.encrypt, WalletHD.draw]
  split
  · split <;> rfl
  · rfl

@[simp] theorem setLabel_window (address label : BinaryArray) (w : WalletHD) :
    (setLabel P address label w).window = w.window := by
  simp only [setLabel, WalletHD.encrypt, WalletHD.draw]
  split <;> rfl

@[simp] theorem paymentQueueAdd_window (tid : Hash) (net transaction : BinaryArray) (w : WalletHD) :
    (paymentQueueAdd P tid net transaction w).window = w.window := rfl

@[simp] theorem putAll_window (ps : List (BinaryArray × BinaryArray)) (w : WalletHD) :
    (putAll P ps w).1.window = w.window := by
  induction ps generalizing w with
  | nil => rfl
  | cons p ps ih =>
    simp only [putAll]
    split <;> rename_i h
    · rw [← put_window P p.1 p.2 true w, h]
    · rw [ih, ← put_window P p.1 p.2 true w, h]

theorem foldl_window {α : Type} (f : WalletHD → α → WalletHD) (hf : ∀ w a, (f w a).window = w.window)
    (l : List α) (w : WalletHD) : (l.foldl f w).window = w.window := by
  induction l generalizing w with
  | nil => rfl
  | cons a l ih => rw [List.foldl_cons, ih, hf]

@[simp] theorem rekey_window (password : BinaryArray) (w : WalletHD) : (rekey P password w).window = w.window := rfl

@[simp] theorem rewriteLabelsQueue_window (pq2 : List (Hash × BinaryArray × BinaryArray)) (w : WalletHD) :
    (rewriteLabelsQueue P pq2 w).window = w.window := by
  unfold rewriteLabelsQueue
  rw [commit_window, foldl_window _ (fun w (el : Hash × BinaryArray × BinaryArray) =>
    paymentQueueAdd_window P el.1 el.2.1 el.2.2 w)]
  exact foldl_window _ (fun w (l : BinaryArray × BinaryArray) => setLabel_window P l.1 l.2 w) _ _

@[simp] theorem setPassword_window (password : BinaryArray) (w : WalletHD) :
    (setPassword P password w).1.window = w.window := by
  simp only [setPassword]
  split
  · rfl
  · rfl
  · split <;> rename_i w' _ h <;> have hw := congrArg (fun r => r.1.window) h <;>
      simp only [putAll_window, rekey_window] at hw
    · exact hw.symm
    · rw [rewriteLabelsQueue_window, ← hw]

@[simp] theorem onFirstOutputFound_window (ts : Timestamp) (w : WalletHD) :
    (onFirstOutputFound P H ts w).window = w.window := by
  unfold onFirstOutputFound
  split
  · rfl
  · simp only [commit_window, put_window]

theorem putCreated_window {mnemonic : BinaryArray} {addressType : UInt8} {mnemonicPassword : BinaryArray}
    {w w' : WalletHD} (h : putCreated P H mnemonic addressType mnemonicPassword w = .ok w') : w'.window = w.window := by
  unfold putCreated at h
  split at h
  · cases h
  · rename_i _ w1 h1
    have hw1 : w1.window = w.window := by rw [← putAll_window P _ w, h1]
    split at h
    · cases h
    · split at h
      · cases h
      · rename_i _ _ _ w2 h2
        cases h
        rw [← hw1, ← putAll_window P _ w1, h2]

end

/-! ## A computable instance -/

/-- `plainPrimitives` whose `cn_fast_hash` keeps the 32 bytes after the first 32 (after the wallet key, in
`derive_from_key`), so that the rows of short keys do not collide -/
def hashPrimitives : Primitives :=
  { plainPrimitives with cnFastHash := fun bs => Pod.ofBytes 32 (bs.drop 32) }

/-- the number of bytes of `n` in little-endian, at least one, when `n ≤ fuel` -/
def byteWidth : ℕ → ℕ → ℕ
  | 0, _ => 1
  | fuel + 1, n => if n < 256 then 1 else byteWidth fuel (n / 256) + 1

theorem lt_pow_byteWidth : ∀ (fuel n : ℕ), n ≤ fuel → n < 256 ^ byteWidth fuel n
  | 0, n, h => by simp only [byteWidth]; omega
  | fuel + 1, n, h => by
    simp only [byteWidth]
    split
    · omega
    · have := lt_pow_byteWidth fuel (n / 256) (by omega)
      rw [Nat.pow_succ]
      omega

/-- HD collaborators that compute: the mnemonic is its own key, entry `i` of the key sequence is the key of bytes
`i + 1` in little-endian, `seria` writes little-endian integers -/
def plainHdPrimitives : HdPrimitives where
  checkBip39Mnemonic m := .ok m
  bip32PrivKey m _ _ := .ok m
  hashToScalar bs := Pod.ofBytes 32 (bs.drop 32)
  hdSpendKey _ _ i := ⟨Pod.ofBytes 32 (uintLeToBytes 8 (i + 1)), Pod.ofBytes 32 (uintLeToBytes 8 (i + 1))⟩
  generateAddressSV pk _ := pk
  unlinkableDeriveSecretKey sk _ := sk
  sizeToBinary n := uintLeToBytes (byteWidth n n) n
  sizeFromBinary bs := .ok (uintLeFromBytes bs)
  timestampToBinary t := uintLeToBytes 8 t.val
  timestampFromBinary bs := .ok ⟨uintLeFromBytes bs % 2 ^ 64, Nat.mod_lt _ (by decide)⟩
  cryptonoteName := asBinaryArray "bytecoin"
  typeTag := 1
  typeTagAuditable := 2
  sizeFromBinary_sizeToBinary n := by
    simp only [uintLeFromBytes_uintLeToBytes_of_lt (lt_pow_byteWidth n n le_rfl)]
  timestampFromBinary_timestampToBinary t := by
    simp only [uintLeFromBytes_uintLeToBytes_of_lt (show t.val < 256 ^ 8 from t.isLt)]
    exact congrArg _ (Fin.ext (Nat.mod_eq_of_lt t.isLt))

end BytecoinWallet.HD
