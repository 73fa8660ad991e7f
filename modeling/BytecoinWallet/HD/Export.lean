/-
`export_wallet` of the HD wallet: a new database, salted and keyed for the new password, that receives the
parameters, the labels of `m_labels` and the payment queue of the wallet; for a view-only export of a spending
wallet the mnemonic and its password stay behind and the spend key base's public key (and, when asked, the tx
derivation seed) go in their place. `backup` is the full export; `export_keys` gives the stored mnemonic.

Results:
- `exportWallet_tables`: the export returns, and the file it commits stands, under the key of its salt and the new
  password, for `exportContents`: the wallet's maps, changed as above for a view-only export.
- `exportWallet_reopens`: opening the export with the new password returns, and gives a wallet that stands for
  `exportContents` with the wallet's address type, spend key base public key, view key pair and used address count;
  a full export gives back all of the wallet's keys, a view-only one drops the spend secret and the seed and keeps
  the tx derivation seed only when asked.
- `exportWallet_records`: where the thread count is not 0, the reopened export holds records with the wallet's spend
  public keys, index by index, and a view-only export reopens view-only.
- `exportWallet_exportKeys`: `export_keys` of the reopened export gives what it gives on the wallet, except after a
  view-only export of a spending wallet, where it throws: the mnemonic stayed behind.

Premises: `derive_from_key` is injective on the strings the tables hash (`S`), which hold the parameters `load()`
reads; the wallet's keys and count are those `load()` reads from its open transaction (`LoadsBack`, true of every
opened wallet); a spending wallet stores no `spend_key_base_public_key` or `tx_derivation_seed`; for the records,
`generate_hd_spendkeys` computes public keys from the base's public key alone, and no secret keys from a zero base
secret.
-/
import BytecoinWallet.HD.Count

namespace BytecoinWallet.HD

/-! ## Model -/

/-- Modelled from the spec: `is_view_only()` (declared outside src/) holds when the first record has no spend secret
(§4.1); a wallet without records reads as not view-only -/
def WalletHD.isViewOnly (w : WalletHD) : Bool :=
  match w.walletRecords with
  | [] => false
  | r :: _ => decide (r.spendSecretKey = Pod.zero 32)

/-- the key material of the object -/
def WalletHD.keys (w : WalletHD) : HdKeys :=
  ⟨w.addressType, w.seed, w.txDerivationSeed, w.spendKeyBase, w.viewPublicKey, w.viewSecretKey⟩

section
variable (P : Primitives) (H : HdPrimitives)

/-- `export_wallet(export_path, new_password, view_only, view_outgoing_addresses)`: the tables the new file holds
when it returns or throws, and what it returns. `other` is built by the creating constructor without a mnemonic, which
stops before `load()`, with its own random values `randomHashes` from `drawn` on; every `set_label` commits, and so
does the end -/
def exportWallet (newPassword : BinaryArray) (viewOnly viewOutgoingAddresses : Bool) (randomHashes : ℕ → Hash)
    (drawn : ℕ) (w : WalletHD) : Tables × Except Failure Unit :=
  match createWallet P H w.net 0 newPassword [] 0 0 [] randomHashes drawn with
  | .error e => (Tables.empty, .error e)
  | .ok other =>
    if !w.isViewOnly && viewOnly then
      match put P (asBinaryArray "spend_key_base_public_key") w.spendKeyBase.publicKey.data true other with
      | (other, .error e) => (other.db.committed, .error e)
      | (other, .ok ()) =>
        match (if viewOutgoingAddresses then
            put P (asBinaryArray "tx_derivation_seed") w.txDerivationSeed.data true other
          else (other, .ok ())) with
        | (other, .error e) => (other.db.committed, .error e)
        | (other, .ok ()) =>
          match parametersGet P w with
          | .error e => (other.db.committed, .error e)
          | .ok ps =>
            match putAll P (ps.filter fun p =>
                p.1 != asBinaryArray "mnemonic" && p.1 != asBinaryArray "mnemonic-password") other with
            | (other, .error e) => (other.db.committed, .error e)
            | (other, .ok ()) => ((w.labels.foldl (fun o l => setLabel P l.1 l.2 o) other).commit.db.committed, .ok ())
    else
      match parametersGet P w with
      | .error e => (other.db.committed, .error e)
      | .ok ps =>
        match putAll P ps other with
        | (other, .error e) => (other.db.committed, .error e)
        | (other, .ok ()) =>
          let other := w.labels.foldl (fun o l => setLabel P l.1 l.2 o) other
          match paymentQueueGet2 P w with
          | .error e => (other.db.committed, .error e)
          | .ok pq2 =>
            ((pq2.foldl (fun o el => paymentQueueAdd P el.1 el.2.1 el.2.2 o) other).commit.db.committed, .ok ())

/-- `export_keys()`: the mnemonic, which a view-only wallet does not store -/
def exportKeys (w : WalletHD) : Except Failure String :=
  match get P (asBinaryArray "mnemonic") w with
  | .error e => .error e
  | .ok none => .error (.runtimeError "Exporting keys (mnemonic) not supported by view-only HD wallet")
  | .ok (some mnemonic) => .ok (asString mnemonic)

end

/-- the maps an export is meant to hold: for a view-only export of a spending wallet the parameters lose the mnemonic
and its password and gain the spend key base's public key and, when asked, the tx derivation seed, and the queue
stays behind; otherwise the wallet's three maps -/
def exportContents (viewOnly viewOutgoingAddresses : Bool) (w : WalletHD) (c : Contents) : Contents :=
  if !w.isViewOnly && viewOnly then
    { c with
      parameters := fun k =>
        if k = asBinaryArray "spend_key_base_public_key" then some w.spendKeyBase.publicKey.data
        else if viewOutgoingAddresses ∧ k = asBinaryArray "tx_derivation_seed" then some w.txDerivationSeed.data
        else if k = asBinaryArray "mnemonic" ∨ k = asBinaryArray "mnemonic-password" then none
        else c.parameters k
      paymentQueue := fun _ => none }
  else c

/-- the keys an export is meant to reopen with: a view-only export of a spending wallet keeps the address type, the
spend key base's public key and the view key pair, and the tx derivation seed only when asked; otherwise all of them -/
def exportedKeys (viewOnly viewOutgoingAddresses : Bool) (w : WalletHD) : HdKeys :=
  if !w.isViewOnly && viewOnly then
    ⟨w.addressType, Pod.zero 32, if viewOutgoingAddresses then w.txDerivationSeed else Pod.zero 32,
      ⟨w.spendKeyBase.publicKey, Pod.zero 32⟩, w.viewPublicKey, w.viewSecretKey⟩
  else w.keys

/-- a view-only export changes the parameters at four keys only -/
theorem exportContents_parameters {viewOnly voa : Bool} {w : WalletHD} {c : Contents} {k : BinaryArray}
    (h1 : k ≠ asBinaryArray "spend_key_base_public_key") (h2 : k ≠ asBinaryArray "tx_derivation_seed")
    (h3 : k ≠ asBinaryArray "mnemonic") (h4 : k ≠ asBinaryArray "mnemonic-password") :
    (exportContents viewOnly voa w c).parameters k = c.parameters k := by
  unfold exportContents
  split_ifs <;> simp [h1, h2, h3, h4]

theorem creationTimestampKey_ne (net : String) :
    creationTimestampKey net ≠ asBinaryArray "spend_key_base_public_key" ∧
      creationTimestampKey net ≠ asBinaryArray "tx_derivation_seed" ∧
      creationTimestampKey net ≠ asBinaryArray "mnemonic" ∧
      creationTimestampKey net ≠ asBinaryArray "mnemonic-password" := by
  refine ⟨?_, ?_, ?_, ?_⟩ <;> intro h <;> have := congrArg List.head? h <;>
    simp [creationTimestampKey, asBinaryArray] at this

section
variable (P : Primitives) (H : HdPrimitives)

/-- the object's keys and count are what `load()` reads from its open transaction into an object without keys and
count -/
structure LoadsBack (w : WalletHD) : Prop where
  keys : readKeys P H { w with
    seed := Pod.zero 32, txDerivationSeed := Pod.zero 32, spendKeyBase := ⟨Pod.zero 32, Pod.zero 32⟩ } = .ok w.keys
  counts : ∃ ts, readCounts P H { w with usedAddressCount := 0 } = .ok (w.usedAddressCount, ts)

/-! ## What `load()` reads -/

theorem get_congr {w1 w2 : WalletHD} (hdb : w1.db.current = w2.db.current) (hkey : w1.walletKey = w2.walletKey)
    (k : BinaryArray) : get P k w1 = get P k w2 := by
  unfold get; rw [hdb, hkey]

section
variable {w1 w2 : WalletHD} (hget : ∀ k ∈ loadParameters w1.net, get P k w1 = get P k w2)
include hget

theorem readKeys_congr (hseed : w1.seed = w2.seed) (htx : w1.txDerivationSeed = w2.txDerivationSeed)
    (hbase : w1.spendKeyBase = w2.spendKeyBase) : readKeys P H w1 = readKeys P H w2 := by
  simp only [loadParameters, List.mem_cons, List.mem_singleton, forall_eq_or_imp, forall_eq] at hget
  obtain ⟨h1, h2, h3, h4, h5, h6, h7, -⟩ := hget
  simp only [readKeys, h1, h2, h3, h4, h5, h6, h7, hseed, htx, hbase]

end

theorem readCounts_congr {w1 w2 : WalletHD} (hc : get P addressCountPrefix w1 = get P addressCountPrefix w2)
    (ht : get P (creationTimestampKey w1.net) w1 = get P (creationTimestampKey w1.net) w2) (hnet : w1.net = w2.net)
    (hcount : w1.usedAddressCount = w2.usedAddressCount) : readCounts P H w1 = readCounts P H w2 := by
  simp only [readCounts, hc, ht]
  rw [hnet, hcount]

/-- everything a `readKeys` that returns has read: version, coin and address type passed their checks, the spend key
base's public key is a point, and the view key pair comes from it -/
theorem readKeys_eq_ok {w : WalletHD} {k : HdKeys} (h : readKeys P H w = .ok k) :
    get P (asBinaryArray "version") w = .ok (some currentVersion) ∧
    get P (asBinaryArray "coinname") w = .ok (some H.cryptonoteName) ∧
    get P (asBinaryArray "address-type") w = .ok (some [k.addressType]) ∧
    (k.addressType = H.typeTag ∨ k.addressType = H.typeTagAuditable) ∧
    P.keyIsvalid k.spendKeyBase.publicKey = true ∧
    k.viewSecretKey = H.hashToScalar (k.spendKeyBase.publicKey.data ++ asBinaryArray "view_key") ∧
    P.secretKeyToPublicKey k.viewSecretKey = some k.viewPublicKey := by
  simp only [readKeys, bind, Except.bind, pure, Except.pure, throw, throwThe, MonadExceptOf.throw] at h
  repeat' split at h
  all_goals try (cases h; done)
  all_goals (cases h; simp_all [not_and_or])
  · exact ⟨by tauto, P.keyIsvalid_of_secretKeyToPublicKey _ _ ‹_›⟩
  all_goals tauto

/-- the view-only branch of `readKeys`: no mnemonic, the stored spend key base's public key, and the tx derivation
seed when there is one -/
theorem readKeys_viewOnly {w : WalletHD} {a : UInt8} {spk vpk : PublicKey} {voa : Bool} {tds : Hash}
    (hv : get P (asBinaryArray "version") w = .ok (some currentVersion))
    (hc : get P (asBinaryArray "coinname") w = .ok (some H.cryptonoteName))
    (ha : get P (asBinaryArray "address-type") w = .ok (some [a])) (hat : a = H.typeTag ∨ a = H.typeTagAuditable)
    (hm : get P (asBinaryArray "mnemonic") w = .ok none)
    (hs : get P (asBinaryArray "spend_key_base_public_key") w = .ok (some spk.data)) (hvalid : P.keyIsvalid spk = true)
    (ht : get P (asBinaryArray "tx_derivation_seed") w = .ok (if voa then some tds.data else none))
    (hvpk : P.secretKeyToPublicKey (H.hashToScalar (spk.data ++ asBinaryArray "view_key")) = some vpk) :
    readKeys P H w = .ok ⟨a, w.seed, if voa then tds else w.txDerivationSeed, { w.spendKeyBase with publicKey := spk },
      vpk, H.hashToScalar (spk.data ++ asBinaryArray "view_key")⟩ := by
  have hat' : ¬(a ≠ H.typeTag ∧ a ≠ H.typeTagAuditable) := by tauto
  simp only [readKeys, hv, hc, ha, hm, hs, ht, bind, Except.bind, pure, Except.pure, ne_eq, not_true_eq_false,
    if_false, hat', dif_pos spk.size_eq, hvalid, Bool.not_true, Bool.false_eq_true, hvpk]
  cases voa
  · rfl
  · simp only [↓reduceIte, dif_pos tds.size_eq]

theorem load_of_reads {thc : ℕ} {w : WalletHD} {keys : HdKeys} {counts : ℕ × Timestamp}
    {rows : List (BinaryArray × BinaryArray)} (hk : readKeys P H w = .ok keys)
    (hc : readCounts P H (w.setKeys keys) = .ok counts)
    (hl : decryptRows (decryptPair P w.walletKey) w.db.current.labels = .ok rows) :
    load P H thc w = .ok { generateAhead H thc
        { w.setKeys keys with usedAddressCount := counts.1, oldestTimestamp := counts.2 } with
      labels := rows.foldl (fun m r => m.assign bytesLt r.1 r.2) w.labels } := by
  obtain ⟨rs, m, hg⟩ := generateAhead_frame H thc
    { w.setKeys keys with usedAddressCount := counts.1, oldestTimestamp := counts.2 }
  simp only [load, loadKeys, loadCounts, hk, hc, bind, Except.bind, Except.map, loadLabels, hg]
  simp only [WalletHD.setKeys, hl]

/-- a `load()` into an object without keys and count reads back the keys and count it sets -/
theorem load_loadsBack {thc : ℕ} {w0 w : WalletHD} (h : load P H thc w0 = .ok w) (hseed : w0.seed = Pod.zero 32)
    (htx : w0.txDerivationSeed = Pod.zero 32) (hbase : w0.spendKeyBase = ⟨Pod.zero 32, Pod.zero 32⟩)
    (hcount : w0.usedAddressCount = 0) : LoadsBack P H w := by
  obtain ⟨keys, counts, rows, hk, hc, -, rfl⟩ := load_eq_ok P H h
  obtain ⟨rs, m, hg⟩ := generateAhead_frame H thc
    { w0.setKeys keys with usedAddressCount := counts.1, oldestTimestamp := counts.2 }
  rw [hg]
  refine ⟨?_, counts.2, ?_⟩
  · refine (readKeys_congr P H ?_ ?_ ?_ ?_).trans hk
    exacts [fun k _ => get_congr P rfl rfl k, hseed.symm, htx.symm, hbase.symm]
  · refine (readCounts_congr P H ?_ ?_ ?_ ?_).trans hc
    exacts [get_congr P rfl rfl _, get_congr P rfl rfl _, rfl, hcount.symm]

/-- opening returns what `load()` returns on the object the constructor builds, when the file has a salt -/
theorem openWallet_of_load {net : String} {thc : ℕ} {password : BinaryArray} {t : Tables} {rh : ℕ → Hash}
    {drawn : ℕ} {salt : BinaryArray} {w0 w : WalletHD} (hs : t.salt = some salt)
    (hw0 : w0 = { { WalletHD.fresh net ⟨t, t⟩ rh with drawn := drawn } with
      walletKey := P.generateChacha8Key (salt ++ password) })
    (h : load P H thc w0 = .ok w) : openWallet P H net thc password t rh drawn = .ok w := by
  subst hw0
  have hgs : getSalt { WalletHD.fresh net ⟨t, t⟩ rh with drawn := drawn } = .ok salt := by
    simp [getSalt, WalletHD.fresh, hs]
  unfold openWallet
  dsimp only
  rw [hgs]
  dsimp only
  rw [h]

/-- every opened wallet reads back its keys and count -/
theorem openWallet_loadsBack {net : String} {thc : ℕ} {password : BinaryArray} {t : Tables} {rh : ℕ → Hash}
    {drawn : ℕ} {w : WalletHD} (h : openWallet P H net thc password t rh drawn = .ok w) : LoadsBack P H w := by
  unfold openWallet at h
  dsimp only at h
  split at h
  · cases h
  · split at h
    · cases h
      exact load_loadsBack P H ‹_› rfl rfl rfl rfl
    · cases h

end

/-! ## The export's tables -/

theorem Graph.filter {E K V : Type} {key : E → K} {val : E → V} {es : List E} {m : K → Option V}
    (hg : Graph key val es m) (q : K → Bool) :
    Graph key val (es.filter fun e => q (key e)) fun k => if q k then m k else none := by
  refine ⟨hg.nodup.sublist ((List.filter_sublist _).map key), fun k v => ?_⟩
  by_cases h : q k
  · simp only [h, if_true, hg.mem_iff, List.mem_filter]
    exact ⟨fun ⟨e, he, hk, hv⟩ => ⟨e, ⟨he, hk ▸ h⟩, hk, hv⟩, fun ⟨e, ⟨he, _⟩, hk, hv⟩ => ⟨e, he, hk, hv⟩⟩
  · simp only [h, Bool.false_eq_true, if_false, reduceCtorEq, false_iff, not_exists, not_and, List.mem_filter]
    exact fun e ⟨_, hq⟩ hk _ => h (hk ▸ hq)

section
variable {P : Primitives} {S : Set BinaryArray}

theorem Refines.labelFits {s : Session} {d : Durable} (hr : Refines P S s d) : ∀ e ∈ s.wallet.labels, LabelFits S e :=
  fun e he => by
    obtain ⟨e', hfit, h1, h2⟩ :=
      hr.current.labels.fits_of_eq_some (hr.labels ▸ (Rows.graph_lookup hr.ascending.nodup).of_mem he)
    rwa [← Prod.ext h1 h2]

variable (P S) in
/-- the creating constructor without a mnemonic: the salt drawn and put, the key derived, nothing committed -/
theorem createWallet_empty (H : HdPrimitives) (net : String) (thc : ℕ) (password : BinaryArray) (rh : ℕ → Hash)
    (drawn : ℕ) :
    ∃ w, createWallet P H net thc password [] 0 0 [] rh drawn = .ok w ∧ w.db.committed = Tables.empty ∧
      Rewriting P S (P.generateChacha8Key ((rh drawn).data ++ password)) (rh drawn).data net w Contents.empty :=
  ⟨_, rfl, rfl, rfl, rfl, rfl, TablesRepresent.empty P S _ _⟩

variable (hinj : ∀ key, Set.InjOn (deriveFromKey P key) S)
include hinj

section
variable {key : ChachaKey} {salt : BinaryArray} {net : String}

/-- a `put` with `nooverwrite` of a key the map lacks returns and sets it -/
theorem Rewriting.put {w : WalletHD} {c : Contents} (hw : Rewriting P S key salt net w c) {k v : BinaryArray}
    (hfit : ParameterFits S (k, v)) (hk : c.parameters k = none) :
    ∃ w', HD.put P k v true w = (w', .ok ()) ∧
      Rewriting P S key salt net w' { c with parameters := Function.update c.parameters k (some v) } := by
  have ht : TablesRepresent P S w.walletKey w.db.current c := by rw [hw.walletKey]; exact hw.tables
  have hlk := ht.parameters.lookup_eq_none (parameterHash_injOn hinj w.walletKey) (fun _ h => h.1) hfit.1 hk
  have hok : (HD.put P k v true w).2 = .ok () := by rw [put_eq, if_neg (by simp [hlk])]
  refine ⟨_, Prod.ext rfl hok, ?_, by simp [hw.salt], by simp [hw.net], ?_⟩
  · rw [put_walletKey, hw.walletKey]
  · rw [← hw.walletKey]; exact ht.put hinj net hfit hok

end

variable {H : HdPrimitives}

theorem exportWallet_tables {s : Session} {d : Durable} (hr : Refines P S s d)
    (hS : asBinaryArray "db_parameters" ++ asBinaryArray "spend_key_base_public_key" ∈ S ∧
      asBinaryArray "db_parameters" ++ asBinaryArray "tx_derivation_seed" ∈ S)
    (viewOnly voa : Bool)
    (hno : (!s.wallet.isViewOnly && viewOnly) = true →
      d.current.parameters (asBinaryArray "spend_key_base_public_key") = none ∧
        d.current.parameters (asBinaryArray "tx_derivation_seed") = none)
    (newPassword : BinaryArray) (rh : ℕ → Hash) (drawn : ℕ) :
    ∃ t, exportWallet P H newPassword viewOnly voa rh drawn s.wallet = (t, .ok ()) ∧ t.salt = some (rh drawn).data ∧
      TablesRepresent P S (P.generateChacha8Key ((rh drawn).data ++ newPassword)) t
        (exportContents viewOnly voa s.wallet d.current) := by
  obtain ⟨o0, hc0, -, h0⟩ := createWallet_empty P S H s.wallet.net 0 newPassword rh drawn
  obtain ⟨ps, hps, hgps, hfps⟩ := hr.current.parameters.decryptRows
  have hLg : Graph Prod.fst Prod.snd s.wallet.labels d.current.labels :=
    hr.labels ▸ Rows.graph_lookup hr.ascending.nodup
  unfold exportWallet
  rw [hc0]
  dsimp only
  by_cases hb : (!s.wallet.isViewOnly && viewOnly) = true
  · rw [if_pos hb]
    obtain ⟨hspk, htds⟩ := hno hb
    have hlen : ∀ x : Hash, x.data.length < 2 ^ 31 := fun x => by rw [x.size_eq]; decide
    have hne : asBinaryArray "spend_key_base_public_key" ≠ asBinaryArray "tx_derivation_seed" := by decide
    obtain ⟨o1, hput1, h1⟩ := h0.put hinj (k := asBinaryArray "spend_key_base_public_key")
      (v := s.wallet.spendKeyBase.publicKey.data)
      ⟨hS.1, show (asBinaryArray "spend_key_base_public_key").length < 2 ^ 31 by decide, hlen _⟩ rfl
    have h2 : ∃ o2, (if voa then put P (asBinaryArray "tx_derivation_seed") s.wallet.txDerivationSeed.data true o1
        else (o1, .ok ())) = (o2, .ok ()) ∧
        Rewriting P S (P.generateChacha8Key ((rh drawn).data ++ newPassword)) (rh drawn).data s.wallet.net o2
          ⟨fun k => if k = asBinaryArray "spend_key_base_public_key" then some s.wallet.spendKeyBase.publicKey.data
            else if voa ∧ k = asBinaryArray "tx_derivation_seed" then some s.wallet.txDerivationSeed.data else none,
            fun _ => none, fun _ => none⟩ := by
      cases voa
      · refine ⟨o1, rfl, ?_⟩
        convert h1 using 2
        funext k
        by_cases hk : k = asBinaryArray "spend_key_base_public_key" <;>
          simp [hk, Contents.empty, Function.update_apply]
      · obtain ⟨o2, hput2, h2⟩ := h1.put hinj (k := asBinaryArray "tx_derivation_seed")
          (v := s.wallet.txDerivationSeed.data)
          ⟨hS.2, show (asBinaryArray "tx_derivation_seed").length < 2 ^ 31 by decide, hlen _⟩
          (by simp [Contents.empty, hne.symm])
        refine ⟨o2, hput2, ?_⟩
        convert h2 using 2
        funext k
        by_cases hk : k = asBinaryArray "spend_key_base_public_key"
        · simp [hk, hne, Contents.empty, Function.update_apply]
        · by_cases hk' : k = asBinaryArray "tx_derivation_seed" <;>
            simp [hk, hk', hne.symm, Contents.empty, Function.update_apply]
    obtain ⟨o2, hput2, h2⟩ := h2
    have hgF : Graph Prod.fst Prod.snd (ps.filter fun p =>
        p.1 != asBinaryArray "mnemonic" && p.1 != asBinaryArray "mnemonic-password")
        fun k => if (k != asBinaryArray "mnemonic" && k != asBinaryArray "mnemonic-password") = true then
          d.current.parameters k else none :=
      hgps.filter fun k => k != asBinaryArray "mnemonic" && k != asBinaryArray "mnemonic-password"
    obtain ⟨rows, dr, hput3, hrep⟩ := putAll_represents hinj _ o2
      (fun k => if k = asBinaryArray "spend_key_base_public_key" then some s.wallet.spendKeyBase.publicKey.data
        else if voa ∧ k = asBinaryArray "tx_derivation_seed" then some s.wallet.txDerivationSeed.data else none)
      hgF.nodup
      (fun e he => hfps e (List.mem_filter.1 he).1)
      (fun e he => by
        have he' := hgps.of_mem (List.mem_filter.1 he).1
        have h1 : e.1 ≠ asBinaryArray "spend_key_base_public_key" := fun h => by rw [h, hspk] at he'; cases he'
        have h2 : e.1 ≠ asBinaryArray "tx_derivation_seed" := fun h => by rw [h, htds] at he'; cases he'
        simp [h1, h2])
      (by rw [h2.walletKey]; exact h2.tables.parameters)
    rw [Graph.foldl_update _ hgF, h2.walletKey] at hrep
    have hparams : (fun k => (if (k != asBinaryArray "mnemonic" && k != asBinaryArray "mnemonic-password") = true then
          d.current.parameters k else none).or
        (if k = asBinaryArray "spend_key_base_public_key" then some s.wallet.spendKeyBase.publicKey.data
          else if voa ∧ k = asBinaryArray "tx_derivation_seed" then some s.wallet.txDerivationSeed.data else none)) =
        (exportContents viewOnly voa s.wallet d.current).parameters := by
      rw [exportContents, if_pos hb]
      funext k
      have h1 : asBinaryArray "spend_key_base_public_key" ≠ asBinaryArray "mnemonic" ∧
          asBinaryArray "spend_key_base_public_key" ≠ asBinaryArray "mnemonic-password" ∧
          asBinaryArray "tx_derivation_seed" ≠ asBinaryArray "mnemonic" ∧
          asBinaryArray "tx_derivation_seed" ≠ asBinaryArray "mnemonic-password" ∧
          asBinaryArray "mnemonic" ≠ asBinaryArray "mnemonic-password" := by decide
      by_cases hk1 : k = asBinaryArray "spend_key_base_public_key"
      · subst hk1; simp [hspk, h1]
      by_cases hk2 : k = asBinaryArray "tx_derivation_seed"
      · subst hk2; cases voa <;> simp [htds, hne.symm, h1]
      by_cases hk3 : k = asBinaryArray "mnemonic" ∨ k = asBinaryArray "mnemonic-password"
      · rcases hk3 with rfl | rfl <;> simp [h1, h1.2.2.2.2.symm]
      · simp only [not_or] at hk3
        simp [hk1, hk2, hk3]
    rw [hparams] at hrep
    have h3 : Rewriting P S (P.generateChacha8Key ((rh drawn).data ++ newPassword)) (rh drawn).data s.wallet.net
        ({ o2 with drawn := dr }.setTables { o2.db.current with parameters := rows })
        ⟨(exportContents viewOnly voa s.wallet d.current).parameters, fun _ => none, fun _ => none⟩ :=
      ⟨h2.walletKey, h2.salt, h2.net, ⟨hrep, h2.tables.labels, h2.tables.paymentQueue⟩⟩
    have h4 := h3.foldl_setLabel hinj hr.labelFits
    simp only [Graph.foldl_update _ hLg, Option.or_none] at h4
    rw [hput1]
    dsimp only
    rw [hput2]
    dsimp only
    rw [show parametersGet P s.wallet = .ok ps from hps]
    dsimp only
    rw [hput3]
    refine ⟨_, rfl, h4.salt, ?_⟩
    have ht := h4.tables
    rw [exportContents, if_pos hb] at ht ⊢
    exact ht

  · rw [if_neg hb, show parametersGet P s.wallet = .ok ps from hps]
    obtain ⟨rows, dr, hput, hrep⟩ := putAll_represents hinj ps o0 (fun _ => none) hgps.nodup hfps (fun _ _ => rfl)
      (by rw [h0.walletKey]; exact h0.tables.parameters)
    rw [Graph.foldl_update _ hgps] at hrep
    simp only [Option.or_none] at hrep
    have h1 : Rewriting P S (P.generateChacha8Key ((rh drawn).data ++ newPassword)) (rh drawn).data s.wallet.net
        ({ o0 with drawn := dr }.setTables { o0.db.current with parameters := rows })
        ⟨d.current.parameters, fun _ => none, fun _ => none⟩ :=
      ⟨h0.walletKey, h0.salt, h0.net, ⟨by rw [← h0.walletKey]; exact hrep, h0.tables.labels, h0.tables.paymentQueue⟩⟩
    obtain ⟨pq2, hpq, hgpq, hfpq⟩ := hr.current.paymentQueue.decryptRows
    have h2 := (h1.foldl_setLabel hinj hr.labelFits).foldl_paymentQueueAdd hinj hfpq
    simp only [Graph.foldl_update _ hLg, Graph.foldl_update _ hgpq, Option.or_none] at h2
    dsimp only
    rw [hput]
    dsimp only
    rw [show paymentQueueGet2 P s.wallet = .ok pq2 from hpq]
    refine ⟨_, rfl, h2.salt, ?_⟩
    rw [exportContents, if_neg hb]
    exact h2.tables


/-- opening the export loads, into an object without records, the keys `exportedKeys` and the wallet's used address
count -/
theorem exportWallet_opens {s : Session} {d : Durable} (hr : Refines P S s d) (hload : LoadsBack P H s.wallet)
    (hS : ∀ k ∈ loadParameters s.wallet.net, asBinaryArray "db_parameters" ++ k ∈ S) (viewOnly voa : Bool)
    (hno : (!s.wallet.isViewOnly && viewOnly) = true →
      d.current.parameters (asBinaryArray "spend_key_base_public_key") = none ∧
        d.current.parameters (asBinaryArray "tx_derivation_seed") = none)
    (newPassword : BinaryArray) (rh : ℕ → Hash) (drawn thc : ℕ) (rh' : ℕ → Hash) (drawn' : ℕ) :
    ∃ (t : Tables) (w0 : WalletHD) (ts : Timestamp) (rows : List (BinaryArray × BinaryArray)),
      exportWallet P H newPassword viewOnly voa rh drawn s.wallet = (t, .ok ()) ∧
      t.salt = some (rh drawn).data ∧
      TablesRepresent P S (P.generateChacha8Key ((rh drawn).data ++ newPassword)) t
        (exportContents viewOnly voa s.wallet d.current) ∧ w0.walletRecords = [] ∧
      openWallet P H s.wallet.net thc newPassword t rh' drawn' = .ok { generateAhead H thc
        { w0.setKeys (exportedKeys viewOnly voa s.wallet) with
          usedAddressCount := s.wallet.usedAddressCount, oldestTimestamp := ts } with
        labels := rows.foldl (fun (m : Rows BinaryArray BinaryArray) r => m.assign bytesLt r.1 r.2) w0.labels } := by
  obtain ⟨t, hexp, hsalt, ht⟩ := exportWallet_tables hinj hr
    ⟨hS _ (by simp [loadParameters]), hS _ (by simp [loadParameters])⟩ viewOnly voa hno newPassword rh drawn
  obtain ⟨w0, hw0⟩ : ∃ w0 : WalletHD, w0 = { { WalletHD.fresh s.wallet.net ⟨t, t⟩ rh' with drawn := drawn' } with
      walletKey := P.generateChacha8Key ((rh drawn).data ++ newPassword) } := ⟨_, rfl⟩
  have ht0 : TablesRepresent P S w0.walletKey w0.db.current (exportContents viewOnly voa s.wallet d.current) := by
    rw [hw0]; exact ht
  -- what the export's object and the wallet read
  have hg0 : ∀ k ∈ loadParameters s.wallet.net,
      get P k w0 = .ok ((exportContents viewOnly voa s.wallet d.current).parameters k) :=
    fun k hk => ht0.get hinj (hS k hk)
  have hgw : ∀ k ∈ loadParameters s.wallet.net, get P k s.wallet = .ok (d.current.parameters k) :=
    fun k hk => hr.current.get hinj (hS k hk)
  have hkeys : readKeys P H w0 = .ok (exportedKeys viewOnly voa s.wallet) := by
    by_cases hb : (!s.wallet.isViewOnly && viewOnly) = true
    · obtain ⟨-, htds⟩ := hno hb
      obtain ⟨hv, hc, ha, hat, hvalid, hvsk, hvpk⟩ := readKeys_eq_ok P H hload.keys
      simp only [WalletHD.keys] at ha hat hvalid hvsk hvpk
      -- a parameter the export keeps reads as in the wallet
      have hkept : ∀ k ∈ loadParameters s.wallet.net, k ≠ asBinaryArray "spend_key_base_public_key" →
          k ≠ asBinaryArray "tx_derivation_seed" → k ≠ asBinaryArray "mnemonic" →
          k ≠ asBinaryArray "mnemonic-password" →
          get P k w0 = get P k { s.wallet with
            seed := Pod.zero 32, txDerivationSeed := Pod.zero 32, spendKeyBase := ⟨Pod.zero 32, Pod.zero 32⟩ } :=
          fun k hk h1 h2 h3 h4 => by
        rw [hg0 k hk, exportContents_parameters h1 h2 h3 h4, ← hgw k hk]
        exact get_congr P rfl rfl k
      have hpar : (exportContents viewOnly voa s.wallet d.current).parameters =
          fun k => if k = asBinaryArray "spend_key_base_public_key" then some s.wallet.spendKeyBase.publicKey.data
            else if voa ∧ k = asBinaryArray "tx_derivation_seed" then some s.wallet.txDerivationSeed.data
            else if k = asBinaryArray "mnemonic" ∨ k = asBinaryArray "mnemonic-password" then none
            else d.current.parameters k := by
        rw [exportContents, if_pos hb]
      have hm : get P (asBinaryArray "mnemonic") w0 = .ok none := by
        rw [hg0 _ (by simp [loadParameters]), hpar]
        simp only [show asBinaryArray "mnemonic" ≠ asBinaryArray "spend_key_base_public_key" by decide,
          show asBinaryArray "mnemonic" ≠ asBinaryArray "tx_derivation_seed" by decide, and_false, true_or,
          if_false, if_true]
      have hs : get P (asBinaryArray "spend_key_base_public_key") w0 = .ok (some s.wallet.spendKeyBase.publicKey.data) := by
        rw [hg0 _ (by simp [loadParameters]), hpar]
        dsimp only
        rw [if_pos rfl]
      have ht : get P (asBinaryArray "tx_derivation_seed") w0 =
          .ok (if voa then some s.wallet.txDerivationSeed.data else none) := by
        rw [hg0 _ (by simp [loadParameters]), hpar]
        cases voa <;> simp [htds, show asBinaryArray "tx_derivation_seed" ≠ asBinaryArray "spend_key_base_public_key"
          by decide, show asBinaryArray "tx_derivation_seed" ≠ asBinaryArray "mnemonic" by decide,
          show asBinaryArray "tx_derivation_seed" ≠ asBinaryArray "mnemonic-password" by decide]
      rw [readKeys_viewOnly P H ((hkept _ (by simp [loadParameters]) (by decide) (by decide) (by decide) (by decide)).trans hv)
        ((hkept _ (by simp [loadParameters]) (by decide) (by decide) (by decide) (by decide)).trans hc)
        ((hkept _ (by simp [loadParameters]) (by decide) (by decide) (by decide) (by decide)).trans ha) hat hm hs
        hvalid ht (hvsk ▸ hvpk), exportedKeys, if_pos hb, hvsk, hw0]
      rfl
    · rw [exportedKeys, if_neg hb, ← hload.keys]
      refine readKeys_congr P H (fun k hk => ?_) ?_ ?_ ?_
      · have hk' : k ∈ loadParameters s.wallet.net := by rwa [hw0] at hk
        rw [hg0 k hk', exportContents, if_neg hb, ← hgw k hk']
        exact get_congr P rfl rfl k
      all_goals rw [hw0]; rfl
  obtain ⟨ts, hts⟩ := hload.counts
  have hcounts : readCounts P H (w0.setKeys (exportedKeys viewOnly voa s.wallet)) =
      .ok (s.wallet.usedAddressCount, ts) := by
    have hsame : ∀ k ∈ loadParameters s.wallet.net,
        (exportContents viewOnly voa s.wallet d.current).parameters k = d.current.parameters k →
        get P k (w0.setKeys (exportedKeys viewOnly voa s.wallet)) = get P k { s.wallet with usedAddressCount := 0 } :=
      fun k hk he => calc
        _ = get P k w0 := get_congr P rfl rfl k
        _ = get P k s.wallet := by rw [hg0 k hk, he, hgw k hk]
        _ = _ := get_congr P rfl rfl k
    have hne := creationTimestampKey_ne s.wallet.net
    have hnet : (w0.setKeys (exportedKeys viewOnly voa s.wallet)).net = s.wallet.net := by rw [hw0]; rfl
    refine (readCounts_congr P H ?_ ?_ ?_ ?_).trans hts
    · exact hsame _ (by simp [loadParameters])
        (exportContents_parameters (by decide) (by decide) (by decide) (by decide))
    · rw [hnet]
      exact hsame _ (by simp [loadParameters])
        (exportContents_parameters hne.1 hne.2.1 hne.2.2.1 hne.2.2.2)
    · exact hnet
    · rw [hw0]; rfl
  obtain ⟨rows, hrows, -, -⟩ := ht0.labels.decryptRows
  exact ⟨t, w0, ts, rows, hexp, hsalt, ht, by subst hw0; rfl,
    openWallet_of_load P H hsalt hw0 (load_of_reads P H hkeys hcounts hrows)⟩

/-- for every thread count other than 0, the reopened export has the keys `exportedKeys` and the window of their key
base at the wallet's used address count -/
theorem exportWallet_window {s : Session} {d : Durable} (hr : Refines P S s d) (hload : LoadsBack P H s.wallet)
    (hS : ∀ k ∈ loadParameters s.wallet.net, asBinaryArray "db_parameters" ++ k ∈ S) (viewOnly voa : Bool)
    (hno : (!s.wallet.isViewOnly && viewOnly) = true →
      d.current.parameters (asBinaryArray "spend_key_base_public_key") = none ∧
        d.current.parameters (asBinaryArray "tx_derivation_seed") = none)
    {thc : ℕ} (hthc : thc ≠ 0) (newPassword : BinaryArray) (rh : ℕ → Hash) (drawn : ℕ) (rh' : ℕ → Hash)
    (drawn' : ℕ) :
    ∃ t w, exportWallet P H newPassword viewOnly voa rh drawn s.wallet = (t, .ok ()) ∧
      openWallet P H s.wallet.net thc newPassword t rh' drawn' = .ok w ∧ w.keys = exportedKeys viewOnly voa s.wallet ∧
      w.walletRecords = aheadRecords H (exportedKeys viewOnly voa s.wallet).spendKeyBase
        (s.wallet.usedAddressCount + generateAheadCount) := by
  obtain ⟨t, w0, ts, rows, hexp, -, -, hw0, hopen⟩ :=
    exportWallet_opens hinj hr hload hS viewOnly voa hno newPassword rh drawn thc rh' drawn'
  have hX := generateAhead_window H hthc (k := 0) (w := { w0.setKeys (exportedKeys viewOnly voa s.wallet) with
    usedAddressCount := s.wallet.usedAddressCount, oldestTimestamp := ts })
    (by simp only [WalletHD.setKeys, hw0, aheadRecords, List.range_zero, List.map_nil]) (Nat.zero_le _)
  obtain ⟨rs, m, hg⟩ := generateAhead_frame H thc { w0.setKeys (exportedKeys viewOnly voa s.wallet) with
    usedAddressCount := s.wallet.usedAddressCount, oldestTimestamp := ts }
  rw [Window, hg] at hX
  exact ⟨t, _, hexp, hopen, by rw [hg]; rfl, by rw [hg]; exact hX⟩

end

/-- the window of a key base without a secret reads as view-only when `generate_hd_spendkeys` makes no secret keys
from a zero base secret -/
theorem isViewOnly_aheadRecords {H : HdPrimitives}
    (hsec : ∀ (b : KeyPair) (seed : Hash) (i : ℕ), b.secretKey = Pod.zero 32 →
      (H.hdSpendKey b seed i).secretKey = Pod.zero 32)
    {w : WalletHD} {pk : PublicKey} {n : ℕ} (hw : w.walletRecords = aheadRecords H ⟨pk, Pod.zero 32⟩ (n + 1)) :
    w.isViewOnly = true := by
  rw [WalletHD.isViewOnly, hw, aheadRecords, List.range_succ_eq_map, List.map_cons]
  simp only [aheadRecord, hsec ⟨pk, Pod.zero 32⟩ _ _ rfl, decide_True]

/-! ## A wallet the results apply to -/

/-- HD collaborators whose key sequence keeps the base's secret key -/
def baseHdPrimitives : HdPrimitives :=
  { plainHdPrimitives with hdSpendKey := fun b _ i => ⟨Pod.ofBytes 32 (uintLeToBytes 8 (i + 1)), b.secretKey⟩ }

/-- the file of a wallet created from the mnemonic `abandon` -/
def abandonTables : Tables :=
  match createWallet prefixPrimitives baseHdPrimitives "main" 0 [] (asBinaryArray "abandon") 1 0 []
      (fun _ => Pod.zero 32) 0 with
  | .ok w => w.db.committed
  | .error _ => Tables.empty

/-- the maps of that file -/
def abandonContents : Contents := createdContents baseHdPrimitives (asBinaryArray "abandon") 1 []

set_option maxRecDepth 100000 in
/-- opening the file with one thread gives a wallet on the main net that holds its window, stands for the six
parameters and reads back its keys -/
theorem abandon_opens :
    ∃ w, openWallet prefixPrimitives baseHdPrimitives "main" 1 [] abandonTables (fun _ => Pod.zero 32) 0 = .ok w ∧
      w.net = "main" ∧ Refines prefixPrimitives mainParameterStrings ⟨w, []⟩ ⟨abandonContents, abandonContents⟩ ∧
      LoadsBack prefixPrimitives baseHdPrimitives w ∧ Window baseHdPrimitives w := by
  obtain ⟨wc, hc⟩ : ∃ w, createWallet prefixPrimitives baseHdPrimitives "main" 0 [] (asBinaryArray "abandon") 1 0 []
      (fun _ => Pod.zero 32) 0 = .ok w := ⟨_, rfl⟩
  obtain ⟨w0, h0⟩ : ∃ w, openWallet prefixPrimitives baseHdPrimitives "main" 0 [] abandonTables
      (fun _ => Pod.zero 32) 0 = .ok w := ⟨_, rfl⟩
  have ho : openWallet prefixPrimitives baseHdPrimitives "main" 1 [] abandonTables (fun _ => Pod.zero 32) 0 =
      .ok (generateAhead baseHdPrimitives 1 w0) := by
    rw [openWallet_threads, h0]
    rfl
  obtain ⟨hcom, hs, hk, -, -, ht⟩ := createWallet_tables prefixPrimitives_injOn hc (by decide) rfl
    (by simp only [ParameterFits, mainParameterStrings, Set.mem_setOf_eq]; decide)
  have htables : abandonTables = wc.db.committed := by rw [abandonTables, hc]
  obtain ⟨-, -, -, -, -, hnet, -⟩ := openWallet_store _ _ ho
  refine ⟨_, ho, hnet, openWallet_refines ho fun salt hsalt => ?_, openWallet_loadsBack _ _ ho,
    reachable_window _ _ one_ne_zero (.opened _ _ _ _ _ ho)⟩
  rw [htables, hcom, hs, Option.some.injEq] at hsalt
  rw [htables, hcom, ← hsalt, ← hk]
  exact ht

theorem abandonContents_viewOnlyKeys :
    abandonContents.parameters (asBinaryArray "spend_key_base_public_key") = none ∧
      abandonContents.parameters (asBinaryArray "tx_derivation_seed") = none :=
  ⟨foldl_update_of_ne _ (by decide), foldl_update_of_ne _ (by decide)⟩

theorem loadParameters_main : ∀ k ∈ loadParameters "main", asBinaryArray "db_parameters" ++ k ∈ mainParameterStrings :=
  fun _ hk => List.mem_map_of_mem _ hk

/-- **Reopening an export.** Opening the file `export_wallet` commits, with the new password, returns a wallet that
stands for `exportContents` in both transactions, with the keys `exportedKeys` and the wallet's used address count.
A view-only export of a spending wallet is covered when the wallet's parameters hold neither
`spend_key_base_public_key` nor `tx_derivation_seed` (`hno`): the export inserts both after copying the parameters -/
theorem exportWallet_reopens {P : Primitives} {S : Set BinaryArray}
    (hinj : ∀ key, Set.InjOn (deriveFromKey P key) S) {H : HdPrimitives} {s : Session} {d : Durable} (hr : Refines P S s d) (hload : LoadsBack P H s.wallet)
    (hS : ∀ k ∈ loadParameters s.wallet.net, asBinaryArray "db_parameters" ++ k ∈ S) (viewOnly voa : Bool)
    (hno : (!s.wallet.isViewOnly && viewOnly) = true →
      d.current.parameters (asBinaryArray "spend_key_base_public_key") = none ∧
        d.current.parameters (asBinaryArray "tx_derivation_seed") = none)
    (newPassword : BinaryArray) (rh : ℕ → Hash) (drawn thc : ℕ) (rh' : ℕ → Hash) (drawn' : ℕ) :
    ∃ t w, exportWallet P H newPassword viewOnly voa rh drawn s.wallet = (t, .ok ()) ∧
      openWallet P H s.wallet.net thc newPassword t rh' drawn' = .ok w ∧
      Refines P S ⟨w, newPassword⟩ ⟨exportContents viewOnly voa s.wallet d.current,
        exportContents viewOnly voa s.wallet d.current⟩ ∧
      w.keys = exportedKeys viewOnly voa s.wallet ∧ w.usedAddressCount = s.wallet.usedAddressCount := by
  obtain ⟨t, w0, ts, rows, hexp, hsalt, ht, -, hopen⟩ :=
    exportWallet_opens hinj hr hload hS viewOnly voa hno newPassword rh drawn thc rh' drawn'
  obtain ⟨rs, m, hg⟩ := generateAhead_frame H thc { w0.setKeys (exportedKeys viewOnly voa s.wallet) with
    usedAddressCount := s.wallet.usedAddressCount, oldestTimestamp := ts }
  refine ⟨t, _, hexp, hopen, openWallet_refines hopen fun salt hs => ?_, by rw [hg]; rfl, by rw [hg]⟩
  rw [hsalt, Option.some.injEq] at hs
  rw [← hs]
  exact ht

/-- the `abandon` wallet, exported view-only with the new password `[1]` and reopened, gives back its view key pair -/
theorem abandon_export_reopens :
    ∃ w t w', openWallet prefixPrimitives baseHdPrimitives "main" 1 [] abandonTables (fun _ => Pod.zero 32) 0 = .ok w ∧
      exportWallet prefixPrimitives baseHdPrimitives [1] true false (fun _ => Pod.zero 32) 1 w = (t, .ok ()) ∧
      openWallet prefixPrimitives baseHdPrimitives "main" 0 [1] t (fun _ => Pod.zero 32) 0 = .ok w' ∧
      w'.keys = exportedKeys true false w := by
  obtain ⟨w, ho, hnet, hr, hl, -⟩ := abandon_opens
  obtain ⟨t, w', hexp, hopen, -, hkeys, -⟩ := exportWallet_reopens prefixPrimitives_injOn hr hl
    (hnet ▸ loadParameters_main) true false (fun _ => abandonContents_viewOnlyKeys) [1] (fun _ => Pod.zero 32) 1 0
    (fun _ => Pod.zero 32) 0
  rw [hnet] at hopen
  exact ⟨w, t, w', ho, hexp, hopen, hkeys⟩

/-- **The records of a reopened export.** Where the thread count is not 0 and the wallet holds its window, the
reopened export holds records with the wallet's spend public keys, index by index, when `generate_hd_spendkeys`
computes public keys from the base's public key alone; a full export holds the wallet's own records, and a view-only
export of a spending wallet reopens view-only when `generate_hd_spendkeys` makes no secret keys from a zero base
secret -/
theorem exportWallet_records {P : Primitives} {S : Set BinaryArray}
    (hinj : ∀ key, Set.InjOn (deriveFromKey P key) S) {H : HdPrimitives} {s : Session} {d : Durable} (hr : Refines P S s d) (hload : LoadsBack P H s.wallet)
    (hS : ∀ k ∈ loadParameters s.wallet.net, asBinaryArray "db_parameters" ++ k ∈ S) (viewOnly voa : Bool)
    (hno : (!s.wallet.isViewOnly && viewOnly) = true →
      d.current.parameters (asBinaryArray "spend_key_base_public_key") = none ∧
        d.current.parameters (asBinaryArray "tx_derivation_seed") = none)
    {thc : ℕ} (hthc : thc ≠ 0) (hwin : Window H s.wallet)
    (hpub : ∀ (b b' : KeyPair) (seed : Hash) (i : ℕ), b.publicKey = b'.publicKey →
      (H.hdSpendKey b seed i).publicKey = (H.hdSpendKey b' seed i).publicKey)
    (hsec : ∀ (b : KeyPair) (seed : Hash) (i : ℕ), b.secretKey = Pod.zero 32 →
      (H.hdSpendKey b seed i).secretKey = Pod.zero 32)
    (newPassword : BinaryArray) (rh : ℕ → Hash) (drawn : ℕ) (rh' : ℕ → Hash) (drawn' : ℕ) :
    ∃ t w, exportWallet P H newPassword viewOnly voa rh drawn s.wallet = (t, .ok ()) ∧
      openWallet P H s.wallet.net thc newPassword t rh' drawn' = .ok w ∧
      w.walletRecords.map WalletRecord.spendPublicKey = s.wallet.walletRecords.map WalletRecord.spendPublicKey ∧
      ((!s.wallet.isViewOnly && viewOnly) = false → w.walletRecords = s.wallet.walletRecords) ∧
      ((!s.wallet.isViewOnly && viewOnly) = true → w.isViewOnly = true) := by
  obtain ⟨t, w, hexp, hopen, -, hrs⟩ :=
    exportWallet_window hinj hr hload hS viewOnly voa hno hthc newPassword rh drawn rh' drawn'
  refine ⟨t, w, hexp, hopen, ?_, fun hb => ?_, fun hb => isViewOnly_aheadRecords hsec (n := s.wallet.usedAddressCount +
    19999) (by rw [hrs, exportedKeys, if_pos hb]; rfl)⟩ <;> rw [hrs]
  · have hpk : (exportedKeys viewOnly voa s.wallet).spendKeyBase.publicKey = s.wallet.spendKeyBase.publicKey := by
      unfold exportedKeys; split_ifs <;> rfl
    rw [hwin, aheadRecords, aheadRecords, List.map_map, List.map_map]
    refine List.map_congr_left fun i _ => ?_
    show (H.hdSpendKey _ _ i).publicKey = (H.hdSpendKey _ _ i).publicKey
    rw [hpk]
    exact hpub _ _ _ i hpk
  · rw [exportedKeys, if_neg (by simp [hb]), hwin]
    rfl

/-- the `abandon` wallet, exported view-only and reopened with one thread, holds records with the same spend public
keys, and reads as view-only -/
theorem abandon_export_records :
    ∃ w t w', openWallet prefixPrimitives baseHdPrimitives "main" 1 [] abandonTables (fun _ => Pod.zero 32) 0 = .ok w ∧
      exportWallet prefixPrimitives baseHdPrimitives [1] true false (fun _ => Pod.zero 32) 1 w = (t, .ok ()) ∧
      openWallet prefixPrimitives baseHdPrimitives "main" 1 [1] t (fun _ => Pod.zero 32) 0 = .ok w' ∧
      w'.walletRecords.map WalletRecord.spendPublicKey = w.walletRecords.map WalletRecord.spendPublicKey := by
  obtain ⟨w, ho, hnet, hr, hl, hwin⟩ := abandon_opens
  obtain ⟨t, w', hexp, hopen, hpk, -, -⟩ := exportWallet_records prefixPrimitives_injOn hr hl
    (hnet ▸ loadParameters_main) true false (fun _ => abandonContents_viewOnlyKeys) (show (1 : ℕ) ≠ 0 by decide) hwin
    (fun _ _ _ _ _ => rfl) (fun _ _ _ h => h) [1] (fun _ => Pod.zero 32) 1 (fun _ => Pod.zero 32) 0
  rw [hnet] at hopen
  exact ⟨w, t, w', ho, hexp, hopen, hpk⟩

/-- **`export_keys` of a reopened export.** The reopened export gives what `export_keys` of the wallet gives, except
after a view-only export of a spending wallet, which leaves the mnemonic behind: then it throws -/
theorem exportWallet_exportKeys {P : Primitives} {S : Set BinaryArray}
    (hinj : ∀ key, Set.InjOn (deriveFromKey P key) S) {H : HdPrimitives} {s : Session} {d : Durable}
    (hr : Refines P S s d) (hload : LoadsBack P H s.wallet)
    (hS : ∀ k ∈ loadParameters s.wallet.net, asBinaryArray "db_parameters" ++ k ∈ S) (viewOnly voa : Bool)
    (hno : (!s.wallet.isViewOnly && viewOnly) = true →
      d.current.parameters (asBinaryArray "spend_key_base_public_key") = none ∧
        d.current.parameters (asBinaryArray "tx_derivation_seed") = none)
    (newPassword : BinaryArray) (rh : ℕ → Hash) (drawn thc : ℕ) (rh' : ℕ → Hash) (drawn' : ℕ) :
    ∃ t w, exportWallet P H newPassword viewOnly voa rh drawn s.wallet = (t, .ok ()) ∧
      openWallet P H s.wallet.net thc newPassword t rh' drawn' = .ok w ∧
      exportKeys P w = if (!s.wallet.isViewOnly && viewOnly) = true then
        .error (.runtimeError "Exporting keys (mnemonic) not supported by view-only HD wallet")
      else exportKeys P s.wallet := by
  obtain ⟨t, w0, ts, rows, hexp, hsalt, ht, -, hopen⟩ :=
    exportWallet_opens hinj hr hload hS viewOnly voa hno newPassword rh drawn thc rh' drawn'
  have hr' := openWallet_refines hopen fun salt hs => by
    rw [hsalt, Option.some.injEq] at hs
    rw [← hs]
    exact ht
  have hm : asBinaryArray "db_parameters" ++ asBinaryArray "mnemonic" ∈ S := hS _ (by simp [loadParameters])
  refine ⟨t, _, hexp, hopen, ?_⟩
  rw [exportKeys, hr'.current.get hinj hm, exportKeys, hr.current.get hinj hm, exportContents]
  split_ifs with hb
  · simp only [show asBinaryArray "mnemonic" ≠ asBinaryArray "spend_key_base_public_key" by decide,
      show asBinaryArray "mnemonic" ≠ asBinaryArray "tx_derivation_seed" by decide, and_false, true_or, if_false,
      if_true]
  · rfl

/-- the `abandon` wallet, exported view-only and reopened, has no mnemonic to export -/
theorem abandon_export_keys :
    ∃ w t w', openWallet prefixPrimitives baseHdPrimitives "main" 1 [] abandonTables (fun _ => Pod.zero 32) 0 = .ok w ∧
      exportWallet prefixPrimitives baseHdPrimitives [1] true false (fun _ => Pod.zero 32) 1 w = (t, .ok ()) ∧
      openWallet prefixPrimitives baseHdPrimitives "main" 0 [1] t (fun _ => Pod.zero 32) 0 = .ok w' ∧
      exportKeys prefixPrimitives w' = if (!w.isViewOnly && true) = true then
        .error (.runtimeError "Exporting keys (mnemonic) not supported by view-only HD wallet")
      else exportKeys prefixPrimitives w := by
  obtain ⟨w, ho, hnet, hr, hl, -⟩ := abandon_opens
  obtain ⟨t, w', hexp, hopen, hkeys⟩ := exportWallet_exportKeys prefixPrimitives_injOn hr hl
    (hnet ▸ loadParameters_main) true false (fun _ => abandonContents_viewOnlyKeys) [1] (fun _ => Pod.zero 32) 1 0
    (fun _ => Pod.zero 32) 0
  rw [hnet] at hopen
  exact ⟨w, t, w', ho, hexp, hopen, hkeys⟩

end BytecoinWallet.HD
