/-
`generate_new_addresses` on an object that agrees with its file.

The file operations of the call keep a container file a container file: a record written at `wallet_file_size(n)`
appends it (`writeAt_containerBytes_append`), and the two counts are rewritten in place (`writeAt_capacity`,
`writeAt_count`). `LoopInv` is what the loop keeps, one input at a time (`placeRecord_inv`, `generateOne_inv`) and so
over all of them (`generateLoop_inv`). `stored_generateNewAddresses`: a call that returns leaves an object that agrees
with its file, whether the records were only appended or a lowered timestamp made it rewrite the whole file.
-/
import BytecoinWallet.Container.Save

namespace BytecoinWallet.Container

/-! ## The file operations -/

section
variable (p : ContainerStoragePrefix) (cap cnt : ℕ) (es : List EncryptedWalletRecord)

theorem containerBytes_eq_append :
    containerBytes p cap cnt es = (serializationVersionV2 :: p.bytes) ++ (uintLeToBytes 8 cap ++
      (uintLeToBytes 8 cnt ++ (es.map EncryptedWalletRecord.bytes).flatten)) := rfl

theorem length_header : (serializationVersionV2 :: p.bytes).length = 1 + sizeofContainerStoragePrefix := by
  simp [Nat.add_comm]

theorem writeAt_capacity (cap' : ℕ) :
    writeAt (containerBytes p cap cnt es) (1 + sizeofContainerStoragePrefix) (uintLeToBytes 8 cap') =
      containerBytes p cap' cnt es := by
  rw [writeAt_of_le (by rw [length_containerBytes, length_uintLeToBytes]; simp [walletFileSize]; omega),
    containerBytes_eq_append, List.take_left' (length_header p), length_uintLeToBytes, ← length_header p,
    List.drop_append, List.drop_left' (length_uintLeToBytes 8 cap)]
  simp [containerBytes]

theorem writeAt_count (cnt' : ℕ) :
    writeAt (containerBytes p cap cnt es) (1 + sizeofContainerStoragePrefix + 8) (uintLeToBytes 8 cnt') =
      containerBytes p cap cnt' es := by
  have hh : ((serializationVersionV2 :: p.bytes) ++ uintLeToBytes 8 cap).length =
      1 + sizeofContainerStoragePrefix + 8 := by simp; omega
  have hf : containerBytes p cap cnt es = ((serializationVersionV2 :: p.bytes) ++ uintLeToBytes 8 cap) ++
      (uintLeToBytes 8 cnt ++ (es.map EncryptedWalletRecord.bytes).flatten) := by simp [containerBytes]
  rw [writeAt_of_le (by rw [length_containerBytes, length_uintLeToBytes]; simp [walletFileSize]), hf,
    List.take_left' hh, length_uintLeToBytes, ← hh, List.drop_append, List.drop_left' (length_uintLeToBytes 8 cnt)]
  simp [containerBytes]

theorem writeAt_containerBytes_append (e : EncryptedWalletRecord) :
    writeAt (containerBytes p cap cnt es) (walletFileSize es.length) e.bytes = containerBytes p cap cnt (es ++ [e]) := by
  rw [← length_containerBytes p cap cnt es, writeAt_length]
  simp [containerBytes]

theorem walletFileSize_add (n a : ℕ) :
    walletFileSize (n + a) = walletFileSize n + sizeofEncryptedWalletRecord * a := by
  simp only [walletFileSize, Nat.mul_add]
  omega

end

section
variable (P : Primitives)

@[simp] theorem writeCounts_file (c : WalletContainerStorage) :
    c.writeCounts.file = writeAt (writeAt c.file (1 + sizeofContainerStoragePrefix)
      (uintLeToBytes 8 c.walletRecords.length)) (1 + sizeofContainerStoragePrefix + 8)
        (uintLeToBytes 8 c.walletRecords.length) := rfl
@[simp] theorem writeCounts_fileOpen (c : WalletContainerStorage) : c.writeCounts.fileOpen = c.fileOpen := rfl
@[simp] theorem writeCounts_walletKey (c : WalletContainerStorage) : c.writeCounts.walletKey = c.walletKey := rfl
@[simp] theorem writeCounts_viewPublicKey (c : WalletContainerStorage) :
    c.writeCounts.viewPublicKey = c.viewPublicKey := rfl
@[simp] theorem writeCounts_viewSecretKey (c : WalletContainerStorage) :
    c.writeCounts.viewSecretKey = c.viewSecretKey := rfl
@[simp] theorem writeCounts_walletRecords (c : WalletContainerStorage) :
    c.writeCounts.walletRecords = c.walletRecords := rfl
@[simp] theorem writeCounts_recordsMap (c : WalletContainerStorage) : c.writeCounts.recordsMap = c.recordsMap := rfl
@[simp] theorem writeCounts_oldestTimestamp (c : WalletContainerStorage) :
    c.writeCounts.oldestTimestamp = c.oldestTimestamp := rfl

/-! ## The loop -/

/-- the writes that append the records `es` at `pos`, one record a write -/
def appendWrites : ℕ → List EncryptedWalletRecord → List FileEvent
  | _, [] => []
  | pos, e :: es => .write pos e.bytes :: appendWrites (pos + sizeofEncryptedWalletRecord) es

theorem appendWrites_append (pos : ℕ) (es : List EncryptedWalletRecord) (e : EncryptedWalletRecord) :
    appendWrites pos (es ++ [e]) =
      appendWrites pos es ++ [.write (pos + sizeofEncryptedWalletRecord * es.length) e.bytes] := by
  induction es generalizing pos with
  | nil => simp [appendWrites]
  | cons e' es ih =>
    have hpos : pos + sizeofEncryptedWalletRecord + sizeofEncryptedWalletRecord * es.length =
        pos + sizeofEncryptedWalletRecord * (es.length + 1) := by rw [Nat.mul_succ]; omega
    rw [List.cons_append, appendWrites, appendWrites, ih, List.length_cons, List.cons_append, hpos]

/-- each record of `rs` is still in place in `rs'`, with its keys and a creation timestamp no larger -/
@[reducible] def RecordsLowered (rs rs' : List WalletRecord) : Prop :=
  ∀ (i : ℕ) (r : WalletRecord), rs[i]? = some r → ∃ r', rs'[i]? = some r' ∧ r'.spendPublicKey = r.spendPublicKey ∧
    r'.spendSecretKey = r.spendSecretKey ∧ r'.creationTimestamp ≤ r.creationTimestamp

theorem RecordsLowered.refl (rs : List WalletRecord) : RecordsLowered rs rs :=
  fun _ r h => ⟨r, h, rfl, rfl, le_rfl⟩

theorem RecordsLowered.trans {rs1 rs2 rs3 : List WalletRecord} (h1 : RecordsLowered rs1 rs2)
    (h2 : RecordsLowered rs2 rs3) : RecordsLowered rs1 rs3 := by
  intro i r hr
  obtain ⟨r2, h2r, hp2, hs2, ht2⟩ := h1 i r hr
  obtain ⟨r3, h3r, hp3, hs3, ht3⟩ := h2 i r2 h2r
  exact ⟨r3, h3r, hp3.trans hp2, hs3.trans hs2, le_trans ht3 ht2⟩

theorem RecordsLowered.set {rs rs' : List WalletRecord} (h : RecordsLowered rs rs') {i : ℕ} {r : WalletRecord}
    (hi : rs'[i]? = some r) {t : Timestamp} (ht : t ≤ r.creationTimestamp) :
    RecordsLowered rs (rs'.set i { r with creationTimestamp := t }) := by
  intro j x hx
  obtain ⟨y, hy, hyp, hys, hyt⟩ := h j x hx
  by_cases hij : i = j
  · subst hij
    rw [hi] at hy
    cases hy
    exact ⟨_, List.getElem?_set_self (List.getElem?_eq_some_iff.1 hi).1, hyp, hys, le_trans ht hyt⟩
  · exact ⟨y, by rw [List.getElem?_set_ne hij]; exact hy, hyp, hys, hyt⟩

theorem RecordsLowered.append_right {rs rs' : List WalletRecord} (h : RecordsLowered rs rs')
    (extra : List WalletRecord) : RecordsLowered rs (rs' ++ extra) := by
  intro i x hx
  obtain ⟨y, hy, hyp, hys, hyt⟩ := h i x hx
  exact ⟨y, by rw [List.getElem?_append_left (List.getElem?_eq_some_iff.1 hy).1]; exact hy, hyp, hys, hyt⟩

theorem RecordsLowered.append {rs rs' : List WalletRecord} (h : RecordsLowered rs rs') (hlen : rs.length = rs'.length)
    (r : WalletRecord) : RecordsLowered (rs ++ [r]) (rs' ++ [r]) := by
  intro i x hx
  rcases Nat.lt_or_ge i rs.length with hi | hi
  · rw [List.getElem?_append_left hi] at hx
    exact h.append_right [r] i x hx
  · rw [List.getElem?_append_right hi] at hx
    obtain ⟨hi0, rfl⟩ : i - rs.length = 0 ∧ r = x := by
      rcases hk : i - rs.length with _ | k <;> simp [hk] at hx; exact ⟨rfl, hx⟩
    refine ⟨r, ?_, rfl, rfl, le_rfl⟩
    rw [List.getElem?_append_right (by omega), ← hlen, hi0]
    rfl

/-- a record of a spending wallet: nonzero secret, matching public key -/
def Spending (r : WalletRecord) : Prop :=
  r.spendSecretKey ≠ Pod.zero 32 ∧ P.secretKeyToPublicKey r.spendSecretKey = some r.spendPublicKey

variable (c0 : WalletContainerStorage) (p : ContainerStoragePrefix) (es : List EncryptedWalletRecord)

/-- what the loop of `generate_new_addresses` keeps on an object `c0` whose file is `containerBytes p n n es`: the
wallet key, the view keys and the handle; the file is that file with the appended records after it, each written by
one write at its place; the records are the file's, some with a lowered timestamp, and exactly the file's unless a
timestamp was lowered; all records are spending ones, no more than a vector holds -/
structure LoopInv (g : GenerateLoop P) : Prop where
  walletKey : g.c.walletKey = c0.walletKey
  viewPublicKey : g.c.viewPublicKey = c0.viewPublicKey
  viewSecretKey : g.c.viewSecretKey = c0.viewSecretKey
  fileOpen : g.c.fileOpen = c0.fileOpen
  file : ∃ es', g.c.file = containerBytes p es.length es.length (es ++ es') ∧ es'.length = g.appended ∧
    g.c.journal = c0.journal ++ appendWrites (walletFileSize es.length) es' ∧
    RecordsLowered ((es ++ es').map (decryptKeyPair P · c0.walletKey)) g.c.walletRecords ∧
    (g.rescanFromCt = false → g.c.walletRecords = (es ++ es').map (decryptKeyPair P · c0.walletKey))
  length : g.c.walletRecords.length = es.length + g.appended
  spending : ∀ r ∈ g.c.walletRecords, Spending P r
  size_le : g.c.walletRecords.length ≤ vectorMaxSize

variable {P c0 p es}

theorem placeRecord_inv (ivs : ℕ → ChachaIv) {g g' : GenerateLoop P} {record : WalletRecord}
    (hg : LoopInv P c0 p es g) (hr : Spending P record)
    {e : Option Failure} (h : placeRecord P ivs (walletFileSize es.length) g record = (g', e)) :
    LoopInv P c0 p es g' := by
  obtain ⟨hk, hvp, hvs, ho, ⟨es', hf, hlen', hj, hlow, hexact⟩, hlen, hsp, hsize⟩ := hg
  unfold placeRecord at h
  split at h
  · rename_i i hi
    split at h
    · cases h
      exact ⟨hk, hvp, hvs, ho, ⟨es', hf, hlen', hj, hlow, hexact⟩, hlen, hsp, hsize⟩
    · rename_i r hri
      split at h
      · rename_i hlt
        cases h
        refine ⟨hk, hvp, hvs, ho, ⟨es', hf, hlen', hj, hlow.set hri (le_of_lt hlt), nofun⟩, by simpa using hlen,
          fun x hx => ?_, by simpa using hsize⟩
        rcases List.mem_or_eq_of_mem_set hx with hx | rfl
        · exact hsp x hx
        · exact hsp r (List.getElem?_mem hri)
      · cases h
        exact ⟨hk, hvp, hvs, ho, ⟨es', hf, hlen', hj, hlow, hexact⟩, hlen, hsp, hsize⟩
  · split at h
    · cases h
      set e := encryptKeyPair P record.spendPublicKey record.spendSecretKey record.creationTimestamp g.c.walletKey
        (ivs g.appended)
      have hpos : walletFileSize es.length + sizeofEncryptedWalletRecord * g.appended =
          walletFileSize (es ++ es').length := by rw [List.length_append, hlen', walletFileSize_add]
      have hdec : decryptKeyPair P e c0.walletKey = record := by rw [← hk, decryptKeyPair_encryptKeyPair]
      have hmap : (es ++ (es' ++ [e])).map (decryptKeyPair P · c0.walletKey) =
          (es ++ es').map (decryptKeyPair P · c0.walletKey) ++ [record] := by
        rw [← List.append_assoc, List.map_append, List.map_singleton, hdec]
      refine ⟨hk, hvp, hvs, ho, ⟨es' ++ [e], ?_, by simp [hlen'], ?_, ?_, fun hres => ?_⟩, ?_, ?_, ?_⟩
      · simp only [WalletContainerStorage.emit, FileEvent.apply, hf, hpos, writeAt_containerBytes_append,
          List.append_assoc]
      · simp only [WalletContainerStorage.emit, hj, appendWrites_append, hlen', List.append_assoc]
      · rw [hmap]
        exact hlow.append (by simp [hlen, hlen']) record
      · simp only [WalletContainerStorage.emit]
        rw [hmap, ← hexact hres]
      · simp only [WalletContainerStorage.emit, List.length_append, List.length_singleton, hlen]; omega
      · intro x hx
        simp only [WalletContainerStorage.emit, List.mem_append, List.mem_singleton] at hx
        rcases hx with hx | rfl
        · exact hsp x hx
        · exact hr
      · simp only [WalletContainerStorage.emit, List.length_append, List.length_singleton]; omega
    · cases h
      exact ⟨hk, hvp, hvs, ho, ⟨es', hf, hlen', hj, hlow, hexact⟩, hlen, hsp, hsize⟩

theorem generateOne_inv (ct now : Timestamp) (ivs : ℕ → ChachaIv) {g g' : GenerateLoop P} {sk : SecretKey}
    {e : Option Failure} (hg : LoopInv P c0 p es g)
    (h : generateOne P ct now ivs (walletFileSize es.length) g sk = some (g', e)) : LoopInv P c0 p es g' := by
  unfold generateOne at h
  split at h
  · obtain ⟨⟨d, keypairs⟩, -, hd⟩ := Option.map_eq_some'.1 h
    refine placeRecord_inv ivs ?_ ⟨d.secret_ne_zero, d.public_of_secret⟩ hd
    exact ⟨hg.walletKey, hg.viewPublicKey, hg.viewSecretKey, hg.fileOpen, hg.file, hg.length, hg.spending, hg.size_le⟩
  · rename_i hsk
    split at h
    · cases h; exact hg
    · rename_i pk hpk
      exact placeRecord_inv ivs hg ⟨hsk, hpk⟩ (Option.some.inj h)

/-- **The loop keeps `LoopInv`**, up to where it returns or throws -/
theorem generateLoop_inv (ct now : Timestamp) (ivs : ℕ → ChachaIv) {sks : List SecretKey} {g g' : GenerateLoop P}
    {e : Option Failure} (hg : LoopInv P c0 p es g)
    (h : generateLoop P ct now ivs (walletFileSize es.length) sks g = some (g', e)) : LoopInv P c0 p es g' := by
  induction sks generalizing g with
  | nil => cases h; exact hg
  | cons sk sks ih =>
    obtain ⟨⟨g1, e1⟩, h1, h2⟩ := Option.bind_eq_some.1 h
    have hg1 := generateOne_inv ct now ivs hg h1
    cases e1 with
    | some e1 => cases h2; exact hg1
    | none => exact ih hg1 h2

/-! ## The call -/

variable (P)

theorem spending_of_not_isViewOnly {c : WalletContainerStorage} (hc : KeysValid P c) (hv : c.isViewOnly = false) :
    ∀ r ∈ c.walletRecords, Spending P r := by
  rcases hc.records with h | h
  · obtain ⟨r, rs, hrs⟩ := List.exists_cons_of_ne_nil hc.nonempty
    have hz := (h r (by rw [hrs]; exact List.mem_cons_self _ _)).1
    simp [WalletContainerStorage.isViewOnly, hrs, hz] at hv
  · exact h

/-- one loop body, up to where it returns or throws, keeps a spending wallet's keys passing -/
theorem placeRecord_keysValid (ivs : ℕ → ChachaIv) (pos : ℕ) {g g' : GenerateLoop P} {record : WalletRecord}
    {e : Option Failure} (hg : KeysValid P g.c) (hsp : ∀ r ∈ g.c.walletRecords, Spending P r) (hr : Spending P record)
    (h : placeRecord P ivs pos g record = (g', e)) : KeysValid P g'.c ∧ ∀ r ∈ g'.c.walletRecords, Spending P r := by
  unfold placeRecord at h
  split at h
  · rename_i i hi
    split at h
    · cases h; exact ⟨hg, hsp⟩
    · rename_i r hri
      split at h
      · cases h
        have hset : ∀ x ∈ g.c.walletRecords.set i { r with creationTimestamp := record.creationTimestamp },
            Spending P x := fun x hx => by
          rcases List.mem_or_eq_of_mem_set hx with hx | rfl
          · exact hsp x hx
          · exact hsp r (List.getElem?_mem hri)
        exact ⟨⟨hg.view_keys, .inr hset, by simpa using hg.nonempty, by simpa using hg.size_le⟩, hset⟩
      · cases h; exact ⟨hg, hsp⟩
  · split at h
    · rename_i hlt
      cases h
      have happ : ∀ x ∈ g.c.walletRecords ++ [record], Spending P x := fun x hx => by
        rcases List.mem_append.1 hx with hx | hx
        · exact hsp x hx
        · rw [List.mem_singleton.1 hx]; exact hr
      exact ⟨⟨hg.view_keys, .inr happ, by simp [WalletContainerStorage.emit],
        by simp only [WalletContainerStorage.emit, List.length_append, List.length_singleton]; omega⟩, happ⟩
    · cases h; exact ⟨hg.congr P rfl rfl rfl, hsp⟩

theorem generateOne_keysValid (ct now : Timestamp) (ivs : ℕ → ChachaIv) (pos : ℕ) {g g' : GenerateLoop P}
    {sk : SecretKey} {e : Option Failure} (hg : KeysValid P g.c) (hsp : ∀ r ∈ g.c.walletRecords, Spending P r)
    (h : generateOne P ct now ivs pos g sk = some (g', e)) :
    KeysValid P g'.c ∧ ∀ r ∈ g'.c.walletRecords, Spending P r := by
  unfold generateOne at h
  split at h
  · obtain ⟨⟨d, keypairs⟩, -, hd⟩ := Option.map_eq_some'.1 h
    refine placeRecord_keysValid P ivs pos ?_ ?_ ⟨d.secret_ne_zero, d.public_of_secret⟩ hd
    · exact hg.congr P rfl rfl rfl
    · exact hsp
  · rename_i hsk
    split at h
    · cases h; exact ⟨hg, hsp⟩
    · rename_i pk hpk
      exact placeRecord_keysValid P ivs pos hg hsp ⟨hsk, hpk⟩ (Option.some.inj h)

theorem generateLoop_keysValid (ct now : Timestamp) (ivs : ℕ → ChachaIv) (pos : ℕ) {sks : List SecretKey}
    {g g' : GenerateLoop P} {e : Option Failure} (hg : KeysValid P g.c) (hsp : ∀ r ∈ g.c.walletRecords, Spending P r)
    (h : generateLoop P ct now ivs pos sks g = some (g', e)) : KeysValid P g'.c := by
  induction sks generalizing g with
  | nil => cases h; exact hg
  | cons sk sks ih =>
    obtain ⟨⟨g1, e1⟩, h1, h2⟩ := Option.bind_eq_some.1 h
    obtain ⟨hg1, hsp1⟩ := generateOne_keysValid P ct now ivs pos hg hsp h1
    cases e1 with
    | some e1 => cases h2; exact hg1
    | none => exact ih hg1 hsp1 h2

/-- `generate_new_addresses`, returning or throwing, keeps the keys passing -/
theorem keysValid_generateNewAddresses {sks : List SecretKey} {ct now : Timestamp} {draws : GenerateDraws P}
    {c c' : WalletContainerStorage} {r : Except Failure (List WalletRecord × Bool)} (hc : KeysValid P c)
    (h : generateNewAddresses P sks ct now draws c = some (c', r)) : KeysValid P c' := by
  unfold generateNewAddresses at h
  split at h
  · cases h; exact hc
  rename_i hv
  have hfirst : ∀ c1 r1, (if c.fileOpen then (c, .ok ()) else saveAndCheck P draws.legacyIvs c) = (c1, r1) →
      KeysValid P c1 ∧ c1.walletRecords = c.walletRecords := fun c1 r1 he => by
    obtain ⟨f, j, o, hs⟩ := saveAndCheck_fst_eq P draws.legacyIvs c
    split at he
    · cases he; exact ⟨hc, rfl⟩
    · have h1 : (saveAndCheck P draws.legacyIvs c).1 = c1 := by rw [he]
      rw [← h1, hs]; exact ⟨hc.congr P rfl rfl rfl, rfl⟩
  split at h
  · rename_i _ c1 e heq
    cases h
    exact (hfirst _ _ heq).1
  · rename_i _ c1 heq
    obtain ⟨hc1, hrs⟩ := hfirst _ _ heq
    obtain ⟨⟨g, e⟩, hloop, hg⟩ := Option.map_eq_some'.1 h
    have hgc := generateLoop_keysValid P ct now _ _ hc1
      (hrs ▸ spending_of_not_isViewOnly P hc (by simpa using hv)) hloop
    have hw : KeysValid P g.c.writeCounts := hgc.congr P rfl rfl rfl
    cases e with
    | some e => cases hg; exact hgc
    | none =>
      dsimp only at hg
      split at hg
      · split at hg <;> rename_i heq2 <;> cases hg <;>
          exact (show (saveAndCheck P draws.rescanIvs g.c.writeCounts).1 = c' by rw [heq2]) ▸
            keysValid_saveAndCheck P draws.rescanIvs hw
      · cases hg; exact hw

/-- **`generate_new_addresses` keeps the object in agreement with its file** when it returns: without a lowered
timestamp the new records were appended and counted, with one the whole file was rewritten -/
theorem stored_generateNewAddresses {c c' : WalletContainerStorage} {sks : List SecretKey} {ct now : Timestamp}
    {draws : GenerateDraws P} {res : List WalletRecord × Bool} (hc : Stored P c)
    (h : generateNewAddresses P sks ct now draws c = some (c', .ok res)) : Stored P c' := by
  obtain ⟨p, es, hf, hvp, hvs, hrs⟩ := hc.file
  have hlen : es.length = c.walletRecords.length := by rw [← hrs, List.length_map]
  unfold generateNewAddresses at h
  split at h
  · cases h
  rename_i hv
  rw [if_pos hc.file_open] at h
  obtain ⟨⟨g, e⟩, hloop, hg⟩ := Option.map_eq_some'.1 h
  have h0 : LoopInv P c p es ⟨c, [], false, draws.keypairs, 0⟩ :=
    ⟨rfl, rfl, rfl, rfl, ⟨[], by rw [List.append_nil, hlen]; exact hf, rfl, by simp [appendWrites],
      by rw [List.append_nil, hrs]; exact RecordsLowered.refl _, fun _ => by rw [List.append_nil, hrs]⟩,
      hlen.symm, spending_of_not_isViewOnly P hc.keys (by simpa using hv), hc.keys.size_le⟩
  rw [← hlen] at hloop
  cases e with
  | some e => cases hg
  | none =>
    have hinv := generateLoop_inv ct now _ h0 hloop
    have hkeys : KeysValid P g.c :=
      ⟨by rw [hinv.viewPublicKey, hinv.viewSecretKey]; exact hc.keys.view_keys, .inr hinv.spending,
        fun hnil => hc.keys.nonempty (List.eq_nil_of_length_eq_zero (by
          have := hinv.length; rw [hnil, List.length_nil] at this; omega)), hinv.size_le⟩
    dsimp only at hg
    split at hg
    · split at hg
      · cases hg
      · rename_i c'' heq
        cases hg
        have hst := stored_saveAndCheck P draws.rescanIvs (c := g.c.writeCounts) (hkeys.congr P rfl rfl rfl)
          (by rw [heq])
        rwa [heq] at hst
    · rename_i hres
      cases hg
      obtain ⟨es', hf', -, -, -, hexact⟩ := hinv.file
      have hrs' := hexact (by simpa using hres)
      refine ⟨hkeys.congr P rfl rfl rfl, ⟨p, es ++ es', ?_, ?_, ?_, ?_⟩, by simp [hinv.fileOpen, hc.file_open]⟩
      · simp only [writeCounts_file, writeCounts_walletRecords, hf', writeAt_capacity, writeAt_count]
      · simp [hinv.walletKey, hinv.viewPublicKey, hvp]
      · simp [hinv.walletKey, hinv.viewSecretKey, hvs]
      · simp [hinv.walletKey, hrs']

end

end BytecoinWallet.Container
