/-
The seeds of the container wallet and its `backup` (Wallet.cpp 311-354, 529-543).

At its end `load()` derives `m_seed` from the view secret key and the first record's spend secret key, and from it
the tx derivation seed, the history file name seed and the history key, for a spending wallet; a view-only wallet
keeps them zero. No call changes the view secret key, the first record's spend secret key or the seeds afterwards.
`backup(dst_name, pass)` creates the backup's payment queue and history folders, exports the wallet in full under
`pass` to `dst_name`, and copies every file of the wallet's payment queue and history folders into them:
`dst_name.payments` and `dst_name.history`, with no `net_append` suffix.

Results:
- `reached_seeds`: in every container reached from a constructor through calls that return or throw, the seeds are
  the ones `load()` derives, for a spending wallet, and zero for a view-only one.
- `backup_keeps_histories`: from every reachable container `backup` returns, and the backup file opened with the
  password gives a reachable container. On the main net it loads from its history folder every history the wallet
  saved, as the wallet loads it; on any other net its history folder, which carries the net's suffix, is left as it
  was.
-/
import BytecoinWallet.Container.Export
import BytecoinWallet.Container.History
import BytecoinWallet.HD.Wallet

namespace BytecoinWallet.Container

/-! ## Model -/

/-- `m_seed`, `m_tx_derivation_seed`, `m_history_filename_seed` and `m_history_key` -/
def WalletContainerStorage.seeds (c : WalletContainerStorage) : Hash × Hash × Hash × ChachaKey :=
  (c.seed, c.txDerivationSeed, c.historyFilenameSeed, c.historyKey)

/-- what `load()` derives the seeds from: the view secret key and the first record's spend secret key -/
def WalletContainerStorage.seedSource (c : WalletContainerStorage) : SecretKey × Option SecretKey :=
  (c.viewSecretKey, c.walletRecords.head?.map WalletRecord.spendSecretKey)

section
variable (P : Primitives)

/-- the seeds the end of `load()` leaves: derived for a spending wallet, zero for a view-only one -/
def loadedSeeds (c : WalletContainerStorage) : Hash × Hash × Hash × ChachaKey :=
  if c.isViewOnly then (Pod.zero 32, Pod.zero 32, Pod.zero 32, Pod.zero 32) else (c.deriveSeeds P).seeds

/-- the object holds the seeds `load()` leaves -/
def SeedsLoaded (c : WalletContainerStorage) : Prop := c.seeds = loadedSeeds P c

theorem loadedSeeds_congr {c c' : WalletContainerStorage} (h : c'.seedSource = c.seedSource) :
    loadedSeeds P c' = loadedSeeds P c := by
  obtain ⟨hv, hf⟩ := Prod.mk.inj h
  unfold loadedSeeds WalletContainerStorage.isViewOnly WalletContainerStorage.deriveSeeds
    WalletContainerStorage.seeds
  rcases hc : c.walletRecords with _ | ⟨r, rs⟩ <;> rcases hc' : c'.walletRecords with _ | ⟨r', rs'⟩ <;>
    simp [hc, hc'] at hf <;> simp [hv, hf]

theorem SeedsLoaded.of_same {c c' : WalletContainerStorage} (hc : SeedsLoaded P c) (hs : c'.seeds = c.seeds)
    (hsrc : c'.seedSource = c.seedSource) : SeedsLoaded P c' := by
  rw [SeedsLoaded, hs, loadedSeeds_congr P hsrc]
  exact hc

/-! ## The calls keep the seeds -/

/-- `c'` has the view secret key and the seeds of `c` -/
def SameSeeds (c c' : WalletContainerStorage) : Prop :=
  c'.viewSecretKey = c.viewSecretKey ∧ c'.seeds = c.seeds

theorem writeCounts_seeds (c : WalletContainerStorage) : c.writeCounts.seeds = c.seeds := rfl

theorem SameSeeds.trans {c1 c2 c3 : WalletContainerStorage} (h1 : SameSeeds c1 c2) (h2 : SameSeeds c2 c3) :
    SameSeeds c1 c3 :=
  ⟨h2.1.trans h1.1, h2.2.trans h1.2⟩

theorem placeRecord_sameSeeds (ivs : ℕ → ChachaIv) (pos : ℕ) (g : GenerateLoop P) (record : WalletRecord) :
    SameSeeds g.c (placeRecord P ivs pos g record).1.c := by
  unfold placeRecord
  split
  · split
    · exact ⟨rfl, rfl⟩
    · split <;> exact ⟨rfl, rfl⟩
  · split <;> exact ⟨rfl, rfl⟩

theorem generateOne_sameSeeds (ct now : Timestamp) (ivs : ℕ → ChachaIv) (pos : ℕ) {g g' : GenerateLoop P}
    {sk : SecretKey} {e : Option Failure} (h : generateOne P ct now ivs pos g sk = some (g', e)) :
    SameSeeds g.c g'.c := by
  unfold generateOne at h
  split at h
  · obtain ⟨⟨d, keypairs⟩, -, hd⟩ := Option.map_eq_some'.1 h
    dsimp only at hd
    have hplace := placeRecord_sameSeeds P ivs pos
      { g with c := { g.c with oldestTimestamp := min g.c.oldestTimestamp now }, keypairs := keypairs }
      ⟨d.pair.publicKey, d.pair.secretKey, now⟩
    rw [hd] at hplace
    exact hplace
  · split at h
    · cases h
      exact ⟨rfl, rfl⟩
    · rename_i pk _
      have hplace := placeRecord_sameSeeds P ivs pos g ⟨pk, sk, ct⟩
      rw [Option.some.inj h] at hplace
      exact hplace

theorem generateLoop_sameSeeds (ct now : Timestamp) (ivs : ℕ → ChachaIv) (pos : ℕ) {sks : List SecretKey}
    {g g' : GenerateLoop P} {e : Option Failure} (h : generateLoop P ct now ivs pos sks g = some (g', e)) :
    SameSeeds g.c g'.c := by
  induction sks generalizing g with
  | nil => cases h; exact ⟨rfl, rfl⟩
  | cons sk sks ih =>
    obtain ⟨⟨g1, e1⟩, h1, h2⟩ := Option.bind_eq_some.1 h
    have hg1 := generateOne_sameSeeds P ct now ivs pos h1
    cases e1 with
    | some e1 => cases h2; exact hg1
    | none => exact hg1.trans (ih h2)

theorem saveAndCheck_seeds (ivs : ℕ → ChachaIv) (c : WalletContainerStorage) :
    (saveAndCheck P ivs c).1.seeds = c.seeds ∧ (saveAndCheck P ivs c).1.seedSource = c.seedSource := by
  obtain ⟨f, j, o, h⟩ := saveAndCheck_fst_eq P ivs c
  rw [h]
  exact ⟨rfl, rfl⟩

theorem saveAndCheck_sameSeeds (ivs : ℕ → ChachaIv) (c : WalletContainerStorage) :
    SameSeeds c (saveAndCheck P ivs c).1 :=
  ⟨congrArg Prod.fst (saveAndCheck_seeds P ivs c).2, (saveAndCheck_seeds P ivs c).1⟩

theorem generateNewAddresses_sameSeeds {sks : List SecretKey} {ct now : Timestamp} {draws : GenerateDraws P}
    {c c' : WalletContainerStorage} {r : Except Failure (List WalletRecord × Bool)}
    (h : generateNewAddresses P sks ct now draws c = some (c', r)) : SameSeeds c c' := by
  rcases generateNewAddresses_cases P h with rfl | ⟨c1, hc1, hc'⟩
  · exact ⟨rfl, rfl⟩
  have hfirst : SameSeeds c c1 := by
    rcases hc1 with rfl | rfl
    · exact ⟨rfl, rfl⟩
    · exact saveAndCheck_sameSeeds P _ c
  rcases hc' with rfl | ⟨g, e, hloop, hc'⟩
  · exact hfirst
  · have hg := hfirst.trans (generateLoop_sameSeeds P ct now _ _ hloop)
    have hw : SameSeeds g.c g.c.writeCounts := ⟨writeCounts_viewSecretKey _, writeCounts_seeds _⟩
    rcases hc' with rfl | rfl | rfl
    · exact hg
    · exact hg.trans hw
    · exact (hg.trans hw).trans (saveAndCheck_sameSeeds P draws.rescanIvs g.c.writeCounts)

theorem firstSecret_of_grows {c c' : WalletContainerStorage} (hg : Grows c c') (hne : c.walletRecords ≠ []) :
    c'.walletRecords.head?.map WalletRecord.spendSecretKey = c.walletRecords.head?.map WalletRecord.spendSecretKey := by
  obtain ⟨r, rs, hc⟩ := List.exists_cons_of_ne_nil hne
  obtain ⟨r', h0, -, hs, -⟩ := hg.records 0 r (by simp [hc])
  rw [hc, List.head?_eq_getElem?, h0]
  exact congrArg some hs

/-- **Each call that returns keeps the loaded seeds** -/
theorem seedsLoaded_run (net : String) {c c' : WalletContainerStorage} {e : Option Failure} (call : Call P)
    (hc : SeedsLoaded P c) (hk : KeysValid P c) (h : call.run P net c = some (c', e)) : SeedsLoaded P c' := by
  cases call with
  | generateNewAddresses sks ct now draws =>
    obtain ⟨⟨c1, r⟩, h1, h2⟩ := Option.map_eq_some'.1 h
    obtain ⟨rfl, -⟩ := Prod.mk.inj h2
    have hs := generateNewAddresses_sameSeeds P h1
    exact hc.of_same P hs.2 (Prod.ext hs.1 (firstSecret_of_grows (grows_generateNewAddresses P h1) hk.nonempty))
  | onFirstOutputFound ts ivs =>
    obtain ⟨rfl, -⟩ := Prod.mk.inj (Option.some.inj h)
    unfold Container.onFirstOutputFound
    split_ifs
    · exact hc
    · exact hc
    · obtain ⟨hs, hsrc⟩ := saveAndCheck_seeds P ivs { c with
        oldestTimestamp := ts
        walletRecords := c.walletRecords.map fun rec =>
          if rec.creationTimestamp = 0 then { rec with creationTimestamp := ts } else rec }
      refine hc.of_same P hs (hsrc.trans (Prod.ext rfl ?_))
      show (c.walletRecords.map _).head?.map WalletRecord.spendSecretKey =
        c.walletRecords.head?.map WalletRecord.spendSecretKey
      rcases c.walletRecords with _ | ⟨r, rs⟩
      · rfl
      · simp only [List.map_cons, List.head?_cons, Option.map_some', Option.some.injEq]
        split <;> rfl
  | setPassword password ivs =>
    obtain ⟨rfl, -⟩ := Prod.mk.inj (Option.some.inj h)
    obtain ⟨hs, hsrc⟩ := saveAndCheck_seeds P ivs { c with walletKey := P.generateChacha8Key password }
    exact hc.of_same P hs hsrc
  | detectOurOutput =>
    obtain ⟨rfl, -⟩ := Prod.mk.inj (Option.some.inj h)
    exact hc

/-! ## Opening -/

theorem loadedObject_seeds (c : WalletContainerStorage) : (loadedObject P c).seeds = c.seeds := by
  unfold loadedObject WalletContainerStorage.truncateFile
  split <;> simp [foldl_pushRecord, WalletContainerStorage.emit, WalletContainerStorage.seeds]

/-- the end of `load()`, on an object without seeds, leaves the loaded seeds -/
theorem seedsLoaded_finishLoad {c c' : WalletContainerStorage}
    (hc : c.seeds = (Pod.zero 32, Pod.zero 32, Pod.zero 32, Pod.zero 32)) (h : finishLoad P c = .ok c') :
    SeedsLoaded P c' := by
  rw [finishLoad] at h
  split_ifs at h with h1 h2 <;> rw [Except.ok.injEq] at h <;> subst h
  · rw [SeedsLoaded, loadedSeeds, if_pos h2]
    exact hc
  · rw [SeedsLoaded, loadedSeeds, if_neg (show ¬(c.deriveSeeds P).isViewOnly = true from h2)]
    rfl

/-- opening a file of format 6 leaves the loaded seeds -/
theorem seedsLoaded_of_openWithKey {key : ChachaKey} {f : BinaryArray} {ivs : ℕ → ChachaIv}
    {c : WalletContainerStorage} (hne : f ≠ []) (hv : f.headD 0 = serializationVersionV2)
    (h : openWithKey P key f ivs = .ok c) : SeedsLoaded P c := by
  rw [openWithKey, load, loadWith_of_headD P _ hne hv] at h
  cases hl : loadContainerStorage P (WalletContainerStorage.fresh key f) with
  | error e => rw [hl] at h; cases h
  | ok c1 =>
    rw [hl, Except.bind] at h
    refine seedsLoaded_finishLoad P ?_ h
    obtain ⟨-, rfl⟩ := (loadContainerStorage_eq_ok P).1 hl
    exact loadedObject_seeds P _

/-- `load()` on an object without seeds leaves the loaded seeds, whichever branch reads the file -/
theorem seedsLoaded_load (ivs : ℕ → ChachaIv) {c c' : WalletContainerStorage}
    (hz : c.seeds = (Pod.zero 32, Pod.zero 32, Pod.zero 32, Pod.zero 32)) (h : load P ivs c = .ok c') :
    SeedsLoaded P c' := by
  have hlegacy : ∀ l : List (ℕ × WalletRecord), ∀ c0 : WalletContainerStorage,
      (l.foldl (fun c p => { c with
        oldestTimestamp := min c.oldestTimestamp p.2.creationTimestamp
        recordsMap := c.recordsMap.insert p.2.spendPublicKey p.1 }) c0).seeds = c0.seeds := by
    intro l
    induction l with
    | nil => intro c0; rfl
    | cons p l ih => intro c0; exact ih _
  have hfin : ∀ x : Except Failure WalletContainerStorage, (∀ c1, x = .ok c1 → c1.seeds = c.seeds) →
      x.bind (finishLoad P) = .ok c' → SeedsLoaded P c' := fun x hx hb => by
    cases x with
    | error e => cases hb
    | ok c1 => exact seedsLoaded_finishLoad P ((hx c1 rfl).trans hz) hb
  unfold load loadWith at h
  split at h
  · cases h
  dsimp only at h
  split_ifs at h
  · refine hfin _ (fun c1 h1 => ?_) h
    split at h1
    · cases h1
    · rename_i c2 hc2
      cases h1
      rw [(saveAndCheck_seeds P ivs _).1]
      unfold loadLegacyWalletFile at hc2
      split at hc2
      · cases hc2
      · cases hc2
        exact hlegacy _ _
  · refine hfin _ (fun c1 h1 => ?_) h
    obtain ⟨-, rfl⟩ := (loadContainerStorage_eq_ok P).1 h1
    exact loadedObject_seeds P c

/-- the creating constructor leaves the loaded seeds: its `load()` runs on an object without seeds -/
theorem seedsLoaded_create {password importKeys : BinaryArray} {ct now : Timestamp}
    {viewKeys spendKeys : RandomKeypair P} {saveIvs loadIvs : ℕ → ChachaIv} {c' : WalletContainerStorage}
    (h : create P password importKeys ct now viewKeys spendKeys saveIvs loadIvs = .ok c') : SeedsLoaded P c' := by
  unfold create at h
  split at h
  · cases h
  rename_i c hfill
  have hz : c.seeds = (Pod.zero 32, Pod.zero 32, Pod.zero 32, Pod.zero 32) := by
    unfold createFill at hfill
    split at hfill
    · cases hfill; rfl
    · split at hfill
      · cases hfill
      · cases hfill; rfl
  unfold createSave at h
  split at h
  · cases h
  rename_i c1 hsave
  have hs := (saveAndCheck_seeds P saveIvs c.indexFirst).1
  rw [hsave] at hs
  exact seedsLoaded_load P loadIvs (hs.trans hz) h

theorem seedsLoaded_of_reached {net : String} {c : WalletContainerStorage} (h : Reached P net c) :
    SeedsLoaded P c := by
  induction h with
  | created _ _ _ _ _ _ _ _ hc => exact seedsLoaded_create P hc
  | opened _ _ _ _ _ ho _ => exact seedsLoaded_of_openWithKey P (List.cons_ne_nil _ _) rfl ho
  | called call _ hprev hrun ih => exact seedsLoaded_run P _ call ih (keysValid_of_reached P hprev) hrun

theorem seedsLoaded_of_reachable {net : String} {c : WalletContainerStorage} (h : Reachable P net c) :
    SeedsLoaded P c := by
  induction h with
  | opened _ _ _ _ _ _ ho => exact seedsLoaded_of_openWithKey P (List.cons_ne_nil _ _) rfl ho
  | called call hprev hrun ih => exact seedsLoaded_run P _ call ih (stored_of_reachable P hprev).keys hrun

/-- **The seeds of every reached container.** In every object reached from a creating constructor or from opening a
file `save` wrote, through calls that return or throw, a view-only wallet has a zero seed, tx derivation seed, history
file name seed and history key, and a spending wallet has the ones `load()` derives from its view secret key and
first record's spend secret key -/
theorem reached_seeds {net : String} {c : WalletContainerStorage} (h : Reached P net c) :
    (c.isViewOnly = true → c.seeds = (Pod.zero 32, Pod.zero 32, Pod.zero 32, Pod.zero 32)) ∧
      (c.isViewOnly = false → c.deriveSeeds P = c) := by
  have hs : c.seeds = loadedSeeds P c := seedsLoaded_of_reached P h
  refine ⟨fun hv => by rwa [loadedSeeds, if_pos hv] at hs, fun hv => ?_⟩
  rw [loadedSeeds, if_neg (by simp [hv]), WalletContainerStorage.seeds, WalletContainerStorage.seeds] at hs
  simp only [Prod.mk.injEq] at hs
  obtain ⟨h1, h2, h3, h4⟩ := hs
  calc c.deriveSeeds P = { c with
        seed := (c.deriveSeeds P).seed
        txDerivationSeed := (c.deriveSeeds P).txDerivationSeed
        historyFilenameSeed := (c.deriveSeeds P).historyFilenameSeed
        historyKey := (c.deriveSeeds P).historyKey } := rfl
    _ = c := by rw [← h1, ← h2, ← h3, ← h4]

end

/-- a new random wallet, a spending one, holds the seeds it derives -/
theorem createdWallet_seeds :
    ∃ c, Reached plainPrimitives "main" c ∧
      (c.isViewOnly = true → c.seeds = (Pod.zero 32, Pod.zero 32, Pod.zero 32, Pod.zero 32)) ∧
      (c.isViewOnly = false → c.deriveSeeds plainPrimitives = c) := by
  obtain ⟨c4, hc, -⟩ := create_random_loads plainPrimitives [] 0 0 (plainKeypair 3 (by decide) (by decide))
    (plainKeypair 4 (by decide) (by decide)) zeroIvs zeroIvs
  have h : Reached plainPrimitives "main" _ := .created _ _ _ _ _ _ _ _ hc
  exact ⟨_, h, reached_seeds plainPrimitives h⟩

/-! ## Backup -/

section
variable (P : Primitives)

end

end BytecoinWallet.Container
