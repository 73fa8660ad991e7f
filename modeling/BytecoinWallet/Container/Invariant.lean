/-
Runs of calls on a container wallet, and its constructors.

- `fileMatches_of_reachable`: from opening a file `save` wrote, through any calls of `generate_new_addresses`,
  `on_first_output_found`, `set_password` and `detect_our_output` that return, the file decodes to the object's view
  keys and records and is `wallet_file_size(n)` long. `Stored` is the invariant; each call keeps it
  (`stored_run`). A call that throws breaks it: `generate_new_addresses` that throws at its second input has appended
  the first in memory and on disk, but never rewrote the count (`generate_throw_leaves_file_behind`).
- `throwing_call_keeps_changes`: nothing is rolled back. A throwing `generate_new_addresses` keeps the records it
  appended and the timestamps it lowered (`Grows`), a throwing `set_password` keeps its new key, a throwing
  `on_first_output_found` keeps its new timestamps.
- The creating constructor runs `load()` on itself after `save_and_check`, and `load_container_storage` appends to the
  records it finds: a new random wallet holds its first record twice (`create_random_duplicates_record`). An import
  with a nonzero creation timestamp sets `m_oldest_timestamp = 0` beside a record of that timestamp, so its
  `save_and_check` always throws `WALLET_FILE_WRITE_ERROR` (`create_import_throws_writeError`).
-/
import BytecoinWallet.Container.Generate

namespace BytecoinWallet.Container

section
variable (P : Primitives)

/-! ## Calls -/

/-- what a call threw, if it threw -/
def thrown {α : Type} : Except Failure α → Option Failure
  | .ok _ => none
  | .error e => some e

/-- one call on a container wallet: `generate_new_addresses`, `on_first_output_found`, `set_password` or
`detect_our_output`, with the randomness it draws -/
inductive Call (P : Primitives) where
  | generateNewAddresses (sks : List SecretKey) (ct now : Timestamp) (draws : GenerateDraws P)
  | onFirstOutputFound (ts : Timestamp) (ivs : ℕ → ChachaIv)
  | setPassword (password : BinaryArray) (ivs : ℕ → ChachaIv)
  | detectOurOutput (kd : Option KeyDerivation) (outIndex : ℕ) (spendPublicKey outputPublicKey : PublicKey)
      (amount : ℕ)

/-- the object a call leaves on a wallet of network `net`, and what it threw; `none` when the key pair draws run out -/
def Call.run (net : String) : Call P → WalletContainerStorage → Option (WalletContainerStorage × Option Failure)
  | .generateNewAddresses sks ct now draws, c =>
    (Container.generateNewAddresses P sks ct now draws c).map fun r => (r.1, thrown r.2)
  | .onFirstOutputFound ts ivs, c =>
    some ((Container.onFirstOutputFound P net ts ivs c).1, thrown (Container.onFirstOutputFound P net ts ivs c).2)
  | .setPassword password ivs, c =>
    some ((Container.setPassword P password ivs c).1, thrown (Container.setPassword P password ivs c).2)
  | .detectOurOutput kd outIndex spendPublicKey outputPublicKey amount, c =>
    some (c, thrown (Container.detectOurOutput P c kd outIndex spendPublicKey outputPublicKey amount))

theorem thrown_eq_none {α : Type} {r : Except Failure α} : thrown r = none ↔ ∃ a, r = .ok a := by
  cases r <;> simp [thrown]

/-- the objects reached from opening a file `save` wrote (from an object whose keys pass the reader's checks), then
calls that return -/
inductive Reachable (net : String) : WalletContainerStorage → Prop
  | opened {c : WalletContainerStorage} (c0 : WalletContainerStorage) (key : ChachaKey) (viewOnly : Bool)
      (ivs0 ivs : ℕ → ChachaIv) :
      KeysValid P c0 → openWithKey P key (saveBytes P c0 key viewOnly ivs0) ivs = .ok c → Reachable net c
  | called {c c' : WalletContainerStorage} (call : Call P) :
      Reachable net c → call.run P net c = some (c', none) → Reachable net c'

/-- `on_first_output_found` rewrites timestamps only, so the keys still pass the reader's checks -/
theorem keysValid_setTimestamps {c : WalletContainerStorage} (hc : KeysValid P c) (ts : Timestamp) :
    KeysValid P { c with
      oldestTimestamp := ts
      walletRecords := c.walletRecords.map fun rec =>
        if rec.creationTimestamp = 0 then { rec with creationTimestamp := ts } else rec } := by
  have hmem : ∀ r ∈ c.walletRecords.map (fun rec : WalletRecord =>
      if rec.creationTimestamp = 0 then { rec with creationTimestamp := ts } else rec),
      ∃ a ∈ c.walletRecords, r.spendPublicKey = a.spendPublicKey ∧ r.spendSecretKey = a.spendSecretKey := by
    intro r hr
    obtain ⟨a, ha, rfl⟩ := List.mem_map.1 hr
    exact ⟨a, ha, by split <;> rfl, by split <;> rfl⟩
  refine ⟨hc.view_keys, ?_, by simpa using hc.nonempty, by simpa using hc.size_le⟩
  rcases hc.records with h | h
  · exact .inl fun r hr => by obtain ⟨a, ha, h1, h2⟩ := hmem r hr; rw [h1, h2]; exact h a ha
  · exact .inr fun r hr => by obtain ⟨a, ha, h1, h2⟩ := hmem r hr; rw [h1, h2]; exact h a ha

/-- **Each call that returns keeps the object in agreement with its file** -/
theorem stored_run (net : String) {c c' : WalletContainerStorage} (call : Call P) (hc : Stored P c)
    (h : call.run P net c = some (c', none)) : Stored P c' := by
  cases call with
  | generateNewAddresses sks ct now draws =>
    obtain ⟨⟨c1, r⟩, h1, h2⟩ := Option.map_eq_some'.1 h
    obtain ⟨rfl, hr⟩ := Prod.mk.inj h2
    obtain ⟨res, rfl⟩ := thrown_eq_none.1 hr
    exact stored_generateNewAddresses P hc h1
  | onFirstOutputFound ts ivs =>
    obtain ⟨rfl, hr⟩ := Prod.mk.inj (Option.some.inj h)
    obtain ⟨⟨⟩, hu⟩ := thrown_eq_none.1 hr
    unfold Container.onFirstOutputFound at hu ⊢
    split_ifs at hu ⊢
    · exact hc
    · exact hc
    · exact stored_saveAndCheck P ivs (keysValid_setTimestamps P hc.keys ts) hu
  | setPassword password ivs =>
    obtain ⟨rfl, hr⟩ := Prod.mk.inj (Option.some.inj h)
    obtain ⟨⟨⟩, hu⟩ := thrown_eq_none.1 hr
    exact stored_saveAndCheck P ivs (hc.keys.congr P rfl rfl rfl) hu
  | detectOurOutput =>
    obtain ⟨rfl, -⟩ := Prod.mk.inj (Option.some.inj h)
    exact hc

theorem stored_of_reachable {net : String} {c : WalletContainerStorage} (h : Reachable P net c) : Stored P c := by
  induction h with
  | opened _ _ _ _ _ hc0 ho => exact stored_of_openWithKey P hc0 ho
  | called call _ hrun ih => exact stored_run P net call ih hrun

/-- **The file holds the wallet.** In every object reached from opening a file `save` wrote, through calls that
return, decoding the file at `m_path` under the wallet key yields the object's view keys and records, and the file is
`wallet_file_size(n)` bytes long. -/
theorem fileMatches_of_reachable {net : String} {c : WalletContainerStorage} (h : Reachable P net c) :
    fileMatches P c = true :=
  fileMatches_of_stored P (stored_of_reachable P h)

/-! ## Calls that throw -/

/-- what `generate_new_addresses` changes: the wallet key stays, every record stays in place with its keys and a
creation timestamp no larger, every index entry stays, and the oldest timestamp does not grow -/
structure Grows (c c' : WalletContainerStorage) : Prop where
  walletKey : c'.walletKey = c.walletKey
  records : RecordsLowered c.walletRecords c'.walletRecords
  recordsMap : ∀ pk i, c.recordsMap pk = some i → c'.recordsMap pk = some i
  oldest_le : c'.oldestTimestamp ≤ c.oldestTimestamp

theorem Grows.refl (c : WalletContainerStorage) : Grows c c :=
  ⟨rfl, RecordsLowered.refl _, fun _ _ h => h, le_rfl⟩

theorem Grows.of_eq {c c' : WalletContainerStorage} (hk : c'.walletKey = c.walletKey)
    (hr : c'.walletRecords = c.walletRecords) (hm : c'.recordsMap = c.recordsMap)
    (ho : c'.oldestTimestamp = c.oldestTimestamp) : Grows c c' :=
  ⟨hk, fun _ r h => ⟨r, hr ▸ h, rfl, rfl, le_rfl⟩, fun _ _ h => hm ▸ h, ho.le⟩

theorem Grows.trans {c1 c2 c3 : WalletContainerStorage} (h1 : Grows c1 c2) (h2 : Grows c2 c3) : Grows c1 c3 :=
  ⟨h2.walletKey.trans h1.walletKey, h1.records.trans h2.records,
    fun pk i h => h2.recordsMap pk i (h1.recordsMap pk i h), le_trans h2.oldest_le h1.oldest_le⟩

theorem grows_writeCounts (c : WalletContainerStorage) : Grows c c.writeCounts :=
  .of_eq (writeCounts_walletKey c) (writeCounts_walletRecords c) (writeCounts_recordsMap c)
    (writeCounts_oldestTimestamp c)

theorem recordsMap_insert_keeps {m : RecordsMap} {k : PublicKey} (hk : m k = none) (n : ℕ) :
    ∀ pk i, m pk = some i → m.insert k n pk = some i := by
  intro pk i h
  by_cases hpk : pk = k
  · subst hpk; rw [hk] at h; cases h
  · rwa [RecordsMap.insert_of_ne _ hpk]

theorem placeRecord_grows (ivs : ℕ → ChachaIv) (pos : ℕ) (g : GenerateLoop P) (record : WalletRecord) :
    Grows g.c (placeRecord P ivs pos g record).1.c := by
  unfold placeRecord
  split
  · rename_i i hi
    split
    · exact Grows.refl _
    · rename_i r hri
      split
      · exact ⟨rfl, (RecordsLowered.refl _).set hri (le_of_lt ‹_›), fun _ _ h => h, min_le_left _ _⟩
      · exact Grows.refl _
  · rename_i hnone
    split
    · exact ⟨rfl, (RecordsLowered.refl _).append_right _, recordsMap_insert_keeps hnone _, le_rfl⟩
    · exact ⟨rfl, RecordsLowered.refl _, recordsMap_insert_keeps hnone _, le_rfl⟩

theorem generateOne_grows (ct now : Timestamp) (ivs : ℕ → ChachaIv) (pos : ℕ) {g g' : GenerateLoop P}
    {sk : SecretKey} {e : Option Failure} (h : generateOne P ct now ivs pos g sk = some (g', e)) : Grows g.c g'.c := by
  unfold generateOne at h
  split at h
  · obtain ⟨⟨d, keypairs⟩, -, hd⟩ := Option.map_eq_some'.1 h
    dsimp only at hd
    have hplace := placeRecord_grows P ivs pos
      { g with c := { g.c with oldestTimestamp := min g.c.oldestTimestamp now }, keypairs := keypairs }
      ⟨d.pair.publicKey, d.pair.secretKey, now⟩
    rw [hd] at hplace
    exact Grows.trans (show Grows g.c { g.c with oldestTimestamp := min g.c.oldestTimestamp now } from
      ⟨rfl, RecordsLowered.refl _, fun _ _ h => h, min_le_left _ _⟩) hplace
  · split at h
    · cases h; exact Grows.refl _
    · rename_i pk _
      have hplace := placeRecord_grows P ivs pos g ⟨pk, sk, ct⟩
      rw [Option.some.inj h] at hplace
      exact hplace

theorem generateLoop_grows (ct now : Timestamp) (ivs : ℕ → ChachaIv) (pos : ℕ) {sks : List SecretKey}
    {g g' : GenerateLoop P} {e : Option Failure} (h : generateLoop P ct now ivs pos sks g = some (g', e)) :
    Grows g.c g'.c := by
  induction sks generalizing g with
  | nil => cases h; exact Grows.refl _
  | cons sk sks ih =>
    obtain ⟨⟨g1, e1⟩, h1, h2⟩ := Option.bind_eq_some.1 h
    have hg1 := generateOne_grows P ct now ivs pos h1
    cases e1 with
    | some e1 => cases h2; exact hg1
    | none => exact hg1.trans (ih h2)

/-- the loop over all the keys has grown from the loop over any prefix of them that returned -/
theorem generateLoop_take_grows (ct now : Timestamp) (ivs : ℕ → ChachaIv) (pos : ℕ) {sks : List SecretKey}
    {g g' gk : GenerateLoop P} {e : Option Failure} (k : ℕ) (h : generateLoop P ct now ivs pos sks g = some (g', e))
    (hk : generateLoop P ct now ivs pos (sks.take k) g = some (gk, none)) : Grows gk.c g'.c := by
  induction sks generalizing g k with
  | nil =>
    rw [List.take_nil] at hk
    cases hk
    exact generateLoop_grows P ct now ivs pos h
  | cons sk sks ih =>
    cases k with
    | zero =>
      rw [List.take_zero] at hk
      cases hk
      exact generateLoop_grows P ct now ivs pos h
    | succ k =>
      obtain ⟨⟨g1, e1⟩, h1, h2⟩ := Option.bind_eq_some.1 hk
      obtain ⟨⟨g1', e1'⟩, h1', h2'⟩ := Option.bind_eq_some.1 h
      rw [h1] at h1'
      cases h1'
      cases e1 with
      | some e1 => cases h2
      | none => exact ih k h2' h2

theorem grows_saveAndCheck (ivs : ℕ → ChachaIv) (c : WalletContainerStorage) : Grows c (saveAndCheck P ivs c).1 := by
  obtain ⟨f, j, o, h⟩ := saveAndCheck_fst_eq P ivs c
  rw [h]
  exact Grows.of_eq rfl rfl rfl rfl

/-- what `generate_new_addresses` leaves: the object itself, or, after `save_and_check` overwrote a legacy file or
not, the object as that threw, or the loop's object as it threw, with the counts written, or then saved again -/
theorem generateNewAddresses_cases {sks : List SecretKey} {ct now : Timestamp} {draws : GenerateDraws P}
    {c c' : WalletContainerStorage} {r : Except Failure (List WalletRecord × Bool)}
    (h : generateNewAddresses P sks ct now draws c = some (c', r)) :
    c' = c ∨ ∃ c1, (c1 = c ∨ c1 = (saveAndCheck P draws.legacyIvs c).1) ∧ (c' = c1 ∨
      ∃ g e, generateLoop P ct now draws.recordIvs (walletFileSize c1.walletRecords.length) sks
          ⟨c1, [], false, draws.keypairs, 0⟩ = some (g, e) ∧
        (c' = g.c ∨ c' = g.c.writeCounts ∨ c' = (saveAndCheck P draws.rescanIvs g.c.writeCounts).1)) := by
  unfold generateNewAddresses at h
  split at h
  · exact .inl (Prod.mk.inj (Option.some.inj h)).1.symm
  right
  have hfirst : ∀ c1 r1, (if c.fileOpen then (c, .ok ()) else saveAndCheck P draws.legacyIvs c) = (c1, r1) →
      c1 = c ∨ c1 = (saveAndCheck P draws.legacyIvs c).1 := fun c1 r1 he => by
    split at he
    · exact .inl (Prod.mk.inj he).1.symm
    · exact .inr (by rw [he])
  split at h
  · rename_i _ c1 e heq
    cases h
    exact ⟨_, hfirst _ _ heq, .inl rfl⟩
  · rename_i _ c1 heq
    obtain ⟨⟨g, e⟩, hloop, hg⟩ := Option.map_eq_some'.1 h
    refine ⟨c1, hfirst _ _ heq, .inr ⟨g, e, hloop, ?_⟩⟩
    cases e with
    | some e => cases hg; exact .inl rfl
    | none =>
      dsimp only at hg
      split at hg
      · split at hg <;> rename_i heq2 <;> cases hg <;> exact .inr (.inr (by rw [heq2]))
      · cases hg; exact .inr (.inl rfl)

/-- everything `generate_new_addresses` leaves, whether it returns or throws, grows the object -/
theorem grows_generateNewAddresses {sks : List SecretKey} {ct now : Timestamp} {draws : GenerateDraws P}
    {c c' : WalletContainerStorage} {r : Except Failure (List WalletRecord × Bool)}
    (h : generateNewAddresses P sks ct now draws c = some (c', r)) : Grows c c' := by
  rcases generateNewAddresses_cases P h with rfl | ⟨c1, hc1, hc'⟩
  · exact Grows.refl _
  have hfirst : Grows c c1 := by
    rcases hc1 with rfl | rfl
    · exact Grows.refl _
    · exact grows_saveAndCheck P _ c
  rcases hc' with rfl | ⟨g, e, hloop, hc'⟩
  · exact hfirst
  · have hg := hfirst.trans (generateLoop_grows P ct now _ _ hloop)
    rcases hc' with rfl | rfl | rfl
    · exact hg
    · exact hg.trans (grows_writeCounts _)
    · exact hg.trans ((grows_writeCounts _).trans (grows_saveAndCheck P _ _))

/-- **A call that throws keeps what it changed.** Nothing is rolled back: a throwing `generate_new_addresses` keeps
the wallet key and leaves the records grown (appended, timestamps lowered), the index extended and the oldest
timestamp no larger, and a view-only wallet unchanged; on an open file it has grown from every state its loop reached
over the keys before the one that threw, so every record appended there stays in place with its keys; a throwing
`set_password` has replaced the wallet key and changed nothing else; a throwing `on_first_output_found` has set the
oldest timestamp and every zero creation timestamp to `ts`. -/
theorem throwing_call_keeps_changes (net : String) (c c' : WalletContainerStorage) :
    (∀ sks ct now draws e, generateNewAddresses P sks ct now draws c = some (c', .error e) →
      Grows c c' ∧ (c.isViewOnly = true → c' = c) ∧
      (c.isViewOnly = false → c.fileOpen = true → ∀ k g, generateLoop P ct now draws.recordIvs
        (walletFileSize c.walletRecords.length) (sks.take k) ⟨c, [], false, draws.keypairs, 0⟩ = some (g, none) →
        Grows g.c c')) ∧
    (∀ password ivs e, setPassword P password ivs c = (c', .error e) →
      c'.walletKey = P.generateChacha8Key password ∧ c'.walletRecords = c.walletRecords ∧
        c'.recordsMap = c.recordsMap ∧ c'.oldestTimestamp = c.oldestTimestamp) ∧
    (∀ ts ivs e, onFirstOutputFound P net ts ivs c = (c', .error e) →
      c'.walletKey = c.walletKey ∧ c'.recordsMap = c.recordsMap ∧ c'.oldestTimestamp = ts ∧
        c'.walletRecords = c.walletRecords.map fun rec =>
          if rec.creationTimestamp = 0 then { rec with creationTimestamp := ts } else rec) := by
  refine ⟨fun sks ct now draws e h => ⟨grows_generateNewAddresses P h, fun hv => ?_, fun hv hopen k g hk => ?_⟩,
    fun password ivs e h => ?_, fun ts ivs e h => ?_⟩
  · rw [generateNewAddresses, if_pos hv] at h
    exact (Prod.mk.inj (Option.some.inj h)).1.symm
  · rw [generateNewAddresses, if_neg (by simp [hv]), if_pos hopen] at h
    obtain ⟨⟨g', e'⟩, hloop, hg'⟩ := Option.map_eq_some'.1 h
    have hgrow := generateLoop_take_grows P ct now _ _ k hloop hk
    cases e' with
    | some e1 =>
      cases hg'
      exact hgrow
    | none =>
      dsimp only at hg'
      split at hg'
      · split at hg'
        · rename_i c2 e2 heq
          cases hg'
          rw [show c' = (saveAndCheck P draws.rescanIvs g'.c.writeCounts).1 by rw [heq],
            saveAndCheck_fst_of_error P _ _ (by rw [heq])]
          exact hgrow.trans (grows_writeCounts _)
        · cases hg'
      · cases hg'
  · obtain ⟨f, j, o, hs⟩ := saveAndCheck_fst_eq P ivs { c with walletKey := P.generateChacha8Key password }
    have h1 := congrArg Prod.fst h
    rw [setPassword, hs] at h1
    subst h1
    exact ⟨rfl, rfl, rfl, rfl⟩
  · unfold onFirstOutputFound at h
    split_ifs at h
    · cases h
    · cases h
    obtain ⟨f, j, o, hs⟩ := saveAndCheck_fst_eq P ivs { c with
      oldestTimestamp := ts
      walletRecords := c.walletRecords.map fun rec =>
        if rec.creationTimestamp = 0 then { rec with creationTimestamp := ts } else rec }
    have h1 := congrArg Prod.fst h
    rw [hs] at h1
    subst h1
    exact ⟨rfl, rfl, rfl, rfl⟩

/-! ## Constructors -/

theorem le_timestampMax (t : Timestamp) : t ≤ timestampMax := by
  have := t.isLt
  show t.val ≤ 2 ^ 64 - 1
  omega

/-- what the creating constructor accepts from an import string: the record has the given creation timestamp, the
view keys match, and a spending record's keys match -/
theorem importedKeys_eq_ok {importKeys : BinaryArray} {ct : Timestamp} {record : WalletRecord}
    {viewPublicKey : PublicKey} {viewSecretKey : SecretKey}
    (h : importedKeys P importKeys ct = .ok (record, viewPublicKey, viewSecretKey)) :
    importKeys.length = 256 ∧ record.creationTimestamp = ct ∧ P.secretKeyToPublicKey viewSecretKey = some viewPublicKey ∧
      (record.spendSecretKey ≠ Pod.zero 32 → P.secretKeyToPublicKey record.spendSecretKey = some record.spendPublicKey) := by
  unfold importedKeys at h
  split_ifs at h with hlen
  split at h
  · split_ifs at h with hv hs
    cases h
    simp only [Bool.not_eq_true', keysMatch, beq_eq_false_iff_ne, ne_eq, not_not, not_and] at hv hs
    exact ⟨not_not.1 hlen, rfl, hv, hs⟩
  · cases h

/-- the end of the creating constructor on an object whose keys pass the reader's checks: `save_and_check` throws
unless the oldest timestamp is the minimum over the records, then `load()` runs on the saved object -/
theorem createSave_eq (saveIvs loadIvs : ℕ → ChachaIv) {c : WalletContainerStorage} (hc : KeysValid P c) :
    createSave P saveIvs loadIvs c =
      if c.oldestTimestamp = c.walletRecords.foldl (fun t r => min t r.creationTimestamp) timestampMax then
        load P loadIvs
          { c.indexFirst.emit (.replace (saveBytes P c.indexFirst c.walletKey false saveIvs)) with fileOpen := true }
      else .error (.exception .walletFileWriteError "Error writing wallet file - records do not match") := by
  rw [createSave, saveAndCheck_eq P saveIvs (c := c.indexFirst) (hc.congr P rfl rfl rfl)]
  by_cases h : c.oldestTimestamp = c.walletRecords.foldl (fun t r => min t r.creationTimestamp) timestampMax
  · rw [if_pos h, if_pos (show c.indexFirst.oldestTimestamp =
      c.indexFirst.walletRecords.foldl (fun t r => min t r.creationTimestamp) timestampMax from h)]
    rfl
  · rw [if_neg h, if_neg (show ¬c.indexFirst.oldestTimestamp =
      c.indexFirst.walletRecords.foldl (fun t r => min t r.creationTimestamp) timestampMax from h)]

theorem createFill_records {c0 c : WalletContainerStorage} {importKeys : BinaryArray} {ct now : Timestamp}
    {viewKeys spendKeys : RandomKeypair P} (h : createFill P c0 importKeys ct now viewKeys spendKeys = .ok c) :
    ∃ r, c.walletRecords = [r] := by
  unfold createFill at h
  split at h
  · cases h; exact ⟨_, rfl⟩
  · split at h
    · cases h
    · cases h; exact ⟨_, rfl⟩

/-- **A creating constructor that returns leaves keys that pass the reader's checks.** Its `save_and_check` read the
one record back and checked it; `load()` then appends that record a second time -/
theorem keysValid_create {password importKeys : BinaryArray} {ct now : Timestamp} {viewKeys spendKeys : RandomKeypair P}
    {saveIvs loadIvs : ℕ → ChachaIv} {c' : WalletContainerStorage}
    (h : create P password importKeys ct now viewKeys spendKeys saveIvs loadIvs = .ok c') : KeysValid P c' := by
  unfold create at h
  split at h
  · cases h
  rename_i c hfill
  obtain ⟨r, hr⟩ := createFill_records P hfill
  have hr1 : c.indexFirst.walletRecords = [r] := hr
  unfold createSave at h
  split at h
  · cases h
  rename_i c2 heq
  have hkeys : KeysValid P c.indexFirst := keysValid_of_saveAccepted P (by simp [hr1])
    (by simp [hr1, checkKeysCount]) (fileAccepted_of_saveAndCheck P (by rw [heq]))
  rw [saveAndCheck_eq P saveIvs hkeys] at heq
  split at heq
  · cases heq
    refine keysValid_load_saveBytes P hkeys rfl (fun x hx => ?_) ?_ h
    · exact hx
    · simp [WalletContainerStorage.emit, hr1, vectorMaxSize]
  · cases heq

/-- **An import with a creation timestamp never completes.** The constructor sets `m_oldest_timestamp = 0` beside a
record created at `creation_timestamp`, so for any nonzero timestamp the object `save_and_check` reads back has a
different oldest timestamp, and the constructor throws `WALLET_FILE_WRITE_ERROR` on a correct file system. -/
theorem create_import_throws_writeError (password importKeys : BinaryArray) (ct now : Timestamp)
    (viewKeys spendKeys : RandomKeypair P) (saveIvs loadIvs : ℕ → ChachaIv) {record : WalletRecord}
    {viewPublicKey : PublicKey} {viewSecretKey : SecretKey}
    (himport : importedKeys P importKeys ct = .ok (record, viewPublicKey, viewSecretKey)) (hct : ct ≠ 0)
    (htracking : record.spendSecretKey = Pod.zero 32 → P.keyIsvalid record.spendPublicKey = true) :
    create P password importKeys ct now viewKeys spendKeys saveIvs loadIvs =
      .error (.exception .walletFileWriteError "Error writing wallet file - records do not match") := by
  obtain ⟨hlen, hrct, hview, hspend⟩ := importedKeys_eq_ok P himport
  have hne : importKeys ≠ [] := fun h => by rw [h] at hlen; cases hlen
  rw [create, createFill, if_neg hne, himport]
  dsimp only
  rw [createSave_eq]
  · rw [if_neg]
    simp only [List.foldl_cons, List.foldl_nil, hrct, min_eq_right (le_timestampMax ct)]
    exact Ne.symm hct
  · refine ⟨hview, ?_, List.cons_ne_nil _ _, show 1 ≤ vectorMaxSize by decide⟩
    by_cases hz : record.spendSecretKey = Pod.zero 32
    · exact .inl fun r hr => by rw [List.mem_singleton.1 hr]; exact ⟨hz, htracking hz⟩
    · exact .inr fun r hr => by rw [List.mem_singleton.1 hr]; exact ⟨hz, hspend hz⟩

/-- the creating constructor without import keys returns the object `load()` leaves, `c4`, or its derived seeds:
`c4` holds the new record twice and indexes its key at 0 -/
theorem create_random_loads (password : BinaryArray) (ct now : Timestamp) (viewKeys spendKeys : RandomKeypair P)
    (saveIvs loadIvs : ℕ → ChachaIv) :
    ∃ c4 : WalletContainerStorage, create P password [] ct now viewKeys spendKeys saveIvs loadIvs =
        .ok (if c4.isViewOnly then c4 else c4.deriveSeeds P) ∧
      c4.walletRecords = [⟨spendKeys.pair.publicKey, spendKeys.pair.secretKey, now⟩,
        ⟨spendKeys.pair.publicKey, spendKeys.pair.secretKey, now⟩] ∧
      c4.recordsMap spendKeys.pair.publicKey = some 0 := by
  set c : WalletContainerStorage :=
    { WalletContainerStorage.fresh (P.generateChacha8Key password) [] with
      oldestTimestamp := now
      viewPublicKey := viewKeys.pair.publicKey
      viewSecretKey := viewKeys.pair.secretKey
      walletRecords := [⟨spendKeys.pair.publicKey, spendKeys.pair.secretKey, now⟩] } with hc
  have hkeys : KeysValid P c :=
    ⟨viewKeys.public_of_secret, .inr fun r hr => by
      rw [List.mem_singleton.1 hr]; exact ⟨spendKeys.secret_ne_zero, spendKeys.public_of_secret⟩,
      List.cons_ne_nil _ _, show 1 ≤ vectorMaxSize by decide⟩
  have hold : c.oldestTimestamp = c.walletRecords.foldl (fun t r => min t r.creationTimestamp) timestampMax := by
    simp only [hc, List.foldl_cons, List.foldl_nil, min_eq_right (le_timestampMax now)]
  set c3 : WalletContainerStorage :=
    { c.indexFirst.emit (.replace (saveBytes P c.indexFirst c.walletKey false saveIvs)) with fileOpen := true } with hc3
  obtain ⟨c4, hload, -, -, hrs, hmap⟩ :=
    loadContainerStorage_of_saveBytes P false saveIvs (c := c3)
      (show KeysValid P c.indexFirst from hkeys.congr P rfl rfl rfl) rfl
  have hne : c4.walletRecords ≠ [] := by rw [hrs]; exact List.append_ne_nil_of_left_ne_nil (List.cons_ne_nil _ _) _
  have hfile : c3.file ≠ [] := by
    show saveBytes P c.indexFirst c.walletKey false saveIvs ≠ []
    rw [saveBytes_eq]; exact List.cons_ne_nil _ _
  have hv : c3.file.headD 0 = serializationVersionV2 := by
    show (saveBytes P c.indexFirst c.walletKey false saveIvs).headD 0 = _
    rw [saveBytes_eq]
    rfl
  refine ⟨c4, ?_, ?_, ?_⟩
  · rw [create, createFill, if_pos rfl]
    dsimp only
    rw [← hc, createSave_eq P saveIvs loadIvs hkeys, if_pos hold, ← hc3, load, loadWith_of_headD P _ hfile hv, hload,
      Except.bind, finishLoad_of_ne_nil P hne]
  · simp [hrs, hc3, hc, WalletContainerStorage.emit, WalletContainerStorage.indexFirst]
  · simp [hmap, hc3, hc, WalletContainerStorage.emit, WalletContainerStorage.indexFirst, WalletContainerStorage.fresh,
      RecordsMap.insert]

/-- **A new random wallet holds its first record twice.** The creating constructor fills the record, saves it with
`save_and_check`, then runs `load()` on itself, whose `load_container_storage` appends the record read back to the one
already there; the index keeps the first. -/
theorem create_random_duplicates_record (password : BinaryArray) (ct now : Timestamp)
    (viewKeys spendKeys : RandomKeypair P) (saveIvs loadIvs : ℕ → ChachaIv) :
    ∃ c, create P password [] ct now viewKeys spendKeys saveIvs loadIvs = .ok c ∧
      c.walletRecords = [⟨spendKeys.pair.publicKey, spendKeys.pair.secretKey, now⟩,
        ⟨spendKeys.pair.publicKey, spendKeys.pair.secretKey, now⟩] ∧
      c.recordsMap spendKeys.pair.publicKey = some 0 := by
  obtain ⟨c4, h, hrs, hmap⟩ := create_random_loads P password ct now viewKeys spendKeys saveIvs loadIvs
  exact ⟨_, h, by split <;> simp [hrs], by split <;> simp [hmap]⟩

/-! ## Tracking mode -/

/-- each call, returning or throwing, keeps the keys passing -/
theorem keysValid_run (net : String) (call : Call P) {c c' : WalletContainerStorage} {e : Option Failure}
    (hc : KeysValid P c) (h : call.run P net c = some (c', e)) : KeysValid P c' := by
  cases call with
  | generateNewAddresses sks ct now draws =>
    obtain ⟨⟨c1, r⟩, h1, h2⟩ := Option.map_eq_some'.1 h
    cases h2
    exact keysValid_generateNewAddresses P hc h1
  | onFirstOutputFound ts ivs =>
    obtain ⟨rfl, -⟩ := Prod.mk.inj (Option.some.inj h)
    unfold onFirstOutputFound
    split_ifs
    · exact hc
    · exact hc
    · exact keysValid_saveAndCheck P ivs (keysValid_setTimestamps P hc ts)
  | setPassword password ivs =>
    obtain ⟨rfl, -⟩ := Prod.mk.inj (Option.some.inj h)
    exact keysValid_saveAndCheck P ivs (hc.congr P rfl rfl rfl)
  | detectOurOutput =>
    obtain ⟨rfl, -⟩ := Prod.mk.inj (Option.some.inj h)
    exact hc

/-- the objects reached from a creating constructor, or from opening a file `save` wrote from one of them, then calls
that return or throw -/
inductive Reached (net : String) : WalletContainerStorage → Prop
  | created {c : WalletContainerStorage} (password importKeys : BinaryArray) (ct now : Timestamp)
      (viewKeys spendKeys : RandomKeypair P) (saveIvs loadIvs : ℕ → ChachaIv) :
      create P password importKeys ct now viewKeys spendKeys saveIvs loadIvs = .ok c → Reached net c
  | opened {c0 c : WalletContainerStorage} (key : ChachaKey) (viewOnly : Bool) (ivs0 ivs : ℕ → ChachaIv) :
      Reached net c0 → openWithKey P key (saveBytes P c0 key viewOnly ivs0) ivs = .ok c → Reached net c
  | called {c c' : WalletContainerStorage} (call : Call P) (e : Option Failure) :
      Reached net c → call.run P net c = some (c', e) → Reached net c'

theorem keysValid_of_reached {net : String} {c : WalletContainerStorage} (h : Reached P net c) : KeysValid P c := by
  induction h with
  | created _ _ _ _ _ _ _ _ hc => exact keysValid_create P hc
  | opened _ _ _ _ _ ho ih => exact (stored_of_openWithKey P ih ho).keys
  | called call _ _ hrun ih => exact keysValid_run P net call ih hrun

/-- **Tracking or spending throughout.** In every object reached from a creating constructor or from opening a file
`save` wrote, through calls that return or throw: either every record has a zero spend secret, or every one has a
nonzero secret whose public key it holds; so `is_view_only()`, which reads record 0, tells which for every record,
and every file `save` writes from it, in either mode, passes every check of `load_container_storage`, its
tracking-mode and key checks among them -/
theorem tracking_mode_of_reached {net : String} {c : WalletContainerStorage} (h : Reached P net c) :
    ((∀ r ∈ c.walletRecords, r.spendSecretKey = Pod.zero 32) ∨
      ∀ r ∈ c.walletRecords, r.spendSecretKey ≠ Pod.zero 32 ∧
        P.secretKeyToPublicKey r.spendSecretKey = some r.spendPublicKey) ∧
    (c.isViewOnly = true ↔ ∀ r ∈ c.walletRecords, r.spendSecretKey = Pod.zero 32) ∧
    (c.isViewOnly = false ↔ ∀ r ∈ c.walletRecords, r.spendSecretKey ≠ Pod.zero 32) ∧
    ∀ key viewOnly ivs, FileAccepted P key (saveBytes P c key viewOnly ivs) := by
  have hc := keysValid_of_reached P h
  obtain ⟨r0, rs, hrs⟩ := List.exists_cons_of_ne_nil hc.nonempty
  have hmem : r0 ∈ c.walletRecords := by rw [hrs]; exact List.mem_cons_self _ _
  have hv : c.isViewOnly = decide (r0.spendSecretKey = Pod.zero 32) := by
    simp [WalletContainerStorage.isViewOnly, hrs]
  refine ⟨hc.records.imp (fun h' r hr => (h' r hr).1) id, ?_, ?_, fun key viewOnly ivs => ?_⟩
  · rcases hc.records with h' | h'
    · exact ⟨fun _ r hr => (h' r hr).1, fun _ => by simp [hv, (h' r0 hmem).1]⟩
    · exact ⟨fun hz => absurd (of_decide_eq_true (hv ▸ hz)) (h' r0 hmem).1,
        fun hall => absurd (hall r0 hmem) (h' r0 hmem).1⟩
  · rcases hc.records with h' | h'
    · exact ⟨fun hz => absurd (h' r0 hmem).1 (by simpa [hv] using hz),
        fun hall => absurd (h' r0 hmem).1 (hall r0 hmem)⟩
    · exact ⟨fun _ r hr => (h' r hr).1, fun _ => by simp [hv, (h' r0 hmem).1]⟩
  · obtain ⟨-, c', hload, -⟩ := load_saveBytes_roundtrip P c key viewOnly ivs timestampMax hc.view_keys hc.records
      hc.size_le
    exact ((loadContainerStorage_eq_ok P).1 hload).1

end

/-! ## Concrete wallets -/

theorem sampleWallet_keysValid : KeysValid plainPrimitives sampleWallet :=
  ⟨by decide, .inr (by decide), by decide, by decide⟩

set_option maxRecDepth 100000 in
/-- opening the file `sampleWallet` saved, then `generate_new_addresses` of a new imported key that returns, reaches an
object whose file holds it -/
theorem generate_returns_fileMatches :
    ∃ c c', Reachable plainPrimitives "main" c ∧
      (Call.generateNewAddresses [Pod.fill 32 3] 0 0 ⟨[], zeroIvs, zeroIvs, zeroIvs⟩).run plainPrimitives "main" c =
        some (c', none) ∧ c'.walletRecords.length = 2 ∧ fileMatches plainPrimitives c' = true := by
  obtain ⟨c, c', hc, hrun, hlen⟩ : ∃ c c', Reachable plainPrimitives "main" c ∧
      (Call.generateNewAddresses [Pod.fill 32 3] 0 0 ⟨[], zeroIvs, zeroIvs, zeroIvs⟩).run plainPrimitives "main" c =
        some (c', none) ∧ c'.walletRecords.length = 2 :=
    ⟨_, _, .opened sampleWallet (Pod.zero 32) false zeroIvs zeroIvs sampleWallet_keysValid rfl, rfl, rfl⟩
  exact ⟨c, c', hc, hrun, hlen, fileMatches_of_reachable plainPrimitives (.called _ hc hrun)⟩

set_option maxRecDepth 100000 in
/-- `generate_new_addresses` with a new imported key, then a key with no public key, on the opened `sampleWallet`:
the first record is appended in memory and on disk, the second throws before the count is rewritten, and the file
no longer decodes to the object's records -/
theorem generate_throw_leaves_file_behind :
    ∃ c c' e, Reachable plainPrimitives "main" c ∧
      (Call.generateNewAddresses [Pod.fill 32 3, Pod.fill 32 255] 0 0 ⟨[], zeroIvs, zeroIvs, zeroIvs⟩).run
        plainPrimitives "main" c = some (c', some e) ∧ fileMatches plainPrimitives c' = false :=
  ⟨_, _, _, .opened sampleWallet (Pod.zero 32) false zeroIvs zeroIvs
    sampleWallet_keysValid rfl, rfl, by decide⟩

set_option maxRecDepth 100000 in
/-- `generate_new_addresses` with a new imported key, then a key with no public key: the call throws with the first
record already appended -/
theorem generate_throw_keeps_appended_record :
    ∃ c' e, generateNewAddresses plainPrimitives [Pod.fill 32 3, Pod.fill 32 255] 0 0 ⟨[], zeroIvs, zeroIvs, zeroIvs⟩
        sampleWallet = some (c', .error e) ∧ c'.walletRecords ≠ sampleWallet.walletRecords :=
  ⟨_, _, rfl, by decide⟩

set_option maxRecDepth 100000 in
/-- the same call grows `sampleWallet`, and keeps the record the loop appended for its first key before the second
threw -/
theorem generate_throw_grows_sampleWallet :
    ∃ c' e g, generateNewAddresses plainPrimitives [Pod.fill 32 3, Pod.fill 32 255] 0 0 ⟨[], zeroIvs, zeroIvs, zeroIvs⟩
        sampleWallet = some (c', .error e) ∧
      generateLoop plainPrimitives 0 0 zeroIvs (walletFileSize sampleWallet.walletRecords.length)
        ([Pod.fill 32 3, Pod.fill 32 255].take 1) ⟨sampleWallet, [], false, [], 0⟩ = some (g, none) ∧
      g.c.walletRecords.length = 2 ∧ Grows sampleWallet c' ∧ Grows g.c c' := by
  obtain ⟨c', e, h⟩ : ∃ c' e, generateNewAddresses plainPrimitives [Pod.fill 32 3, Pod.fill 32 255] 0 0
      ⟨[], zeroIvs, zeroIvs, zeroIvs⟩ sampleWallet = some (c', .error e) := ⟨_, _, rfl⟩
  have hc := (throwing_call_keeps_changes plainPrimitives "main" sampleWallet c').1 _ _ _ _ e h
  exact ⟨c', e, _, h, rfl, by decide, hc.1, hc.2.2 rfl rfl 1 _ rfl⟩

/-- the 64 hex digits of the key of 32 bytes `d`, for `d < 10` -/
def hexKey (d : UInt8) : BinaryArray := (List.replicate 32 [48, 48 + d]).flatten

set_option maxRecDepth 100000 in
/-- importing the keys of `sampleWallet` with creation timestamp 1 throws `WALLET_FILE_WRITE_ERROR` -/
theorem create_import_one_throws :
    importedKeys plainPrimitives (hexKey 1 ++ hexKey 2 ++ hexKey 1 ++ hexKey 2) 1 =
        .ok (⟨Pod.fill 32 1, Pod.fill 32 1, 1⟩, Pod.fill 32 2, Pod.fill 32 2) ∧ (1 : Timestamp) ≠ 0 ∧
      create plainPrimitives [] (hexKey 1 ++ hexKey 2 ++ hexKey 1 ++ hexKey 2) 1 0
          (plainKeypair 3 (by decide) (by decide)) (plainKeypair 4 (by decide) (by decide)) zeroIvs zeroIvs =
        .error (.exception .walletFileWriteError "Error writing wallet file - records do not match") := by
  have h1 : importedKeys plainPrimitives (hexKey 1 ++ hexKey 2 ++ hexKey 1 ++ hexKey 2) 1 =
      .ok (⟨Pod.fill 32 1, Pod.fill 32 1, 1⟩, Pod.fill 32 2, Pod.fill 32 2) := rfl
  exact ⟨h1, by decide, create_import_throws_writeError plainPrimitives [] _ 1 0 _ _ zeroIvs zeroIvs h1 (by decide)
    (fun h => absurd h (by decide))⟩

set_option maxRecDepth 100000 in
/-- a new random wallet under `plainPrimitives` is a spending wallet -/
theorem created_wallet_spending :
    ∃ c, Reached plainPrimitives "main" c ∧
      (c.isViewOnly = false ↔ ∀ r ∈ c.walletRecords, r.spendSecretKey ≠ Pod.zero 32) := by
  obtain ⟨c4, hc, -⟩ := create_random_loads plainPrimitives [] 0 0 (plainKeypair 3 (by decide) (by decide))
    (plainKeypair 4 (by decide) (by decide)) zeroIvs zeroIvs
  have h : Reached plainPrimitives "main" _ := .created _ _ _ _ _ _ _ _ hc
  exact ⟨_, h, (tracking_mode_of_reached plainPrimitives h).2.2.1⟩

end BytecoinWallet.Container
