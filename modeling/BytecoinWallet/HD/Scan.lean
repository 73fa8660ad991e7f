/-
Output detection of the HD wallet: `detect_our_output` (Wallet.cpp 1294-1314) looks the output's spend public key up
in the window with `get_look_ahead_record` (107-116), which grows the window past the record it finds
(`create_look_ahead_records`, 1144-1151); it then checks the auditable flag of the record's address against the
output's and, for a spending wallet, that the output's secret key gives the output's public key.

Results:
- `detectOurOutput_run`: the object `detect_our_output` leaves is the one the `detect_our_output` call of
  `Reachable` leaves, so the results on the window and the count over runs hold of it.
- `detectOurOutput_marks_used`: when it reports an output, the address it reports is `record_to_address` of the
  window record of the output's spend key, of the wallet's auditable kind, the amount is the output's, and for a
  spending wallet the key pair is the output's; afterwards that record is actual, so `get_record` of the address
  finds it, where before a look-ahead record was not found.
-/
import BytecoinWallet.Addresses
import BytecoinWallet.HD.Export

namespace BytecoinWallet.HD

/-! ## Model -/

/-- what `detect_our_output` sets when it returns true: the amount, the output key pair (left alone for a record
without a spend secret) and the address -/
structure DetectedOutput where
  amount : ℕ
  outputKeypair : Option KeyPair
  address : AccountAddress
deriving DecidableEq

section
variable (P : Primitives) (H : HdPrimitives)

/-- `WalletHD::detect_our_output` for an output with key `outputPublicKey`, amount `amount` and auditable flag
`outputIsAuditable`, with `hardware_concurrency()` returning `thc`; the arguments it does not read are left out.
`record_to_address` makes only unlinkable addresses; the `boost::get` of the other kind is taken as a failed
invariant -/
def detectOurOutput (thc : ℕ) (w : WalletHD) (spendPublicKey : PublicKey) (secretScalar : SecretKey)
    (outputPublicKey : PublicKey) (amount : ℕ) (outputIsAuditable : Bool) :
    WalletHD × Except Failure (Option DetectedOutput) :=
  match getLookAheadRecord P H thc w spendPublicKey with
  | (w, .error e) => (w, .error e)
  | (w, .ok none) => (w, .ok none)
  | (w, .ok (some record)) =>
    match recordToAddress H w record with
    | .simple _ => (w, .error .invariantFailed)
    | .unlinkable uAddress =>
      if uAddress.isAuditable ≠ outputIsAuditable then (w, .ok none)
      else if record.spendSecretKey ≠ Pod.zero 32 then
        let secretKey := H.unlinkableDeriveSecretKey record.spendSecretKey secretScalar
        match P.secretKeyToPublicKey secretKey with
        | none => (w, .ok none)
        | some publicKey =>
          if publicKey ≠ outputPublicKey then (w, .ok none)
          else (w, .ok (some ⟨amount, some ⟨publicKey, secretKey⟩, .unlinkable uAddress⟩))
      else (w, .ok (some ⟨amount, none, .unlinkable uAddress⟩))

/-! ## The window after a look-up -/

/-- a record of an indexed key `get_look_ahead_record` returns is the record at the key's index -/
theorem getLookAheadRecord_eq_some {thc : ℕ} {w w' : WalletHD} {spendPublicKey : PublicKey} {r : WalletRecord}
    (h : getLookAheadRecord P H thc w spendPublicKey = (w', .ok (some r))) :
    ∃ i, w.recordsMap spendPublicKey = some i ∧ w.walletRecords[i]? = some r ∧ r.spendPublicKey = spendPublicKey ∧
      w' = createLookAheadRecords P H thc (i + 1) w := by
  unfold getLookAheadRecord at h
  split at h
  · cases h
  · rename_i i hi
    split at h
    · cases h
    · rename_i r' hr'
      split at h
      · cases h
        exact ⟨i, hi, hr', ‹_›, rfl⟩
      · cases h

theorem RecordsMap.insert_of_some {m : RecordsMap} {k : PublicKey} {i : ℕ} (hk : m k = some i) (k' : PublicKey)
    (j : ℕ) : m.insert k' j k = some i := by
  by_cases he : k = k'
  · subst he
    rw [RecordsMap.insert_self, hk, Option.getD_some]
  · rw [RecordsMap.insert_of_ne _ he, hk]

theorem foldl_pushRecord_recordsMap {k : PublicKey} {i : ℕ} :
    ∀ (l : List WalletRecord) {w : WalletHD}, w.recordsMap k = some i → (l.foldl WalletHD.pushRecord w).recordsMap k = some i
  | [], _, hk => hk
  | _ :: l, _, hk => foldl_pushRecord_recordsMap l (RecordsMap.insert_of_some hk _ _)

/-- `generate_ahead` appends records and keeps the index of every key -/
theorem generateAhead_extends (thc : ℕ) (w : WalletHD) :
    w.walletRecords <+: (generateAhead H thc w).walletRecords ∧
      ∀ k i, w.recordsMap k = some i → (generateAhead H thc w).recordsMap k = some i := by
  unfold generateAhead
  split
  · exact ⟨List.prefix_refl _, fun _ _ h => h⟩
  · obtain ⟨m, hm⟩ := foldl_pushRecord (aheadResults H thc w _).flatten w
    exact ⟨hm ▸ List.prefix_append _ _, fun _ _ h => foldl_pushRecord_recordsMap _ h⟩

theorem put_frame (key value : BinaryArray) (nooverwrite : Bool) (w : WalletHD) :
    (put P key value nooverwrite w).1 =
      { w with db := (put P key value nooverwrite w).1.db, drawn := (put P key value nooverwrite w).1.drawn } := by
  simp only [put, WalletHD.encrypt, WalletHD.draw]
  split
  · split <;> rfl
  · rfl

/-- `create_look_ahead_records(count)` makes the count at least `count`, appends records, and keeps the index of
every key, the view secret key and the address type -/
theorem createLookAheadRecords_extends (thc count : ℕ) (w : WalletHD) :
    count ≤ (createLookAheadRecords P H thc count w).usedAddressCount ∧
      w.walletRecords <+: (createLookAheadRecords P H thc count w).walletRecords ∧
      (∀ k i, w.recordsMap k = some i → (createLookAheadRecords P H thc count w).recordsMap k = some i) ∧
      (createLookAheadRecords P H thc count w).viewSecretKey = w.viewSecretKey ∧
      (createLookAheadRecords P H thc count w).addressType = w.addressType := by
  unfold createLookAheadRecords
  split
  · exact ⟨by omega, List.prefix_refl _, fun _ _ h => h, rfl, rfl⟩
  · dsimp only [WalletHD.commit]
    obtain ⟨hp, hkeep⟩ := generateAhead_extends H thc { w with usedAddressCount := count }
    obtain ⟨rs, m, hg⟩ := generateAhead_frame H thc { w with usedAddressCount := count }
    rw [put_frame, hg]
    exact ⟨le_rfl, hg ▸ hp, fun k i h => hg ▸ hkeep k i h, rfl, rfl⟩

theorem getRecord_of_actual {w : WalletHD} {i : ℕ} {r : WalletRecord} (hm : w.recordsMap r.spendPublicKey = some i)
    (hr : w.walletRecords[i]? = some r) (hi : i < w.usedAddressCount) :
    getRecord H w (recordToAddress H w r) = .ok (some r) := by
  simp [getRecord, recordToAddress, isAuditable, getActualRecordsCount, hm, hr, hi, recordAt, bind, Except.bind,
    Functor.map, Except.map]

/-! ## Detection -/

/-- `detect_our_output` reports an output only for a record `get_look_ahead_record` returns, at the address
`record_to_address` makes of it, whose auditable flag is the output's, with the output's amount and, for a record with
a spend secret, the derived key pair when its public key is the output's -/
theorem detectOurOutput_eq_some {thc : ℕ} {w w' : WalletHD} {spendPublicKey : PublicKey} {secretScalar : SecretKey}
    {outputPublicKey : PublicKey} {amount : ℕ} {outputIsAuditable : Bool} {out : DetectedOutput}
    (h : detectOurOutput P H thc w spendPublicKey secretScalar outputPublicKey amount outputIsAuditable =
      (w', .ok (some out))) :
    ∃ r, getLookAheadRecord P H thc w spendPublicKey = (w', .ok (some r)) ∧ out.address = recordToAddress H w' r ∧
      outputIsAuditable = isAuditable H w' ∧ out.amount = amount ∧
      (r.spendSecretKey ≠ Pod.zero 32 → ∃ kp, out.outputKeypair = some kp ∧ kp.publicKey = outputPublicKey ∧
        P.secretKeyToPublicKey kp.secretKey = some outputPublicKey) := by
  unfold detectOurOutput at h
  split at h
  · cases h
  · cases h
  · rename_i w1 r hg
    split at h
    · cases h
    · rename_i u hu
      have haud : u.isAuditable = isAuditable H w1 := by
        simp only [recordToAddress, AccountAddress.unlinkable.injEq] at hu
        rw [← hu]
        rfl
      split_ifs at h with h1 h2
      · cases h
      · dsimp only at h
        split at h
        · cases h
        · rename_i pk hpk
          split_ifs at h with h3
          · cases h
          simp only [Prod.mk.injEq, Except.ok.injEq, Option.some.injEq] at h
          obtain ⟨rfl, rfl⟩ := h
          obtain rfl := not_not.1 h3
          exact ⟨r, hg, hu.symm, haud ▸ (not_not.1 h1).symm, rfl, fun _ => ⟨_, rfl, rfl, hpk⟩⟩
      · simp only [Prod.mk.injEq, Except.ok.injEq, Option.some.injEq] at h
        obtain ⟨rfl, rfl⟩ := h
        exact ⟨r, hg, hu.symm, haud ▸ (not_not.1 h1).symm, rfl, fun h => absurd (not_not.1 h2) h⟩

/-- the object `detect_our_output` leaves, whether it returns or throws, is the one its `get_look_ahead_record`
leaves -/
theorem detectOurOutput_run (thc : ℕ) (w : WalletHD) (spendPublicKey : PublicKey) (secretScalar : SecretKey)
    (outputPublicKey : PublicKey) (amount : ℕ) (outputIsAuditable : Bool) :
    (detectOurOutput P H thc w spendPublicKey secretScalar outputPublicKey amount outputIsAuditable).1 =
      (Call.detectOurOutput spendPublicKey).run P H thc w := by
  show _ = (getLookAheadRecord P H thc w spendPublicKey).1
  unfold detectOurOutput
  split <;> rename_i hg <;> rw [hg]
  split
  · rfl
  · split_ifs
    · rfl
    · dsimp only
      split
      · rfl
      · split_ifs <;> rfl
    · rfl

end

section
variable {P : Primitives} {H : HdPrimitives}

/-- **A detected output's address becomes actual.** When `detect_our_output` reports an output, the reported address
is `record_to_address` of the record at the index of the output's spend key, the output is of the wallet's auditable
kind and has the reported amount, and for a record with a spend secret the reported key pair has the output's public
key; the index is then below the used address count, so `get_record` of the address finds the record -/
theorem detectOurOutput_marks_used {thc : ℕ} {w w' : WalletHD} {spendPublicKey : PublicKey}
    {secretScalar : SecretKey} {outputPublicKey : PublicKey} {amount : ℕ} {outputIsAuditable : Bool}
    {out : DetectedOutput}
    (h : detectOurOutput P H thc w spendPublicKey secretScalar outputPublicKey amount outputIsAuditable =
      (w', .ok (some out))) :
    ∃ i r, w.walletRecords[i]? = some r ∧ r.spendPublicKey = spendPublicKey ∧ i < w'.usedAddressCount ∧
      out.address = recordToAddress H w r ∧ outputIsAuditable = isAuditable H w ∧ out.amount = amount ∧
      getRecord H w' out.address = .ok (some r) ∧
      (r.spendSecretKey ≠ Pod.zero 32 → ∃ kp, out.outputKeypair = some kp ∧ kp.publicKey = outputPublicKey ∧
        P.secretKeyToPublicKey kp.secretKey = some outputPublicKey) := by
  obtain ⟨r, hg, haddr, haud, hamount, hkp⟩ := detectOurOutput_eq_some P H h
  obtain ⟨i, hm, hr, hk, rfl⟩ := getLookAheadRecord_eq_some P H hg
  obtain ⟨hc, ⟨rs, hp⟩, hkeep, hv, ha⟩ := createLookAheadRecords_extends P H thc (i + 1) w
  have hsame : recordToAddress H (createLookAheadRecords P H thc (i + 1) w) = recordToAddress H w := by
    funext r
    simp only [recordToAddress, hv, ha]
  refine ⟨i, r, hr, hk, hc, hsame ▸ haddr, by rw [haud, isAuditable, ha, isAuditable], hamount, ?_, hkp⟩
  rw [haddr]
  exact getRecord_of_actual H (hkeep _ _ (hk ▸ hm)) (by rw [← hp, List.getElem?_append_left
    (List.getElem?_eq_some_iff.1 hr).1, hr]) hc

/-- a wallet of one look-ahead record, of the key of bytes 1, none of it used yet -/
def scanWallet : WalletHD :=
  { WalletHD.fresh "main" ⟨⟨none, [], [], []⟩, ⟨none, [], [], []⟩⟩ (fun _ => Pod.zero 32) with
    walletRecords := [⟨Pod.fill 32 1, Pod.fill 32 1, timestampMax⟩]
    recordsMap := fun k => if k = Pod.fill 32 1 then some 0 else none }

/-- an output of the key of `scanWallet`'s record is detected, with the record's key pair, and its address becomes
actual -/
theorem scanWallet_detects :
    ∃ w' out, detectOurOutput plainPrimitives plainHdPrimitives 0 scanWallet (Pod.fill 32 1) (Pod.zero 32)
        (Pod.fill 32 1) 5 false = (w', .ok (some out)) ∧
      ∃ i r, scanWallet.walletRecords[i]? = some r ∧ r.spendPublicKey = Pod.fill 32 1 ∧ i < w'.usedAddressCount ∧
        out.address = recordToAddress plainHdPrimitives scanWallet r ∧
        false = isAuditable plainHdPrimitives scanWallet ∧ out.amount = 5 ∧
        getRecord plainHdPrimitives w' out.address = .ok (some r) ∧
        (r.spendSecretKey ≠ Pod.zero 32 → ∃ kp, out.outputKeypair = some kp ∧ kp.publicKey = Pod.fill 32 1 ∧
          plainPrimitives.secretKeyToPublicKey kp.secretKey = some (Pod.fill 32 1)) :=
  ⟨_, _, rfl, @detectOurOutput_marks_used _ _ 0 _ _ _ (Pod.zero 32) _ _ _ _ rfl⟩

end

end BytecoinWallet.HD
