/-
Output detection on the container wallet: `detect_our_output` (Wallet.cpp 657-680) through
`get_look_ahead_record` (107-116), and `get_record` (501-513).

`get_look_ahead_record` reads `m_wallet_records.at(i)` at the index `m_records_map` holds for the spend key and
checks the key of the record it finds: it throws only when the index is broken. `load_container_storage` inserts each
key before it appends the record, and `std::map::insert` keeps an index already there, so every key of the map names
a record of that key (`IndexSound`), even for a file that holds one key twice. The calls keep that: a record whose
timestamp `generate_new_addresses` lowers keeps its key, and a new one is indexed at the place it is appended.

Results:
- `indexSound_of_reachable`: in every reachable container the index names records of its keys.
- `containerDetect_spec`: on every reachable container `detect_our_output` never throws, and it reports an output
  exactly when `get_record` finds the output's address, the simple address of its spend key and the view public key,
  and, for a spending wallet, the key derivation is known and gives the output's key. A view-only wallet takes every
  output to one of its spend keys, whatever the output's key.
- `payment_detected`: the handler of `get_output_handler()` (640-655) followed by `detect_our_output` finds every
  output paid to an address of the wallet, where underiving undoes `derive_public_key` and the wallet's key derivation
  is the sender's.
-/
import BytecoinWallet.Container.Export
import BytecoinWallet.Addresses

namespace BytecoinWallet.Container

/-! ## The index names records of its keys -/

/-- `m_records_map` holds the key of every record, and sends each key it holds to a record of that key: the
records/index invariant up to keys held twice -/
structure IndexSound (records : List WalletRecord) (m : RecordsMap) : Prop where
  names_record : ∀ k i, m k = some i → ∃ r, records[i]? = some r ∧ r.spendPublicKey = k
  holds_key : ∀ r ∈ records, m r.spendPublicKey ≠ none

namespace IndexSound

variable {records : List WalletRecord} {m : RecordsMap}

theorem nil : IndexSound [] fun _ => none := ⟨fun _ _ h => (nomatch h), nofun⟩

/-- `m_records_map.insert` then `m_wallet_records.push_back`, whether the key was indexed or not -/
theorem push (h : IndexSound records m) (r : WalletRecord) :
    IndexSound (records ++ [r]) (m.insert r.spendPublicKey records.length) := by
  refine ⟨fun k i hki => ?_, fun x hx => ?_⟩
  swap
  · by_cases he : x.spendPublicKey = r.spendPublicKey
    · rw [he, RecordsMap.insert_self]
      exact Option.some_ne_none _
    · rw [RecordsMap.insert_of_ne _ he]
      rcases List.mem_append.1 hx with hx | hx
      · exact h.holds_key x hx
      · exact absurd (congrArg WalletRecord.spendPublicKey (List.mem_singleton.1 hx)) he
  by_cases he : k = r.spendPublicKey
  · subst he
    rw [RecordsMap.insert_self] at hki
    cases hm : m r.spendPublicKey with
    | none =>
      rw [hm, Option.getD_none, Option.some.injEq] at hki
      subst hki
      exact ⟨r, by simp, rfl⟩
    | some j =>
      rw [hm, Option.getD_some, Option.some.injEq] at hki
      obtain ⟨x, hx, hxk⟩ := h.names_record _ j hm
      exact ⟨x, by rw [← hki, List.getElem?_append_left (List.getElem?_eq_some_iff.1 hx).1, hx], hxk⟩
  · rw [RecordsMap.insert_of_ne _ he] at hki
    obtain ⟨x, hx, hxk⟩ := h.names_record k i hki
    exact ⟨x, by rw [List.getElem?_append_left (List.getElem?_eq_some_iff.1 hx).1, hx], hxk⟩

theorem set (h : IndexSound records m) {i : ℕ} {r r' : WalletRecord} (hi : records[i]? = some r)
    (hk : r'.spendPublicKey = r.spendPublicKey) : IndexSound (records.set i r') m := by
  refine ⟨fun k j hkj => ?_, fun x hx => ?_⟩
  swap
  · rcases List.mem_or_eq_of_mem_set hx with hx | rfl
    · exact h.holds_key x hx
    · rw [hk]
      exact h.holds_key r (List.getElem?_mem hi)
  obtain ⟨x, hx, hxk⟩ := h.names_record k j hkj
  by_cases hij : i = j
  · subst hij
    rw [hi, Option.some.injEq] at hx
    exact ⟨r', List.getElem?_set_self (List.getElem?_eq_some_iff.1 hi).1, by rw [hk, hx, hxk]⟩
  · exact ⟨x, by rw [List.getElem?_set_ne hij]; exact hx, hxk⟩

theorem map (h : IndexSound records m) {f : WalletRecord → WalletRecord}
    (hf : ∀ r, (f r).spendPublicKey = r.spendPublicKey) : IndexSound (records.map f) m := by
  refine ⟨fun k i hki => ?_, fun x hx => ?_⟩
  · obtain ⟨x, hx, hxk⟩ := h.names_record k i hki
    exact ⟨f x, by rw [List.getElem?_map, hx]; rfl, by rw [hf, hxk]⟩
  · obtain ⟨y, hy, rfl⟩ := List.mem_map.1 hx
    rw [hf]
    exact h.holds_key y hy

theorem foldl_pushRecord {c : WalletContainerStorage} (h : IndexSound c.walletRecords c.recordsMap)
    (rs : List WalletRecord) :
    IndexSound (rs.foldl WalletContainerStorage.pushRecord c).walletRecords
      (rs.foldl WalletContainerStorage.pushRecord c).recordsMap := by
  induction rs generalizing c with
  | nil => exact h
  | cons r rs ih => exact ih (h.push r)

end IndexSound

section
variable (P : Primitives)

/-! ## The calls keep it -/

theorem saveAndCheck_indexSound (ivs : ℕ → ChachaIv) {c : WalletContainerStorage}
    (h : IndexSound c.walletRecords c.recordsMap) :
    IndexSound (saveAndCheck P ivs c).1.walletRecords (saveAndCheck P ivs c).1.recordsMap := by
  obtain ⟨f, j, o, hs⟩ := saveAndCheck_fst_eq P ivs c
  rw [hs]
  exact h

theorem placeRecord_indexSound (ivs : ℕ → ChachaIv) (pos : ℕ) {g g' : GenerateLoop P} {record : WalletRecord}
    (hg : IndexSound g.c.walletRecords g.c.recordsMap) (h : placeRecord P ivs pos g record = (g', none)) :
    IndexSound g'.c.walletRecords g'.c.recordsMap := by
  unfold placeRecord at h
  split at h
  · split at h
    · cases h
    · rename_i r hri
      split at h
      · cases h
        exact hg.set hri rfl
      · cases h
        exact hg
  · split at h
    · cases h
      exact hg.push record
    · cases h

theorem generateOne_indexSound (ct now : Timestamp) (ivs : ℕ → ChachaIv) (pos : ℕ) {g g' : GenerateLoop P}
    {sk : SecretKey} (hg : IndexSound g.c.walletRecords g.c.recordsMap)
    (h : generateOne P ct now ivs pos g sk = some (g', none)) : IndexSound g'.c.walletRecords g'.c.recordsMap := by
  unfold generateOne at h
  split at h
  · obtain ⟨⟨d, keypairs⟩, -, hd⟩ := Option.map_eq_some'.1 h
    dsimp only at hd
    refine placeRecord_indexSound P ivs pos ?_ hd
    exact hg
  · split at h
    · cases h
    · exact placeRecord_indexSound P ivs pos hg (Option.some.inj h)

theorem generateLoop_indexSound (ct now : Timestamp) (ivs : ℕ → ChachaIv) (pos : ℕ) {sks : List SecretKey}
    {g g' : GenerateLoop P} (hg : IndexSound g.c.walletRecords g.c.recordsMap)
    (h : generateLoop P ct now ivs pos sks g = some (g', none)) : IndexSound g'.c.walletRecords g'.c.recordsMap := by
  induction sks generalizing g with
  | nil => cases h; exact hg
  | cons sk sks ih =>
    obtain ⟨⟨g1, e1⟩, h1, h2⟩ := Option.bind_eq_some.1 h
    cases e1 with
    | some e1 => cases h2
    | none => exact ih (generateOne_indexSound P ct now ivs pos hg h1) h2

/-- `generate_new_addresses` that returns keeps the index naming records of its keys -/
theorem generateNewAddresses_indexSound {sks : List SecretKey} {ct now : Timestamp} {draws : GenerateDraws P}
    {c c' : WalletContainerStorage} {res : List WalletRecord × Bool} (hc : IndexSound c.walletRecords c.recordsMap)
    (h : generateNewAddresses P sks ct now draws c = some (c', .ok res)) :
    IndexSound c'.walletRecords c'.recordsMap := by
  unfold generateNewAddresses at h
  split at h
  · cases h
  split at h
  · cases h
  rename_i c1 heq
  have hc1 : IndexSound c1.walletRecords c1.recordsMap := by
    split at heq
    · cases heq
      exact hc
    · rw [show c1 = (saveAndCheck P draws.legacyIvs c).1 by rw [heq]]
      exact saveAndCheck_indexSound P _ hc
  obtain ⟨⟨g, e⟩, hloop, hg⟩ := Option.map_eq_some'.1 h
  cases e with
  | some e => cases hg
  | none =>
    have hgc := generateLoop_indexSound P ct now _ _ hc1 hloop
    have hw : IndexSound g.c.writeCounts.walletRecords g.c.writeCounts.recordsMap := by
      rw [writeCounts_walletRecords, writeCounts_recordsMap]
      exact hgc
    dsimp only at hg
    split at hg
    · split at hg
      · cases hg
      · rename_i heq2
        cases hg
        rw [show c' = (saveAndCheck P draws.rescanIvs g.c.writeCounts).1 by rw [heq2]]
        exact saveAndCheck_indexSound P draws.rescanIvs hw
    · cases hg
      exact hw

/-- **Each call that returns keeps the index naming records of its keys** -/
theorem indexSound_run (net : String) {c c' : WalletContainerStorage} (call : Call P)
    (hc : IndexSound c.walletRecords c.recordsMap) (h : call.run P net c = some (c', none)) :
    IndexSound c'.walletRecords c'.recordsMap := by
  cases call with
  | generateNewAddresses sks ct now draws =>
    obtain ⟨⟨c1, r⟩, h1, h2⟩ := Option.map_eq_some'.1 h
    obtain ⟨rfl, hr⟩ := Prod.mk.inj h2
    obtain ⟨res, rfl⟩ := thrown_eq_none.1 hr
    exact generateNewAddresses_indexSound P hc h1
  | onFirstOutputFound ts ivs =>
    obtain ⟨rfl, -⟩ := Prod.mk.inj (Option.some.inj h)
    unfold Container.onFirstOutputFound
    split_ifs
    · exact hc
    · exact hc
    · exact saveAndCheck_indexSound P ivs (hc.map fun r => by split <;> rfl)
  | setPassword password ivs =>
    obtain ⟨rfl, -⟩ := Prod.mk.inj (Option.some.inj h)
    exact saveAndCheck_indexSound P ivs (c := { c with walletKey := P.generateChacha8Key password }) hc
  | detectOurOutput =>
    obtain ⟨rfl, -⟩ := Prod.mk.inj (Option.some.inj h)
    exact hc

/-! ## Opening -/

/-- opening a file of format 6 indexes the records it reads -/
theorem indexSound_of_openWithKey {key : ChachaKey} {f : BinaryArray} {ivs : ℕ → ChachaIv}
    {c : WalletContainerStorage} (hne : f ≠ []) (hv : f.headD 0 = serializationVersionV2)
    (h : openWithKey P key f ivs = .ok c) : IndexSound c.walletRecords c.recordsMap := by
  rw [openWithKey, load, loadWith_of_headD P _ hne hv] at h
  cases hl : loadContainerStorage P (WalletContainerStorage.fresh key f) with
  | error e => rw [hl] at h; cases h
  | ok c1 =>
    rw [hl, Except.bind] at h
    have hc1 : IndexSound c1.walletRecords c1.recordsMap := by
      obtain ⟨-, rfl⟩ := (loadContainerStorage_eq_ok P).1 hl
      unfold loadedObject
      rw [(truncateFile_fields _ _).2.2.1, (truncateFile_fields _ _).2.2.2]
      exact IndexSound.foldl_pushRecord IndexSound.nil _
    rw [finishLoad] at h
    split_ifs at h <;> rw [Except.ok.injEq] at h <;> subst h <;> exact hc1

theorem indexSound_of_reachable {net : String} {c : WalletContainerStorage} (h : Reachable P net c) :
    IndexSound c.walletRecords c.recordsMap := by
  induction h with
  | opened _ _ _ _ _ _ ho => exact indexSound_of_openWithKey P (List.cons_ne_nil _ _) rfl ho
  | called call _ hrun ih => exact indexSound_run P _ call ih hrun

/-! ## Detection -/

/-- with a sound index, the look-ahead lookup of a spend key and `get_record` of its simple address find the same
record, of that key, and neither throws -/
theorem lookups_of_indexSound {c : WalletContainerStorage} (hidx : IndexSound c.walletRecords c.recordsMap)
    (spendPublicKey : PublicKey) :
    ∃ o, getLookAheadRecord c spendPublicKey = .ok o ∧
      getRecord c (.simple ⟨spendPublicKey, c.viewPublicKey⟩) = .ok o ∧
      (∀ r, o = some r → r ∈ c.walletRecords ∧ r.spendPublicKey = spendPublicKey) ∧
      (o = none → ∀ r ∈ c.walletRecords, r.spendPublicKey ≠ spendPublicKey) := by
  cases hm : c.recordsMap spendPublicKey with
  | none =>
    exact ⟨none, by simp [getLookAheadRecord, hm], by simp [getRecord, hm], nofun,
      fun _ r hr hk => hidx.holds_key r hr (hk ▸ hm)⟩
  | some i =>
    obtain ⟨r, hr, hk⟩ := hidx.names_record _ i hm
    have hi : ¬getActualRecordsCount c ≤ i := not_le.2 (List.getElem?_eq_some_iff.1 hr).1
    refine ⟨some r, by simp [getLookAheadRecord, hm, hr, hk], ?_, fun r' h => ?_, nofun⟩
    · simp [getRecord, hm, hi, recordAt, hr, hk, bind, Except.bind, pure, Except.pure]
    · cases h
      exact ⟨List.getElem?_mem hr, hk⟩

/-- in a wallet whose keys pass the reader's checks, a record has a zero spend secret key exactly when the wallet is
view-only -/
theorem spendSecretKey_eq_zero_iff {c : WalletContainerStorage} (hk : KeysValid P c) {r : WalletRecord}
    (hr : r ∈ c.walletRecords) : r.spendSecretKey = Pod.zero 32 ↔ c.isViewOnly = true := by
  obtain ⟨r0, rs, hrs⟩ := List.exists_cons_of_ne_nil hk.nonempty
  have h0 : r0 ∈ c.walletRecords := by rw [hrs]; exact List.mem_cons_self _ _
  rw [WalletContainerStorage.isViewOnly, hrs, decide_eq_true_iff]
  rcases hk.records with h | h
  · exact iff_of_true (h r hr).1 (h r0 h0).1
  · exact iff_of_false (h r hr).1 (h r0 h0).1

/-- what `detect_our_output` reports, on a wallet whose index is sound and whose keys pass the reader's checks -/
theorem detectOurOutput_iff {c : WalletContainerStorage} (hidx : IndexSound c.walletRecords c.recordsMap)
    (hk : KeysValid P c) (kd : Option KeyDerivation) (outIndex : ℕ) (spendPublicKey outputPublicKey : PublicKey)
    (amount : ℕ) :
    ∃ o, detectOurOutput P c kd outIndex spendPublicKey outputPublicKey amount = .ok o ∧
      ∀ out, o = some out ↔ ∃ r, getRecord c (.simple ⟨spendPublicKey, c.viewPublicKey⟩) = .ok (some r) ∧
        out.amount = amount ∧ out.spendPublicKey = spendPublicKey ∧ out.viewPublicKey = c.viewPublicKey ∧
        if c.isViewOnly then out.outputKeypair = none
        else ∃ d, kd = some d ∧ P.derivePublicKey d outIndex spendPublicKey = outputPublicKey ∧
          out.outputKeypair = some ⟨outputPublicKey, P.deriveSecretKey d outIndex r.spendSecretKey⟩ := by
  obtain ⟨o, hl, hg, hmem, -⟩ := lookups_of_indexSound hidx spendPublicKey
  rw [hg]
  cases o with
  | none => exact ⟨none, by rw [detectOurOutput, hl], fun out => ⟨nofun, fun ⟨r, hr, _⟩ => nomatch hr⟩⟩
  | some r =>
    have hz := spendSecretKey_eq_zero_iff P hk (hmem r rfl).1
    have hdet : detectOurOutput P c kd outIndex spendPublicKey outputPublicKey amount =
        if r.spendSecretKey ≠ Pod.zero 32 then
          match kd with
          | none => .ok none
          | some kd =>
            if P.derivePublicKey kd outIndex spendPublicKey ≠ outputPublicKey then .ok none
            else .ok (some ⟨amount, some ⟨P.derivePublicKey kd outIndex spendPublicKey,
              P.deriveSecretKey kd outIndex r.spendSecretKey⟩, spendPublicKey, c.viewPublicKey⟩)
        else .ok (some ⟨amount, none, spendPublicKey, c.viewPublicKey⟩) := by
      unfold detectOurOutput
      split <;> rename_i heq <;> rw [hl] at heq <;> cases heq
      rfl
    rw [hdet]
    by_cases hv : c.isViewOnly = true
    · rw [if_neg (not_not.2 (hz.2 hv))]
      simp only [if_pos hv]
      refine ⟨_, rfl, fun out => ⟨?_, ?_⟩⟩
      · rintro ⟨⟩
        exact ⟨r, rfl, rfl, rfl, rfl, rfl⟩
      · rintro ⟨r', -, h1, h2, h3, h4⟩
        obtain ⟨a, kp, s, v⟩ := out
        simp only at h1 h2 h3 h4
        rw [h1, h2, h3, h4]
    · rw [if_pos (mt hz.1 hv)]
      simp only [if_neg hv]
      cases kd with
      | none =>
        refine ⟨none, rfl, fun out => ⟨nofun, ?_⟩⟩
        rintro ⟨r', -, -, -, -, d, hd, -⟩
        cases hd
      | some d =>
        dsimp only
        by_cases heq : P.derivePublicKey d outIndex spendPublicKey = outputPublicKey
        · rw [if_neg (not_not.2 heq)]
          refine ⟨_, rfl, fun out => ⟨?_, ?_⟩⟩
          · rintro ⟨⟩
            exact ⟨r, rfl, rfl, rfl, rfl, d, rfl, heq, by rw [heq]⟩
          · rintro ⟨r', hr', h1, h2, h3, d', hd', -, h4⟩
            cases hr'
            cases hd'
            obtain ⟨a, kp, s, v⟩ := out
            simp only at h1 h2 h3 h4
            rw [h1, h2, h3, h4, heq]
        · rw [if_pos heq]
          refine ⟨none, rfl, fun out => ⟨nofun, ?_⟩⟩
          rintro ⟨r', -, -, -, -, d', hd', h, -⟩
          cases hd'
          exact absurd h heq

/-- **Output detection on a reachable container.** On every object reached from opening a file `save` wrote, through
calls that return, `detect_our_output` never throws; it reports an output exactly when `get_record` finds the simple
address of the output's spend key and the wallet's view public key and, for a spending wallet, the key derivation is
known and gives the output's key. The report carries the amount and that address, and for a spending wallet the
output key pair derived from the record's spend secret key; a view-only wallet reports no key pair, and takes every
output to one of its spend keys whatever the output's key -/
theorem containerDetect_spec {net : String} {c : WalletContainerStorage} (hc : Reachable P net c)
    (kd : Option KeyDerivation) (outIndex : ℕ) (spendPublicKey outputPublicKey : PublicKey) (amount : ℕ) :
    ∃ o, detectOurOutput P c kd outIndex spendPublicKey outputPublicKey amount = .ok o ∧
      ∀ out, o = some out ↔ ∃ r, getRecord c (.simple ⟨spendPublicKey, c.viewPublicKey⟩) = .ok (some r) ∧
        out.amount = amount ∧ out.spendPublicKey = spendPublicKey ∧ out.viewPublicKey = c.viewPublicKey ∧
        if c.isViewOnly then out.outputKeypair = none
        else ∃ d, kd = some d ∧ P.derivePublicKey d outIndex spendPublicKey = outputPublicKey ∧
          out.outputKeypair = some ⟨outputPublicKey, P.deriveSecretKey d outIndex r.spendSecretKey⟩ :=
  detectOurOutput_iff P (indexSound_of_reachable P hc) (stored_of_reachable P hc).keys kd outIndex spendPublicKey
    outputPublicKey amount

end

set_option maxRecDepth 100000 in
/-- the opened `sampleWallet`, asked about an output to its spend key under a known key derivation -/
theorem sampleWallet_detect :
    ∃ c, Reachable plainPrimitives "main" c ∧
      ∃ o, detectOurOutput plainPrimitives c (some (Pod.zero 32)) 0 (Pod.fill 32 1) (Pod.fill 32 1) 7 = .ok o ∧
        ∀ out, o = some out ↔ ∃ r, getRecord c (.simple ⟨Pod.fill 32 1, c.viewPublicKey⟩) = .ok (some r) ∧
          out.amount = 7 ∧ out.spendPublicKey = Pod.fill 32 1 ∧ out.viewPublicKey = c.viewPublicKey ∧
          if c.isViewOnly then out.outputKeypair = none
          else ∃ d, some (Pod.zero 32) = some d ∧ plainPrimitives.derivePublicKey d 0 (Pod.fill 32 1) = Pod.fill 32 1 ∧
            out.outputKeypair = some ⟨Pod.fill 32 1, plainPrimitives.deriveSecretKey d 0 r.spendSecretKey⟩ := by
  obtain ⟨c, hc⟩ : ∃ c, Reachable plainPrimitives "main" c :=
    ⟨_, .opened sampleWallet (Pod.zero 32) false zeroIvs zeroIvs sampleWallet_keysValid rfl⟩
  exact ⟨c, hc, containerDetect_spec plainPrimitives hc _ _ _ _ _⟩

/-! ## Scanning -/

/-- the two operations the handler of `get_output_handler()` calls -/
structure ScanPrimitives where
  /-- `crypto::generate_key_derivation(tx_public_key, view_secret_key)`; `none` when it throws -/
  generateKeyDerivation : PublicKey → SecretKey → Option KeyDerivation
  /-- `crypto::underive_public_key(kd, output_index, output_key)` -/
  underivePublicKey : KeyDerivation → ℕ → PublicKey → PublicKey

/-- the handler `get_output_handler()` returns, on the output `outputIndex` of key `outputPublicKey` of a transaction
with public key `txPublicKey`: the key derivation it leaves in `*kd`, computed from the view secret key when absent
and `KeyDerivation{}` when that throws, and the spend public key it recovers -/
def outputHandler (S : ScanPrimitives) (c : WalletContainerStorage) (txPublicKey : PublicKey)
    (kd : Option KeyDerivation) (outputIndex : ℕ) (outputPublicKey : PublicKey) : KeyDerivation × PublicKey :=
  let kd := match kd with
    | some kd => kd
    | none => (S.generateKeyDerivation txPublicKey c.viewSecretKey).getD (Pod.zero 32)
  (kd, S.underivePublicKey kd outputIndex outputPublicKey)

section
variable (P : Primitives)

/-- **The wallet finds the payments to it.** Where underiving undoes `derive_public_key`, take an output a sender
made for the address of a record of a reachable container, under the key derivation the wallet computes from the
transaction's public key. The handler recovers the record's spend key, and `detect_our_output` reports the output
with its amount and that address, and for a spending wallet with a key pair of the output's key -/
theorem payment_detected {net : String} {c : WalletContainerStorage} (hc : Reachable P net c) (S : ScanPrimitives)
    (hund : ∀ kd i pk, S.underivePublicKey kd i (P.derivePublicKey kd i pk) = pk) {r : WalletRecord}
    (hr : r ∈ c.walletRecords) {txPublicKey : PublicKey} {kd : KeyDerivation}
    (hkd : S.generateKeyDerivation txPublicKey c.viewSecretKey = some kd) (outputIndex amount : ℕ)
    {kd' : KeyDerivation} {spendPublicKey : PublicKey}
    (hh : outputHandler S c txPublicKey none outputIndex (P.derivePublicKey kd outputIndex r.spendPublicKey) =
      (kd', spendPublicKey)) :
    ∃ out, detectOurOutput P c (some kd') outputIndex spendPublicKey
        (P.derivePublicKey kd outputIndex r.spendPublicKey) amount = .ok (some out) ∧
      out.amount = amount ∧ out.spendPublicKey = r.spendPublicKey ∧ out.viewPublicKey = c.viewPublicKey ∧
      (c.isViewOnly = false →
        ∃ sk, out.outputKeypair = some ⟨P.derivePublicKey kd outputIndex r.spendPublicKey, sk⟩) := by
  have hidx := indexSound_of_reachable P hc
  have hout : outputHandler S c txPublicKey none outputIndex (P.derivePublicKey kd outputIndex r.spendPublicKey) =
      (kd, r.spendPublicKey) := by
    simp only [outputHandler, hkd, hund, Option.getD_some]
  rw [hout, Prod.mk.injEq] at hh
  obtain ⟨rfl, rfl⟩ := hh
  obtain ⟨o, -, hg, -, hnone⟩ := lookups_of_indexSound hidx r.spendPublicKey
  obtain ⟨o', hdet, hiff⟩ := detectOurOutput_iff P hidx (stored_of_reachable P hc).keys (some kd) outputIndex
    r.spendPublicKey (P.derivePublicKey kd outputIndex r.spendPublicKey) amount
  cases o with
  | none => exact absurd rfl (hnone rfl r hr)
  | some r' =>
    obtain ⟨out, hout⟩ : ∃ out : DetectedOutput, out = ⟨amount, if c.isViewOnly then none else
        some ⟨P.derivePublicKey kd outputIndex r.spendPublicKey, P.deriveSecretKey kd outputIndex r'.spendSecretKey⟩,
        r.spendPublicKey, c.viewPublicKey⟩ := ⟨_, rfl⟩
    have ho : o' = some out := (hiff out).2 ⟨r', hg, by rw [hout], by rw [hout], by rw [hout], by
      split_ifs with hv
      · rw [hout, if_pos hv]
      · exact ⟨kd, rfl, rfl, by rw [hout, if_neg hv]⟩⟩
    refine ⟨out, ho ▸ hdet, by rw [hout], by rw [hout], by rw [hout], fun hv => ⟨_, by rw [hout, hv]; rfl⟩⟩

end

set_option maxRecDepth 100000 in
/-- the opened `sampleWallet` finds an output to its record under the plain primitives -/
theorem sampleWallet_payment_detected :
    ∃ c r, Reachable plainPrimitives "main" c ∧ r ∈ c.walletRecords ∧
      ∃ out, detectOurOutput plainPrimitives c (some (Pod.zero 32)) 0 r.spendPublicKey
          (plainPrimitives.derivePublicKey (Pod.zero 32) 0 r.spendPublicKey) 7 = .ok (some out) ∧
        out.amount = 7 ∧ out.spendPublicKey = r.spendPublicKey ∧ out.viewPublicKey = c.viewPublicKey ∧
        (c.isViewOnly = false →
          ∃ sk, out.outputKeypair = some ⟨plainPrimitives.derivePublicKey (Pod.zero 32) 0 r.spendPublicKey, sk⟩) := by
  obtain ⟨c, ho, -, -, hrs⟩ := openWithKey_saveBytes plainPrimitives sampleWallet_keysValid (Pod.zero 32) false
    zeroIvs zeroIvs
  have hc : Reachable plainPrimitives "main" c := .opened sampleWallet _ false zeroIvs zeroIvs sampleWallet_keysValid ho
  have hr : ⟨Pod.fill 32 1, Pod.fill 32 1, 5⟩ ∈ c.walletRecords := by
    rw [hrs, map_savedRecord_false]
    exact List.mem_singleton_self _
  exact ⟨c, _, hc, hr, @payment_detected plainPrimitives "main" c hc ⟨fun _ _ => some (Pod.zero 32), fun _ _ pk => pk⟩
    (fun _ _ _ => rfl) _ hr (Pod.zero 32) (Pod.zero 32) rfl 0 7 _ _ rfl⟩

end BytecoinWallet.Container
