/-
The functional law of `generate_new_addresses` on a container (Wallet.cpp 435-495).

The loop reads one input key at a time: a zero key draws random key pairs until one is not indexed and creates it at
`now`; any other key is imported with creation time `ct`. A key the wallet holds has its creation timestamp lowered
to the new one when that is smaller (setting `*rescan_from_ct`), and the wallet's record is returned; a new key is
appended and returned. `recordsAfter` is the wallet after a prefix of the inputs, as the spec states it (§4.2): the
old records, then the new ones in input order, each once (`newRecords`), and the record of every imported key lowered
to `min(old, ct)` (`lowerImported`). `NewAddressesInv` is what the loop keeps after each prefix; `StepResult` is what
each returned record is at its step.

- `NewAddressesInv.found` and `NewAddressesInv.appended`: one input whose key the wallet holds, and one it does not.
- `generateNewAddresses_spec`: on a container under the records/index invariant whose records hold matching key pairs,
  when `secret_key_to_public_key` is injective (it is on the keys the curve accepts), a returned `R` has one record
  per input; an imported key's record holds that key and its public key; a zero key's record is created at `now` with
  a key the wallet did not hold at its step; each `R[j]` is the wallet's record right after step `j`; the records at
  the end are `recordsAfter` all the inputs; and `*rescan_from_ct` is set iff a record's timestamp was lowered.
- `imported_key_returns_other_secret`: on a wallet that holds a public key under another secret, importing the key of
  that public key returns the wallet's record, with the other secret.
-/
import BytecoinWallet.Container.Save

namespace BytecoinWallet.Container

/-! ## The law, as the spec states it -/

/-- the public keys of the imported (nonzero) keys among `sks` -/
def importedPublicKeys (P : Primitives) (sks : List SecretKey) : List PublicKey :=
  sks.filterMap fun sk => if sk = Pod.zero 32 then none else P.secretKeyToPublicKey sk

/-- a record whose key is among `keys` has its creation timestamp lowered to `ct` -/
def lowerImported (keys : List PublicKey) (ct : Timestamp) (r : WalletRecord) : WalletRecord :=
  if r.spendPublicKey ∈ keys then { r with creationTimestamp := min r.creationTimestamp ct } else r

/-- the records of `result` whose keys are neither among `old` nor earlier in `result`, in order, each once -/
def newRecords (old result : List WalletRecord) : List WalletRecord :=
  result.foldl (fun acc r =>
    if r.spendPublicKey ∈ (old ++ acc).map WalletRecord.spendPublicKey then acc else acc ++ [r]) []

/-- the records of a wallet that held `old` once the inputs `sks` gave `result`: the old records, then the new ones,
each lowered by the imported keys -/
def recordsAfter (P : Primitives) (old : List WalletRecord) (sks : List SecretKey) (ct : Timestamp)
    (result : List WalletRecord) : List WalletRecord :=
  (old ++ newRecords old result).map (lowerImported (importedPublicKeys P sks) ct)

@[simp] theorem lowerImported_spendPublicKey (keys : List PublicKey) (ct : Timestamp) (r : WalletRecord) :
    (lowerImported keys ct r).spendPublicKey = r.spendPublicKey := by
  unfold lowerImported; split <;> rfl

@[simp] theorem lowerImported_spendSecretKey (keys : List PublicKey) (ct : Timestamp) (r : WalletRecord) :
    (lowerImported keys ct r).spendSecretKey = r.spendSecretKey := by
  unfold lowerImported; split <;> rfl

theorem lowerImported_creationTimestamp_le (keys : List PublicKey) (ct : Timestamp) (r : WalletRecord) :
    (lowerImported keys ct r).creationTimestamp ≤ r.creationTimestamp := by
  unfold lowerImported; split
  exacts [min_le_left _ _, le_rfl]

theorem lowerImported_congr {keys keys' : List PublicKey} (ct : Timestamp) {r : WalletRecord}
    (h : r.spendPublicKey ∈ keys ↔ r.spendPublicKey ∈ keys') : lowerImported keys ct r = lowerImported keys' ct r := by
  simp only [lowerImported, h]

@[simp] theorem lowerImported_nil (ct : Timestamp) : lowerImported [] ct = id :=
  funext fun r => by simp [lowerImported]

theorem lowerImported_of_mem {keys : List PublicKey} (ct : Timestamp) {r : WalletRecord}
    (h : r.spendPublicKey ∈ keys) : lowerImported keys ct r = { r with creationTimestamp := min r.creationTimestamp ct } :=
  if_pos h

theorem lowerImported_append_of_ne {keys : List PublicKey} {pk : PublicKey} (ct : Timestamp) {r : WalletRecord}
    (h : r.spendPublicKey ≠ pk) : lowerImported (keys ++ [pk]) ct r = lowerImported keys ct r :=
  lowerImported_congr ct (by simp [h])

theorem keys_recordsAfter (P : Primitives) (old : List WalletRecord) (sks : List SecretKey) (ct : Timestamp)
    (result : List WalletRecord) : (recordsAfter P old sks ct result).map WalletRecord.spendPublicKey =
      (old ++ newRecords old result).map WalletRecord.spendPublicKey := by
  simp [recordsAfter, Function.comp_def]

theorem newRecords_append (old result : List WalletRecord) (r : WalletRecord) :
    newRecords old (result ++ [r]) =
      if r.spendPublicKey ∈ (old ++ newRecords old result).map WalletRecord.spendPublicKey then newRecords old result
      else newRecords old result ++ [r] := by
  simp only [newRecords, List.foldl_append, List.foldl_cons, List.foldl_nil]

theorem importedPublicKeys_append_zero (P : Primitives) (sks : List SecretKey) :
    importedPublicKeys P (sks ++ [Pod.zero 32]) = importedPublicKeys P sks := by
  simp [importedPublicKeys]

theorem importedPublicKeys_append_of_ne (P : Primitives) (sks : List SecretKey) {sk : SecretKey} {pk : PublicKey}
    (hsk : sk ≠ Pod.zero 32) (hpk : P.secretKeyToPublicKey sk = some pk) :
    importedPublicKeys P (sks ++ [sk]) = importedPublicKeys P sks ++ [pk] := by
  simp [importedPublicKeys, hsk, hpk]

theorem set_of_getElem?_eq {α : Type} {l : List α} {i : ℕ} {a : α} (h : l[i]? = some a) : l.set i a = l :=
  List.ext_getElem? fun k => by
    by_cases hik : i = k
    · subst hik; rw [List.getElem?_set_self (List.getElem?_eq_some_iff.1 h).1, h]
    · rw [List.getElem?_set_ne hik]

theorem eq_of_getElem?_append_singleton {α : Type} {l : List α} {a b : α} {j : ℕ} (h : (l ++ [a])[j]? = some b)
    (hj : l.length ≤ j) : j = l.length ∧ a = b := by
  rw [List.getElem?_append_right hj] at h
  obtain ⟨hlt, hb⟩ := List.getElem?_eq_some_iff.1 h
  simp only [List.length_singleton] at hlt
  obtain rfl : j = l.length := by omega
  simp only [Nat.sub_self, List.getElem_cons_zero] at hb
  exact ⟨rfl, hb⟩

/-! ## What the loop keeps -/

section
variable (P : Primitives) (old : List WalletRecord) (ct now : Timestamp)

/-- what the input `sk` gives, after the inputs `done` gave `result`: an imported key's record holds it and its public
key; a zero key's record is created at `now`, with a key the wallet did not hold; and it is the wallet's record after
the step -/
def StepResult (done : List SecretKey) (result : List WalletRecord) (sk : SecretKey) (r : WalletRecord) : Prop :=
  (sk ≠ Pod.zero 32 → P.secretKeyToPublicKey sk = some r.spendPublicKey ∧ r.spendSecretKey = sk) ∧
  (sk = Pod.zero 32 → r.creationTimestamp = now ∧
    r.spendPublicKey ∉ (recordsAfter P old done ct result).map WalletRecord.spendPublicKey) ∧
  r ∈ recordsAfter P old (done ++ [sk]) ct (result ++ [r])

/-- what the loop keeps after the inputs `done`, on a wallet that held `old` -/
structure NewAddressesInv (done : List SecretKey) (g : GenerateLoop P) : Prop where
  length_result : g.result.length = done.length
  records : g.c.walletRecords = recordsAfter P old done ct g.result
  indexed : RecordsIndexed g.c.walletRecords g.c.recordsMap
  keys_match : ∀ r ∈ old ++ newRecords old g.result,
    P.secretKeyToPublicKey r.spendSecretKey = some r.spendPublicKey
  imported : ∀ pk ∈ importedPublicKeys P done, pk ∈ (old ++ newRecords old g.result).map WalletRecord.spendPublicKey
  rescan : g.rescanFromCt = true ↔ ∃ r ∈ old ++ newRecords old g.result,
    r.spendPublicKey ∈ importedPublicKeys P done ∧ ct < r.creationTimestamp
  results : ∀ j sk r, done[j]? = some sk → g.result[j]? = some r →
    StepResult P old ct now (done.take j) (g.result.take j) sk r

/-- the record the loop body builds for the input `sk`: the import of `sk` at `ct`, or for a zero key a random pair
that `m` does not index, at `now` -/
def InputRecord (m : RecordsMap) (sk : SecretKey) (record : WalletRecord) : Prop :=
  P.secretKeyToPublicKey record.spendSecretKey = some record.spendPublicKey ∧
    if sk = Pod.zero 32 then m record.spendPublicKey = none ∧ record.creationTimestamp = now
    else record.spendSecretKey = sk ∧ record.creationTimestamp = ct

end

namespace NewAddressesInv

variable {P : Primitives} {old : List WalletRecord} {ct now : Timestamp} {done : List SecretKey}
  {g : GenerateLoop P} (hg : NewAddressesInv P old ct now done g)
include hg

theorem getElem?_records {i : ℕ} {x : WalletRecord} (hx : (old ++ newRecords old g.result)[i]? = some x) :
    g.c.walletRecords[i]? = some (lowerImported (importedPublicKeys P done) ct x) := by
  rw [hg.records, recordsAfter, List.getElem?_map, hx]; rfl

theorem index_eq {i k : ℕ} {x y : WalletRecord} (hx : (old ++ newRecords old g.result)[i]? = some x)
    (hy : (old ++ newRecords old g.result)[k]? = some y) (hk : x.spendPublicKey = y.spendPublicKey) : i = k :=
  hg.indexed.index_unique (hg.getElem?_records hx) (hg.getElem?_records hy) (by simpa using hk)

theorem not_mem_of_none {pk : PublicKey} (hm : g.c.recordsMap pk = none) :
    pk ∉ (old ++ newRecords old g.result).map WalletRecord.spendPublicKey := by
  intro hmem
  obtain ⟨x, hx, rfl⟩ := List.mem_map.1 hmem
  obtain ⟨i, hi⟩ := List.mem_iff_getElem?.1 hx
  have := hg.indexed.index_of_record i _ (hg.getElem?_records hi)
  rw [lowerImported_spendPublicKey, hm] at this
  cases this

theorem results_append {sk : SecretKey} {r : WalletRecord} {j : ℕ} {sk' : SecretKey} {r' : WalletRecord}
    (hj : (done ++ [sk])[j]? = some sk') (hr : (g.result ++ [r])[j]? = some r') (hlt : j < done.length) :
    StepResult P old ct now ((done ++ [sk]).take j) ((g.result ++ [r]).take j) sk' r' := by
  have hlt' : j < g.result.length := hg.length_result ▸ hlt
  rw [List.getElem?_append_left hlt] at hj
  rw [List.getElem?_append_left hlt'] at hr
  rw [List.take_append_of_le_length hlt.le, List.take_append_of_le_length hlt'.le]
  exact hg.results j sk' r' hj hr

/-- **An input whose key the wallet holds**: its record at `i` gets the smaller creation timestamp, and is returned -/
theorem found (hinj : ∀ a b pk, P.secretKeyToPublicKey a = some pk → P.secretKeyToPublicKey b = some pk → a = b)
    {sk : SecretKey} {pk : PublicKey} (hsk : sk ≠ Pod.zero 32) (hpk : P.secretKeyToPublicKey sk = some pk)
    {i : ℕ} {rr : WalletRecord} (hi : g.c.walletRecords[i]? = some rr) (hrr : rr.spendPublicKey = pk)
    {g' : GenerateLoop P}
    (hres : g'.result = g.result ++ [if ct < rr.creationTimestamp then { rr with creationTimestamp := ct } else rr])
    (hrec : g'.c.walletRecords =
      g.c.walletRecords.set i (if ct < rr.creationTimestamp then { rr with creationTimestamp := ct } else rr))
    (hmap : g'.c.recordsMap = g.c.recordsMap)
    (hflag : g'.rescanFromCt = true ↔ g.rescanFromCt = true ∨ ct < rr.creationTimestamp) :
    NewAddressesInv P old ct now (done ++ [sk]) g' := by
  set rr' := if ct < rr.creationTimestamp then { rr with creationTimestamp := ct } else rr with hrr'
  obtain ⟨x, hx, hxr⟩ : ∃ x, (old ++ newRecords old g.result)[i]? = some x ∧
      lowerImported (importedPublicKeys P done) ct x = rr := by
    rw [hg.records, recordsAfter, List.getElem?_map] at hi
    exact Option.map_eq_some'.1 hi
  have hxk : x.spendPublicKey = pk := by rw [← hrr, ← hxr, lowerImported_spendPublicKey]
  have hxmem : x ∈ old ++ newRecords old g.result := List.getElem?_mem hx
  have hpk' : rr'.spendPublicKey = pk := by rw [hrr']; split <;> exact hrr
  have hN : newRecords old (g.result ++ [rr']) = newRecords old g.result := by
    rw [newRecords_append, if_pos (List.mem_map.2 ⟨x, hxmem, hxk.trans hpk'.symm⟩)]
  have hD := importedPublicKeys_append_of_ne P done hsk hpk
  have hx' : rr' = lowerImported (importedPublicKeys P done ++ [pk]) ct x := by
    rw [lowerImported_of_mem ct (by simp [hxk]), hrr']
    by_cases hxD : x.spendPublicKey ∈ importedPublicKeys P done
    · rw [← hxr, lowerImported, if_pos hxD, if_neg (not_lt.2 (min_le_right _ _))]
    · rw [← hxr, lowerImported, if_neg hxD]
      split
      · rename_i hlt; rw [min_eq_right hlt.le]
      · rename_i hlt; rw [min_eq_left (not_lt.1 hlt)]
  have hrecords : g.c.walletRecords.set i rr' = recordsAfter P old (done ++ [sk]) ct (g.result ++ [rr']) := by
    rw [recordsAfter, hN, hD]
    refine List.ext_getElem? fun k => ?_
    by_cases hik : i = k
    · subst hik
      rw [List.getElem?_set_self (List.getElem?_eq_some_iff.1 hi).1, List.getElem?_map, hx, hx']
      rfl
    · rw [List.getElem?_set_ne hik, hg.records, recordsAfter, List.getElem?_map, List.getElem?_map]
      cases hy : (old ++ newRecords old g.result)[k]? with
      | none => rfl
      | some y =>
        exact congrArg some (lowerImported_append_of_ne ct fun hyk =>
          hik (hg.index_eq hx hy (hxk.trans hyk.symm))).symm
  refine ⟨by simp [hres, hg.length_result], by rw [hrec, hres, hrecords], ?_, by rw [hres, hN]; exact hg.keys_match,
    ?_, ?_, ?_⟩
  · rw [hrec, hmap]
    exact hg.indexed.set hi (by rw [hpk', hrr])
  · rw [hres, hN, hD]
    intro q hq
    rcases List.mem_append.1 hq with hq | hq
    · exact hg.imported q hq
    · rw [List.mem_singleton.1 hq]; exact List.mem_map.2 ⟨x, hxmem, hxk⟩
  · rw [hflag, hres, hN, hD, hg.rescan]
    constructor
    · rintro (⟨r, hr, hrD, hlt⟩ | hlt)
      · exact ⟨r, hr, List.mem_append_left _ hrD, hlt⟩
      · exact ⟨x, hxmem, by simp [hxk], lt_of_lt_of_le hlt (hxr ▸ lowerImported_creationTimestamp_le _ ct x)⟩
    · rintro ⟨r, hr, hrD, hlt⟩
      rcases List.mem_append.1 hrD with hrD | hrD
      · exact .inl ⟨r, hr, hrD, hlt⟩
      · obtain ⟨k, hk⟩ := List.mem_iff_getElem?.1 hr
        have hrk : r.spendPublicKey = x.spendPublicKey := by rw [List.mem_singleton.1 hrD, hxk]
        obtain rfl := hg.index_eq hk hx hrk
        obtain rfl : r = x := Option.some.inj (hk.symm.trans hx)
        by_cases hxD : r.spendPublicKey ∈ importedPublicKeys P done
        · exact .inl ⟨r, hr, hxD, hlt⟩
        · exact .inr (by rwa [← hxr, lowerImported, if_neg hxD])
  · intro j sk' r hj hr
    rw [hres] at hr ⊢
    rcases Nat.lt_or_ge j done.length with hlt | hge
    · exact hg.results_append hj hr hlt
    obtain ⟨rfl, rfl⟩ := eq_of_getElem?_append_singleton hj hge
    obtain ⟨-, rfl⟩ := eq_of_getElem?_append_singleton hr (hg.length_result ▸ hge)
    rw [List.take_left' rfl, List.take_left' hg.length_result]
    have hsk' : rr'.spendSecretKey = sk := by
      rw [hx', lowerImported_spendSecretKey]
      exact hinj _ _ _ (hxk ▸ hg.keys_match x hxmem) hpk
    refine ⟨fun _ => ⟨hpk'.symm ▸ hpk, hsk'⟩, fun hz => absurd hz hsk, ?_⟩
    rw [← hrecords]
    exact List.getElem?_mem (List.getElem?_set_self (List.getElem?_eq_some_iff.1 hi).1)

/-- **An input whose key the wallet does not hold**: its record is indexed, appended and returned -/
theorem appended {sk : SecretKey} {record : WalletRecord} (hin : InputRecord P ct now g.c.recordsMap sk record)
    (hm : g.c.recordsMap record.spendPublicKey = none) {g' : GenerateLoop P} (hres : g'.result = g.result ++ [record])
    (hrec : g'.c.walletRecords = g.c.walletRecords ++ [record])
    (hmap : g'.c.recordsMap = g.c.recordsMap.insert record.spendPublicKey g.c.walletRecords.length)
    (hflag : g'.rescanFromCt = g.rescanFromCt) : NewAddressesInv P old ct now (done ++ [sk]) g' := by
  have hnot := hg.not_mem_of_none hm
  have hN : newRecords old (g.result ++ [record]) = newRecords old g.result ++ [record] := by
    rw [newRecords_append, if_neg hnot]
  obtain ⟨extra, hD, hextra, hself, hnew⟩ : ∃ extra, importedPublicKeys P (done ++ [sk]) =
      importedPublicKeys P done ++ extra ∧ (∀ q ∈ extra, q = record.spendPublicKey) ∧
      lowerImported (importedPublicKeys P done ++ extra) ct record = record ∧
      ¬(record.spendPublicKey ∈ importedPublicKeys P done ++ extra ∧ ct < record.creationTimestamp) := by
    by_cases hsk : sk = Pod.zero 32
    · have hnotD : record.spendPublicKey ∉ importedPublicKeys P done := fun h => hnot (hg.imported _ h)
      refine ⟨[], by rw [hsk, importedPublicKeys_append_zero, List.append_nil], nofun, ?_, ?_⟩
      · rw [List.append_nil, lowerImported, if_neg hnotD]
      · rw [List.append_nil]; exact fun h => hnotD h.1
    · obtain ⟨hpk, hsk', hct⟩ : _ ∧ record.spendSecretKey = sk ∧ record.creationTimestamp = ct := by
        simpa [InputRecord, hsk] using hin
      refine ⟨[record.spendPublicKey], importedPublicKeys_append_of_ne P done hsk (hsk' ▸ hpk),
        fun q hq => List.mem_singleton.1 hq, ?_, fun h => lt_irrefl ct (hct ▸ h.2)⟩
      rw [lowerImported, if_pos (by simp), hct, min_self]
      cases record; subst hct; rfl
  have hkeep : ∀ y ∈ old ++ newRecords old g.result,
      lowerImported (importedPublicKeys P done ++ extra) ct y = lowerImported (importedPublicKeys P done) ct y :=
    fun y hy => lowerImported_congr ct (by
      refine ⟨fun h => (List.mem_append.1 h).resolve_right fun he => hnot ?_, List.mem_append_left _⟩
      exact hextra _ he ▸ List.mem_map_of_mem _ hy)
  have hrecords : g.c.walletRecords ++ [record] = recordsAfter P old (done ++ [sk]) ct (g.result ++ [record]) := by
    rw [recordsAfter, hN, hD, ← List.append_assoc, List.map_append, List.map_singleton, hself, hg.records,
      recordsAfter, List.map_congr_left hkeep]
  refine ⟨by simp [hres, hg.length_result], by rw [hrec, hres, hrecords], ?_, ?_, ?_, ?_, ?_⟩
  · rw [hrec, hmap]; exact hg.indexed.push hm
  · rw [hres, hN, ← List.append_assoc]
    intro r hr
    rcases List.mem_append.1 hr with hr | hr
    · exact hg.keys_match r hr
    · rw [List.mem_singleton.1 hr]; exact hin.1
  · rw [hres, hN, hD, ← List.append_assoc, List.map_append]
    intro q hq
    rcases List.mem_append.1 hq with hq | hq
    · exact List.mem_append_left _ (hg.imported q hq)
    · exact List.mem_append_right _ (by simp [hextra q hq])
  · rw [hflag, hres, hN, hD, hg.rescan, ← List.append_assoc]
    constructor
    · rintro ⟨r, hr, hrD, hlt⟩
      exact ⟨r, List.mem_append_left _ hr, List.mem_append_left _ hrD, hlt⟩
    · rintro ⟨r, hr, hrD, hlt⟩
      rcases List.mem_append.1 hr with hr | hr
      · refine ⟨r, hr, ?_, hlt⟩
        rcases List.mem_append.1 hrD with h | he
        · exact h
        · exact absurd (hextra _ he ▸ List.mem_map_of_mem _ hr) hnot
      · rw [List.mem_singleton.1 hr] at hrD hlt
        exact absurd ⟨hrD, hlt⟩ hnew
  · intro j sk' r hj hr
    rw [hres] at hr ⊢
    rcases Nat.lt_or_ge j done.length with hlt | hge
    · exact hg.results_append hj hr hlt
    obtain ⟨rfl, rfl⟩ := eq_of_getElem?_append_singleton hj hge
    obtain ⟨-, rfl⟩ := eq_of_getElem?_append_singleton hr (hg.length_result ▸ hge)
    rw [List.take_left' rfl, List.take_left' hg.length_result]
    refine ⟨fun hsk => ?_, fun hsk => ?_, hrecords ▸ List.mem_append_right _ (List.mem_singleton_self _)⟩
    · obtain ⟨hsk', -⟩ : record.spendSecretKey = sk ∧ _ := by simpa [InputRecord, hsk] using hin.2
      exact ⟨hsk' ▸ hin.1, hsk'⟩
    · obtain ⟨-, hct⟩ : _ ∧ record.creationTimestamp = now := by simpa [InputRecord, hsk] using hin.2
      rw [keys_recordsAfter]
      exact ⟨hct, hnot⟩

end NewAddressesInv

/-! ## The loop and the call -/

theorem drawUnindexed_none {P : Primitives} {m : RecordsMap} : ∀ {ds : List (RandomKeypair P)} {d : RandomKeypair P}
    {rest : List (RandomKeypair P)}, drawUnindexed P m ds = some (d, rest) → m d.pair.publicKey = none
  | [], _, _, h => by cases h
  | d :: ds, _, _, h => by
    unfold drawUnindexed at h
    split at h
    · cases h; assumption
    · exact drawUnindexed_none h

section
variable {P : Primitives} {old : List WalletRecord} {ct now : Timestamp}
  (hinj : ∀ a b pk, P.secretKeyToPublicKey a = some pk → P.secretKeyToPublicKey b = some pk → a = b)
include hinj

theorem placeRecord_newAddressesInv {ivs : ℕ → ChachaIv} {pos : ℕ} {done : List SecretKey} {g g' : GenerateLoop P}
    {sk : SecretKey} {record : WalletRecord} (hg : NewAddressesInv P old ct now done g)
    (hin : InputRecord P ct now g.c.recordsMap sk record) (h : placeRecord P ivs pos g record = (g', none)) :
    NewAddressesInv P old ct now (done ++ [sk]) g' := by
  unfold placeRecord at h
  split at h
  · rename_i i hi
    split at h
    · cases h
    · rename_i rr hri
      have hsk : sk ≠ Pod.zero 32 := fun hz => by
        rw [InputRecord, if_pos hz, hi] at hin
        cases hin.2.1
      obtain ⟨hsk', hct⟩ : record.spendSecretKey = sk ∧ record.creationTimestamp = ct := by
        simpa [InputRecord, hsk] using hin.2
      obtain ⟨r, hr, hrk⟩ := hg.indexed.record_of_index _ i hi
      obtain rfl : r = rr := Option.some.inj (hr.symm.trans hri)
      have hpk : P.secretKeyToPublicKey sk = some record.spendPublicKey := hsk' ▸ hin.1
      split at h
      · rename_i hlt
        rw [hct] at hlt
        cases h
        exact hg.found hinj hsk hpk hri hrk (by simp [hlt, hct]) (by simp [hlt, hct]) rfl (by simp [hlt])
      · rename_i hlt
        rw [hct] at hlt
        cases h
        exact hg.found hinj hsk hpk hri hrk (by simp [hlt]) (by simp [hlt, set_of_getElem?_eq hri]) rfl
          (by simp [hlt])
  · rename_i hm
    split at h
    · cases h
      exact hg.appended hin hm rfl rfl rfl rfl
    · cases h

theorem generateOne_newAddressesInv {ivs : ℕ → ChachaIv} {pos : ℕ} {done : List SecretKey} {g g' : GenerateLoop P}
    {sk : SecretKey} (hg : NewAddressesInv P old ct now done g)
    (h : generateOne P ct now ivs pos g sk = some (g', none)) : NewAddressesInv P old ct now (done ++ [sk]) g' := by
  unfold generateOne at h
  split at h
  · rename_i hsk
    obtain ⟨⟨d, keypairs⟩, hd, hpl⟩ := Option.map_eq_some'.1 h
    dsimp only at hpl
    have hg1 : NewAddressesInv P old ct now done
        { g with c := { g.c with oldestTimestamp := min g.c.oldestTimestamp now }, keypairs := keypairs } :=
      ⟨hg.length_result, hg.records, hg.indexed, hg.keys_match, hg.imported, hg.rescan, hg.results⟩
    exact placeRecord_newAddressesInv hinj hg1
      ⟨d.public_of_secret, by rw [if_pos hsk]; exact ⟨drawUnindexed_none hd, rfl⟩⟩ hpl
  · rename_i hsk
    split at h
    · cases h
    · rename_i pk hpk
      exact placeRecord_newAddressesInv hinj hg ⟨hpk, by rw [if_neg hsk]; exact ⟨rfl, rfl⟩⟩ (Option.some.inj h)

/-- **The loop keeps `NewAddressesInv`** over the inputs it reads, when it returns -/
theorem generateLoop_newAddressesInv {ivs : ℕ → ChachaIv} {pos : ℕ} :
    ∀ {sks done : List SecretKey} {g g' : GenerateLoop P}, NewAddressesInv P old ct now done g →
      generateLoop P ct now ivs pos sks g = some (g', none) → NewAddressesInv P old ct now (done ++ sks) g'
  | [], _, _, _, hg, h => by cases h; simpa using hg
  | sk :: sks, done, g, g', hg, h => by
    obtain ⟨⟨g1, e1⟩, h1, h2⟩ := Option.bind_eq_some.1 h
    cases e1 with
    | some e => cases h2
    | none => simpa using generateLoop_newAddressesInv (generateOne_newAddressesInv hinj hg h1) h2

end

variable (P : Primitives)

theorem generateNewAddresses_spec {sks : List SecretKey} {ct now : Timestamp} {draws : GenerateDraws P}
    {c c' : WalletContainerStorage} {R : List WalletRecord} {rescan : Bool}
    (hidx : RecordsIndexed c.walletRecords c.recordsMap)
    (hkeys : ∀ r ∈ c.walletRecords, P.secretKeyToPublicKey r.spendSecretKey = some r.spendPublicKey)
    (hinj : ∀ a b pk, P.secretKeyToPublicKey a = some pk → P.secretKeyToPublicKey b = some pk → a = b)
    (h : generateNewAddresses P sks ct now draws c = some (c', .ok (R, rescan))) :
    R.length = sks.length ∧
    (∀ j sk r, sks[j]? = some sk → R[j]? = some r →
      (sk ≠ Pod.zero 32 → P.secretKeyToPublicKey sk = some r.spendPublicKey ∧ r.spendSecretKey = sk) ∧
      (sk = Pod.zero 32 → r.creationTimestamp = now ∧
        r.spendPublicKey ∉ (recordsAfter P c.walletRecords (sks.take j) ct (R.take j)).map
          WalletRecord.spendPublicKey) ∧
      r ∈ recordsAfter P c.walletRecords (sks.take (j + 1)) ct (R.take (j + 1))) ∧
    c'.walletRecords = recordsAfter P c.walletRecords sks ct R ∧
    (rescan = true ↔ ∃ r ∈ c.walletRecords ++ newRecords c.walletRecords R,
      r.spendPublicKey ∈ importedPublicKeys P sks ∧ ct < r.creationTimestamp) := by
  unfold generateNewAddresses at h
  split at h
  · cases h
  have hfirst : ∀ c1 r1, (if c.fileOpen then (c, .ok ()) else saveAndCheck P draws.legacyIvs c) = (c1, r1) →
      c1.walletRecords = c.walletRecords ∧ c1.recordsMap = c.recordsMap := fun c1 r1 he => by
    split at he
    · cases he; exact ⟨rfl, rfl⟩
    · obtain ⟨f, j, o, hs⟩ := saveAndCheck_fst_eq P draws.legacyIvs c
      have h1 : (saveAndCheck P draws.legacyIvs c).1 = c1 := by rw [he]
      rw [← h1, hs]; exact ⟨rfl, rfl⟩
  split at h
  · cases h
  rename_i _ c1 heq
  obtain ⟨hrs, hmap⟩ := hfirst _ _ heq
  obtain ⟨⟨g, e⟩, hloop, hg⟩ := Option.map_eq_some'.1 h
  have h0 : NewAddressesInv P c.walletRecords ct now [] ⟨c1, [], false, draws.keypairs, 0⟩ :=
    ⟨rfl, by simp [recordsAfter, newRecords, importedPublicKeys, hrs], by rw [hrs, hmap]; exact hidx,
      by simpa [newRecords] using hkeys, by simp [importedPublicKeys], by simp [importedPublicKeys],
      fun j _ _ hj => by simp at hj⟩
  cases e with
  | some e => cases hg
  | none =>
  have hinv := generateLoop_newAddressesInv hinj h0 hloop
  rw [List.nil_append] at hinv
  obtain ⟨hR, hrescan, hc'⟩ : R = g.result ∧ rescan = g.rescanFromCt ∧ c'.walletRecords = g.c.walletRecords := by
    dsimp only at hg
    split at hg
    · rename_i hflag
      split at hg
      · cases hg
      · rename_i c'' heq2
        cases hg
        obtain ⟨f, j, o, hs⟩ := saveAndCheck_fst_eq P draws.rescanIvs g.c.writeCounts
        have h1 : (saveAndCheck P draws.rescanIvs g.c.writeCounts).1 = c' := by rw [heq2]
        exact ⟨rfl, hflag.symm, by rw [← h1, hs]; rfl⟩
    · rename_i hflag
      cases hg
      exact ⟨rfl, by simpa using hflag, rfl⟩
  subst hR hrescan
  refine ⟨hinv.length_result, fun j sk r hj hr => ?_, by rw [hc', hinv.records], hinv.rescan⟩
  obtain ⟨h1, h2, h3⟩ := hinv.results j sk r hj hr
  refine ⟨h1, h2, ?_⟩
  rwa [List.take_succ, List.take_succ, hj, hr]

/-! ## Concrete runs -/

theorem plainPrimitives_public_eq {a pk : SecretKey} (h : plainPrimitives.secretKeyToPublicKey a = some pk) : a = pk := by
  simp only [plainPrimitives] at h
  split_ifs at h
  exact Option.some.inj h

/-- `sampleWallet` with its record indexed -/
def indexedSampleWallet : WalletContainerStorage :=
  { sampleWallet with recordsMap := RecordsMap.insert (fun _ => none) (Pod.fill 32 1) 0 }

set_option maxRecDepth 100000 in
/-- importing a new key on `indexedSampleWallet` appends its record -/
theorem import_appends_record :
    ∃ c', generateNewAddresses plainPrimitives [Pod.fill 32 3] 0 0 ⟨[], zeroIvs, zeroIvs, zeroIvs⟩ indexedSampleWallet =
        some (c', .ok ([⟨Pod.fill 32 3, Pod.fill 32 3, 0⟩], false)) ∧
      c'.walletRecords = recordsAfter plainPrimitives indexedSampleWallet.walletRecords [Pod.fill 32 3] 0
        [⟨Pod.fill 32 3, Pod.fill 32 3, 0⟩] := by
  obtain ⟨c', h⟩ : ∃ c', generateNewAddresses plainPrimitives [Pod.fill 32 3] 0 0 ⟨[], zeroIvs, zeroIvs, zeroIvs⟩
      indexedSampleWallet = some (c', .ok ([⟨Pod.fill 32 3, Pod.fill 32 3, 0⟩], false)) := ⟨_, rfl⟩
  have hidx : RecordsIndexed indexedSampleWallet.walletRecords indexedSampleWallet.recordsMap :=
    RecordsIndexed.nil.push (r := ⟨Pod.fill 32 1, Pod.fill 32 1, 5⟩) rfl
  have hkeys : ∀ r ∈ indexedSampleWallet.walletRecords,
      plainPrimitives.secretKeyToPublicKey r.spendSecretKey = some r.spendPublicKey := by decide
  exact ⟨c', h, (generateNewAddresses_spec plainPrimitives hidx hkeys
    (fun _ _ _ ha hb => (plainPrimitives_public_eq ha).trans (plainPrimitives_public_eq hb).symm) h).2.2.1⟩

set_option maxRecDepth 100000 in
/-- a wallet whose record holds the public key `1…1` under the secret `4…4`: importing the secret `1…1` returns that
record, with the secret `4…4` -/
theorem imported_key_returns_other_secret :
    let c : WalletContainerStorage := { sampleWallet with
      walletRecords := [⟨Pod.fill 32 1, Pod.fill 32 4, 5⟩]
      recordsMap := RecordsMap.insert (fun _ => none) (Pod.fill 32 1) 0 }
    RecordsIndexed c.walletRecords c.recordsMap ∧ c.isViewOnly = false ∧
      ∃ c', generateNewAddresses plainPrimitives [Pod.fill 32 1] 5 5 ⟨[], zeroIvs, zeroIvs, zeroIvs⟩ c =
        some (c', .ok ([⟨Pod.fill 32 1, Pod.fill 32 4, 5⟩], false)) ∧ Pod.fill 32 4 ≠ Pod.fill 32 1 :=
  ⟨RecordsIndexed.nil.push (r := ⟨Pod.fill 32 1, Pod.fill 32 4, 5⟩) rfl, by decide, _, rfl, by decide⟩

end BytecoinWallet.Container
