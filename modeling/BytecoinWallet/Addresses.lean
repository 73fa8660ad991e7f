/-
Addresses of records and the lookup back: `record_to_address`, `get_record` and `is_our_address` on both backends
(Wallet.cpp 159-162, 497-513, 1053-1076).

A container address is `AccountAddressSimple{spend_public_key, m_view_public_key}`; an HD address is
`AccountAddressUnlinkable{spend_public_key, generate_address_s_v(spend_public_key, m_view_secret_key), is_auditable}`.
`get_record` goes the other way through `m_records_map`, and only finds the first `get_actual_records_count()` records:
all of them in a container, the `m_used_address_count` handed out in an HD wallet.

- `FindsActual`: what `get_record` should do: never throw, and find exactly the actual record whose address is asked.
- `getRecord_findsActual` (container) and `HD.getRecord_findsActual`: both backends do, under the records/index
  invariant (`RecordsIndexed`).
- `getRecord_iff_recordToAddress`: the lookup law for both backends, with what `is_our_address` rejects: the other
  kind of address, a simple address with another view key, and the address of every look-ahead record of an HD
  wallet.
-/
import BytecoinWallet.Container.Format
import BytecoinWallet.HD.Wallet

namespace BytecoinWallet

/-! ## The lookup law -/

/-- `m_wallet_records.at(i)`: `std::out_of_range` past the end -/
def recordAt (records : List WalletRecord) (i : ℕ) : Except Failure WalletRecord :=
  match records[i]? with
  | some r => .ok r
  | none => .error .outOfRange

/-- `Wallet::is_our_address(v_addr)`: `get_record` finds a record -/
def isOurAddress (getRecord : AccountAddress → Except Failure (Option WalletRecord)) (a : AccountAddress) :
    Except Failure Bool :=
  (getRecord a).map Option.isSome

/-- `getRecord` never throws and finds, for each address, exactly the records among the first `count` whose address it
is: at most one, since it then returns it -/
def FindsActual (getRecord : AccountAddress → Except Failure (Option WalletRecord)) (records : List WalletRecord)
    (count : ℕ) (recordToAddress : WalletRecord → AccountAddress) : Prop :=
  ∀ a, ∃ o, getRecord a = .ok o ∧ ∀ r, o = some r ↔ ∃ i < count, records[i]? = some r ∧ a = recordToAddress r

section
variable {getRecord : AccountAddress → Except Failure (Option WalletRecord)} {records : List WalletRecord}
  {count : ℕ} {recordToAddress : WalletRecord → AccountAddress}

/-- `is_our_address` accepts the addresses of the actual records -/
theorem FindsActual.isOurAddress_true (h : FindsActual getRecord records count recordToAddress) {a : AccountAddress} :
    isOurAddress getRecord a = .ok true ↔ ∃ i < count, ∃ r, records[i]? = some r ∧ a = recordToAddress r := by
  obtain ⟨o, ho, hiff⟩ := h a
  cases o with
  | none => simp only [isOurAddress, ho]; simpa [Except.map] using fun i hi r hr ha => (hiff r).2 ⟨i, hi, hr, ha⟩
  | some r =>
    obtain ⟨i, hi, hr, ha⟩ := (hiff r).1 rfl
    simp only [isOurAddress, ho]
    exact iff_of_true rfl ⟨i, hi, r, hr, ha⟩

/-- `is_our_address` rejects every other address -/
theorem FindsActual.isOurAddress_false (h : FindsActual getRecord records count recordToAddress) {a : AccountAddress}
    (ha : ∀ i < count, ∀ r, records[i]? = some r → a ≠ recordToAddress r) : isOurAddress getRecord a = .ok false := by
  obtain ⟨o, ho, hiff⟩ := h a
  cases o with
  | none => simp [isOurAddress, ho, Except.map]
  | some r =>
    obtain ⟨i, hi, hr, hra⟩ := (hiff r).1 rfl
    exact absurd hra (ha i hi r hr)

end

/-! ## The container -/

namespace Container

/-- `WalletContainerStorage::record_to_address` -/
def recordToAddress (c : WalletContainerStorage) (record : WalletRecord) : AccountAddress :=
  .simple ⟨record.spendPublicKey, c.viewPublicKey⟩

/-- Modelled from the spec: `get_actual_records_count()` of a container is all its records (§4.1) -/
def getActualRecordsCount (c : WalletContainerStorage) : ℕ := c.walletRecords.length

/-- `WalletContainerStorage::get_record(record, v_addr)`: the record it copies out, `none` when it returns false, or
what it throws -/
def getRecord (c : WalletContainerStorage) : AccountAddress → Except Failure (Option WalletRecord)
  | .unlinkable _ => .ok none
  | .simple addr =>
    match c.recordsMap addr.spendPublicKey with
    | none => .ok none
    | some i =>
      if c.viewPublicKey ≠ addr.viewPublicKey then .ok none
      else if getActualRecordsCount c ≤ i then .ok none
      else do
        let r ← recordAt c.walletRecords i
        if r.spendPublicKey ≠ addr.spendPublicKey then throw .invariantFailed
        some <$> recordAt c.walletRecords i

theorem getRecord_findsActual {c : WalletContainerStorage} (hidx : RecordsIndexed c.walletRecords c.recordsMap) :
    FindsActual (getRecord c) c.walletRecords (getActualRecordsCount c) (recordToAddress c) := by
  rintro (addr | addr)
  · cases hm : c.recordsMap addr.spendPublicKey with
    | none =>
      refine ⟨none, by simp [getRecord, hm], fun r => iff_of_false nofun ?_⟩
      rintro ⟨i, -, hr, ⟨⟩⟩
      simp [hidx.index_of_record i r hr] at hm
    | some i =>
      obtain ⟨r, hr, hk⟩ := hidx.record_of_index _ i hm
      by_cases hv : c.viewPublicKey = addr.viewPublicKey
      · by_cases hc : getActualRecordsCount c ≤ i
        · refine ⟨none, by simp [getRecord, hm, hv, hc], fun r' => iff_of_false nofun ?_⟩
          rintro ⟨i', hi', hr', ha⟩
          cases ha
          exact absurd (hidx.index_unique hr' hr hk.symm ▸ hi') (not_lt.2 hc)
        · refine ⟨some r, by simp [getRecord, hm, hv, hc, recordAt, hr, hk, bind, Except.bind, pure, Except.pure],
            fun r' => ⟨?_, ?_⟩⟩
          · rintro ⟨⟩
            exact ⟨i, not_le.1 hc, hr, by simp [recordToAddress, hk, hv]⟩
          · rintro ⟨i', -, hr', ⟨⟩⟩
            rw [hidx.index_unique hr' hr hk.symm, hr] at hr'
            exact Option.some.inj hr' ▸ rfl
      · refine ⟨none, by simp [getRecord, hm, hv], fun r => iff_of_false nofun ?_⟩
        rintro ⟨i, -, -, ha⟩
        cases ha
        exact hv rfl
  · exact ⟨none, rfl, fun r => iff_of_false nofun fun ⟨_, _, _, ha⟩ => nomatch ha⟩

/-- an address of another view key is not the container's, whatever its records -/
theorem getRecord_other_view (c : WalletContainerStorage) {addr : AccountAddressSimple}
    (hv : addr.viewPublicKey ≠ c.viewPublicKey) : getRecord c (.simple addr) = .ok none := by
  simp only [getRecord]
  split <;> simp [Ne.symm hv]

end Container

/-! ## The HD wallet -/

namespace HD

variable (H : HdPrimitives)

/-- Modelled from the spec: `is_auditable()`: the address type is the auditable one (§4.1) -/
def isAuditable (w : WalletHD) : Bool := w.addressType == H.typeTagAuditable

/-- Modelled from the spec: `get_actual_records_count()` of an HD wallet is `m_used_address_count`; the look-ahead
records after them are not actual yet (§4.1) -/
def getActualRecordsCount (w : WalletHD) : ℕ := w.usedAddressCount

/-- `WalletHD::record_to_address` -/
def recordToAddress (w : WalletHD) (record : WalletRecord) : AccountAddress :=
  .unlinkable ⟨record.spendPublicKey, H.generateAddressSV record.spendPublicKey w.viewSecretKey,
    w.addressType == H.typeTagAuditable⟩

/-- `WalletHD::get_record(record, v_addr)` -/
def getRecord (w : WalletHD) : AccountAddress → Except Failure (Option WalletRecord)
  | .simple _ => .ok none
  | .unlinkable addr =>
    if addr.isAuditable ≠ isAuditable H w then .ok none
    else
      match w.recordsMap addr.s with
      | none => .ok none
      | some i =>
        if getActualRecordsCount w ≤ i then .ok none
        else do
          let addr2 := recordToAddress H w (← recordAt w.walletRecords i)
          if AccountAddress.unlinkable addr ≠ addr2 then pure none
          else some <$> recordAt w.walletRecords i

theorem getRecord_findsActual {w : WalletHD} (hidx : RecordsIndexed w.walletRecords w.recordsMap) :
    FindsActual (getRecord H w) w.walletRecords (getActualRecordsCount w) (recordToAddress H w) := by
  rintro (addr | addr)
  · exact ⟨none, rfl, fun r => iff_of_false nofun fun ⟨_, _, _, ha⟩ => nomatch ha⟩
  by_cases haud : addr.isAuditable = isAuditable H w
  · cases hm : w.recordsMap addr.s with
    | none =>
      refine ⟨none, by simp [getRecord, haud, hm], fun r => iff_of_false nofun ?_⟩
      rintro ⟨i, -, hr, ⟨⟩⟩
      simp [hidx.index_of_record i r hr] at hm
    | some i =>
      obtain ⟨r, hr, hk⟩ := hidx.record_of_index _ i hm
      by_cases hc : getActualRecordsCount w ≤ i
      · refine ⟨none, by simp [getRecord, haud, hm, hc], fun r' => iff_of_false nofun ?_⟩
        rintro ⟨i', hi', hr', ha⟩
        cases ha
        exact absurd (hidx.index_unique hr' hr hk.symm ▸ hi') (not_lt.2 hc)
      · by_cases ha : AccountAddress.unlinkable addr = recordToAddress H w r
        · refine ⟨some r, by simp [getRecord, haud, hm, hc, recordAt, hr, ha, bind, Except.bind], fun r' => ⟨?_, ?_⟩⟩
          · rintro ⟨⟩
            exact ⟨i, not_le.1 hc, hr, ha⟩
          · rintro ⟨i', -, hr', ha'⟩
            rw [hidx.index_unique hr' hr (by cases ha'; exact hk.symm), hr] at hr'
            exact Option.some.inj hr' ▸ rfl
        · refine ⟨none, by simp [getRecord, haud, hm, hc, recordAt, hr, ha, bind, Except.bind, pure, Except.pure],
            fun r' => iff_of_false nofun ?_⟩
          rintro ⟨i', -, hr', ha'⟩
          rw [hidx.index_unique hr' hr (by cases ha'; exact hk.symm), hr] at hr'
          exact ha (Option.some.inj hr' ▸ ha')
  · refine ⟨none, by simp [getRecord, haud], fun r => iff_of_false nofun ?_⟩
    rintro ⟨i, -, -, ha⟩
    cases ha
    exact haud rfl

/-- a look-ahead record, past `m_used_address_count`, is not found -/
theorem getRecord_lookAhead {w : WalletHD} (hidx : RecordsIndexed w.walletRecords w.recordsMap) {j : ℕ}
    {r : WalletRecord} (hr : w.walletRecords[j]? = some r) (hj : getActualRecordsCount w ≤ j) :
    isOurAddress (getRecord H w) (recordToAddress H w r) = .ok false :=
  (getRecord_findsActual H hidx).isOurAddress_false fun i hi r' hr' ha => by
    simp only [recordToAddress, AccountAddress.unlinkable.injEq, AccountAddressUnlinkable.mk.injEq] at ha
    exact absurd (hidx.index_unique hr hr' ha.1 ▸ hi) (not_lt.2 hj)

end HD

theorem getRecord_iff_recordToAddress (H : HD.HdPrimitives) :
    (∀ c : Container.WalletContainerStorage, RecordsIndexed c.walletRecords c.recordsMap →
      FindsActual (Container.getRecord c) c.walletRecords (Container.getActualRecordsCount c)
        (Container.recordToAddress c) ∧
      (∀ a, isOurAddress (Container.getRecord c) a = .ok true ↔
        ∃ i < Container.getActualRecordsCount c, ∃ r, c.walletRecords[i]? = some r ∧ a = Container.recordToAddress c r) ∧
      (∀ a, (∀ i < Container.getActualRecordsCount c, ∀ r, c.walletRecords[i]? = some r →
        a ≠ Container.recordToAddress c r) → isOurAddress (Container.getRecord c) a = .ok false) ∧
      (∀ u, isOurAddress (Container.getRecord c) (.unlinkable u) = .ok false) ∧
      ∀ s : AccountAddressSimple, s.viewPublicKey ≠ c.viewPublicKey →
        isOurAddress (Container.getRecord c) (.simple s) = .ok false) ∧
    ∀ w : HD.WalletHD, RecordsIndexed w.walletRecords w.recordsMap →
      FindsActual (HD.getRecord H w) w.walletRecords (HD.getActualRecordsCount w) (HD.recordToAddress H w) ∧
      (∀ a, isOurAddress (HD.getRecord H w) a = .ok true ↔
        ∃ i < HD.getActualRecordsCount w, ∃ r, w.walletRecords[i]? = some r ∧ a = HD.recordToAddress H w r) ∧
      (∀ a, (∀ i < HD.getActualRecordsCount w, ∀ r, w.walletRecords[i]? = some r → a ≠ HD.recordToAddress H w r) →
        isOurAddress (HD.getRecord H w) a = .ok false) ∧
      (∀ j r, w.walletRecords[j]? = some r → HD.getActualRecordsCount w ≤ j →
        isOurAddress (HD.getRecord H w) (HD.recordToAddress H w r) = .ok false) ∧
      ∀ s, isOurAddress (HD.getRecord H w) (.simple s) = .ok false := by
  refine ⟨fun c hidx => ?_, fun w hidx => ?_⟩
  · have h := Container.getRecord_findsActual hidx
    refine ⟨h, fun a => h.isOurAddress_true, fun a => h.isOurAddress_false, fun u => rfl, fun s hv => ?_⟩
    simp [isOurAddress, Container.getRecord_other_view c hv, Except.map]
  · have h := HD.getRecord_findsActual H hidx
    exact ⟨h, fun a => h.isOurAddress_true, fun a => h.isOurAddress_false, fun j r hr hj => HD.getRecord_lookAhead H hidx hr hj,
      fun s => rfl⟩

/-- a container of one record finds it; an HD wallet holding a handed-out record and a look-ahead one after it finds
the first, and neither the look-ahead record nor a simple address -/
theorem one_record_is_ours :
    let r : WalletRecord := ⟨Pod.fill 32 1, Pod.fill 32 1, 0⟩
    let r' : WalletRecord := ⟨Pod.fill 32 3, Pod.fill 32 3, 0⟩
    let c : Container.WalletContainerStorage :=
      { Container.WalletContainerStorage.fresh (Pod.zero 32) [] with
        walletRecords := [r], recordsMap := RecordsMap.insert (fun _ => none) r.spendPublicKey 0 }
    let w : HD.WalletHD :=
      { HD.WalletHD.fresh "main" ⟨⟨none, [], [], []⟩, ⟨none, [], [], []⟩⟩ fun _ => Pod.zero 32 with
        usedAddressCount := 1, walletRecords := [r, r'],
        recordsMap := (RecordsMap.insert (fun _ => none) r.spendPublicKey 0).insert r'.spendPublicKey 1 }
    RecordsIndexed c.walletRecords c.recordsMap ∧
      isOurAddress (Container.getRecord c) (Container.recordToAddress c r) = .ok true ∧
      RecordsIndexed w.walletRecords w.recordsMap ∧
      isOurAddress (HD.getRecord HD.plainHdPrimitives w) (HD.recordToAddress HD.plainHdPrimitives w r) = .ok true ∧
      isOurAddress (HD.getRecord HD.plainHdPrimitives w) (HD.recordToAddress HD.plainHdPrimitives w r') = .ok false ∧
      isOurAddress (HD.getRecord HD.plainHdPrimitives w) (.simple ⟨r.spendPublicKey, Pod.zero 32⟩) = .ok false := by
  intro r r' c w
  have hc : RecordsIndexed c.walletRecords c.recordsMap := RecordsIndexed.nil.push (r := r) rfl
  have hw : RecordsIndexed w.walletRecords w.recordsMap :=
    (RecordsIndexed.nil.push (r := r) rfl).push (r := r') (by decide)
  have h := getRecord_iff_recordToAddress HD.plainHdPrimitives
  exact ⟨hc, ((h.1 c hc).2.1 _).2 ⟨0, by decide, r, rfl, rfl⟩, hw, ((h.2 w hw).2.1 _).2 ⟨0, by decide, r, rfl, rfl⟩,
    (h.2 w hw).2.2.2.1 1 r' rfl le_rfl, (h.2 w hw).2.2.2.2 _⟩

end BytecoinWallet
