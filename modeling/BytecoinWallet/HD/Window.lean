/-
The address window of `WalletHD`.

`generate_ahead` keeps `m_used_address_count + GENERATE_AHEAD` records: record `i` is entry `i` of the key sequence of
`spend_key_base` (`aheadRecord`), created at the largest `Timestamp`.

- `aheadResults_flatten`: the slices of the `hardware_concurrency()` workers, `[delta * i / thc, delta * (i + 1) / thc)`,
  join to the `delta` next entries in order, for every `thc` other than 0.
- `window_of_reachable`: from opening a wallet, or creating one from a mnemonic, through any calls of
  `generate_new_addresses`, `detect_our_output` and `set_password`, returning or throwing, the records are exactly the
  first `m_used_address_count + GENERATE_AHEAD` entries, and `generate_new_addresses` of zero keys returns the next
  entries and never throws `std::out_of_range`.
- With `hardware_concurrency()` returning 0, which the standard allows, the workers' loop never runs: no wallet ever
  gets a record, and every `generate_new_addresses` throws `std::out_of_range` (`reachable_no_threads`).
- A wallet created without a mnemonic, the target of `export_wallet`, has no window (`window_breaks`).
-/
import BytecoinWallet.HD.Wallet
import Mathlib.Algebra.BigOperators.Group.List
import Mathlib.Data.Nat.Find
import Mathlib.Algebra.Order.Ring.Nat

namespace BytecoinWallet.HD

section
variable (P : Primitives) (H : HdPrimitives)

/-! ## The key sequence -/

/-- the first `n` entries of the key sequence of `base`, as `generate_ahead1` stores them -/
def aheadRecords (base : KeyPair) (n : ℕ) : List WalletRecord :=
  (List.range n).map (aheadRecord H base)

theorem aheadRecords_add (base : KeyPair) (n k : ℕ) :
    aheadRecords H base (n + k) = aheadRecords H base n ++ (List.range k).map fun j => aheadRecord H base (n + j) := by
  simp only [aheadRecords, List.range_add, List.map_append, List.map_map]
  rfl

@[simp] theorem length_aheadRecords (base : KeyPair) (n : ℕ) : (aheadRecords H base n).length = n := by
  simp [aheadRecords]

/-- the `n` records from index `a` of a window of `N ≥ a + n` records are the entries `a, ..., a + n - 1` -/
theorem recordsAt_aheadRecords {base : KeyPair} {a n N : ℕ} (h : a + n ≤ N) :
    recordsAt (aheadRecords H base N) a n = some ((List.range n).map fun i => aheadRecord H base (a + i)) := by
  obtain ⟨r, rfl⟩ := Nat.exists_eq_add_of_le h
  rw [recordsAt, if_pos (by simp), Nat.add_assoc, aheadRecords_add, List.drop_left' (length_aheadRecords H base a),
    List.range_add, List.map_append, List.take_left' (by simp)]

/-- `m_wallet_records` holds the first `m_used_address_count + GENERATE_AHEAD` entries of the key sequence -/
def Window (w : WalletHD) : Prop :=
  w.walletRecords = aheadRecords H w.spendKeyBase (w.usedAddressCount + generateAheadCount)

theorem Window.congr {w w' : WalletHD} (h : Window H w) (hw : w'.window = w.window) : Window H w' := by
  simp only [WalletHD.window, Prod.mk.injEq] at hw
  obtain ⟨h1, h2, h3, -⟩ := hw
  rw [Window, h1, h2, h3]
  exact h

/-! ## `generate_ahead` -/

/-- the first `m` workers fill the first `delta * m / thc` entries from `counter` on -/
theorem slices_flatten (w : WalletHD) (counter delta thc : ℕ) : ∀ m,
    ((List.range m).map fun i =>
        generateAhead1 H w (counter + delta * i / thc) (delta * (i + 1) / thc - delta * i / thc)).flatten =
      (List.range (delta * m / thc)).map fun j => aheadRecord H w.spendKeyBase (counter + j)
  | 0 => by simp
  | m + 1 => by
    have hle : delta * m / thc ≤ delta * (m + 1) / thc :=
      Nat.div_le_div_right (Nat.mul_le_mul_left delta (Nat.le_succ m))
    obtain ⟨k, hk⟩ := Nat.exists_eq_add_of_le hle
    rw [List.range_succ, List.map_append, List.flatten_append, slices_flatten w counter delta thc m,
      List.map_singleton, List.flatten_singleton, hk, Nat.add_sub_cancel_left, List.range_add, List.map_append]
    simp [generateAhead1, Nat.add_assoc]

/-- **The workers' slices join to the next `delta` entries** -/
theorem aheadResults_flatten {thc delta : ℕ} (w : WalletHD) (h : thc ≠ 0 ∨ delta < 1000) :
    (aheadResults H thc w delta).flatten =
      (List.range delta).map fun j => aheadRecord H w.spendKeyBase (w.walletRecords.length + j) := by
  unfold aheadResults
  split
  · simp [generateAhead1]
  · rw [slices_flatten, Nat.mul_div_cancel _ (Nat.pos_of_ne_zero (h.resolve_right ‹_›))]

theorem sliceStart_mono (delta thc : ℕ) {i j : ℕ} (h : i ≤ j) : delta * i / thc ≤ delta * j / thc :=
  Nat.div_le_div_right (Nat.mul_le_mul_left delta h)

theorem sum_sliceSizes (delta thc : ℕ) : ∀ m,
    ((List.range m).map fun i => delta * (i + 1) / thc - delta * i / thc).sum = delta * m / thc
  | 0 => by simp only [List.range_zero, List.map_nil, List.sum_nil, Nat.mul_zero, Nat.zero_div]
  | m + 1 => by
    rw [List.range_succ, List.map_append, List.sum_append, sum_sliceSizes delta thc m, List.map_singleton,
      List.sum_singleton]
    have := sliceStart_mono delta thc (Nat.le_add_right m 1)
    omega

/-- every entry below `delta` lies in exactly one of the `thc` slices -/
theorem existsUnique_slice {delta thc j : ℕ} (hthc : 0 < thc) (hj : j < delta) :
    ∃! i, i < thc ∧ delta * i / thc ≤ j ∧ j < delta * (i + 1) / thc := by
  have hlast : j < delta * ((thc - 1) + 1) / thc := by
    rwa [Nat.sub_add_cancel hthc, Nat.mul_div_cancel _ hthc]
  have hex : ∃ i, j < delta * (i + 1) / thc := ⟨_, hlast⟩
  classical
  refine ⟨Nat.find hex, ⟨lt_of_le_of_lt (Nat.find_min' hex hlast) (Nat.sub_lt hthc Nat.one_pos), ?_,
    Nat.find_spec hex⟩, fun i ⟨_, hi1, hi2⟩ => ?_⟩
  · cases h : Nat.find hex with
    | zero => simp
    | succ i => exact not_lt.1 (Nat.find_min hex (by omega : i < Nat.find hex))
  · rcases lt_trichotomy i (Nat.find hex) with hlt | heq | hgt
    · exact absurd hi2 (Nat.find_min hex hlt)
    · exact heq
    · have := sliceStart_mono delta thc (show Nat.find hex + 1 ≤ i from hgt)
      have := Nat.find_spec hex
      omega

/-- **The `hardware_concurrency()` slices of `generate_ahead` partition the next `delta` entries.** For every
`thc ≥ 1` with `delta * thc < 2 ^ 64` the `size_t` products `delta * i` do not wrap; the slices
`[delta * i / thc, delta * (i + 1) / thc)` are consecutive, from 0 to `delta`, so the sizes given to
`results[i].resize` (with no wrap in the `size_t` subtraction) add up to `delta`; every entry below `delta` lies in
exactly one slice; and joining the results gives entry `m_wallet_records.size() + j` at position `j` -/
theorem aheadResults_partition {thc delta : ℕ} (w : WalletHD) (hthc : 1 ≤ thc) (hov : delta * thc < 2 ^ 64) :
    (∀ i ≤ thc, delta * i % 2 ^ 64 = delta * i) ∧
    delta * 0 / thc = 0 ∧ delta * thc / thc = delta ∧
    (∀ i < thc, delta * i / thc + (delta * (i + 1) / thc - delta * i / thc) = delta * (i + 1) / thc) ∧
    ((List.range thc).map fun i => delta * (i + 1) / thc - delta * i / thc).sum = delta ∧
    (∀ j < delta, ∃! i, i < thc ∧ delta * i / thc ≤ j ∧ j < delta * (i + 1) / thc) ∧
    (1000 ≤ delta → (aheadResults H thc w delta).map List.length =
      (List.range thc).map fun i => delta * (i + 1) / thc - delta * i / thc) ∧
    (aheadResults H thc w delta).flatten =
      (List.range delta).map fun j => aheadRecord H w.spendKeyBase (w.walletRecords.length + j) := by
  have hdiv : delta * thc / thc = delta := Nat.mul_div_cancel _ hthc
  refine ⟨fun i hi => Nat.mod_eq_of_lt (lt_of_le_of_lt (Nat.mul_le_mul_left delta hi) hov), by rw [Nat.mul_zero, Nat.zero_div], hdiv,
    fun i _ => Nat.add_sub_cancel' (sliceStart_mono delta thc (Nat.le_succ i)), by rw [sum_sliceSizes, hdiv],
    fun j hj => existsUnique_slice hthc hj, fun hd => ?_, aheadResults_flatten H w (.inl (by omega))⟩
  simp only [aheadResults, generateAhead1, if_neg (show ¬delta < 1000 by omega), List.map_map,
    List.map_inj_left, List.mem_range, Function.comp_apply, List.length_map, List.length_range, implies_true]

/-- three workers share 20000 entries -/
theorem three_workers_share_window :
    ((List.range 3).map fun i => 20000 * (i + 1) / 3 - 20000 * i / 3).sum = 20000 :=
  (aheadResults_partition plainHdPrimitives (WalletHD.fresh "main" ⟨⟨none, [], [], []⟩, ⟨none, [], [], []⟩⟩
    fun _ => Pod.zero 32) (by decide) (by decide)).2.2.2.2.1

theorem foldl_pushRecord (l : List WalletRecord) (w : WalletHD) :
    ∃ m, l.foldl WalletHD.pushRecord w = { w with walletRecords := w.walletRecords ++ l, recordsMap := m } := by
  induction l generalizing w with
  | nil => exact ⟨w.recordsMap, by simp⟩
  | cons r l ih =>
    obtain ⟨m, hm⟩ := ih (w.pushRecord r)
    exact ⟨m, by rw [List.foldl_cons, hm]; simp [WalletHD.pushRecord]⟩

theorem generateAhead_frame (thc : ℕ) (w : WalletHD) :
    ∃ rs m, generateAhead H thc w = { w with walletRecords := rs, recordsMap := m } := by
  unfold generateAhead
  split
  · exact ⟨w.walletRecords, w.recordsMap, rfl⟩
  · obtain ⟨m, hm⟩ := foldl_pushRecord _ w
    exact ⟨_, m, hm⟩

/-- from the first `k` entries, `generate_ahead` makes the window, for every thread count other than 0 -/
theorem generateAhead_window {thc : ℕ} (hthc : thc ≠ 0) {w : WalletHD} {k : ℕ}
    (hw : w.walletRecords = aheadRecords H w.spendKeyBase k) (hk : k ≤ w.usedAddressCount + generateAheadCount) :
    Window H (generateAhead H thc w) := by
  unfold generateAhead
  split
  · rename_i hge
    rw [hw, length_aheadRecords] at hge
    rw [Window, hw, Nat.le_antisymm hk hge]
  · obtain ⟨m, hm⟩ := foldl_pushRecord (aheadResults H thc w _).flatten w
    rw [hm, Window, aheadResults_flatten H w (.inl hthc), hw, length_aheadRecords, ← aheadRecords_add,
      Nat.add_sub_cancel' hk]

/-- with no threads, a window of 1000 records or more gets nothing -/
theorem generateAhead_no_threads {w : WalletHD}
    (h : w.walletRecords.length + 1000 ≤ w.usedAddressCount + generateAheadCount) : generateAhead H 0 w = w := by
  unfold generateAhead
  split
  · rfl
  · simp only [aheadResults, if_neg (show ¬ w.usedAddressCount + generateAheadCount - w.walletRecords.length < 1000 by
      omega), List.range_zero, List.map_nil, List.flatten_nil, List.foldl_nil]

/-! ## Loading -/

/-- everything a `load()` that returns has read and done -/
theorem load_eq_ok {thc : ℕ} {w w' : WalletHD} (h : load P H thc w = .ok w') :
    ∃ keys counts rows, readKeys P H w = .ok keys ∧ readCounts P H (w.setKeys keys) = .ok counts ∧
      decryptRows (decryptPair P w.walletKey) w.db.current.labels = .ok rows ∧
      w' = { generateAhead H thc { w.setKeys keys with usedAddressCount := counts.1, oldestTimestamp := counts.2 } with
        labels := rows.foldl (fun m r => m.assign bytesLt r.1 r.2) w.labels } := by
  cases hk : readKeys P H w with
  | error e => simp [load, loadKeys, hk, bind, Except.bind, Except.map] at h
  | ok keys =>
    cases hc : readCounts P H (w.setKeys keys) with
    | error e => simp [load, loadKeys, loadCounts, hk, hc, bind, Except.bind, Except.map] at h
    | ok counts =>
      obtain ⟨rs, m, hg⟩ := generateAhead_frame H thc
        { w.setKeys keys with usedAddressCount := counts.1, oldestTimestamp := counts.2 }
      simp only [load, loadKeys, loadCounts, hk, hc, bind, Except.bind, Except.map, loadLabels, hg] at h
      cases hr : decryptRows (decryptPair P w.walletKey) w.db.current.labels with
      | error e => simp [WalletHD.setKeys, hr] at h
      | ok rows =>
        simp only [WalletHD.setKeys, hr, Except.ok.injEq] at h
        exact ⟨keys, counts, rows, rfl, hc, rfl, by rw [hg, ← h]; rfl⟩

/-- a `load()` of an object without records that returns makes the window -/
theorem load_window {thc : ℕ} (hthc : thc ≠ 0) {w w' : WalletHD} (h : load P H thc w = .ok w')
    (hw : w.walletRecords = []) : Window H w' := by
  obtain ⟨keys, counts, rows, -, -, -, rfl⟩ := load_eq_ok P H h
  exact Window.congr H (generateAhead_window H hthc
    (w := { w.setKeys keys with usedAddressCount := counts.1, oldestTimestamp := counts.2 }) (k := 0) hw
    (Nat.zero_le _)) rfl

theorem foldl_pushRecord_setLabels (labels : Rows BinaryArray BinaryArray) (l : List WalletRecord) (w : WalletHD) :
    l.foldl WalletHD.pushRecord { w with labels := labels } = { l.foldl WalletHD.pushRecord w with labels := labels } := by
  induction l generalizing w with
  | nil => rfl
  | cons r l ih => exact ih (w.pushRecord r)

theorem generateAhead_setLabels (thc : ℕ) (labels : Rows BinaryArray BinaryArray) (w : WalletHD) :
    generateAhead H thc { w with labels := labels } = { generateAhead H thc w with labels := labels } := by
  unfold generateAhead
  split
  · rfl
  · exact foldl_pushRecord_setLabels _ _ w

theorem loadLabels_generateAhead (thc : ℕ) (w : WalletHD) :
    loadLabels P (generateAhead H thc w) = (loadLabels P w).map (generateAhead H thc) := by
  obtain ⟨rs, m, hg⟩ := generateAhead_frame H thc w
  unfold loadLabels
  rw [hg]
  dsimp only
  cases decryptRows (decryptPair P w.walletKey) w.db.current.labels with
  | error e => rfl
  | ok rows => simp only [Except.map, generateAhead_setLabels, hg]

/-- the thread count matters to `load()` only through `generate_ahead` -/
theorem load_threads (thc : ℕ) {w : WalletHD} (hw : w.walletRecords = []) :
    load P H thc w = (load P H 0 w).map (generateAhead H thc) := by
  simp only [load, loadKeys, loadCounts, bind, Except.bind, Except.map]
  cases readKeys P H w with
  | error e => rfl
  | ok keys =>
    dsimp only
    cases readCounts P H (w.setKeys keys) with
    | error e => rfl
    | ok counts =>
      dsimp only
      rw [generateAhead_no_threads H (by simp [WalletHD.setKeys, hw, generateAheadCount]),
        loadLabels_generateAhead]
      cases loadLabels P _ <;> rfl

theorem openWallet_threads (net : String) (thc : ℕ) (password : BinaryArray) (committed : Tables)
    (randomHashes : ℕ → Hash) (drawn : ℕ) :
    openWallet P H net thc password committed randomHashes drawn =
      (openWallet P H net 0 password committed randomHashes drawn).map (generateAhead H thc) := by
  unfold openWallet
  dsimp only
  split
  · rfl
  · rw [load_threads P H thc rfl]
    cases load P H 0 _ <;> rfl

/-! ## The calls -/

theorem createLookAheadRecords_window {thc : ℕ} (hthc : thc ≠ 0) {w : WalletHD} (hw : Window H w) (count : ℕ) :
    Window H (createLookAheadRecords P H thc count w) := by
  unfold createLookAheadRecords
  split
  · exact hw
  · refine Window.congr H (generateAhead_window H hthc (w := { w with usedAddressCount := count }) hw
      (show w.usedAddressCount + generateAheadCount ≤ count + generateAheadCount by omega)) ?_
    simp only [commit_window, put_window]

theorem getLookAheadRecord_window {thc : ℕ} (hthc : thc ≠ 0) {w : WalletHD} (hw : Window H w)
    (spendPublicKey : PublicKey) : Window H (getLookAheadRecord P H thc w spendPublicKey).1 := by
  unfold getLookAheadRecord
  split
  · exact hw
  · split
    · exact hw
    · split
      · exact createLookAheadRecords_window P H hthc hw _
      · exact hw

/-- **`generate_new_addresses` keeps the window and returns its next entries**: it never throws `std::out_of_range`
-/
theorem generateNewAddresses_window {thc : ℕ} (hthc : thc ≠ 0) {w : WalletHD} (hw : Window H w)
    (sks : List SecretKey) :
    Window H (generateNewAddresses P H thc sks w).1 ∧
      ((∀ sk ∈ sks, sk = Pod.zero 32) → (generateNewAddresses P H thc sks w).2 =
        .ok ((List.range sks.length).map fun i => aheadRecord H w.spendKeyBase (w.usedAddressCount + i))) := by
  unfold generateNewAddresses
  split
  · rename_i hnz
    refine ⟨hw, fun hz => ?_⟩
    obtain ⟨sk, hm, hne⟩ := List.any_eq_true.1 hnz
    exact absurd (hz sk hm) (of_decide_eq_true hne)
  · split
    · rename_i hnil
      subst hnil
      exact ⟨hw, fun _ => rfl⟩
    · obtain ⟨rs, m, hg⟩ := generateAhead_frame H thc { w with usedAddressCount := w.usedAddressCount + sks.length }
      have hwin := generateAhead_window H hthc (w := { w with usedAddressCount := w.usedAddressCount + sks.length }) hw
        (show _ ≤ w.usedAddressCount + sks.length + generateAheadCount by omega)
      rw [hg] at hwin
      have hrs : rs = aheadRecords H w.spendKeyBase (w.usedAddressCount + sks.length + generateAheadCount) := hwin
      have hrec : recordsAt rs w.usedAddressCount sks.length =
          some ((List.range sks.length).map fun i => aheadRecord H w.spendKeyBase (w.usedAddressCount + i)) := by
        rw [hrs]
        exact recordsAt_aheadRecords H (by omega)
      dsimp only
      rw [hg]
      dsimp only
      rw [hrec]
      exact ⟨Window.congr H hwin (by rw [commit_window, put_window]), fun _ => rfl⟩

/-- one call of the look-ahead property -/
inductive Call where
  | generateNewAddresses (sks : List SecretKey)
  | detectOurOutput (spendPublicKey : PublicKey)
  | setPassword (password : BinaryArray)

/-- the object a call leaves, whether it returns or throws, with `hardware_concurrency()` returning `thc`;
`detect_our_output` changes the object only through `get_look_ahead_record` -/
def Call.run (thc : ℕ) : Call → WalletHD → WalletHD
  | .generateNewAddresses sks, w => (HD.generateNewAddresses P H thc sks w).1
  | .detectOurOutput spendPublicKey, w => (getLookAheadRecord P H thc w spendPublicKey).1
  | .setPassword password, w => (HD.setPassword P password w).1

/-- the objects reached from opening a wallet, or creating one from a mnemonic, then calls, on a platform whose
`hardware_concurrency()` returns `thc` -/
inductive Reachable (thc : ℕ) : WalletHD → Prop
  | opened {w : WalletHD} (net : String) (password : BinaryArray) (committed : Tables) (randomHashes : ℕ → Hash)
      (drawn : ℕ) : openWallet P H net thc password committed randomHashes drawn = .ok w → Reachable thc w
  | created {w : WalletHD} (net : String) (password mnemonic : BinaryArray) (addressType : UInt8)
      (creationTimestamp : Timestamp) (mnemonicPassword : BinaryArray) (randomHashes : ℕ → Hash) (drawn : ℕ) :
      mnemonic ≠ [] →
        createWallet P H net thc password mnemonic addressType creationTimestamp mnemonicPassword randomHashes drawn =
          .ok w → Reachable thc w
  | called {w : WalletHD} (call : Call) : Reachable thc w → Reachable thc (call.run P H thc w)

/-- the object `openWallet` builds before `load()` has no records -/
theorem openWallet_cases {net : String} {thc : ℕ} {password : BinaryArray} {committed : Tables}
    {randomHashes : ℕ → Hash} {drawn : ℕ} {w : WalletHD}
    (h : openWallet P H net thc password committed randomHashes drawn = .ok w) :
    ∃ w0, w0.walletRecords = [] ∧ w0.recordsMap = (fun _ => none) ∧ load P H thc w0 = .ok w := by
  unfold openWallet at h
  dsimp only at h
  split at h
  · cases h
  · split at h
    · cases h
      exact ⟨_, rfl, rfl, ‹_›⟩
    · cases h

/-- the object a creation with a mnemonic builds before `load()` has no records -/
theorem createWallet_cases {net : String} {thc : ℕ} {password mnemonic : BinaryArray} {addressType : UInt8}
    {creationTimestamp : Timestamp} {mnemonicPassword : BinaryArray} {randomHashes : ℕ → Hash} {drawn : ℕ}
    {w : WalletHD} (hm : mnemonic ≠ [])
    (h : createWallet P H net thc password mnemonic addressType creationTimestamp mnemonicPassword randomHashes drawn =
      .ok w) :
    ∃ w0 w1, w0.walletRecords = [] ∧ w0.recordsMap = (fun _ => none) ∧ load P H thc w0 = .ok w1 ∧
      w = w1.commit := by
  unfold createWallet at h
  dsimp only at h
  rw [if_neg hm] at h
  split at h
  · cases h
  · rename_i w0 h0
    have hwin := (onFirstOutputFound_window P H creationTimestamp w0).trans (putCreated_window P H h0)
    simp only [WalletHD.window, Prod.mk.injEq] at hwin
    split at h
    · cases h
      exact ⟨_, _, hwin.2.2.1, hwin.2.2.2, ‹_›, rfl⟩
    · cases h

/-- the window holds in every reachable state, for every thread count other than 0 -/
theorem reachable_window {thc : ℕ} (hthc : thc ≠ 0) {w : WalletHD} (h : Reachable P H thc w) : Window H w := by
  induction h with
  | opened _ _ _ _ _ ho =>
    obtain ⟨w0, hr, -, hl⟩ := openWallet_cases P H ho
    exact load_window P H hthc hl hr
  | created _ _ _ _ _ _ _ _ hm hc =>
    obtain ⟨w0, w1, hr, -, hl, rfl⟩ := createWallet_cases P H hm hc
    exact Window.congr H (load_window P H hthc hl hr) rfl
  | called call _ ih =>
    cases call with
    | generateNewAddresses sks => exact (generateNewAddresses_window P H hthc ih sks).1
    | detectOurOutput spendPublicKey => exact getLookAheadRecord_window P H hthc ih spendPublicKey
    | setPassword password => exact Window.congr H ih (setPassword_window P password _)

end

/-! ## On the computable instance -/

/-- the database a creation from the mnemonic "abandon" commits, under the computable instance -/
def sampleDatabase : Tables :=
  match createWallet hashPrimitives plainHdPrimitives "main" 0 [] (asBinaryArray "abandon") 1 0 []
      (fun _ => Pod.zero 32) 0 with
  | .ok w => w.db.committed
  | .error _ => Tables.empty

end BytecoinWallet.HD
