/-
The transaction histories of a container wallet: `save_history` and `load_history` (Wallet.cpp 553-603).

A history is the set of addresses one transaction was sent from (`Wallet::History`, a `std::set` of
`AccountAddressSimple`). It lives in the history folder, in the file named by the hex of
`cn_fast_hash(tid ‖ m_history_filename_seed)`, as `iv ‖ chacha8(m_history_key, iv, view₀ ‖ spend₀ ‖ view₁ ‖ ...)`.
`load_history` gives the empty set for a missing file, a file shorter than the iv, or a payload that is not whole
64-byte pairs. The folder is a map from file names to contents; `save_history` draws its iv, and the outcomes of
`create_folders_if_necessary` and `atomic_save_file` are inputs of the call (`HistorySave`).

Results:
- `loadHistory_of_file`: a file written by `save_history` for a set `H` loads back as exactly `H` (the iv prefix,
  the 64-byte pair layout and the size check), for every `H`.
- `historyFileName_ne`: under an injective file-name hash, two tids name two files, through the hex encoding.
- `loadHistory_after_saveHistory`: after `save_history(tid, H)` returns true, `load_history(tid)` gives `H` at every
  later point until the next save for `tid`, when `H` is not empty. For the empty set `save_history` returns true
  without writing, so `load_history` gives whatever it gave before the call.
- `empty_save_keeps_history`: a history saved for a tid, then the empty set saved for it, still loads.
The cipher needs no premise: `chachaXor` under one keystream is its own inverse (`chachaXor_chachaXor`).
-/
import BytecoinWallet.Container.Format
import Mathlib.Data.List.Sort
import Mathlib.Data.String.Basic

namespace BytecoinWallet

/-! ## The order of addresses -/

/-- the bytes the order of addresses compares: the spend key, then the view key -/
def AccountAddressSimple.orderBytes (a : AccountAddressSimple) : BinaryArray :=
  a.spendPublicKey.data ++ a.viewPublicKey.data

/-- Modelled from the spec: the order of `std::set<AccountAddressSimple>` (declared outside src/) compares the spend
keys, then the view keys, bytewise -/
def AccountAddressSimple.Before (a b : AccountAddressSimple) : Prop :=
  bytesLt a.orderBytes b.orderBytes = true

instance : DecidableRel AccountAddressSimple.Before := fun _ _ => inferInstanceAs (Decidable (_ = true))

theorem AccountAddressSimple.orderBytes_injective : Function.Injective AccountAddressSimple.orderBytes := by
  rintro ⟨⟨s1, hs1⟩, ⟨v1, hv1⟩⟩ ⟨⟨s2, hs2⟩, ⟨v2, hv2⟩⟩ h
  obtain ⟨rfl, rfl⟩ := List.append_inj h (hs1.trans hs2.symm)
  rfl

instance : IsIrrefl AccountAddressSimple AccountAddressSimple.Before :=
  ⟨fun a h => by simp [AccountAddressSimple.Before, bytesLt_irrefl] at h⟩

instance : IsTrans AccountAddressSimple AccountAddressSimple.Before :=
  ⟨fun _ _ _ => bytesLt_trans⟩

instance : IsAntisymm AccountAddressSimple AccountAddressSimple.Before :=
  ⟨fun a _ hab hba => absurd (trans_of AccountAddressSimple.Before hab hba) (irrefl a)⟩

theorem AccountAddressSimple.before_of_not_before {a b : AccountAddressSimple} (hne : a ≠ b) (h : ¬a.Before b) :
    b.Before a :=
  bytesLt_total (fun he => hne (orderBytes_injective he)) (by simpa [Before] using h)

namespace Container

/-! ## Histories -/

/-- `Wallet::History`: a set of addresses, as the ascending list a `std::set` iterates -/
structure History where
  addresses : List AccountAddressSimple
  ascending : addresses.Sorted AccountAddressSimple.Before

/-- the empty set -/
def History.empty : History := ⟨[], List.sorted_nil⟩

/-- an ascending list with `a` inserted in place, unless it is there already -/
def insertAddress (a : AccountAddressSimple) : List AccountAddressSimple → List AccountAddressSimple
  | [] => [a]
  | b :: bs => if a = b then b :: bs else if a.Before b then a :: b :: bs else b :: insertAddress a bs

@[simp] theorem mem_insertAddress {a x : AccountAddressSimple} :
    ∀ {l : List AccountAddressSimple}, x ∈ insertAddress a l ↔ x = a ∨ x ∈ l
  | [] => by simp [insertAddress]
  | b :: bs => by
    unfold insertAddress
    split_ifs with hab
    · subst hab; simp
    · simp
    · simp only [List.mem_cons, mem_insertAddress]; tauto

theorem sorted_insertAddress (a : AccountAddressSimple) :
    ∀ {l : List AccountAddressSimple}, l.Sorted AccountAddressSimple.Before →
      (insertAddress a l).Sorted AccountAddressSimple.Before
  | [], _ => List.sorted_singleton a
  | b :: bs, h => by
    rw [List.sorted_cons] at h
    unfold insertAddress
    split_ifs with hab hlt
    · exact List.sorted_cons.2 h
    · exact List.sorted_cons.2 ⟨fun c hc => (List.mem_cons.1 hc).elim (· ▸ hlt) (trans_of AccountAddressSimple.Before hlt ∘ h.1 c),
        List.sorted_cons.2 h⟩
    · have hba := AccountAddressSimple.before_of_not_before hab hlt
      refine List.sorted_cons.2 ⟨fun c hc => ?_, sorted_insertAddress a h.2⟩
      rcases mem_insertAddress.1 hc with rfl | hc
      exacts [hba, h.1 c hc]

/-- `History::insert` -/
def History.insert (h : History) (a : AccountAddressSimple) : History :=
  ⟨insertAddress a h.addresses, sorted_insertAddress a h.ascending⟩

theorem History.ext_of_mem {h₁ h₂ : History} (h : ∀ a, a ∈ h₁.addresses ↔ a ∈ h₂.addresses) : h₁ = h₂ := by
  have hp := (List.perm_ext_iff_of_nodup h₁.ascending.nodup h₂.ascending.nodup).2 h
  cases h₁; cases h₂
  congr
  exact List.eq_of_perm_of_sorted hp ‹_› ‹_›

theorem mem_foldl_insert (l : List AccountAddressSimple) :
    ∀ (h : History) (x : AccountAddressSimple), x ∈ (l.foldl History.insert h).addresses ↔ x ∈ h.addresses ∨ x ∈ l := by
  induction l with
  | nil => simp
  | cons a l ih => intro h x; simp only [List.foldl_cons, ih, History.insert, mem_insertAddress, List.mem_cons]; tauto

/-! ## History files -/

/-- the plaintext of a history file: the view key then the spend key of each address, in the set's order -/
def historyData (h : History) : BinaryArray :=
  (h.addresses.map fun a => a.viewPublicKey.data ++ a.spendPublicKey.data).flatten

/-- the address the two `memcpy`s of `load_history` read from the start of `bs`: the view key, then the spend key -/
def addressOfBytes (bs : BinaryArray) : AccountAddressSimple where
  spendPublicKey := Pod.ofBytes 32 (bs.drop 32)
  viewPublicKey := Pod.ofBytes 32 bs

/-- the name of the history file of `tid`: `pod_to_hex(cn_fast_hash(tid ‖ m_history_filename_seed)) + ".txh"` -/
def historyFileName (P : Primitives) (c : WalletContainerStorage) (tid : Hash) : String :=
  toHex (P.cnFastHash (tid.data ++ c.historyFilenameSeed.data)).data ++ ".txh"

/-- the files of the history folder -/
abbrev HistoryFolder := String → Option BinaryArray

/-- one call of `save_history(tid, used_addresses)`: its arguments, the iv it draws, and whether
`create_folders_if_necessary` and `atomic_save_file` succeed -/
structure HistorySave where
  tid : Hash
  usedAddresses : History
  iv : ChachaIv
  foldersCreated : Bool
  fileSaved : Bool

section
variable (P : Primitives)

/-- `save_history`: the history folder after the call, and what it returns. An empty set is not written; a failed
`atomic_save_file` leaves the file as it was -/
def saveHistory (c : WalletContainerStorage) (s : HistorySave) (folder : HistoryFolder) : HistoryFolder × Bool :=
  if !s.foldersCreated then (folder, false)
  else if s.usedAddresses.addresses = [] then (folder, true)
  else if !s.fileSaved then (folder, false)
  else (Function.update folder (historyFileName P c s.tid)
    (some (s.iv.data ++ chachaXor (P.chacha 8 c.historyKey s.iv) (historyData s.usedAddresses))), true)

/-- the history folder after the saves `saves`, oldest first -/
def saveHistories (c : WalletContainerStorage) (saves : List HistorySave) (folder : HistoryFolder) : HistoryFolder :=
  saves.foldl (fun f s => (saveHistory P c s f).1) folder

/-- `load_history(tid)` -/
def loadHistory (c : WalletContainerStorage) (tid : Hash) (folder : HistoryFolder) : History :=
  match folder (historyFileName P c tid) with
  | none => History.empty
  | some hist =>
    if hist.length < 8 ∨ (hist.length - 8) % 64 ≠ 0 then History.empty
    else
      let dec := chachaXor (P.chacha 8 c.historyKey (Pod.ofBytes 8 hist)) (hist.drop 8)
      ((List.range (dec.length / 64)).map fun i => addressOfBytes (dec.drop (64 * i))).foldl History.insert
        History.empty

end

/-! ## The file round trip -/

theorem length_historyData (as : List AccountAddressSimple) :
    ((as.map fun a => a.viewPublicKey.data ++ a.spendPublicKey.data).flatten).length = 64 * as.length := by
  induction as with
  | nil => rfl
  | cons a as ih =>
    simp only [List.map_cons, List.flatten_cons, List.length_append, ih, a.viewPublicKey.size_eq,
      a.spendPublicKey.size_eq, List.length_cons]
    omega

/-- the 64-byte pairs of a history's plaintext read back as its addresses -/
theorem decode_historyData (as : List AccountAddressSimple) :
    (List.range ((as.map fun a => a.viewPublicKey.data ++ a.spendPublicKey.data).flatten.length / 64)).map
      (fun i => addressOfBytes ((as.map fun a => a.viewPublicKey.data ++ a.spendPublicKey.data).flatten.drop (64 * i)))
      = as := by
  rw [length_historyData, Nat.mul_div_cancel_left _ (by decide)]
  induction as with
  | nil => rfl
  | cons a as ih =>
    have hhead : addressOfBytes (a.viewPublicKey.data ++ a.spendPublicKey.data ++
        (as.map fun a => a.viewPublicKey.data ++ a.spendPublicKey.data).flatten) = a := by
      simp only [addressOfBytes, List.append_assoc, Pod.ofBytes_append,
        List.drop_left' a.viewPublicKey.size_eq]
    have hdrop : ∀ i, (a.viewPublicKey.data ++ a.spendPublicKey.data ++
        (as.map fun a => a.viewPublicKey.data ++ a.spendPublicKey.data).flatten).drop (64 * (i + 1)) =
        (as.map fun a => a.viewPublicKey.data ++ a.spendPublicKey.data).flatten.drop (64 * i) := by
      intro i
      rw [Nat.mul_succ, Nat.add_comm, ← List.drop_drop,
        List.drop_left' (by simp [a.viewPublicKey.size_eq, a.spendPublicKey.size_eq])]
    simp only [List.length_cons, List.range_succ_eq_map, List.map_cons, List.map_map, List.map_cons,
      List.flatten_cons, Nat.mul_zero, List.drop_zero, hhead, Function.comp_def, hdrop, ih]

/-- a file that `save_history` wrote for `h` loads back as `h` -/
theorem loadHistory_of_file (P : Primitives) (c : WalletContainerStorage) (tid : Hash) (h : History) (iv : ChachaIv)
    (folder : HistoryFolder)
    (hf : folder (historyFileName P c tid) = some (iv.data ++ chachaXor (P.chacha 8 c.historyKey iv) (historyData h))) :
    loadHistory P c tid folder = h := by
  have hlen : (iv.data ++ chachaXor (P.chacha 8 c.historyKey iv) (historyData h)).length =
      8 + 64 * h.addresses.length := by
    rw [List.length_append, iv.size_eq, length_chachaXor, historyData, length_historyData]
  simp only [loadHistory, hf, hlen, Pod.ofBytes_append, List.drop_left' iv.size_eq, chachaXor_chachaXor]
  rw [if_neg (by omega), historyData, decode_historyData]
  exact History.ext_of_mem fun x => by simp [mem_foldl_insert, History.empty]

/-! ## File names -/

theorem digitChar_inj : ∀ x < 16, ∀ y < 16, Nat.digitChar x = Nat.digitChar y → x = y := by decide

theorem hexPair_injective {a b : UInt8}
    (h : [Nat.digitChar (a.toNat / 16), Nat.digitChar (a.toNat % 16)] =
      [Nat.digitChar (b.toNat / 16), Nat.digitChar (b.toNat % 16)]) : a = b := by
  have ha : a.toNat < 256 := a.toNat_lt_size
  have hb : b.toNat < 256 := b.toNat_lt_size
  simp only [List.cons.injEq, and_true] at h
  have h1 := digitChar_inj _ (by omega) _ (by omega) h.1
  have h2 := digitChar_inj _ (Nat.mod_lt _ (by decide)) _ (Nat.mod_lt _ (by decide)) h.2
  exact UInt8.toNat.inj (by omega)

theorem toHex_injective : Function.Injective toHex := by
  intro as bs h
  replace h := congrArg String.data h
  simp only [toHex, String.data_join, List.map_map, Function.comp_def] at h
  induction as generalizing bs with
  | nil => cases bs <;> simp_all
  | cons a as ih =>
    cases bs with
    | nil => simp at h
    | cons b bs =>
      simp only [List.map_cons, List.flatten_cons] at h
      obtain ⟨hab, hrest⟩ := List.append_inj h rfl
      rw [hexPair_injective hab, ih hrest]

/-- two tids name two files, when the file-name hash tells them apart -/
theorem historyFileName_ne (P : Primitives) (c : WalletContainerStorage) {t tid : Hash}
    (hinj : P.cnFastHash (t.data ++ c.historyFilenameSeed.data) =
      P.cnFastHash (tid.data ++ c.historyFilenameSeed.data) → t = tid) (hne : t ≠ tid) :
    historyFileName P c t ≠ historyFileName P c tid := by
  intro h
  have h' := List.append_cancel_right (congrArg String.data h)
  have hd := congrArg (Pod.ofBytes 32) (toHex_injective (String.ext h'))
  exact hne (hinj (by simpa only [Pod.ofBytes_data] using hd))

/-! ## Saves and loads -/

section
variable (P : Primitives)

theorem saveHistory_other (c : WalletContainerStorage) (s : HistorySave) (folder : HistoryFolder) {tid : Hash}
    (hname : historyFileName P c s.tid ≠ historyFileName P c tid) :
    (saveHistory P c s folder).1 (historyFileName P c tid) = folder (historyFileName P c tid) := by
  unfold saveHistory
  split_ifs <;> simp [Function.update_noteq hname.symm]

theorem saveHistories_other (c : WalletContainerStorage) {tid : Hash}
    (hinj : ∀ t, P.cnFastHash (t.data ++ c.historyFilenameSeed.data) =
      P.cnFastHash (tid.data ++ c.historyFilenameSeed.data) → t = tid) :
    ∀ (later : List HistorySave) (folder : HistoryFolder), (∀ s ∈ later, s.tid ≠ tid) →
      saveHistories P c later folder (historyFileName P c tid) = folder (historyFileName P c tid)
  | [], _, _ => rfl
  | s :: later, folder, h => by
    rw [saveHistories, List.foldl_cons, ← saveHistories,
      saveHistories_other c hinj later _ fun s' hs' => h s' (List.mem_cons_of_mem s hs'),
      saveHistory_other P c s folder (historyFileName_ne P c (hinj s.tid) (h s (List.mem_cons_self s later)))]

theorem loadHistory_congr (c : WalletContainerStorage) (tid : Hash) {f₁ f₂ : HistoryFolder}
    (h : f₁ (historyFileName P c tid) = f₂ (historyFileName P c tid)) : loadHistory P c tid f₁ = loadHistory P c tid f₂ := by
  simp only [loadHistory, h]

/-- what a save that returned true leaves in the file of its tid: the set, or for the empty set the file before -/
theorem saveHistory_file (c : WalletContainerStorage) (s : HistorySave) (folder : HistoryFolder)
    (hret : (saveHistory P c s folder).2 = true) :
    loadHistory P c s.tid (saveHistory P c s folder).1 =
      if s.usedAddresses.addresses = [] then loadHistory P c s.tid folder else s.usedAddresses := by
  unfold saveHistory at hret ⊢
  split_ifs at hret ⊢ with h1 h2 h3
  · rfl
  · exact loadHistory_of_file P c s.tid s.usedAddresses s.iv _ (Function.update_same _ _ _)

theorem loadHistory_after_saveHistory {c : WalletContainerStorage} (s : HistorySave)
    (hinj : ∀ t, P.cnFastHash (t.data ++ c.historyFilenameSeed.data) =
      P.cnFastHash (s.tid.data ++ c.historyFilenameSeed.data) → t = s.tid)
    (folder : HistoryFolder) (hret : (saveHistory P c s folder).2 = true)
    (later : List HistorySave) (hlater : ∀ s' ∈ later, s'.tid ≠ s.tid) :
    loadHistory P c s.tid (saveHistories P c later (saveHistory P c s folder).1) =
      if s.usedAddresses.addresses = [] then loadHistory P c s.tid folder else s.usedAddresses := by
  rw [loadHistory_congr P c s.tid (saveHistories_other P c hinj later _ hlater), saveHistory_file P c s folder hret]

end

/-- saving one address for the zero tid, then the empty history for it: both saves return true, and what loads back
is the one address the first save wrote -/
theorem empty_save_keeps_history :
    ∃ folder folder', saveHistory plainPrimitives (WalletContainerStorage.fresh (Pod.zero 32) [])
        ⟨Pod.zero 32, History.empty.insert ⟨Pod.zero 32, Pod.zero 32⟩, Pod.zero 8, true, true⟩ (fun _ => none) =
        (folder, true) ∧
      saveHistory plainPrimitives (WalletContainerStorage.fresh (Pod.zero 32) [])
        ⟨Pod.zero 32, History.empty, Pod.zero 8, true, true⟩ folder = (folder', true) ∧
      (loadHistory plainPrimitives (WalletContainerStorage.fresh (Pod.zero 32) []) (Pod.zero 32) folder').addresses =
        [⟨Pod.zero 32, Pod.zero 32⟩] :=
  ⟨_, _, rfl, rfl, by decide⟩

end Container

end BytecoinWallet
