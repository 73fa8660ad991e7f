/-
The name of a wallet's cache: `Wallet::get_cache_name()` (Wallet.cpp 95-105) is the hex of `cn_fast_hash` of the view
public key, followed by `-view-only` or, when the wallet can view outgoing addresses, `-view-only-voa` for a view-only
wallet. The cache of a wallet's scan results is kept under this name, so an export that reopens under the same name
shares the cache, and one that reopens under another name does not.

Results:
- `exportWallet_cacheName`: the HD wallet reopened from a full export has the wallet's cache name; from a view-only
  export of a spending wallet, the wallet's name followed by `-view-only-voa` when the tx derivation seed was asked for
  and known, else `-view-only`.
- `containerExport_cacheName`: a spending container reopened from a full export has its cache name; from a view-only
  export, its name followed by `-view-only`, whatever `view_outgoing_addresses` asked, since the container export
  never reads it.
-/
import BytecoinWallet.HD.Export
import BytecoinWallet.Container.Backup

namespace BytecoinWallet

/-- `Wallet::get_cache_name()` of an object with view public key `viewPublicKey`, by its `is_view_only()` and
`can_view_outgoing_addresses()` -/
def getCacheName (P : Primitives) (viewPublicKey : PublicKey) (isViewOnly canViewOutgoingAddresses : Bool) : String :=
  let name := toHex (P.cnFastHash viewPublicKey.data).data
  if isViewOnly then
    if canViewOutgoingAddresses then name ++ "-view-only-voa" else name ++ "-view-only"
  else name

theorem getCacheName_false (P : Primitives) (viewPublicKey : PublicKey) (voa : Bool) :
    getCacheName P viewPublicKey false voa = toHex (P.cnFastHash viewPublicKey.data).data :=
  rfl

/-! ## The HD wallet -/

namespace HD

/-- Modelled from the spec: `can_view_outgoing_addresses()` holds when the tx derivation seed is known (§4.1) -/
def WalletHD.canViewOutgoingAddresses (w : WalletHD) : Bool := decide (w.txDerivationSeed ≠ Pod.zero 32)

/-- `get_cache_name()` of the HD wallet -/
def WalletHD.getCacheName (P : Primitives) (w : WalletHD) : String :=
  BytecoinWallet.getCacheName P w.viewPublicKey w.isViewOnly w.canViewOutgoingAddresses

/-- **The cache of a reopened HD export.** Where the thread count is not 0 and the wallet holds its window, the wallet
reopened from a full export has the wallet's cache name; from a view-only export of a spending wallet, the wallet's
name followed by `-view-only-voa` when the tx derivation seed was asked for and is known, else by `-view-only`, when
`generate_hd_spendkeys` makes no secret keys from a zero base secret. The view-only case is stated for a wallet whose
parameters hold neither `spend_key_base_public_key` nor `tx_derivation_seed` (`hno`): a `tx_derivation_seed` already
there would be copied into the export whatever `view_outgoing_addresses` says -/
theorem exportWallet_cacheName {P : Primitives} {S : Set BinaryArray}
    (hinj : ∀ key, Set.InjOn (deriveFromKey P key) S) {H : HdPrimitives} {s : Session} {d : Durable}
    (hr : Refines P S s d) (hload : LoadsBack P H s.wallet)
    (hS : ∀ k ∈ loadParameters s.wallet.net, asBinaryArray "db_parameters" ++ k ∈ S) (viewOnly voa : Bool)
    (hno : (!s.wallet.isViewOnly && viewOnly) = true →
      d.current.parameters (asBinaryArray "spend_key_base_public_key") = none ∧
        d.current.parameters (asBinaryArray "tx_derivation_seed") = none)
    {thc : ℕ} (hthc : thc ≠ 0) (hwin : Window H s.wallet)
    (hsec : ∀ (b : KeyPair) (seed : Hash) (i : ℕ), b.secretKey = Pod.zero 32 →
      (H.hdSpendKey b seed i).secretKey = Pod.zero 32)
    (newPassword : BinaryArray) (rh : ℕ → Hash) (drawn : ℕ) (rh' : ℕ → Hash) (drawn' : ℕ) :
    ∃ t w, exportWallet P H newPassword viewOnly voa rh drawn s.wallet = (t, .ok ()) ∧
      openWallet P H s.wallet.net thc newPassword t rh' drawn' = .ok w ∧
      w.getCacheName P = if (!s.wallet.isViewOnly && viewOnly) = true then
        s.wallet.getCacheName P ++
          (if voa && s.wallet.canViewOutgoingAddresses then "-view-only-voa" else "-view-only")
      else s.wallet.getCacheName P := by
  obtain ⟨t, w, hexp, hopen, hkeys, hrs⟩ :=
    exportWallet_window hinj hr hload hS viewOnly voa hno hthc newPassword rh drawn rh' drawn'
  refine ⟨t, w, hexp, hopen, ?_⟩
  have hvpk : w.viewPublicKey = s.wallet.viewPublicKey := by
    rw [show w.viewPublicKey = w.keys.viewPublicKey from rfl, hkeys, exportedKeys]
    split_ifs <;> rfl
  by_cases hb : (!s.wallet.isViewOnly && viewOnly) = true
  · rw [if_pos hb]
    have hv : w.isViewOnly = true := isViewOnly_aheadRecords hsec (n := s.wallet.usedAddressCount + 19999)
      (by rw [hrs, exportedKeys, if_pos hb]; rfl)
    have hs : s.wallet.isViewOnly = false := by
      simp only [Bool.and_eq_true, Bool.not_eq_true'] at hb
      exact hb.1
    have htds : w.txDerivationSeed = if voa then s.wallet.txDerivationSeed else Pod.zero 32 := by
      rw [show w.txDerivationSeed = w.keys.txDerivationSeed from rfl, hkeys, exportedKeys, if_pos hb]
    have hcan : w.canViewOutgoingAddresses = (voa && s.wallet.canViewOutgoingAddresses) := by
      cases voa <;> simp [WalletHD.canViewOutgoingAddresses, htds]
    rw [WalletHD.getCacheName, WalletHD.getCacheName, hv, hs, hvpk, hcan, getCacheName_false, getCacheName, if_pos rfl]
    split_ifs <;> rfl
  · rw [if_neg hb]
    have hk : w.keys = s.wallet.keys := by rw [hkeys, exportedKeys, if_neg hb]
    have hrec : w.walletRecords = s.wallet.walletRecords := by
      rw [hrs, exportedKeys, if_neg hb, hwin]
      rfl
    rw [WalletHD.getCacheName, WalletHD.getCacheName, WalletHD.isViewOnly, WalletHD.isViewOnly, hrec, hvpk,
      WalletHD.canViewOutgoingAddresses, WalletHD.canViewOutgoingAddresses,
      show w.txDerivationSeed = s.wallet.txDerivationSeed from congrArg HdKeys.txDerivationSeed hk]

/-- the `abandon` wallet, exported view-only and reopened with one thread, has its cache name followed by a suffix -/
theorem abandon_export_cacheName :
    ∃ w t w', openWallet prefixPrimitives baseHdPrimitives "main" 1 [] abandonTables (fun _ => Pod.zero 32) 0 = .ok w ∧
      exportWallet prefixPrimitives baseHdPrimitives [1] true false (fun _ => Pod.zero 32) 1 w = (t, .ok ()) ∧
      openWallet prefixPrimitives baseHdPrimitives "main" 1 [1] t (fun _ => Pod.zero 32) 0 = .ok w' ∧
      w'.getCacheName prefixPrimitives = if (!w.isViewOnly && true) = true then
        w.getCacheName prefixPrimitives ++
          (if false && w.canViewOutgoingAddresses then "-view-only-voa" else "-view-only")
      else w.getCacheName prefixPrimitives := by
  obtain ⟨w, ho, hnet, hr, hl, hwin⟩ := abandon_opens
  obtain ⟨t, w', hexp, hopen, hc⟩ := exportWallet_cacheName prefixPrimitives_injOn hr hl
    (hnet ▸ loadParameters_main) true false (fun _ => abandonContents_viewOnlyKeys) one_ne_zero hwin
    (fun _ _ _ h => h) [1] (fun _ => Pod.zero 32) 1 (fun _ => Pod.zero 32) 0
  rw [hnet] at hopen
  exact ⟨w, t, w', ho, hexp, hopen, hc⟩

end HD

/-! ## The container -/

namespace Container

/-- Modelled from the spec: `can_view_outgoing_addresses()` holds when the tx derivation seed is known (§4.1) -/
def WalletContainerStorage.canViewOutgoingAddresses (c : WalletContainerStorage) : Bool :=
  decide (c.txDerivationSeed ≠ Pod.zero 32)

/-- `get_cache_name()` of the container -/
def WalletContainerStorage.getCacheName (P : Primitives) (c : WalletContainerStorage) : String :=
  BytecoinWallet.getCacheName P c.viewPublicKey c.isViewOnly c.canViewOutgoingAddresses

section
variable (P : Primitives)

/-- **The cache of a reopened container export.** From every reachable spending container `export_wallet` returns,
and opening the exported file with the new password gives an object with the container's cache name after a full
export, and the container's name followed by `-view-only` after a view-only one, whatever `view_outgoing_addresses`
asked -/
theorem containerExport_cacheName {net : String} {c : WalletContainerStorage} (hc : Reachable P net c)
    (hs : c.isViewOnly = false) (newPassword : BinaryArray) (viewOnly voa : Bool) (ivs ivs' : ℕ → ChachaIv) :
    ∃ f c', exportWallet P newPassword viewOnly voa ivs c = .ok f ∧ openWithPassword P newPassword f ivs' = .ok c' ∧
      c'.getCacheName P = if viewOnly then c.getCacheName P ++ "-view-only" else c.getCacheName P := by
  have hk := (stored_of_reachable P hc).keys
  obtain ⟨c', ho, hvp, -, hrs⟩ := openWithKey_saveBytes P hk (P.generateChacha8Key newPassword) viewOnly ivs ivs'
  refine ⟨_, c', exportWallet_of_keysValid P hk newPassword viewOnly voa ivs, ho, ?_⟩
  obtain ⟨r, rs, hcr⟩ := List.exists_cons_of_ne_nil hk.nonempty
  cases viewOnly with
  | true =>
    have hvo : c'.isViewOnly = true := by
      rw [WalletContainerStorage.isViewOnly, hrs, hcr]
      rfl
    have hseeds := seedsLoaded_of_reachable P (show Reachable P net c' from .opened c _ true ivs ivs' hk ho)
    rw [SeedsLoaded, loadedSeeds, if_pos hvo] at hseeds
    have htds : c'.txDerivationSeed = Pod.zero 32 := congrArg (fun s => s.2.1) hseeds
    rw [WalletContainerStorage.getCacheName, WalletContainerStorage.getCacheName, hvo, hs, hvp, getCacheName_false,
      getCacheName, WalletContainerStorage.canViewOutgoingAddresses, htds]
    simp
  | false =>
    have hvo : c'.isViewOnly = false := by rw [← hs, WalletContainerStorage.isViewOnly, hrs, map_savedRecord_false]; rfl
    rw [WalletContainerStorage.getCacheName, WalletContainerStorage.getCacheName, hvo, hs, hvp]
    rfl

end

set_option maxRecDepth 100000 in
/-- the opened `sampleWallet`, exported view-only under the password `[1]` with outgoing addresses asked for, reopens
under its cache name followed by `-view-only` -/
theorem sampleWallet_export_cacheName :
    ∃ c f c', Reachable plainPrimitives "main" c ∧ c.isViewOnly = false ∧
      exportWallet plainPrimitives [1] true true zeroIvs c = .ok f ∧
      openWithPassword plainPrimitives [1] f zeroIvs = .ok c' ∧
      c'.getCacheName plainPrimitives = c.getCacheName plainPrimitives ++ "-view-only" := by
  obtain ⟨c, hc, hvo⟩ : ∃ c, Reachable plainPrimitives "main" c ∧ c.isViewOnly = false :=
    ⟨_, .opened sampleWallet (Pod.zero 32) false zeroIvs zeroIvs sampleWallet_keysValid rfl, rfl⟩
  obtain ⟨f, c', hf, ho, hname⟩ := containerExport_cacheName plainPrimitives hc hvo [1] true true zeroIvs zeroIvs
  exact ⟨c, f, c', hc, hvo, hf, ho, hname⟩

end Container

end BytecoinWallet
