/-
Crashes during the calls that write the container file.

A crash keeps every operation on the file up to the last `fsync` and any of the writes issued after it, and
`atomic_replace_file` puts a synced file in place at once (`CrashImage`). `generate_new_addresses` appends the new
records at `wallet_file_size(n)`, syncs, writes the count as capacity and as count and syncs again, and after a lowered
timestamp replaces the whole file with `save_and_check` (`generate_events`). A crash then leaves the old file with
bytes after it, the file of all the records under any pair of old and new counts, or the replaced file
(`crashImage_generate`). The reader takes `min(count, capacity)` records, so only both new counts show the new records.

`crash_keeps_records`: from every object reached as in `fileMatches_of_reachable`, at every crash point of every call,
reopening the file yields the view keys and the records before the call, or the file after the call, or the records
before the call followed by the appended ones as they were written. The last is not the wallet after the call when the
call lowered the timestamp of a record already there: `save_and_check` rewrites the file only after the counts are
durable (`crash_before_rescan_save`). In every case the records before the call are still there.
-/
import BytecoinWallet.Container.Invariant

namespace BytecoinWallet.Container

/-! ## The crash model -/

/-- one operation on the durable bytes and on the operations issued since the last `fsync` or `replace`: `fsync` makes
them durable, `atomic_replace_file` puts a synced file in place -/
def syncStep : BinaryArray × List FileEvent → FileEvent → BinaryArray × List FileEvent
  | (d, pending), .write pos data => (d, pending ++ [.write pos data])
  | (d, pending), .fsync => (pending.foldl FileEvent.apply d, [])
  | (d, pending), .truncate size => (d, pending ++ [.truncate size])
  | _, .replace contents => (contents, [])

/-- a file a crash can leave when the operations `es` were issued on a file `f` that was durable: the durable bytes
with any of the operations issued after the last `fsync` or `replace`, in the order they were issued -/
def CrashImage (f : BinaryArray) (es : List FileEvent) (g : BinaryArray) : Prop :=
  ∃ kept : List FileEvent, kept.Sublist (es.foldl syncStep (f, [])).2 ∧
    g = kept.foldl FileEvent.apply (es.foldl syncStep (f, [])).1

/-- the operations of `writeCounts`: `fsync`, the record count written as capacity and as count, `fsync` -/
def countWrites (n : ℕ) : List FileEvent :=
  [.fsync, .write (1 + sizeofContainerStoragePrefix) (uintLeToBytes 8 n),
    .write (1 + sizeofContainerStoragePrefix + 8) (uintLeToBytes 8 n), .fsync]

theorem writeCounts_journal (c : WalletContainerStorage) :
    c.writeCounts.journal = c.journal ++ countWrites c.walletRecords.length := by
  simp [WalletContainerStorage.writeCounts, WalletContainerStorage.emit, countWrites]

theorem foldl_syncStep_writes (d : BinaryArray) : ∀ (ws pending : List FileEvent),
    (∀ e ∈ ws, ∃ q data, e = .write q data) → ws.foldl syncStep (d, pending) = (d, pending ++ ws)
  | [], pending, _ => by simp
  | e :: ws, pending, h => by
    obtain ⟨q, data, rfl⟩ := h e (List.mem_cons_self _ _)
    rw [List.foldl_cons, syncStep, foldl_syncStep_writes d ws _ (fun e he => h e (List.mem_cons_of_mem _ he)),
      List.append_assoc, List.singleton_append]

theorem mem_appendWrites : ∀ {pos : ℕ} {es : List EncryptedWalletRecord} {e : FileEvent},
    e ∈ appendWrites pos es → ∃ q data, e = .write q data ∧ pos ≤ q
  | _, [], _, h => by simp [appendWrites] at h
  | pos, x :: es, e, h => by
    rcases List.mem_cons.1 h with rfl | h
    · exact ⟨pos, x.bytes, rfl, le_rfl⟩
    · obtain ⟨q, data, rfl, hq⟩ := mem_appendWrites h
      exact ⟨q, data, rfl, by omega⟩

theorem foldl_apply_appendWrites : ∀ (es : List EncryptedWalletRecord) (f : BinaryArray),
    (appendWrites f.length es).foldl FileEvent.apply f = f ++ (es.map EncryptedWalletRecord.bytes).flatten
  | [], f => by simp [appendWrites]
  | e :: es, f => by
    have h := foldl_apply_appendWrites es (f ++ e.bytes)
    rw [List.length_append, length_bytes] at h
    rw [appendWrites, List.foldl_cons, FileEvent.apply, writeAt_length, h]
    simp

theorem foldl_writes_above {L : ℕ} : ∀ (ws : List FileEvent), (∀ e ∈ ws, ∃ q data, e = .write q data ∧ L ≤ q) →
    ∀ (f : BinaryArray), L ≤ f.length →
      (ws.foldl FileEvent.apply f).take L = f.take L ∧ L ≤ (ws.foldl FileEvent.apply f).length
  | [], _, _, hf => ⟨rfl, hf⟩
  | e :: ws, h, f, hf => by
    obtain ⟨q, data, rfl, hq⟩ := h e (List.mem_cons_self _ _)
    have hlen : L ≤ (writeAt f q data).length := by rw [length_writeAt]; omega
    obtain ⟨h1, h2⟩ := foldl_writes_above ws (fun e he => h e (List.mem_cons_of_mem _ he)) _ hlen
    exact ⟨by rw [List.foldl_cons, FileEvent.apply, h1, take_writeAt data hq hf], h2⟩

theorem prefix_append_cases {α : Type} {l a b : List α} (h : l <+: a ++ b) : l <+: a ∨ ∃ t, l = a ++ t ∧ t <+: b := by
  obtain ⟨u, hu⟩ := h
  rcases List.append_eq_append_iff.1 hu with ⟨a', rfl, -⟩ | ⟨t, rfl, hb⟩
  · exact .inl ⟨a', rfl⟩
  · exact .inr ⟨t, rfl, ⟨u, hb.symm⟩⟩

/-! ## What a crash leaves -/

/-- **The files a crash can leave during `generate_new_addresses`** on the file of `es` that appends `es'`: that file
with bytes after it (the appends are pending), the file of `es ++ es'` under any pair of old and new counts (the
appends are durable), or the file `save_and_check` put in place -/
theorem crashImage_generate {p : ContainerStoragePrefix} {es es' : List EncryptedWalletRecord}
    {tail evs : List FileEvent} {F g : BinaryArray} (htail : tail <+: countWrites (es ++ es').length ++ [.replace F])
    (hevs : evs <+: appendWrites (walletFileSize es.length) es' ++ tail)
    (hg : CrashImage (containerBytes p es.length es.length es) evs g) :
    (∃ rest, g = containerBytes p es.length es.length es ++ rest) ∨
    (∃ cap cnt, (cap = es.length ∨ cap = (es ++ es').length) ∧ (cnt = es.length ∨ cnt = (es ++ es').length) ∧
      g = containerBytes p cap cnt (es ++ es')) ∨
    (tail = countWrites (es ++ es').length ++ [.replace F] ∧ g = F) := by
  set f := containerBytes p es.length es.length es
  have hpos : walletFileSize es.length = f.length := (length_containerBytes p _ _ es).symm
  have hw : ∀ e ∈ appendWrites (walletFileSize es.length) es', ∃ q data, e = .write q data := fun e he => by
    obtain ⟨q, data, rfl, -⟩ := mem_appendWrites he
    exact ⟨q, data, rfl⟩
  obtain ⟨kept, hkept, rfl⟩ := hg
  -- while the appends are pending, the first `wallet_file_size(n)` bytes stay
  have hpending : ∀ ws, ws ⊆ appendWrites (walletFileSize es.length) es' → kept.Sublist ws →
      ∃ rest, kept.foldl FileEvent.apply f = f ++ rest := by
    intro ws hws hk
    have hab : ∀ e ∈ kept, ∃ q data, e = .write q data ∧ f.length ≤ q := fun e he => by
      obtain ⟨q, data, rfl, hq⟩ := mem_appendWrites (hws (hk.subset he))
      exact ⟨q, data, rfl, hpos ▸ hq⟩
    refine ⟨(kept.foldl FileEvent.apply f).drop f.length, ?_⟩
    conv_lhs => rw [← List.take_append_drop f.length (kept.foldl FileEvent.apply f)]
    rw [(foldl_writes_above kept hab f le_rfl).1, List.take_length]
  rcases prefix_append_cases hevs with hevs | ⟨t, rfl, ht⟩
  · rw [foldl_syncStep_writes f evs [] (fun e he => hw e (hevs.subset he)), List.nil_append] at hkept ⊢
    exact .inl (hpending evs hevs.subset hkept)
  -- after the first `fsync` the appends are durable
  rw [List.foldl_append, foldl_syncStep_writes f _ [] hw, List.nil_append] at hkept ⊢
  have hD : (appendWrites (walletFileSize es.length) es').foldl FileEvent.apply f =
      containerBytes p es.length es.length (es ++ es') := by
    rw [hpos, foldl_apply_appendWrites]
    simp [f, containerBytes]
  have hcap := writeAt_capacity p es.length es.length (es ++ es') (es ++ es').length
  have hcnt := fun cap => writeAt_count p cap es.length (es ++ es') (es ++ es').length
  obtain ⟨k, rfl⟩ : ∃ k, t = (countWrites (es ++ es').length ++ [FileEvent.replace F]).take k :=
    ⟨_, List.prefix_iff_eq_take.1 (ht.trans htail)⟩
  rcases k with _ | _ | _ | _ | _ | k
  · simp only [List.take_zero, List.foldl_nil] at hkept ⊢
    exact .inl (hpending _ (List.Subset.refl _) hkept)
  · simp only [countWrites, List.take, List.cons_append, List.foldl_cons, List.foldl_nil, syncStep, hD,
      List.sublist_nil] at hkept ⊢
    subst hkept
    exact .inr (.inl ⟨_, _, .inl rfl, .inl rfl, rfl⟩)
  · simp only [countWrites, List.take, List.cons_append, List.foldl_cons, List.foldl_nil, syncStep, hD,
      List.nil_append, List.sublist_cons_iff, List.sublist_nil] at hkept ⊢
    rcases hkept with rfl | ⟨r, rfl, rfl⟩
    · exact .inr (.inl ⟨_, _, .inl rfl, .inl rfl, rfl⟩)
    · exact .inr (.inl ⟨_, _, .inr rfl, .inl rfl, by simp only [List.foldl_cons, List.foldl_nil, FileEvent.apply, hcap]⟩)
  · simp only [countWrites, List.take, List.cons_append, List.foldl_cons, List.foldl_nil, syncStep, hD,
      List.nil_append, List.singleton_append, List.sublist_cons_iff, List.sublist_nil] at hkept ⊢
    rcases hkept with (rfl | ⟨r, rfl, rfl⟩) | ⟨r, rfl, rfl | ⟨r', rfl, rfl⟩⟩
    · exact .inr (.inl ⟨_, _, .inl rfl, .inl rfl, rfl⟩)
    · exact .inr (.inl ⟨_, _, .inl rfl, .inr rfl, by simp only [List.foldl_cons, List.foldl_nil, FileEvent.apply, hcnt]⟩)
    · exact .inr (.inl ⟨_, _, .inr rfl, .inl rfl, by simp only [List.foldl_cons, List.foldl_nil, FileEvent.apply, hcap]⟩)
    · exact .inr (.inl ⟨_, _, .inr rfl, .inr rfl, by simp only [List.foldl_cons, List.foldl_nil, FileEvent.apply, hcap, hcnt]⟩)
  · simp only [countWrites, List.take, List.cons_append, List.foldl_cons, List.foldl_nil, syncStep, hD,
      List.nil_append, List.singleton_append, List.sublist_nil] at hkept ⊢
    subst hkept
    exact .inr (.inl ⟨_, _, .inr rfl, .inr rfl, by simp only [List.foldl_cons, List.foldl_nil, FileEvent.apply, hcap, hcnt]⟩)
  · simp only [countWrites, List.take, List.cons_append, List.foldl_cons, List.foldl_nil, syncStep,
      List.sublist_nil, List.take_nil] at hkept ht ⊢
    subst hkept
    refine .inr (.inr ⟨List.IsPrefix.eq_of_length htail (le_antisymm (List.IsPrefix.length_le htail) ?_), rfl⟩)
    simpa [countWrites] using ht.length_le

/-! ## The operations of the calls -/

section
variable (P : Primitives)

/-- `save_and_check` either leaves the object as it was or has put its file in place with one `replace` -/
theorem saveAndCheck_journal (ivs : ℕ → ChachaIv) (c : WalletContainerStorage) :
    (saveAndCheck P ivs c).1 = c ∨
      (saveAndCheck P ivs c).2 = .ok () ∧
        (saveAndCheck P ivs c).1.journal = c.journal ++ [.replace (saveAndCheck P ivs c).1.file] := by
  unfold saveAndCheck
  split
  · exact .inl rfl
  · split
    · exact .inr ⟨rfl, rfl⟩
    · exact .inl rfl

/-- **What `generate_new_addresses` issues on the file** of an object that agrees with it, whether it returns or
throws: nothing on a view-only wallet; otherwise the appends of the new records `es'` at `wallet_file_size(n)`, then a
prefix of `fsync`, the two counts, `fsync` and the `replace` of `save_and_check`, which leaves an object that agrees
with its file. The records it leaves are the file's and `es'`, some with a lowered timestamp, and exactly those unless a
timestamp was lowered; all are spending records. -/
theorem generate_events {c c' : WalletContainerStorage} {sks : List SecretKey} {ct now : Timestamp}
    {draws : GenerateDraws P} {r : Except Failure (List WalletRecord × Bool)} (hc : Stored P c)
    (h : generateNewAddresses P sks ct now draws c = some (c', r)) :
    c' = c ∨ ∃ (p : ContainerStoragePrefix) (es es' : List EncryptedWalletRecord) (tail : List FileEvent),
      c.file = containerBytes p es.length es.length es ∧
      (decryptKeyPair P p.encryptedViewKeys c.walletKey).spendPublicKey = c.viewPublicKey ∧
      (decryptKeyPair P p.encryptedViewKeys c.walletKey).spendSecretKey = c.viewSecretKey ∧
      es.map (decryptKeyPair P · c.walletKey) = c.walletRecords ∧
      c'.journal = c.journal ++ (appendWrites (walletFileSize es.length) es' ++ tail) ∧
      tail <+: countWrites (es ++ es').length ++ [.replace c'.file] ∧
      (∀ x ∈ (es ++ es').map (decryptKeyPair P · c.walletKey), Spending P x) ∧
      (es ++ es').length = c'.walletRecords.length ∧ c'.walletRecords.length ≤ vectorMaxSize ∧
      RecordsLowered ((es ++ es').map (decryptKeyPair P · c.walletKey)) c'.walletRecords ∧
      (∀ res, r = .ok (res, false) → c'.walletRecords = (es ++ es').map (decryptKeyPair P · c.walletKey)) ∧
      (tail = countWrites (es ++ es').length ++ [.replace c'.file] → Stored P c') := by
  have hgen := h
  obtain ⟨p, es, hf, hvp, hvs, hrs⟩ := hc.file
  have hlen : es.length = c.walletRecords.length := by rw [← hrs, List.length_map]
  unfold generateNewAddresses at h
  split at h
  · exact .inl (Prod.mk.inj (Option.some.inj h)).1.symm
  rename_i hv
  rw [if_pos hc.file_open] at h
  obtain ⟨⟨g, e⟩, hloop, hg⟩ := Option.map_eq_some'.1 h
  have h0 : LoopInv P c p es ⟨c, [], false, draws.keypairs, 0⟩ :=
    ⟨rfl, rfl, rfl, rfl, ⟨[], by rw [List.append_nil, hlen]; exact hf, rfl, by simp [appendWrites],
      by rw [List.append_nil, hrs]; exact RecordsLowered.refl _, fun _ => by rw [List.append_nil, hrs]⟩,
      hlen.symm, spending_of_not_isViewOnly P hc.keys (by simpa using hv), hc.keys.size_le⟩
  rw [← hlen] at hloop
  have hinv := generateLoop_inv ct now _ h0 hloop
  obtain ⟨es', -, hlen', hj, hlow, hexact⟩ := hinv.file
  have hspend : ∀ x ∈ (es ++ es').map (decryptKeyPair P · c.walletKey), Spending P x := by
    intro x hx
    obtain ⟨i, hi⟩ := List.mem_iff_getElem?.1 hx
    obtain ⟨y, hy, hyp, hys, -⟩ := hlow i x hi
    have hsy := hinv.spending y (List.getElem?_mem hy)
    exact ⟨hys ▸ hsy.1, hys ▸ hyp ▸ hsy.2⟩
  have hglen : (es ++ es').length = g.c.walletRecords.length := by
    rw [hinv.length, List.length_append, hlen']
  have hnotall : ∀ F, countWrites (es ++ es').length ≠ countWrites (es ++ es').length ++ [.replace F] := fun F h => by
    simpa [countWrites] using congrArg List.length h
  have hcounts : g.c.writeCounts.journal = c.journal ++ (appendWrites (walletFileSize es.length) es' ++
      countWrites (es ++ es').length) := by
    rw [writeCounts_journal, hj, hglen, List.append_assoc]
  right
  refine ⟨p, es, es', ?_⟩
  cases e with
  | some e =>
    cases hg
    exact ⟨[], by rw [hf, hlen], hvp, hvs, hrs, by rw [hj, List.append_nil], List.nil_prefix, hspend, hglen,
      hinv.size_le, hlow, (fun _ h => by simp at h), fun h => by simp [countWrites] at h⟩
  | none =>
    dsimp only at hg
    split at hg
    · split at hg
      · rename_i e2 heq
        cases hg
        have hc2 := saveAndCheck_fst_of_error P draws.rescanIvs g.c.writeCounts
          (show (saveAndCheck P draws.rescanIvs g.c.writeCounts).2 = .error e2 by rw [heq])
        rw [heq] at hc2
        dsimp only at hc2
        subst hc2
        exact ⟨countWrites (es ++ es').length, by rw [hf, hlen], hvp, hvs, hrs, hcounts, List.prefix_append _ _,
          hspend, hglen, hinv.size_le, hlow, (fun _ h => by simp at h), fun h => absurd h (hnotall _)⟩
      · rename_i heq
        cases hg
        have hs := saveAndCheck_fst_eq P draws.rescanIvs g.c.writeCounts
        have hjr := saveAndCheck_journal P draws.rescanIvs g.c.writeCounts
        rw [heq] at hs hjr
        obtain ⟨f2, j2, o2, hs⟩ := hs
        dsimp only at hs hjr
        have hrec : c'.walletRecords = g.c.walletRecords := by rw [hs]; rfl
        rcases hjr with hsame | ⟨-, hsj⟩
        · subst hsame
          exact ⟨countWrites (es ++ es').length, by rw [hf, hlen], hvp, hvs, hrs, hcounts, List.prefix_append _ _,
            hspend, hglen, hinv.size_le, hlow, (fun _ h => by simp at h), fun h => absurd h (hnotall _)⟩
        · refine ⟨countWrites (es ++ es').length ++ [.replace c'.file], by rw [hf, hlen], hvp, hvs, hrs,
            by rw [hsj, hcounts, List.append_assoc, List.append_assoc], List.prefix_refl _, hspend,
            by rw [hrec, hglen], hrec ▸ hinv.size_le, hrec ▸ hlow, (fun _ h => by simp at h),
            fun _ => stored_generateNewAddresses P hc hgen⟩
    · rename_i hres
      cases hg
      exact ⟨countWrites (es ++ es').length, by rw [hf, hlen], hvp, hvs, hrs, hcounts, List.prefix_append _ _,
        hspend, hglen, hinv.size_le, hlow, fun _ _ => hexact (by simpa using hres),
        fun h => absurd h (hnotall _)⟩

end

/-! ## Reopening after a crash -/

section
variable (P : Primitives)

/-- `on_first_output_found` returns at once, or it is on `"main"` with a nonzero `ts` and an oldest timestamp of 0,
and it sets the timestamps and runs `save_and_check` -/
theorem onFirstOutputFound_cases (net : String) (ts : Timestamp) (ivs : ℕ → ChachaIv) (c : WalletContainerStorage) :
    onFirstOutputFound P net ts ivs c = (c, .ok ()) ∨
      net = "main" ∧ ts ≠ 0 ∧ c.oldestTimestamp = 0 ∧ onFirstOutputFound P net ts ivs c = saveAndCheck P ivs
        { c with
          oldestTimestamp := ts
          walletRecords := c.walletRecords.map fun rec =>
            if rec.creationTimestamp = 0 then { rec with creationTimestamp := ts } else rec } := by
  unfold onFirstOutputFound
  split_ifs with hnet hts
  · exact .inl rfl
  · exact .inl rfl
  · push_neg at hnet hts
    exact .inr ⟨hnet, hts.1, hts.2, rfl⟩

theorem crashImage_nil {f g : BinaryArray} (h : CrashImage f [] g) : g = f := by
  obtain ⟨kept, hk, rfl⟩ := h
  rw [List.sublist_nil.1 hk]
  rfl

/-- a crash during `save_and_check` on an object with the file and journal of `c` leaves the file of `c` or the file
`save_and_check` put in place -/
theorem crashImage_saveAndCheck (ivs : ℕ → ChachaIv) {c c0 : WalletContainerStorage} (hj : c0.journal = c.journal)
    {evs : List FileEvent} {g : BinaryArray} (hevs : evs <+: (saveAndCheck P ivs c0).1.journal.drop c.journal.length)
    (hg : CrashImage c.file evs g) :
    g = c.file ∨ g = (saveAndCheck P ivs c0).1.file ∧ (saveAndCheck P ivs c0).2 = .ok () := by
  rcases saveAndCheck_journal P ivs c0 with hs | ⟨hok, hsj⟩
  · rw [hs, hj, List.drop_length, List.prefix_nil] at hevs
    subst hevs
    exact .inl (crashImage_nil hg)
  · rw [hsj, hj, List.drop_left] at hevs
    rcases List.prefix_cons_iff.1 hevs with rfl | ⟨t, rfl, ht⟩
    · exact .inl (crashImage_nil hg)
    · rw [List.prefix_nil.1 ht] at hg
      obtain ⟨kept, hk, rfl⟩ := hg
      rw [show ([FileEvent.replace (saveAndCheck P ivs c0).1.file].foldl syncStep (c.file, [])) =
        ((saveAndCheck P ivs c0).1.file, []) from rfl] at hk ⊢
      rw [List.sublist_nil.1 hk]
      exact .inr ⟨rfl, hok⟩

/-- **Reopening a container file** whose first `n = min(count, capacity)` records, `n > 0`, are all tracking or all
spending records, whatever bytes follow them, gives its view keys and those records -/
theorem openWithKey_containerBytes (p : ContainerStoragePrefix) (cap cnt : ℕ) (es : List EncryptedWalletRecord)
    (rest : BinaryArray) (key : ChachaKey) (ivs : ℕ → ChachaIv) (hcap : cap ≤ vectorMaxSize)
    (hcnt : cnt ≤ vectorMaxSize) (hn : min cnt cap ≤ es.length) (hpos : 0 < min cnt cap)
    (hview : P.secretKeyToPublicKey (decryptKeyPair P p.encryptedViewKeys key).spendSecretKey =
      some (decryptKeyPair P p.encryptedViewKeys key).spendPublicKey)
    (hrecords : (∀ r ∈ (es.take (min cnt cap)).map (decryptKeyPair P · key),
        r.spendSecretKey = Pod.zero 32 ∧ P.keyIsvalid r.spendPublicKey = true) ∨
      ∀ r ∈ (es.take (min cnt cap)).map (decryptKeyPair P · key), Spending P r) :
    ∃ c', openWithKey P key (containerBytes p cap cnt es ++ rest) ivs = .ok c' ∧
      c'.viewPublicKey = (decryptKeyPair P p.encryptedViewKeys key).spendPublicKey ∧
      c'.viewSecretKey = (decryptKeyPair P p.encryptedViewKeys key).spendSecretKey ∧
      c'.walletRecords = (es.take (min cnt cap)).map (decryptKeyPair P · key) := by
  have hlt : ∀ m, m ≤ vectorMaxSize → m < 2 ^ 64 := fun m hm => lt_of_le_of_lt hm (by decide)
  obtain ⟨c1, hload, hvp, hvs, hrs, -⟩ := load_containerBytes_append P p cap cnt es rest key timestampMax
    (hlt _ hcap) (hlt _ hcnt) hn (le_trans (le_trans (min_le_left _ _) hcnt) vectorMaxSize_lt) hview
    (by simpa using recordsPass_savedRecords P (n := min cnt cap) false hrecords)
  have hne : c1.walletRecords ≠ [] := by
    rw [hrs]
    exact List.ne_nil_of_length_pos (by simp only [List.length_map, List.length_take]; omega)
  rw [openWithKey, load, loadWith_of_headD P _ (List.cons_ne_nil _ _) (headD_containerBytes p cap cnt es rest),
    fresh_eq, hload, Except.bind, finishLoad_of_ne_nil P hne]
  split <;> exact ⟨_, rfl, by simpa using hvp, by simpa using hvs, by simpa using hrs⟩

/-- reopening the file of an object that agrees with it, whatever bytes follow it, gives the object's view keys and
records -/
theorem openWithKey_stored {c : WalletContainerStorage} (hc : Stored P c) (rest : BinaryArray) (ivs : ℕ → ChachaIv) :
    ∃ c'', openWithKey P c.walletKey (c.file ++ rest) ivs = .ok c'' ∧ c''.viewPublicKey = c.viewPublicKey ∧
      c''.viewSecretKey = c.viewSecretKey ∧ c''.walletRecords = c.walletRecords := by
  obtain ⟨p, es, hf, hvp, hvs, hrs⟩ := hc.file
  have hlen : es.length = c.walletRecords.length := by rw [← hrs, List.length_map]
  have hall : (es.take (min c.walletRecords.length c.walletRecords.length)).map (decryptKeyPair P · c.walletKey) =
      c.walletRecords := by rw [min_self, ← hlen, List.take_length, hrs]
  obtain ⟨c'', hopen, h1, h2, h3⟩ := openWithKey_containerBytes P p _ _ es rest c.walletKey ivs hc.keys.size_le
    hc.keys.size_le (by rw [min_self, hlen]) (by rw [min_self]; exact List.length_pos.2 hc.keys.nonempty)
    (by rw [hvp, hvs]; exact hc.keys.view_keys) (by rw [hall]; exact hc.keys.records)
  exact ⟨c'', hf ▸ hopen, h1.trans hvp, h2.trans hvs, h3.trans hall⟩

/-- **A crash never loses a record.** From every object reached by opening a file `save` wrote and making calls that
return, at every crash point of any further call, whether that call returns or throws, reopening the file under the
wallet key either finds the file the call left, which holds the object it left; or gives the view keys and the records
as they were before the call; or gives the view keys and the records before the call followed by the records the
call appended, each with the keys of the record at its index after the call and a creation timestamp no smaller. -/
theorem crash_keeps_records {net : String} {c : WalletContainerStorage} (hc : Reachable P net c) (call : Call P)
    {c' : WalletContainerStorage} {e : Option Failure} (h : call.run P net c = some (c', e)) {evs : List FileEvent}
    {g : BinaryArray} (hevs : evs <+: c'.journal.drop c.journal.length) (hg : CrashImage c.file evs g)
    (ivs : ℕ → ChachaIv) :
    (g = c'.file ∧ fileMatches P c' = true) ∨
      ∃ c'', openWithKey P c.walletKey g ivs = .ok c'' ∧ c''.viewPublicKey = c.viewPublicKey ∧
        c''.viewSecretKey = c.viewSecretKey ∧
        (c''.walletRecords = c.walletRecords ∨
          c.walletRecords <+: c''.walletRecords ∧ c''.walletRecords.length = c'.walletRecords.length ∧
            RecordsLowered c''.walletRecords c'.walletRecords) := by
  have hst := stored_of_reachable P hc
  have hbefore : ∀ rest, g = c.file ++ rest → ∃ c'', openWithKey P c.walletKey g ivs = .ok c'' ∧
      c''.viewPublicKey = c.viewPublicKey ∧ c''.viewSecretKey = c.viewSecretKey ∧
      (c''.walletRecords = c.walletRecords ∨
        c.walletRecords <+: c''.walletRecords ∧ c''.walletRecords.length = c'.walletRecords.length ∧
          RecordsLowered c''.walletRecords c'.walletRecords) := fun rest hrest => by
    obtain ⟨c'', h1, h2, h3, h4⟩ := openWithKey_stored P hst rest ivs
    exact ⟨c'', hrest ▸ h1, h2, h3, .inl h4⟩
  have hsame : c' = c → ∃ rest, g = c.file ++ rest := fun hc' => by
    subst hc'
    rw [List.drop_length, List.prefix_nil] at hevs
    subst hevs
    exact ⟨[], by rw [crashImage_nil hg, List.append_nil]⟩
  -- the file `save_and_check` put in place holds the object it left
  have hsaved : ∀ (ivs' : ℕ → ChachaIv) (c0 : WalletContainerStorage), KeysValid P c0 → c0.journal = c.journal →
      c' = (saveAndCheck P ivs' c0).1 → (g = c'.file ∧ fileMatches P c' = true) ∨ ∃ rest, g = c.file ++ rest := by
    intro ivs' c0 hk0 hj0 hc'
    rw [hc'] at hevs
    rcases crashImage_saveAndCheck P ivs' hj0 hevs hg with rfl | ⟨rfl, hok⟩
    · exact .inr ⟨[], (List.append_nil _).symm⟩
    · subst hc'
      exact .inl ⟨rfl, fileMatches_of_stored P (stored_saveAndCheck P ivs' hk0 hok)⟩
  cases call with
  | generateNewAddresses sks ct now draws =>
    obtain ⟨⟨c1, r⟩, h1, h2⟩ := Option.map_eq_some'.1 h
    obtain ⟨rfl, -⟩ := Prod.mk.inj h2
    rcases generate_events P hst h1 with hc' | ⟨p, es, es', tail, hf, hvp, hvs, hrs, hj, htail, hspend, hlen,
      hsize, hlow, -, hstored⟩
    · obtain ⟨rest, hrest⟩ := hsame hc'
      exact .inr (hbefore rest hrest)
    rw [hj, List.drop_left] at hevs
    rw [hf] at hg
    have hn : es.length = c.walletRecords.length := by rw [← hrs, List.length_map]
    rcases crashImage_generate htail hevs hg with ⟨rest, rfl⟩ | ⟨cap, cnt, hcap, hcnt, rfl⟩ | ⟨htl, rfl⟩
    · exact .inr (hbefore rest (by rw [hf, hn]))
    · have hle : es.length ≤ (es ++ es').length := by simp
      have hmin : min cnt cap = es.length ∨ cap = (es ++ es').length ∧ cnt = (es ++ es').length := by
        rcases hcap with rfl | rfl <;> rcases hcnt with rfl | rfl <;> simp [hle]
      have hpos : 0 < es.length := by rw [hn]; exact List.length_pos.2 hst.keys.nonempty
      have hbound : ∀ m, m = es.length ∨ m = (es ++ es').length → m ≤ vectorMaxSize := by
        rintro m (rfl | rfl) <;> omega
      obtain ⟨c'', hopen, h1, h2, h3⟩ := openWithKey_containerBytes P p cap cnt (es ++ es') [] c.walletKey ivs
        (hbound _ hcap) (hbound _ hcnt) (by rcases hmin with h | ⟨rfl, rfl⟩ <;> simp [h])
        (by rcases hmin with h | ⟨rfl, rfl⟩ <;> simp [h] <;> omega)
        (by rw [hvp, hvs]; exact hst.keys.view_keys)
        (.inr fun x hx => hspend x (List.map_subset _ (List.take_subset _ _) hx))
      rw [List.append_nil] at hopen
      refine .inr ⟨c'', hopen, h1.trans hvp, h2.trans hvs, ?_⟩
      rcases hmin with h | ⟨rfl, rfl⟩
      · refine .inl ?_
        rw [h3, h, List.take_left, hrs]
      · refine .inr ⟨?_, ?_, ?_⟩ <;> rw [h3, min_self, List.take_length]
        · rw [List.map_append, ← hrs]
          exact List.prefix_append _ _
        · rw [List.length_map, hlen]
        · exact hlow
    · exact .inl ⟨rfl, fileMatches_of_stored P (hstored htl)⟩
  | onFirstOutputFound ts ivs' =>
    obtain ⟨hc', -⟩ := Prod.mk.inj (Option.some.inj h)
    rcases onFirstOutputFound_cases P net ts ivs' c with h0 | ⟨-, -, -, h0⟩ <;> rw [h0] at hc'
    · obtain ⟨rest, hrest⟩ := hsame hc'.symm
      exact .inr (hbefore rest hrest)
    · rcases hsaved ivs' _ (keysValid_setTimestamps P hst.keys ts) rfl hc'.symm with hafter | ⟨rest, hrest⟩
      · exact .inl hafter
      · exact .inr (hbefore rest hrest)
  | setPassword password ivs' =>
    obtain ⟨hc', -⟩ := Prod.mk.inj (Option.some.inj h)
    rcases hsaved ivs' { c with walletKey := P.generateChacha8Key password } (hst.keys.congr P rfl rfl rfl) rfl
      hc'.symm with hafter | ⟨rest, hrest⟩
    · exact .inl hafter
    · exact .inr (hbefore rest hrest)
  | detectOurOutput =>
    obtain ⟨rest, hrest⟩ := hsame (Prod.mk.inj (Option.some.inj h)).1.symm
    exact .inr (hbefore rest hrest)

end

set_option maxRecDepth 100000 in
/-- the same call on the opened `sampleWallet`, with a crash after the counts are durable: the file reopens to the
wallet after the call or keeps every record -/
theorem crash_during_rescan_reopens :
    ∃ c c' e evs g, Reachable plainPrimitives "main" c ∧
      (Call.generateNewAddresses [Pod.fill 32 1, Pod.fill 32 3] 0 0 ⟨[], zeroIvs, zeroIvs, zeroIvs⟩).run
        plainPrimitives "main" c = some (c', e) ∧
      evs <+: c'.journal.drop c.journal.length ∧ CrashImage c.file evs g ∧
      ((g = c'.file ∧ fileMatches plainPrimitives c' = true) ∨
        ∃ c'', openWithKey plainPrimitives c.walletKey g zeroIvs = .ok c'' ∧ c''.viewPublicKey = c.viewPublicKey ∧
          c''.viewSecretKey = c.viewSecretKey ∧
          (c''.walletRecords = c.walletRecords ∨
            c.walletRecords <+: c''.walletRecords ∧ c''.walletRecords.length = c'.walletRecords.length ∧
              RecordsLowered c''.walletRecords c'.walletRecords)) := by
  obtain ⟨c, c', e, hc, hrun⟩ : ∃ c c' e, Reachable plainPrimitives "main" c ∧
      (Call.generateNewAddresses [Pod.fill 32 1, Pod.fill 32 3] 0 0 ⟨[], zeroIvs, zeroIvs, zeroIvs⟩).run
        plainPrimitives "main" c = some (c', e) :=
    ⟨_, _, _, .opened sampleWallet (Pod.zero 32) false zeroIvs zeroIvs sampleWallet_keysValid rfl, rfl⟩
  exact ⟨c, c', e, _, _, hc, hrun, List.dropLast_prefix _, ⟨[], List.nil_sublist _, rfl⟩,
    crash_keeps_records plainPrimitives hc _ hrun (List.dropLast_prefix _) ⟨[], List.nil_sublist _, rfl⟩ zeroIvs⟩

/-! ## A crash before the rewrite -/

set_option maxRecDepth 100000 in
/-- on the opened `sampleWallet`, import its own key with an older creation time and a new key in one call; a crash
after the counts are durable and before `save_and_check` replaces the file leaves a file that reopens to the old
record with its old timestamp beside the new one: neither the wallet before the call nor the wallet after it -/
theorem crash_before_rescan_save :
    ∃ c c' e evs g c'', Reachable plainPrimitives "main" c ∧
      (Call.generateNewAddresses [Pod.fill 32 1, Pod.fill 32 3] 0 0 ⟨[], zeroIvs, zeroIvs, zeroIvs⟩).run
        plainPrimitives "main" c = some (c', e) ∧
      evs <+: c'.journal.drop c.journal.length ∧ CrashImage c.file evs g ∧
      openWithKey plainPrimitives c.walletKey g zeroIvs = .ok c'' ∧
      c''.walletRecords ≠ c.walletRecords ∧ c''.walletRecords ≠ c'.walletRecords :=
  ⟨_, _, _, _, _, _, .opened sampleWallet (Pod.zero 32) false zeroIvs zeroIvs sampleWallet_keysValid rfl, rfl,
    List.dropLast_prefix _, ⟨[], List.nil_sublist _, rfl⟩, rfl, by decide, by decide⟩

end BytecoinWallet.Container
