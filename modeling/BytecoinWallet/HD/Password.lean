/-
The commits of `set_password`.

`set_password` commits inside every `set_label` of its label loop and once at its end; its reads, the emptied tables,
the `put`s of the parameters and the `payment_queue_add`s leave the committed tables alone. `setPasswordCommits` lists
what each commit makes durable, in order, and `setPassword_committed` ties the list to the call: the committed tables
after it are the last of them, or the tables before it when it throws before its first commit. A crash during the call
leaves the tables before it or one of these.

- `setPassword_commits`: from every object that stands for the maps P, L and Q (`Refines`), `set_password` commits
  `|L| + 1` times, each time with the new salt and under the key derived from it and the new password. The commit
  inside the `i`-th `set_label` makes durable P, the first `i` labels of `m_labels` (in the order of their addresses)
  and an empty payment queue; the last makes durable P, L and Q. After the call every table stands for P, L and Q under
  the new key.
- `first_label_commit_is_partial`: a wallet with two labels whose first commit has the new salt and one label row.
- `label_commit_drops_queue`: a wallet with one label and one queued transaction, both durable, whose first commit
  has the new salt and an empty payment queue: a crash there loses the transaction, since the commit inside
  `set_label` was written for labels alone and `set_password` reuses it.
-/
import BytecoinWallet.HD.Store

namespace BytecoinWallet.HD

section
variable (P : Primitives)

/-- the tables each `commit()` of `set_password` makes durable, in order: the one inside every `set_label` of the
label loop, then the last; none when a read or a `put` throws first -/
def setPasswordCommits (password : BinaryArray) (w : WalletHD) : List Tables :=
  match parametersGet P w, paymentQueueGet2 P w with
  | .ok parameters, .ok pq2 =>
    match putAll P parameters (rekey P password w) with
    | (w, .ok ()) =>
      (w.labels.scanl (fun w l => setLabel P l.1 l.2 w) w).tail.map (fun w => w.db.committed) ++
        [(rewriteLabelsQueue P pq2 w).db.committed]
    | (_, .error _) => []
  | _, _ => []

theorem putAll_committed : ∀ (ps : List (BinaryArray × BinaryArray)) (w : WalletHD),
    (putAll P ps w).1.db.committed = w.db.committed
  | [], _ => rfl
  | (k, v) :: ps, w => by
    have h0 : (put P k v true w).1.db.committed = w.db.committed := put_committed P
    simp only [putAll]
    split <;> rename_i h <;> rw [h] at h0
    · exact h0
    · rw [putAll_committed ps]; exact h0

theorem foldl_setLabel_committed (w : WalletHD) {L : Rows BinaryArray BinaryArray} (hL : L ≠ []) :
    (L.foldl (fun w l => setLabel P l.1 l.2 w) w).db.committed = (L.foldl (fun w l => setLabel P l.1 l.2 w) w).db.current := by
  obtain ⟨L', l, rfl⟩ := (List.eq_nil_or_concat L).resolve_left hL
  rw [List.concat_eq_append, List.foldl_append, List.foldl_cons, List.foldl_nil, setLabel_committed]

/-- the committed tables after `set_password` are those of its last commit, or those before it when it throws before
it commits -/
theorem setPassword_committed (password : BinaryArray) (w : WalletHD) :
    (setPassword P password w).1.db.committed = (setPasswordCommits P password w).getLast?.getD w.db.committed := by
  unfold setPassword setPasswordCommits
  rcases parametersGet P w with e | ps <;> rcases paymentQueueGet2 P w with e' | pq2 <;> try rfl
  dsimp only
  have h := putAll_committed P ps (rekey P password w)
  generalize putAll P ps (rekey P password w) = r at h ⊢
  rcases r with ⟨w', e | ⟨⟩⟩
  · exact h
  · rw [List.getLast?_append, List.getLast?_singleton]; rfl

end

theorem getElem?_tail_scanl {α β : Type} (f : β → α → β) :
    ∀ (l : List α) (b : β) (k : ℕ), k < l.length → (l.scanl f b).tail[k]? = some ((l.take (k + 1)).foldl f b)
  | [], _, _, h => absurd h (Nat.not_lt_zero _)
  | a :: l, b, 0, _ => by simp [List.getElem?_scanl_zero]
  | a :: l, b, k + 1, h => by
    rw [List.scanl_cons, List.singleton_append, List.tail_cons, ← List.getElem?_tail, List.take_succ_cons,
      List.foldl_cons]
    exact getElem?_tail_scanl f l (f b a) k (Nat.lt_of_succ_lt_succ h)

theorem length_tail_scanl {α β : Type} (f : β → α → β) (l : List α) (b : β) : (l.scanl f b).tail.length = l.length := by
  rw [List.length_tail, List.length_scanl, Nat.add_sub_cancel]

section
variable {P : Primitives} {S : Set BinaryArray} (hinj : ∀ key, Set.InjOn (deriveFromKey P key) S)
include hinj

/-- **What `set_password` makes durable.** From every object that stands for the maps P, L and Q, `set_password`
commits `|L| + 1` times, each time with the salt it draws, under the key derived from it and the new password: the
commit inside the `k + 1`-th `set_label` makes durable P, the first `k + 1` labels of `m_labels` and an empty payment
queue, the last makes durable P, L and Q; and after the call every table stands for P, L and Q under the new key -/
theorem setPassword_commits {s : Session} {d : Durable} (hr : Refines P S s d) (password : BinaryArray) :
    (setPasswordCommits P password s.wallet).length = s.wallet.labels.length + 1 ∧
    (∀ k t, (setPasswordCommits P password s.wallet)[k]? = some t →
      t.salt = some (s.wallet.randomHashes s.wallet.drawn).data ∧
      TablesRepresent P S (P.generateChacha8Key ((s.wallet.randomHashes s.wallet.drawn).data ++ password)) t
        (if k < s.wallet.labels.length then
          ⟨d.current.parameters, Rows.lookup (s.wallet.labels.take (k + 1)), fun _ => none⟩
        else d.current)) ∧
    ∃ w, setPassword P password s.wallet = (w, .ok ()) ∧
      Refines P S ⟨w, password⟩ (d.apply s.wallet.net (.setPassword password)) := by
  obtain ⟨ps, pq2, w1, hps, hpq, hput, hgpq, hfpq, hw1, -, h1⟩ := hr.putAll_rekey hinj password
  have hcommits : setPasswordCommits P password s.wallet =
      (w1.labels.scanl (fun w l => setLabel P l.1 l.2 w) w1).tail.map (fun w => w.db.committed) ++
        [(rewriteLabelsQueue P pq2 w1).db.committed] := by
    simp only [setPasswordCommits, show parametersGet P s.wallet = .ok ps from hps,
      show paymentQueueGet2 P s.wallet = .ok pq2 from hpq, hput]
  have hnd : (w1.labels.map Prod.fst).Nodup := hw1 ▸ hr.ascending.nodup
  have hL : ∀ e ∈ w1.labels, LabelFits S e := fun e he => by
    obtain ⟨e', hfit, h1, h2⟩ :=
      hr.current.labels.fits_of_eq_some (hr.labels ▸ hw1 ▸ (Rows.graph_lookup hnd).of_mem he)
    rwa [← Prod.ext h1 h2]
  have hLc : Graph Prod.fst Prod.snd w1.labels d.current.labels := by
    rw [← hr.labels, ← hw1]; exact Rows.graph_lookup hnd
  obtain ⟨w, hset, hrw⟩ := hr.setPassword hinj password
  refine ⟨by rw [hcommits, List.length_append, List.length_map, length_tail_scanl, hw1]; rfl, fun k t hk => ?_, w,
    hset, hrw.1⟩
  rw [hcommits] at hk
  rw [← hw1]
  by_cases hkL : k < w1.labels.length
  · -- the commit inside a `set_label`: the fold over the first `k + 1` labels
    rw [List.getElem?_append_left (by rwa [List.length_map, length_tail_scanl]), List.getElem?_map,
      getElem?_tail_scanl _ _ _ _ hkL] at hk
    obtain rfl := (Option.some.inj hk).symm
    have hsub : (w1.labels.take (k + 1)).Sublist w1.labels := List.take_sublist _ _
    have hk := h1.foldl_setLabel hinj (L := w1.labels.take (k + 1)) fun e he => hL e (hsub.subset he)
    simp only [Graph.foldl_update _ (Rows.graph_lookup ((hsub.map Prod.fst).nodup hnd)), Option.or_none] at hk
    have hne : w1.labels.take (k + 1) ≠ [] := List.ne_nil_of_length_pos (by simp only [List.length_take]; omega)
    dsimp only
    rw [if_pos hkL, foldl_setLabel_committed P w1 hne]
    exact ⟨hk.salt, hk.tables⟩
  · -- the last commit
    have hlast : k = w1.labels.length := by
      have := (List.getElem?_eq_some_iff.1 hk).1
      rw [List.length_append, List.length_map, length_tail_scanl, List.length_singleton] at this
      omega
    subst hlast
    rw [List.getElem?_append_right (by rw [List.length_map, length_tail_scanl]),
      List.length_map, length_tail_scanl, Nat.sub_self, List.getElem?_cons_zero] at hk
    obtain rfl := (Option.some.inj hk).symm
    have h3 := h1.rewriteLabelsQueue hinj hLc hL hgpq hfpq
    rw [if_neg hkL]
    exact ⟨h3.salt, h3.tables⟩

end

/-! ## A wallet with two labels -/

theorem hashPrimitives_deriveFromKey_data (key : ChachaKey) (x : BinaryArray) :
    (deriveFromKey hashPrimitives key x).data = (x ++ key.data ++ List.replicate 32 0).take 32 := by
  simp only [deriveFromKey, hashPrimitives, Pod.ofBytes, List.append_assoc, List.drop_left' key.size_eq]

theorem hashPrimitives_injOn_length {n : ℕ} (hn : n ≤ 32) (key : ChachaKey) :
    Set.InjOn (deriveFromKey hashPrimitives key) {x | x.length = n} := fun x hx y hy h => by
  have h := congrArg (fun p : Hash => p.data.take n) h
  simp only [hashPrimitives_deriveFromKey_data, List.take_take, Nat.min_eq_left hn, List.append_assoc] at h
  rwa [List.take_left' hx, List.take_left' hy] at h

/-- `emptySession` whose `i`-th random value is 32 bytes `i` -/
def countingSession : Session :=
  { emptySession with wallet := { emptySession.wallet with randomHashes := fun i => Pod.fill 32 (UInt8.ofNat i) } }

/-- `countingSession` with the addresses `"a"` and `"b"` labelled -/
def twoLabelWallet : WalletHD :=
  setLabel hashPrimitives (asBinaryArray "b") [8] (setLabel hashPrimitives (asBinaryArray "a") [7] countingSession.wallet)

set_option maxRecDepth 100000 in
/-- the first commit of `set_password` on `twoLabelWallet` has the new salt and, of the two labels, only the first -/
theorem first_label_commit_is_partial :
    twoLabelWallet.labels = [(asBinaryArray "a", [7]), (asBinaryArray "b", [8])] ∧
    ∃ t, (setPasswordCommits hashPrimitives [1] twoLabelWallet)[0]? = some t ∧
      t.salt ≠ twoLabelWallet.db.committed.salt ∧
      decryptRows (decryptPair hashPrimitives (hashPrimitives.generateChacha8Key ((Pod.fill 32 4).data ++ [1])))
        t.labels = .ok [(asBinaryArray "a", [7])] :=
  ⟨rfl, _, rfl, by decide, rfl⟩

/-- `countingSession` with one transaction queued, then the address `"a"` labelled: the label's commit makes both
durable -/
def labelQueueWallet : WalletHD :=
  setLabel hashPrimitives (asBinaryArray "a") [7]
    (paymentQueueAdd hashPrimitives (Pod.fill 32 9) (asBinaryArray "main") [5] countingSession.wallet)

set_option maxRecDepth 100000 in
/-- with one label and one queued transaction held durably, the commit inside the label's `set_label` makes durable
the new salt and an empty payment queue; only the last commit has the queue again -/
theorem label_commit_drops_queue :
    labelQueueWallet.db.committed.paymentQueue ≠ [] ∧
    ∃ t t', setPasswordCommits hashPrimitives [1] labelQueueWallet = [t, t'] ∧
      t.salt ≠ labelQueueWallet.db.committed.salt ∧ t.paymentQueue = [] ∧ t'.paymentQueue ≠ [] :=
  ⟨by decide, _, _, rfl, by decide, rfl, by decide⟩

end BytecoinWallet.HD
