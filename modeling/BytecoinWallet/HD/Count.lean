/-
The used address count of `WalletHD` over runs that close and reopen the wallet.

A run is any sequence of `generate_new_addresses`, `detect_our_output` (through `get_look_ahead_record`),
`set_password`, and closing the object and opening its file again with the password it has (`Step.run`). What the
calls hand out is recorded in order (`Handout`): the indices `[was_used_address_count, was_used_address_count + |sks|)`
of the records `generate_new_addresses` returns, and the index of the record `get_look_ahead_record` returns.

Every change of `m_used_address_count` is put and committed at once (`CountInv.raise`), so the committed tables hold
the count and opening reads it back (`openWallet_countStored`).

- `usedAddressCount_of_run`: on every platform whose `hardware_concurrency()` is not 0, from an object that stands for
  durable maps holding its count (as every opened one does, `openWallet_countInv`), along every run whose counts stay
  within a `size_t`: the count never decreases, across reopening too; every index handed out so far lies below it;
  and each range `generate_new_addresses` hands out lies above every index handed out before it, so the ranges are
  pairwise disjoint and miss every index `get_look_ahead_record` returned earlier.
- `no_threads_reopen_lowers_count`: with `hardware_concurrency()` returning 0, `generate_new_addresses` raises the
  count of an opened wallet and throws `std::out_of_range` before it puts it; reopening lowers the count again.
-/
import BytecoinWallet.HD.Password

namespace BytecoinWallet.HD

section
variable (P : Primitives) (H : HdPrimitives)

/-! ## Runs -/

/-- a step of a run: a call, or closing the object and opening its file again with the password it has -/
inductive Step
  | call (c : Call)
  | reopen

/-- what a call hands out: the `n` records from index `start` on that `generate_new_addresses` returns, or the index
of the record `get_look_ahead_record` returns -/
inductive Handout
  | addresses (start n : ℕ)
  | lookAhead (index : ℕ)

/-- the indices of the records handed out -/
def Handout.indices : Handout → List ℕ
  | .addresses start n => List.range' start n
  | .lookAhead index => [index]

/-- one step on a session, returning or throwing, with what it hands out; a `set_password` that returns changes the
password the file is opened with, and a reopening that throws ends the run -/
def Step.apply (thc : ℕ) (s : Session) : Step → Option (Session × List Handout)
  | .call (.generateNewAddresses sks) =>
    let (w, result) := generateNewAddresses P H thc sks s.wallet
    some (⟨w, s.password⟩, match result with
      | .ok _ => [.addresses s.wallet.usedAddressCount sks.length]
      | .error _ => [])
  | .call (.detectOurOutput spendPublicKey) =>
    let (w, result) := getLookAheadRecord P H thc s.wallet spendPublicKey
    some (⟨w, s.password⟩, match result, s.wallet.recordsMap spendPublicKey with
      | .ok (some _), some i => [.lookAhead i]
      | _, _ => [])
  | .call (.setPassword password) =>
    match setPassword P password s.wallet with
    | (w, .ok ()) => some (⟨w, password⟩, [])
    | (w, .error _) => some (⟨w, s.password⟩, [])
  | .reopen =>
    match openWallet P H s.wallet.net thc s.password s.wallet.db.committed s.wallet.randomHashes s.wallet.drawn with
    | .ok w => some (⟨w, s.password⟩, [])
    | .error _ => none

/-- the run of the steps `sts` from a session and what was handed out before it: after each step, the session and
everything handed out so far; it stops at a reopening that throws -/
def Step.run (thc : ℕ) : List Step → Session × List Handout → List (Session × List Handout)
  | [], _ => []
  | st :: sts, (s, log) =>
    match st.apply P H thc s with
    | some (s', out) => (s', log ++ out) :: Step.run thc sts (s', log ++ out)
    | none => []

/-- every range `generate_new_addresses` handed out lies above every index handed out before it -/
def FreshRanges (log : List Handout) : Prop :=
  ∀ pre start n post, log = pre ++ .addresses start n :: post → ∀ e ∈ pre, ∀ j ∈ e.indices, j < start

/-- the map `c` holds the count `n` as `load()` reads it: the parameter `total_address_count` decodes to `n`, or it
is absent and `n` is 0 -/
def CountStored (c : Contents) (n : ℕ) : Prop :=
  match c.parameters addressCountPrefix with
  | some ba => H.sizeFromBinary ba = .ok n
  | none => n = 0

end

theorem FreshRanges.nil : FreshRanges [] := fun pre _ _ _ h => absurd h (by simp)

/-- a handout after a log whose indices lie below `c` keeps the ranges fresh when a range it is starts at `c` or above -/
theorem FreshRanges.snoc {log : List Handout} (h : FreshRanges log) {c : ℕ}
    (hlog : ∀ e ∈ log, ∀ j ∈ e.indices, j < c) {x : Handout} (hx : ∀ a n, x = .addresses a n → c ≤ a) :
    FreshRanges (log ++ [x]) := by
  intro pre a n post heq e he j hj
  rcases List.eq_nil_or_concat post with rfl | ⟨post', z, rfl⟩
  · obtain ⟨rfl, hxa⟩ := List.append_inj' heq rfl
    exact Nat.lt_of_lt_of_le (hlog e he j hj) (hx a n (List.singleton_inj.1 hxa))
  · rw [List.concat_eq_append, ← List.cons_append, ← List.append_assoc] at heq
    exact h pre a n post' (List.append_inj' heq rfl).1 e he j hj

theorem CountStored.unique {H : HdPrimitives} {c : Contents} {n m : ℕ} (hn : CountStored H c n)
    (hm : CountStored H c m) : n = m := by
  unfold CountStored at hn hm
  split at hn <;> rename_i h <;> rw [h] at hm
  · exact Except.ok.inj (hn.symm.trans hm)
  · exact hn.trans hm.symm

section
variable (P : Primitives) (H : HdPrimitives)

/-! ## The calls on the count -/

@[simp] theorem usedAddressCount_generateAhead (thc : ℕ) (w : WalletHD) :
    (generateAhead H thc w).usedAddressCount = w.usedAddressCount := by
  obtain ⟨rs, m, h⟩ := generateAhead_frame H thc w
  rw [h]

@[simp] theorem put_usedAddressCount (k v : BinaryArray) (no : Bool) (w : WalletHD) :
    (put P k v no w).1.usedAddressCount = w.usedAddressCount :=
  congrArg (fun x : KeyPair × ℕ × List WalletRecord × RecordsMap => x.2.1) (put_window P k v no w)

@[simp] theorem WalletHD.commit_usedAddressCount (w : WalletHD) : w.commit.usedAddressCount = w.usedAddressCount := rfl

/-- for every thread count other than 0, `generate_ahead` leaves at least `m_used_address_count + GENERATE_AHEAD`
records -/
theorem length_generateAhead {thc : ℕ} (hthc : thc ≠ 0) (w : WalletHD) :
    w.usedAddressCount + generateAheadCount ≤ (generateAhead H thc w).walletRecords.length := by
  unfold generateAhead
  split
  · assumption
  · obtain ⟨m, hm⟩ := foldl_pushRecord (aheadResults H thc w _).flatten w
    rw [hm, List.length_append, aheadResults_flatten H w (.inl hthc), List.length_map, List.length_range]
    omega

/-- `generate_new_addresses`, for every thread count other than 0: it throws and changes nothing, or returns nothing
for no keys, or raises the count by `|sks|`, grows the window, puts the count and commits -/
theorem generateNewAddresses_cases {thc : ℕ} (hthc : thc ≠ 0) (sks : List SecretKey) (w : WalletHD) :
    (∃ e, generateNewAddresses P H thc sks w = (w, .error e)) ∨
      (sks = [] ∧ generateNewAddresses P H thc sks w = (w, .ok [])) ∨
      ∃ rs, generateNewAddresses P H thc sks w =
        ((put P addressCountPrefix (H.sizeToBinary (w.usedAddressCount + sks.length)) false
          (generateAhead H thc { w with usedAddressCount := w.usedAddressCount + sks.length })).1.commit, .ok rs) := by
  unfold generateNewAddresses
  split
  · exact .inl ⟨_, rfl⟩
  · split
    · exact .inr (.inl ⟨‹_›, rfl⟩)
    · refine .inr (.inr ?_)
      have hlen := length_generateAhead H hthc { w with usedAddressCount := w.usedAddressCount + sks.length }
      dsimp only at hlen ⊢
      rw [recordsAt, if_pos (by omega), usedAddressCount_generateAhead]
      exact ⟨_, rfl⟩

/-- `create_look_ahead_records(count)`: nothing below the count, else the count raised, put and committed -/
theorem createLookAheadRecords_cases (thc count : ℕ) (w : WalletHD) :
    (count ≤ w.usedAddressCount ∧ createLookAheadRecords P H thc count w = w) ∨
      (w.usedAddressCount < count ∧ createLookAheadRecords P H thc count w =
        (put P addressCountPrefix (H.sizeToBinary count) false
          (generateAhead H thc { w with usedAddressCount := count })).1.commit) := by
  unfold createLookAheadRecords
  split
  · exact .inl ⟨‹_›, rfl⟩
  · exact .inr ⟨by omega, by dsimp only; rw [usedAddressCount_generateAhead]⟩

/-- `get_look_ahead_record`: it changes nothing and returns no record, or returns the record of an indexed key after
`create_look_ahead_records` of one past its index -/
theorem getLookAheadRecord_cases (thc : ℕ) (w : WalletHD) (spendPublicKey : PublicKey) :
    (∃ res, getLookAheadRecord P H thc w spendPublicKey = (w, res) ∧ ∀ r, res ≠ .ok (some r)) ∨
      ∃ i r, w.recordsMap spendPublicKey = some i ∧
        getLookAheadRecord P H thc w spendPublicKey = (createLookAheadRecords P H thc (i + 1) w, .ok (some r)) := by
  unfold getLookAheadRecord
  split
  · exact .inl ⟨_, rfl, fun _ => by simp⟩
  · rename_i i hi
    split
    · exact .inl ⟨_, rfl, fun _ => by simp⟩
    · split
      · exact .inr ⟨i, _, hi, rfl⟩
      · exact .inl ⟨_, rfl, fun _ => by simp⟩

/-- what `load()` takes for the count: the decoded parameter, or the count it had -/
theorem readCounts_count {w : WalletHD} {counts : ℕ × Timestamp} (h : readCounts P H w = .ok counts)
    {o : Option BinaryArray} (ho : get P addressCountPrefix w = .ok o) :
    (∀ ba, o = some ba → H.sizeFromBinary ba = .ok counts.1) ∧ (o = none → counts.1 = w.usedAddressCount) := by
  simp only [readCounts, ho, bind, Except.bind, pure, Except.pure] at h
  cases o <;> dsimp only at h <;> repeat' split at h
  all_goals cases h <;> simp_all

end

/-! ## The refinement and the count -/

section
variable {P : Primitives} {H : HdPrimitives} {S : Set BinaryArray}

theorem Refines.of_eq {s : Session} {d : Durable} (hr : Refines P S s d) {w : WalletHD} (hdb : w.db = s.wallet.db)
    (hkey : w.walletKey = s.wallet.walletKey) (hl : w.labels = s.wallet.labels) : Refines P S ⟨w, s.password⟩ d := by
  obtain ⟨⟨salt, h1, h2, h3⟩, hc, hcm, hlab, ha, hlc⟩ := hr
  exact ⟨⟨salt, hdb ▸ h1, hdb ▸ h2, hkey ▸ h3⟩, hkey ▸ hdb ▸ hc, hkey ▸ hdb ▸ hcm, hl ▸ hlab, hl ▸ ha, hlc⟩

theorem Refines.commit {s : Session} {d : Durable} (hr : Refines P S s d) :
    Refines P S ⟨s.wallet.commit, s.password⟩ ⟨d.current, d.current⟩ :=
  let ⟨salt, h1, _, h3⟩ := hr.salt
  ⟨⟨salt, h1, h1, h3⟩, hr.current, hr.current, hr.labels, hr.ascending, rfl⟩

variable (P H S) in
/-- the object stands for durable maps `d` whose two transactions both hold its count -/
structure CountInv (s : Session) (d : Durable) : Prop where
  refines : Refines P S s d
  current : CountStored H d.current s.wallet.usedAddressCount
  committed : CountStored H d.committed s.wallet.usedAddressCount

variable (hinj : ∀ key, Set.InjOn (deriveFromKey P key) S) (hS : asBinaryArray "db_parameters" ++ addressCountPrefix ∈ S)
include hinj hS

/-- opening a file whose tables stand for `c` under the key of its salt reads the count `c` holds -/
theorem openWallet_countStored {net : String} {thc : ℕ} {password : BinaryArray} {t : Tables} {rh : ℕ → Hash}
    {drawn : ℕ} {w : WalletHD} {c : Contents} (h : openWallet P H net thc password t rh drawn = .ok w)
    (ht : ∀ salt, t.salt = some salt → TablesRepresent P S (P.generateChacha8Key (salt ++ password)) t c) :
    CountStored H c w.usedAddressCount := by
  unfold openWallet at h
  dsimp only at h
  split at h
  · cases h
  · rename_i salt hsalt
    have hts : t.salt = some salt := by
      cases hs : t.salt <;> simp [getSalt, WalletHD.fresh, hs] at hsalt ⊢; exact hsalt
    split at h
    · rename_i w1 hl
      cases h
      obtain ⟨keys, counts, rows, -, hc, -, rfl⟩ := load_eq_ok P H hl
      have hget := (ht salt hts).get hinj (w := { { WalletHD.fresh net ⟨t, t⟩ rh with drawn := drawn } with
        walletKey := P.generateChacha8Key (salt ++ password) }.setKeys keys) hS
      obtain ⟨hsome, hnone⟩ := readCounts_count P H hc hget
      simp only [usedAddressCount_generateAhead]
      unfold CountStored
      split <;> rename_i hp
      · exact hsome _ hp
      · exact hnone hp
    · cases h

/-- **Opening holds the count.** Opening a file whose tables stand for `c` gives an object that stands for `c` in both
transactions, which hold the count it read -/
theorem openWallet_countInv {net : String} {thc : ℕ} {password : BinaryArray} {t : Tables} {rh : ℕ → Hash}
    {drawn : ℕ} {w : WalletHD} {c : Contents} (h : openWallet P H net thc password t rh drawn = .ok w)
    (ht : ∀ salt, t.salt = some salt → TablesRepresent P S (P.generateChacha8Key (salt ++ password)) t c) :
    CountInv P H S ⟨w, password⟩ ⟨c, c⟩ :=
  ⟨openWallet_refines h ht, openWallet_countStored hinj hS h ht, openWallet_countStored hinj hS h ht⟩

/-- raising the count to `n`, growing the window, putting the count and committing keeps the count stored -/
theorem CountInv.raise {s : Session} {d : Durable} (hinv : CountInv P H S s d) (thc : ℕ) {n : ℕ}
    (hn : (H.sizeToBinary n).length < 2 ^ 31) :
    ∃ d', CountInv P H S ⟨(put P addressCountPrefix (H.sizeToBinary n) false
      (generateAhead H thc { s.wallet with usedAddressCount := n })).1.commit, s.password⟩ d' := by
  obtain ⟨rs, m, hg⟩ := generateAhead_frame H thc { s.wallet with usedAddressCount := n }
  have hr : Refines P S ⟨generateAhead H thc { s.wallet with usedAddressCount := n }, s.password⟩ d :=
    hinv.refines.of_eq (by rw [hg]) (by rw [hg]) (by rw [hg])
  have hput := (hr.put hinj (show ParameterFits S (addressCountPrefix, H.sizeToBinary n) from ⟨hS, show addressCountPrefix.length < 2 ^ 31 by decide, hn⟩)
    (show (put P addressCountPrefix (H.sizeToBinary n) false _).2 = .ok () from rfl)).commit
  have hcount : ((put P addressCountPrefix (H.sizeToBinary n) false
      (generateAhead H thc { s.wallet with usedAddressCount := n })).1.commit).usedAddressCount = n := by simp
  have hstored : ∀ net, CountStored H (d.current.apply net (.put addressCountPrefix (H.sizeToBinary n) false)) n :=
    fun _ => by simp [CountStored, Contents.apply, H.sizeFromBinary_sizeToBinary]
  refine ⟨_, hput, ?_, ?_⟩ <;> (dsimp only; rw [hcount]; exact hstored s.wallet.net)


/-! ## Runs keep the count -/

/-- **One step keeps the count stored and never lowers it.** For every thread count other than 0, a step from an
object that stands for durable maps holding its count leaves one that does too, with a count no lower, when the new
count's encoding fits; it hands out at most one thing, whose indices lie below the new count, and a range it hands out
starts at the old count -/
theorem CountInv.step {thc : ℕ} (hthc : thc ≠ 0) {s : Session} {d : Durable} (hinv : CountInv P H S s d)
    {st : Step} {s' : Session} {out : List Handout} (h : st.apply P H thc s = some (s', out))
    (hfit : (H.sizeToBinary s'.wallet.usedAddressCount).length < 2 ^ 31) :
    (∃ d', CountInv P H S s' d') ∧ s.wallet.usedAddressCount ≤ s'.wallet.usedAddressCount ∧
      (out = [] ∨ ∃ x, out = [x] ∧ (∀ j ∈ x.indices, j < s'.wallet.usedAddressCount) ∧
        ∀ a n, x = .addresses a n → s.wallet.usedAddressCount ≤ a) := by
  cases st with
  | call c =>
    cases c with
    | generateNewAddresses sks =>
      rcases generateNewAddresses_cases P H hthc sks s.wallet with ⟨e, he⟩ | ⟨rfl, he⟩ | ⟨rs, he⟩
      all_goals simp only [Step.apply, he, Option.some.injEq, Prod.mk.injEq] at h
      all_goals obtain ⟨rfl, rfl⟩ := h
      · exact ⟨⟨d, hinv⟩, Nat.le_refl _, .inl rfl⟩
      · exact ⟨⟨d, hinv⟩, Nat.le_refl _, .inr ⟨_, rfl, by simp [Handout.indices], fun a n h => by cases h; rfl⟩⟩
      · simp only [WalletHD.commit_usedAddressCount, put_usedAddressCount, usedAddressCount_generateAhead] at hfit ⊢
        refine ⟨hinv.raise hinj hS thc hfit, Nat.le_add_right _ _, .inr ⟨_, rfl, fun j hj => ?_,
          fun a n h => by cases h; rfl⟩⟩
        exact (List.mem_range'_1.1 hj).2
    | detectOurOutput spendPublicKey =>
      rcases getLookAheadRecord_cases P H thc s.wallet spendPublicKey with ⟨res, hg, hres⟩ | ⟨i, r, hi, hg⟩
      · simp only [Step.apply, hg] at h
        split at h
        · exact absurd rfl (hres _)
        · obtain ⟨rfl, rfl⟩ := Prod.mk.inj (Option.some.inj h)
          exact ⟨⟨d, hinv⟩, Nat.le_refl _, .inl rfl⟩
      · simp only [Step.apply, hg, hi, Option.some.injEq, Prod.mk.injEq] at h
        obtain ⟨rfl, rfl⟩ := h
        rcases createLookAheadRecords_cases P H thc (i + 1) s.wallet with ⟨hle, hc⟩ | ⟨hlt, hc⟩
        · simp only [hc]
          exact ⟨⟨d, hinv⟩, Nat.le_refl _, .inr ⟨_, rfl, by simpa [Handout.indices] using hle, fun a n h => by cases h⟩⟩
        · simp only [hc, WalletHD.commit_usedAddressCount, put_usedAddressCount, usedAddressCount_generateAhead] at hfit ⊢
          exact ⟨hinv.raise hinj hS thc hfit, hlt.le, .inr ⟨_, rfl, by simp [Handout.indices], fun a n h => by cases h⟩⟩
    | setPassword password =>
      obtain ⟨w, hw, hr, -⟩ := hinv.refines.setPassword hinj password
      simp only [Step.apply, hw, Option.some.injEq, Prod.mk.injEq] at h
      obtain ⟨rfl, rfl⟩ := h
      have hc : w.usedAddressCount = s.wallet.usedAddressCount := by
        have h := congrArg (fun x : KeyPair × ℕ × List WalletRecord × RecordsMap => x.2.1)
          (setPassword_window P password s.wallet)
        rw [hw] at h
        exact h
      refine ⟨⟨_, hr, ?_, ?_⟩, hc.ge, .inl rfl⟩ <;> (dsimp only; rw [hc]; exact hinv.current)
  | reopen =>
    simp only [Step.apply] at h
    split at h
    · rename_i w hw
      obtain ⟨rfl, rfl⟩ := Prod.mk.inj (Option.some.inj h)
      have hc := openWallet_countStored hinj hS hw hinv.refines.committed_salt
      exact ⟨⟨_, (hinv.refines.reopen hw).1, hc, hc⟩, (hinv.committed.unique hc).le, .inl rfl⟩
    · cases h

/-- a run keeps the count stored, never lowers it, and keeps what it hands out below it and its ranges fresh -/
theorem CountInv.run {thc : ℕ} (hthc : thc ≠ 0) : ∀ (sts : List Step) {s : Session} {d : Durable}
    {log : List Handout}, CountInv P H S s d → (∀ e ∈ log, ∀ j ∈ e.indices, j < s.wallet.usedAddressCount) →
    FreshRanges log →
    (∀ p ∈ Step.run P H thc sts (s, log), (H.sizeToBinary p.1.wallet.usedAddressCount).length < 2 ^ 31) →
    List.Chain (· ≤ ·) s.wallet.usedAddressCount
        ((Step.run P H thc sts (s, log)).map fun p => p.1.wallet.usedAddressCount) ∧
      ∀ p ∈ Step.run P H thc sts (s, log),
        (∀ e ∈ p.2, ∀ j ∈ e.indices, j < p.1.wallet.usedAddressCount) ∧ FreshRanges p.2
  | [], _, _, _, _, _, _, _ => ⟨List.Chain.nil, fun _ h => absurd h (List.not_mem_nil _)⟩
  | st :: sts, s, d, log, hinv, hlog, hfresh, hfit => by
    simp only [Step.run] at hfit ⊢
    cases ha : st.apply P H thc s with
    | none => exact ⟨List.Chain.nil, fun _ h => absurd h (List.not_mem_nil _)⟩
    | some r =>
      obtain ⟨s', out⟩ := r
      simp only [ha, List.forall_mem_cons, List.map_cons, List.chain_cons] at hfit ⊢
      obtain ⟨⟨d', hinv'⟩, hle, hout⟩ := hinv.step hinj hS hthc ha hfit.1
      have hlog' : ∀ e ∈ log ++ out, ∀ j ∈ e.indices, j < s'.wallet.usedAddressCount := by
        intro e he j hj
        rcases List.mem_append.1 he with he | he
        · exact Nat.lt_of_lt_of_le (hlog e he j hj) hle
        · rcases hout with rfl | ⟨x, rfl, hx, -⟩
          · exact absurd he (List.not_mem_nil _)
          · exact hx j (List.mem_singleton.1 he ▸ hj)
      have hfresh' : FreshRanges (log ++ out) := by
        rcases hout with rfl | ⟨x, rfl, -, hx⟩
        · rwa [List.append_nil]
        · exact hfresh.snoc hlog hx
      obtain ⟨hchain, hall⟩ := CountInv.run hthc sts hinv' hlog' hfresh' hfit.2
      exact ⟨⟨hle, hchain⟩, ⟨hlog', hfresh'⟩, hall⟩

/-- **The used address count over runs with reopening.** On every platform whose `hardware_concurrency()` is not 0,
where `derive_from_key` is injective on the strings the store hashes and `seria` writes a `size_t` in fewer than
`2 ^ 31` bytes: from an object that stands for durable maps holding its count (as every opened one does,
`openWallet_countInv`), along every run of `generate_new_addresses`, `detect_our_output`, `set_password` and
reopening whose counts stay within a `size_t`, the count never decreases; after every step each index handed out so
far lies below it; and each range `generate_new_addresses` hands out lies above every index handed out before it -/
theorem usedAddressCount_of_run (hsize : ∀ n < 2 ^ 64, (H.sizeToBinary n).length < 2 ^ 31) {thc : ℕ} (hthc : thc ≠ 0)
    {s0 : Session} {d0 : Durable} (h0 : CountInv P H S s0 d0) (sts : List Step)
    (hbound : ∀ p ∈ Step.run P H thc sts (s0, []), p.1.wallet.usedAddressCount < 2 ^ 64) :
    List.Chain (· ≤ ·) s0.wallet.usedAddressCount
        ((Step.run P H thc sts (s0, [])).map fun p => p.1.wallet.usedAddressCount) ∧
      ∀ p ∈ Step.run P H thc sts (s0, []),
        (∀ e ∈ p.2, ∀ j ∈ e.indices, j < p.1.wallet.usedAddressCount) ∧ FreshRanges p.2 :=
  CountInv.run hinj hS hthc sts h0 (fun _ h => absurd h (List.not_mem_nil _)) FreshRanges.nil
    fun p hp => hsize _ (hbound p hp)

end

/-! ## On the computable instance -/

theorem byteWidth_le : ∀ (fuel n k : ℕ), n < 256 ^ k → byteWidth fuel n ≤ k + 1
  | 0, _, _, _ => by simp only [byteWidth]; omega
  | fuel + 1, n, k, h => by
    simp only [byteWidth]
    split
    · omega
    · cases k with
      | zero => simp only [pow_zero] at h; omega
      | succ k =>
        have := byteWidth_le fuel (n / 256) k (by rw [pow_succ] at h; omega)
        omega

theorem plainHd_sizeToBinary_length (n : ℕ) (h : n < 2 ^ 64) : (plainHdPrimitives.sizeToBinary n).length < 2 ^ 31 := by
  have := byteWidth_le n n 8 (by simpa using h)
  simp only [plainHdPrimitives, length_uintLeToBytes]
  omega

set_option maxRecDepth 100000 in
/-- with `hardware_concurrency()` returning 0, `generate_new_addresses` of one zero key raises the count of the opened
sample wallet to 1 and throws before it puts it; reopening reads 0 again -/
theorem no_threads_reopen_lowers_count :
    ∃ s1 s2, Step.run hashPrimitives plainHdPrimitives 0 [.call (.generateNewAddresses [Pod.zero 32]), .reopen]
        (⟨sampleWallet, []⟩, []) = [(s1, []), (s2, [])] ∧
      sampleWallet.usedAddressCount = 0 ∧ s1.wallet.usedAddressCount = 1 ∧ s2.wallet.usedAddressCount = 0 :=
  ⟨_, _, rfl, rfl, rfl, rfl⟩

end BytecoinWallet.HD
