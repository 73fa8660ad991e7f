/-
Mnemonic generation: `WalletHD::generate_mnemonic(bits, version)` (Wallet.cpp 682-753).

The word list and its CRC helpers live in `common::`, outside src/, and `WordTable` carries them: word `i` is the
text from `word_ptrs[i]` to `word_ptrs[i + 1]`, `word_crc32_adj[i]` is its CRC adjustment, and `words_bylen[l]`, a
pointer into `word_crc32_adj` kept here as an index, ends the words of length `WORDS_MIN_LEN + l`.

A phrase is `k = (bits - 1) / BITS_PER_WORD + 1` random words and three more, chosen so that folding
`c ↦ crc32_step_zero^|w|(c) xor word_crc32_adj[w]` over the phrase from 0 gives `version` (`WordTable.crcWord`). The
code tabulates, for each last word, the CRC state from which it ends at `version` (`lastWord`, stepping back with
`crc32_reverse_step_zero`), then walks the length buckets twice for the two middle words, stepping the CRC once per
bucket (`walkBuckets`). The values of `crypto::rand<size_t>()` are a stream and the `while (true)` a fuel:
`generateMnemonic` is `none` when the fuel runs out before a hit. `bits ≥ 1` in every call; at 0 the `size_t`
subtraction would wrap.

- `walkBuckets_eq_some`: a hit of the bucket walk is a word of its bucket, seen with the CRC stepped once per bucket.
- `generateMnemonic_spec`: for a table sorted by length and a reverse step that the step undoes, whatever the version
  and the draws, a returned phrase is `k + 3` words of the table joined by single spaces, and its CRC fold is
  `version`.
- `single_word_mnemonic`: on a one-word table the first pass returns.
-/
import Mathlib.Logic.Function.Iterate

namespace BytecoinWallet.HD

/-! ## The word table -/

/-- the word list of `common::` and its CRC helpers -/
structure WordTable where
  /-- `WORDS_COUNT` -/
  wordsCount : ℕ
  /-- `WORDS_MIN_LEN` and `WORDS_MAX_LEN` -/
  wordsMinLen : ℕ
  wordsMaxLen : ℕ
  /-- `BITS_PER_WORD` -/
  bitsPerWord : ℕ
  /-- the text from `word_ptrs[i]` to `word_ptrs[i + 1]` -/
  word : ℕ → String
  /-- `word_crc32_adj` -/
  wordCrc32Adj : ℕ → UInt32
  /-- `words_bylen[l] - word_crc32_adj` -/
  wordsBylen : ℕ → ℕ
  /-- `crc32_step_zero` and `crc32_reverse_step_zero` -/
  crc32StepZero : UInt32 → UInt32
  crc32ReverseStepZero : UInt32 → UInt32

namespace WordTable

variable (T : WordTable)

/-- the last length bucket, `WORDS_MAX_LEN - WORDS_MIN_LEN` -/
def lastBucket : ℕ := T.wordsMaxLen - T.wordsMinLen

/-- where bucket `l` starts: where the one before it ends -/
def bucketStart : ℕ → ℕ
  | 0 => 0
  | l + 1 => T.wordsBylen l

/-- one word of the CRC fold: `crc32_step_zero` once per character of word `j`, then `xor word_crc32_adj[j]` -/
def crcWord (c : UInt32) (j : ℕ) : UInt32 :=
  T.crc32StepZero^[(T.word j).length] c ^^^ T.wordCrc32Adj j

/-- the table is sorted by length: bucket `l` holds the words from `bucketStart l` to `words_bylen[l]`, all of length
`WORDS_MIN_LEN + l`, and the last bucket ends the table -/
structure SortedByLength : Prop where
  bylen_mono : ∀ l < T.lastBucket, T.wordsBylen l ≤ T.wordsBylen (l + 1)
  bylen_last : T.wordsBylen T.lastBucket = T.wordsCount
  length_word : ∀ l ≤ T.lastBucket, ∀ i, T.bucketStart l ≤ i → i < T.wordsBylen l →
    (T.word i).length = T.wordsMinLen + l

variable {T}

theorem SortedByLength.bylen_le_count (hs : T.SortedByLength) : ∀ n l, l + n = T.lastBucket →
    T.wordsBylen l ≤ T.wordsCount
  | 0, l, h => Nat.le_of_eq (by rw [show l = T.lastBucket by omega, hs.bylen_last])
  | n + 1, l, h => Nat.le_trans (hs.bylen_mono l (by omega)) (hs.bylen_le_count n (l + 1) (by omega))

theorem SortedByLength.bucketStart_le (hs : T.SortedByLength) {l : ℕ} (hl : l ≤ T.lastBucket) :
    T.bucketStart l ≤ T.wordsBylen l := by
  cases l with
  | zero => exact Nat.zero_le _
  | succ l => exact hs.bylen_mono l (by omega)

end WordTable

/-! ## The code -/

section
variable (T : WordTable)

/-- `last_word`: for each CRC state, the last word `i` it is the suffix of, the state `version xor word_crc32_adj[i]`
stepped back once per character of word `i` -/
def lastWord (version : UInt32) : UInt32 → Option ℕ :=
  (List.range T.wordsCount).foldl
    (fun m i => Function.update m (T.crc32ReverseStepZero^[(T.word i).length] (version ^^^ T.wordCrc32Adj i)) (some i))
    fun _ => none

/-- `for (l = 0;; l++) { for (; p != words_bylen[l]; p++) ...; if (l == WORDS_MAX_LEN - WORDS_MIN_LEN) break;
crc = crc32_step_zero(crc); }` over the buckets `ls`, from the word `p`: the first hit of `body` on a word and the CRC
state of its bucket -/
def walkBuckets {α : Type} (body : ℕ → UInt32 → Option α) (p : ℕ) (crc : UInt32) : List ℕ → Option α
  | [] => none
  | l :: ls =>
    match (List.range' p (T.wordsBylen l - p)).findSome? (body · crc) with
    | some a => some a
    | none => walkBuckets body (T.wordsBylen l) (T.crc32StepZero crc) ls

/-- the text of `word_ids`: the first word, then a space and the next word, for each -/
def phrase : List ℕ → String
  | [] => ""
  | w :: ws => ws.foldl (fun result v => (result.push ' ').append (T.word v)) (T.word w)

/-- one pass of the `while (true)` of `generate_mnemonic`, on the prefix words drawn -/
def mnemonicAttempt (version : UInt32) (prefixIds : List ℕ) : Option String :=
  let buckets := List.range (T.lastBucket + 1)
  (walkBuckets T (fun adj1 crc32Prefix =>
      walkBuckets T (fun adj2 crc32Prefix2 =>
          (lastWord T version (crc32Prefix2 ^^^ T.wordCrc32Adj adj2)).map fun i => [adj1, adj2, i])
        0 (T.crc32StepZero^[T.wordsMinLen] (crc32Prefix ^^^ T.wordCrc32Adj adj1)) buckets)
    0 (T.crc32StepZero^[T.wordsMinLen] (prefixIds.foldl T.crcWord 0)) buckets).map fun last =>
      phrase T (prefixIds ++ last)

/-- `generate_mnemonic(bits, version)` with the values `draws` of `crypto::rand<size_t>()`, within `fuel` passes of
its `while (true)` -/
def generateMnemonic (bits : ℕ) (version : UInt32) (draws : ℕ → ℕ) : ℕ → Option String
  | 0 => none
  | fuel + 1 =>
    let wordsInPrefix := (bits - 1) / T.bitsPerWord + 1
    match mnemonicAttempt T version ((List.range wordsInPrefix).map fun i => draws i % T.wordsCount) with
    | some s => some s
    | none => generateMnemonic bits version (fun n => draws (n + wordsInPrefix)) fuel

end

/-! ## Step lemmas -/

theorem uint32_xor_xor_cancel (a b : UInt32) : (a ^^^ b) ^^^ b = a := by
  cases a; cases b
  show UInt32.mk _ = _
  congr 1
  show (_ ^^^ _) ^^^ _ = _
  rw [BitVec.xor_assoc, BitVec.xor_self, BitVec.xor_zero]

theorem phrase_eq_intercalate (T : WordTable) (ids : List ℕ) :
    phrase T ids = String.intercalate " " (ids.map T.word) := by
  have hgo : ∀ (ws : List ℕ) (acc : String),
      ws.foldl (fun result v => (result.push ' ').append (T.word v)) acc =
        String.intercalate.go acc " " (ws.map T.word) := by
    intro ws
    induction ws with
    | nil => intro acc; rfl
    | cons v vs ih => intro acc; rw [List.foldl_cons, ih]; rfl
  cases ids with
  | nil => rfl
  | cons w ws => exact hgo ws (T.word w)

/-- what `last_word` holds: a word of the table, under its suffix -/
theorem lastWord_eq_some {T : WordTable} {version x : UInt32} {i : ℕ} (h : lastWord T version x = some i) :
    i < T.wordsCount ∧ T.crc32ReverseStepZero^[(T.word i).length] (version ^^^ T.wordCrc32Adj i) = x := by
  have hfold : ∀ (L : List ℕ) (m : UInt32 → Option ℕ), (L.foldl (fun m i => Function.update m
      (T.crc32ReverseStepZero^[(T.word i).length] (version ^^^ T.wordCrc32Adj i)) (some i)) m) x = some i →
      m x = some i ∨ i ∈ L ∧ T.crc32ReverseStepZero^[(T.word i).length] (version ^^^ T.wordCrc32Adj i) = x := by
    intro L
    induction L with
    | nil => exact fun m h => .inl h
    | cons j L ih =>
      intro m h
      rcases ih _ h with h | ⟨hi, hx⟩
      · dsimp only at h
        by_cases hj : x = T.crc32ReverseStepZero^[(T.word j).length] (version ^^^ T.wordCrc32Adj j)
        · subst hj
          rw [Function.update_same] at h
          cases h
          exact .inr ⟨List.mem_cons_self _ _, rfl⟩
        · exact .inl (by rwa [Function.update_noteq hj] at h)
      · exact .inr ⟨List.mem_cons_of_mem _ hi, hx⟩
  rcases hfold _ _ h with h | ⟨hi, hx⟩
  · cases h
  · exact ⟨List.mem_range.1 hi, hx⟩

/-- a hit of the bucket walk from bucket `l`: a word `q` of a bucket `l'` at or after `l`, seen with the CRC stepped
once per bucket walked past -/
theorem walkBuckets_eq_some {T : WordTable} (hs : T.SortedByLength) {α : Type} {body : ℕ → UInt32 → Option α}
    {a : α} : ∀ (n l : ℕ) (crc : UInt32), l + n ≤ T.lastBucket + 1 →
      walkBuckets T body (T.bucketStart l) crc (List.range' l n) = some a →
      ∃ l' q, l ≤ l' ∧ l' < l + n ∧ T.bucketStart l' ≤ q ∧ q < T.wordsBylen l' ∧
        body q (T.crc32StepZero^[l' - l] crc) = some a
  | 0, _, _, _, h => by cases h
  | n + 1, l, crc, hn, h => by
    rw [List.range'_succ, walkBuckets] at h
    split at h
    · rename_i hfind
      obtain ⟨q, hq, hbody⟩ := List.exists_of_findSome?_eq_some hfind
      rw [List.mem_range'_1, Nat.add_sub_cancel' (hs.bucketStart_le (by omega))] at hq
      cases h
      exact ⟨l, q, Nat.le_refl l, by omega, hq.1, hq.2, by rwa [Nat.sub_self]⟩
    · obtain ⟨l', q, hl, hl', hq1, hq2, hbody⟩ := walkBuckets_eq_some hs n (l + 1) _ (by omega) h
      refine ⟨l', q, by omega, by omega, hq1, hq2, ?_⟩
      rwa [show l' - l = l' - (l + 1) + 1 by omega, Function.iterate_succ_apply]

/-- the bucket walk over all buckets: a word of the table, seen with the CRC stepped once more per character beyond
`WORDS_MIN_LEN` -/
theorem walkBuckets_range {T : WordTable} (hs : T.SortedByLength) {α : Type} {body : ℕ → UInt32 → Option α}
    {a : α} {crc : UInt32} (h : walkBuckets T body 0 (T.crc32StepZero^[T.wordsMinLen] crc)
      (List.range (T.lastBucket + 1)) = some a) :
    ∃ q, q < T.wordsCount ∧ body q (T.crc32StepZero^[(T.word q).length] crc) = some a := by
  rw [List.range_eq_range'] at h
  obtain ⟨l, q, -, hl, hq1, hq2, hbody⟩ := walkBuckets_eq_some hs _ 0 _ (by omega) h
  refine ⟨q, Nat.lt_of_lt_of_le hq2 (hs.bylen_le_count (T.lastBucket - l) l (by omega)), ?_⟩
  rwa [hs.length_word l (by omega) q hq1 hq2, Nat.add_comm, Function.iterate_add_apply]

/-! ## The phrase -/

section
variable {T : WordTable} (hs : T.SortedByLength)
  (hinv : Function.LeftInverse T.crc32StepZero T.crc32ReverseStepZero)
include hs hinv

/-- a pass that returns: the prefix, two middle words and a last word, whose CRC fold is `version` -/
theorem mnemonicAttempt_spec {version : UInt32} {prefixIds : List ℕ} {s : String}
    (h : mnemonicAttempt T version prefixIds = some s) :
    ∃ a1 a2 i, a1 < T.wordsCount ∧ a2 < T.wordsCount ∧ i < T.wordsCount ∧
      s = phrase T (prefixIds ++ [a1, a2, i]) ∧ (prefixIds ++ [a1, a2, i]).foldl T.crcWord 0 = version := by
  obtain ⟨last, hwalk, rfl⟩ := Option.map_eq_some'.1 h
  obtain ⟨a1, ha1, hwalk2⟩ := walkBuckets_range hs hwalk
  obtain ⟨a2, ha2, hlast⟩ := walkBuckets_range hs hwalk2
  obtain ⟨i, hi, rfl⟩ := Option.map_eq_some'.1 hlast
  obtain ⟨hi', hsuffix⟩ := lastWord_eq_some hi
  refine ⟨a1, a2, i, ha1, ha2, hi', rfl, ?_⟩
  have hfold : T.crcWord (T.crcWord (T.crcWord (prefixIds.foldl T.crcWord 0) a1) a2) i = version := by
    rw [WordTable.crcWord, WordTable.crcWord, WordTable.crcWord, ← hsuffix, hinv.iterate, uint32_xor_xor_cancel]
  simpa only [List.foldl_append, List.foldl_cons, List.foldl_nil] using hfold

theorem generateMnemonic_spec (bits : ℕ) (version : UInt32) :
    ∀ (draws : ℕ → ℕ) (fuel : ℕ) (s : String), generateMnemonic T bits version draws fuel = some s →
      ∃ ids : List ℕ, ids.length = (bits - 1) / T.bitsPerWord + 1 + 3 ∧ (∀ j ∈ ids, j < T.wordsCount) ∧
        s = String.intercalate " " (ids.map T.word) ∧ ids.foldl T.crcWord 0 = version := by
  intro draws fuel
  induction fuel generalizing draws with
  | zero => intro s h; cases h
  | succ fuel ih =>
    intro s h
    rw [generateMnemonic] at h
    split at h
    · rename_i s' hpass
      cases h
      obtain ⟨a1, a2, i, ha1, ha2, hi, rfl, hcrc⟩ := mnemonicAttempt_spec hs hinv hpass
      refine ⟨_, by simp, fun j hj => ?_, phrase_eq_intercalate T _, hcrc⟩
      simp only [List.mem_append, List.mem_map, List.mem_range, List.mem_cons, List.mem_singleton,
        List.not_mem_nil, or_false] at hj
      rcases hj with ⟨n, -, rfl⟩ | rfl | rfl | rfl
      exacts [Nat.mod_lt _ (by omega), ha1, ha2, hi]
    · exact ih _ s h

end

/-- a one-word table, whose CRC steps do nothing, answers version 0 at the first pass -/
theorem single_word_mnemonic :
    let T : WordTable := ⟨1, 1, 1, 11, fun _ => "a", fun _ => 0, fun _ => 1, id, id⟩
    T.SortedByLength ∧ Function.LeftInverse T.crc32StepZero T.crc32ReverseStepZero ∧
      generateMnemonic T 1 0 (fun _ => 0) 1 = some "a a a a" ∧
      ∃ ids : List ℕ, ids.length = (1 - 1) / T.bitsPerWord + 1 + 3 ∧ (∀ j ∈ ids, j < T.wordsCount) ∧
        "a a a a" = String.intercalate " " (ids.map T.word) ∧ ids.foldl T.crcWord 0 = 0 := by
  intro T
  have hs : T.SortedByLength :=
    ⟨by decide, rfl, fun l hl i _ _ => by
      cases l with
      | zero => rfl
      | succ l => exact absurd hl (by simp [T, WordTable.lastBucket])⟩
  have hinv : Function.LeftInverse T.crc32StepZero T.crc32ReverseStepZero := fun _ => rfl
  have hgen : generateMnemonic T 1 0 (fun _ => 0) 1 = some "a a a a" := by decide
  exact ⟨hs, hinv, hgen, generateMnemonic_spec hs hinv 1 0 _ 1 _ hgen⟩

end BytecoinWallet.HD
