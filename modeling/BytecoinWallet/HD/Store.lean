/-
The encrypted store of `WalletHD` against three maps.

The tables `parameters`, `labels` and `payment_queue` hold encrypted rows under a primary key hashed from the wallet
key (`derive_from_key`). What they stand for is three finite maps: parameters by key, labels by address, queued
transactions by tid and net. `Represents` says that a table's rows decrypt, one by one, to the entries of such a map,
each row under the hash of its entry's key; `m_labels` is an ordered map that must agree with the labels map.

- `Represents.replace`, `Represents.delete`, `Represents.lookup`: `REPLACE`, `DELETE` and `SELECT ... WHERE` on the
  rows are an update, an erasure and a read of the map, wherever `derive_from_key` is injective on the strings hashed.
- `store_refines`: over every run of `put`, `set_label`, `payment_queue_add`, `payment_queue_remove`, `set_password`
  and reopening with the current password that returns, the open transaction's tables stand for the maps the calls
  build, the committed tables for the maps as of the last commit, `m_labels` for the labels map, and `get`,
  `get_label`, `parameters_get`, `payment_queue_get2` and `payment_queue_get` read them; reopening goes back to the
  committed maps.
- `reopen_loses_put`: a `put` that no commit follows does not survive reopening.
- `createWallet_refines`: the creating constructor given a mnemonic returns a wallet whose open and committed
  tables both stand for the six parameters it puts, with no labels and no queued transactions.
-/
import BytecoinWallet.HD.Window
import Mathlib.Data.List.Forall2
import Mathlib.Data.List.Nodup

namespace BytecoinWallet.HD

/-! ## Rows and `m_labels` -/

namespace Rows

variable {K V : Type} [DecidableEq K]

@[simp] theorem lookup_nil (k : K) : Rows.lookup ([] : Rows K V) k = none := rfl

@[simp] theorem lookup_cons (r : K × V) (rows : Rows K V) (k : K) :
    Rows.lookup (r :: rows) k = if r.1 = k then some r.2 else rows.lookup k := by
  by_cases h : r.1 = k <;> simp [lookup, List.find?_cons, h]

theorem any_eq_isSome_lookup (rows : Rows K V) (k : K) :
    rows.any (fun r => decide (r.1 = k)) = (rows.lookup k).isSome := by
  induction rows with
  | nil => rfl
  | cons r rows ih => by_cases h : r.1 = k <;> simp [h, ih]

/-- `INSERT` fails on a key that has a row, and is `REPLACE` otherwise -/
theorem insert_eq (rows : Rows K V) (k : K) (v : V) :
    rows.insert k v = if (rows.lookup k).isSome then .error .sqliteError else .ok (rows.replace k v) := by
  rw [insert, any_eq_isSome_lookup]
  cases h : rows.lookup k with
  | some _ => rfl
  | none =>
    have hno : ∀ r ∈ rows, decide (r.1 ≠ k) = true := by simpa [lookup, List.find?_eq_none] using h
    rw [replace, List.filter_eq_self.2 hno]

theorem lookup_delete (rows : Rows K V) (k : K) : (rows.delete k).lookup = Function.update rows.lookup k none := by
  funext a
  induction rows with
  | nil => simp [delete, Function.update_apply]
  | cons r rows ih =>
    simp only [delete, Function.update_apply] at ih ⊢
    by_cases h : a = k
    · subst h; by_cases hr : r.1 = a <;> simp_all [List.filter_cons]
    · have := Ne.symm h; by_cases hr : r.1 = k <;> simp_all [List.filter_cons]

theorem lookup_assign (lt : K → K → Bool) (k : K) (v : V) :
    ∀ rows : Rows K V, (rows.assign lt k v).lookup = Function.update rows.lookup k (some v)
  | [] => by funext a; by_cases h : k = a <;> simp [assign, h, Function.update_apply, Ne.symm]
  | r :: rows => by
    funext a
    have ih := congrFun (lookup_assign lt k v rows) a
    simp only [Function.update_apply] at ih ⊢
    unfold assign
    by_cases h : a = k
    · subst h; by_cases hr : r.1 = a <;> by_cases hl : lt a r.1 <;> simp_all
    · have := Ne.symm h; by_cases hr : r.1 = k <;> by_cases hl : lt k r.1 <;> simp_all
theorem mem_assign {lt : K → K → Bool} {k : K} {v : V} {x : K × V} :
    ∀ {rows : Rows K V}, x ∈ rows.assign lt k v → x ∈ rows ∨ x = (k, v)
  | [], h => .inr (by simpa [assign] using h)
  | r :: rows, h => by
    unfold assign at h
    split_ifs at h
    · rcases List.mem_cons.1 h with h | h
      · exact .inr h
      · exact .inl (List.mem_cons_of_mem _ h)
    · rcases List.mem_cons.1 h with h | h
      · exact .inr h
      · exact .inl h
    · rcases List.mem_cons.1 h with h | h
      · exact .inl (h ▸ List.mem_cons_self _ _)
      · exact (mem_assign h).imp (List.mem_cons_of_mem _) id

theorem lookup_foldl_assign (lt : K → K → Bool) :
    ∀ (es : List (K × V)) (rows : Rows K V),
      (es.foldl (fun m r => m.assign lt r.1 r.2) rows).lookup =
        es.foldl (fun (f : K → Option V) r => Function.update f r.1 (some r.2)) rows.lookup
  | [], _ => rfl
  | e :: es, rows => by simp only [List.foldl_cons, lookup_foldl_assign lt es, lookup_assign]

end Rows

/-- `m_labels` keeps its keys in ascending order, as a `std::map` does -/
def Ascending {V : Type} (rows : Rows BinaryArray V) : Prop :=
  rows.Pairwise fun x y => bytesLt x.1 y.1 = true

theorem Ascending.nodup {V : Type} {rows : Rows BinaryArray V} (h : Ascending rows) : (rows.map Prod.fst).Nodup :=
  List.pairwise_map.2 (h.imp fun hxy e => by rw [e, bytesLt_irrefl] at hxy; cases hxy)

theorem Ascending.assign {V : Type} {k : BinaryArray} {v : V} :
    ∀ {rows : Rows BinaryArray V}, Ascending rows → Ascending (rows.assign bytesLt k v)
  | [], _ => List.pairwise_singleton _ _
  | r :: rows, h => by
    rw [Ascending, List.pairwise_cons] at h
    unfold Rows.assign
    split_ifs with hr hl
    · exact List.pairwise_cons.2 ⟨fun y hy => hr ▸ h.1 y hy, h.2⟩
    · exact List.pairwise_cons.2 ⟨fun y hy => (List.mem_cons.1 hy).elim (· ▸ hl)
        (fun hy => bytesLt_trans hl (h.1 y hy)), List.pairwise_cons.2 h⟩
    · refine List.pairwise_cons.2 ⟨fun y hy => ?_, Ascending.assign h.2⟩
      rcases Rows.mem_assign hy with hy | rfl
      · exact h.1 y hy
      · exact bytesLt_total (Ne.symm hr) (Bool.eq_false_iff.2 hl)

theorem Ascending.delete {V : Type} {rows : Rows BinaryArray V} (h : Ascending rows) (k : BinaryArray) :
    Ascending (rows.delete k) :=
  List.Pairwise.filter _ h

theorem Ascending.foldl_assign {V : Type} :
    ∀ (es : List (BinaryArray × V)) {rows : Rows BinaryArray V}, Ascending rows →
      Ascending (es.foldl (fun m r => m.assign bytesLt r.1 r.2) rows)
  | [], _, h => h
  | _ :: es, _, h => Ascending.foldl_assign es h.assign

/-! ## Maps as lists of entries -/

section Graph

variable {E K V : Type} (key : E → K) (val : E → V)

/-- the entries `es` list the map `m`: each key once, and `m k = some v` for exactly the entries' pairs -/
structure Graph (es : List E) (m : K → Option V) : Prop where
  nodup : (es.map key).Nodup
  mem_iff : ∀ k v, m k = some v ↔ ∃ e ∈ es, key e = k ∧ val e = v

variable {key val}

theorem Graph.nil : Graph key val [] fun _ => none :=
  ⟨List.nodup_nil, by simp⟩

theorem Graph.eq_none {es : List E} {m : K → Option V} (hg : Graph key val es m) {k : K} :
    m k = none ↔ ∀ e ∈ es, key e ≠ k := by
  rw [Option.eq_none_iff_forall_not_mem]
  simp only [Option.mem_def, hg.mem_iff]
  exact ⟨fun h e he hk => h _ ⟨e, he, hk, rfl⟩, fun h v ⟨e, he, hk, _⟩ => h e he hk⟩

theorem Graph.of_mem {es : List E} {m : K → Option V} (hg : Graph key val es m) {e : E} (he : e ∈ es) :
    m (key e) = some (val e) :=
  (hg.mem_iff _ _).2 ⟨e, he, rfl, rfl⟩

variable [DecidableEq K]

theorem Graph.erase {es : List E} {m : K → Option V} (hg : Graph key val es m) (k : K) :
    Graph key val (es.filter fun e => key e ≠ k) (Function.update m k none) := by
  refine ⟨hg.nodup.sublist ((List.filter_sublist _).map key), fun k' v => ?_⟩
  by_cases h : k' = k
  · subst h
    simp only [Function.update_same, reduceCtorEq, false_iff, not_exists, not_and, List.mem_filter,
      decide_eq_true_eq]
    exact fun e ⟨_, hne⟩ hk _ => hne hk
  · simp only [Function.update_apply, h, if_false, hg.mem_iff, List.mem_filter, decide_eq_true_eq]
    exact ⟨fun ⟨e, he, hk, hv⟩ => ⟨e, ⟨he, hk ▸ h⟩, hk, hv⟩,
      fun ⟨e, ⟨he, _⟩, hk, hv⟩ => ⟨e, he, hk, hv⟩⟩

theorem Graph.snoc {es : List E} {m : K → Option V} (hg : Graph key val es m) {e : E} (he : m (key e) = none) :
    Graph key val (es ++ [e]) (Function.update m (key e) (some (val e))) := by
  have hnot : ∀ x ∈ es, key x ≠ key e := hg.eq_none.1 he
  refine ⟨?_, fun k v => ?_⟩
  · rw [List.map_append, List.nodup_append]
    exact ⟨hg.nodup, List.nodup_singleton _, fun a ha hb => by
      obtain ⟨x, hx, rfl⟩ := List.mem_map.1 ha
      exact hnot x hx (List.mem_singleton.1 hb)⟩
  · by_cases h : k = key e
    · subst h
      simp only [Function.update_same, Option.some.injEq, List.mem_append, List.mem_singleton]
      exact ⟨fun hv => ⟨e, .inr rfl, rfl, hv⟩, fun ⟨x, hx, hk, hv⟩ =>
        hx.elim (fun hx => absurd hk (hnot x hx)) (fun hx => hx ▸ hv)⟩
    · simp only [Function.update_apply, h, if_false, hg.mem_iff, List.mem_append, List.mem_singleton]
      exact ⟨fun ⟨x, hx, hk, hv⟩ => ⟨x, .inl hx, hk, hv⟩, fun ⟨x, hx, hk, hv⟩ =>
        hx.elim (fun hx => ⟨x, hx, hk, hv⟩) (fun hx => absurd (hx ▸ hk).symm h)⟩

theorem Graph.tail {e : E} {es : List E} {m : K → Option V} (hg : Graph key val (e :: es) m) :
    Graph key val es (Function.update m (key e) none) := by
  have hnot : key e ∉ es.map key := (List.nodup_cons.1 hg.nodup).1
  have hfilter : (e :: es).filter (fun x => key x ≠ key e) = es := by
    rw [List.filter_cons_of_neg (by simp), List.filter_eq_self]
    exact fun x hx => decide_eq_true fun h => hnot (h ▸ List.mem_map_of_mem key hx)
  simpa only [hfilter] using hg.erase (key e)

/-- updating along the entries of a map, each key once, puts the map over what was there -/
theorem Graph.foldl_update : ∀ {es : List E} {m : K → Option V} (f : K → Option V), Graph key val es m →
    es.foldl (fun f e => Function.update f (key e) (some (val e))) f = fun k => (m k).or (f k)
  | [], m, f, hg => by funext k; simp [hg.eq_none.2 (fun _ h => absurd h (List.not_mem_nil _))]
  | e :: es, m, f, hg => by
    rw [List.foldl_cons, Graph.foldl_update _ hg.tail]
    funext k
    by_cases h : k = key e
    · subst h; simp [hg.of_mem (List.mem_cons_self e es)]
    · simp [Function.update_apply, h]

end Graph

theorem foldl_update_of_ne {K V : Type} [DecidableEq K] {k : K} :
    ∀ {es : List (K × V)} (m : K → Option V), (∀ e ∈ es, e.1 ≠ k) →
      es.foldl (fun (f : K → Option V) (e : K × V) => Function.update f e.1 (some e.2)) m k = m k
  | [], _, _ => rfl
  | e :: es, m, h => by
    rw [List.foldl_cons, foldl_update_of_ne _ fun e' he' => h e' (List.mem_cons_of_mem _ he'),
      Function.update_noteq (h e (List.mem_cons_self _ _)).symm]

/-! ## Tables as maps -/

theorem decryptRows_of_forall₂ {α β : Type} {f : α → Except Failure β} {Q : α → β → Prop} :
    ∀ {l : List α} {bs : List β}, List.Forall₂ (fun a b => f a = .ok b ∧ Q a b) l bs →
      decryptRows f l = .ok bs
  | _, _, .nil => rfl
  | _, _, .cons h hs => by simp only [decryptRows, h.1, decryptRows_of_forall₂ hs]

theorem forall₂_mem_right {α β : Type} {Q : α → β → Prop} :
    ∀ {l : List α} {bs : List β}, List.Forall₂ Q l bs → ∀ b ∈ bs, ∃ a ∈ l, Q a b
  | _, _, .nil, _, h => absurd h (List.not_mem_nil _)
  | a :: _, _, .cons hab hs, b, h =>
    (List.mem_cons.1 h).elim (fun e => ⟨a, List.mem_cons_self _ _, e ▸ hab⟩) fun hb =>
      let ⟨a', ha', h'⟩ := forall₂_mem_right hs b hb
      ⟨a', List.mem_cons_of_mem _ ha', h'⟩

section Represents

variable {R E K K' V : Type} (dec : K' × R → Except Failure E) (key : E → K)
  (val : E → V) (hash : K → K') (fits : E → Prop)

/-- the rows stand for the map `m`: row by row they decrypt to entries that fit, each under the hash of its entry's
key, and the entries list `m` -/
def Represents (rows : Rows K' R) (m : K → Option V) : Prop :=
  ∃ es, List.Forall₂ (fun r e => dec r = .ok e ∧ r.1 = hash (key e) ∧ fits e) rows es ∧ Graph key val es m

variable {dec key val hash fits} {D : Set K} {rows : Rows K' R} {m : K → Option V}

theorem Represents.nil : Represents dec key val hash fits [] fun _ => none := ⟨[], .nil, Graph.nil⟩

/-- a `SELECT` over the whole table decrypts every row, and the entries list the map -/
theorem Represents.decryptRows (hr : Represents dec key val hash fits rows m) :
    ∃ es, decryptRows dec rows = .ok es ∧ Graph key val es m ∧ ∀ e ∈ es, fits e := by
  obtain ⟨es, hF, hg⟩ := hr
  refine ⟨es, decryptRows_of_forall₂ hF, hg, fun e he => ?_⟩
  obtain ⟨_, -, -, -, h⟩ := forall₂_mem_right hF e he
  exact h

section
variable (hinj : Set.InjOn hash D) (hD : ∀ e, fits e → key e ∈ D)
include hinj hD

theorem hash_eq_iff {r : K' × R} {e : E} (hre : r.1 = hash (key e) ∧ fits e) {k : K} (hk : k ∈ D) :
    r.1 = hash k ↔ key e = k := by
  rw [hre.1]; exact hinj.eq_iff (hD e hre.2) hk

variable [DecidableEq K] [DecidableEq K']

theorem Represents.delete (hr : Represents dec key val hash fits rows m) {k : K} (hk : k ∈ D) :
    Represents dec key val hash fits (rows.delete (hash k)) (Function.update m k none) := by
  obtain ⟨es, hF, hg⟩ := hr
  refine ⟨_, List.rel_filter (fun r e hre => ?_) hF, hg.erase k⟩
  simp only [decide_eq_true_eq]
  exact not_congr (hash_eq_iff hinj hD hre.2 hk)

/-- `REPLACE` of a row that decrypts to an entry that fits, under the hash of its key, sets the entry -/
theorem Represents.replace (hr : Represents dec key val hash fits rows m) {e : E} {x : R}
    (hdec : dec (hash (key e), x) = .ok e) (he : fits e) :
    Represents dec key val hash fits (rows.replace (hash (key e)) x) (Function.update m (key e) (some (val e))) := by
  obtain ⟨es, hF, hg⟩ := hr.delete hinj hD (hD e he)
  have hupd : Function.update m (key e) (some (val e)) =
      Function.update (Function.update m (key e) none) (key e) (some (val e)) := by simp
  rw [hupd]
  exact ⟨es ++ [e], List.rel_append hF (.cons ⟨hdec, rfl, he⟩ .nil), hg.snoc (by simp)⟩

/-- `SELECT ... WHERE` the hash of `k`: no row when the map lacks `k`, else one that decrypts to its entry -/
theorem Represents.lookup (hr : Represents dec key val hash fits rows m) {k : K} (hk : k ∈ D) :
    Option.Rel (fun x v => ∃ e, dec (hash k, x) = .ok e ∧ fits e ∧ key e = k ∧ val e = v)
      (rows.lookup (hash k)) (m k) := by
  obtain ⟨es, hF, hg⟩ := hr
  induction hF generalizing m with
  | nil => rw [hg.eq_none.2 fun _ h => absurd h (List.not_mem_nil _)]; exact .none
  | @cons r e rows es hre _ ih =>
    rw [Rows.lookup_cons]
    by_cases hrk : r.1 = hash k
    · have hek := (hash_eq_iff hinj hD hre.2 hk).1 hrk
      rw [if_pos hrk, ← hek, hg.of_mem (List.mem_cons_self e es)]
      exact .some ⟨e, by rw [← hre.2.1]; exact hre.1, hre.2.2, rfl, rfl⟩
    · have hek : key e ≠ k := fun h => hrk ((hash_eq_iff hinj hD hre.2 hk).2 h)
      rw [if_neg hrk]
      have := ih hg.tail
      rwa [Function.update_noteq (Ne.symm hek)] at this
end

end Represents
theorem foldl_rel {α β γ : Type} (Rel : β → γ → Prop) {f : β → α → β} {g : γ → α → γ} :
    ∀ {l : List α} {b : β} {c : γ}, (∀ b c a, a ∈ l → Rel b c → Rel (f b a) (g c a)) → Rel b c →
      Rel (l.foldl f b) (l.foldl g c)
  | [], _, _, _, h => h
  | a :: l, _, _, hstep, h =>
    foldl_rel Rel (l := l) (fun b c a' ha' => hstep b c a' (List.mem_cons_of_mem a ha'))
      (hstep _ _ a (List.mem_cons_self _ _) h)

/-! ## The three tables -/

/-- the three maps the tables stand for: parameters by key, labels by address, queued transactions by tid and net -/
structure Contents where
  parameters : BinaryArray → Option BinaryArray
  labels : BinaryArray → Option BinaryArray
  paymentQueue : Hash × BinaryArray → Option BinaryArray

/-- the maps of a new database -/
def Contents.empty : Contents := ⟨fun _ => none, fun _ => none, fun _ => none⟩

section
variable (P : Primitives)

variable (S : Set BinaryArray)

/-- a parameter the store can hold: its string lies where `derive_from_key` is injective, and key and value are
short enough for the length header -/
def ParameterFits (e : BinaryArray × BinaryArray) : Prop :=
  asBinaryArray "db_parameters" ++ e.1 ∈ S ∧ e.1.length < 2 ^ 31 ∧ e.2.length < 2 ^ 31

/-- a label the store can hold; `set_label` never stores an empty one -/
def LabelFits (e : BinaryArray × BinaryArray) : Prop :=
  asBinaryArray "db_labels" ++ e.1 ∈ S ∧ e.1.length < 2 ^ 31 ∧ e.2.length < 2 ^ 31 ∧ e.2 ≠ []

/-- a queued transaction the store can hold -/
def QueuedFits (e : Hash × BinaryArray × BinaryArray) : Prop :=
  asBinaryArray "db_payment_queue_tid" ++ e.1.data ∈ S ∧ asBinaryArray "db_payment_queue_net" ++ e.2.1 ∈ S ∧
    e.2.1.length < 2 ^ 31 ∧ e.2.2.length < 2 ^ 31

/-- the tables `t`, under the wallet key `walletKey`, stand for the maps `c` -/
structure TablesRepresent (walletKey : ChachaKey) (t : Tables) (c : Contents) : Prop where
  parameters : Represents (decryptPair P walletKey) Prod.fst Prod.snd (parameterHash P walletKey) (ParameterFits S)
    t.parameters c.parameters
  labels : Represents (decryptPair P walletKey) Prod.fst Prod.snd (labelHash P walletKey) (LabelFits S) t.labels
    c.labels
  paymentQueue : Represents (decryptQueued P walletKey) (fun e => (e.1, e.2.1)) (fun e => e.2.2)
    (queueHash P walletKey) (QueuedFits S) t.paymentQueue c.paymentQueue

theorem TablesRepresent.empty (walletKey : ChachaKey) (salt : Option BinaryArray) :
    TablesRepresent P S walletKey ⟨salt, [], [], []⟩ Contents.empty :=
  ⟨.nil, .nil, .nil⟩

/-! Where `derive_from_key` is injective on `S`, so are the three primary keys on the keys whose strings lie in
`S`. -/

section
variable {P S} (hinj : ∀ key, Set.InjOn (deriveFromKey P key) S) (walletKey : ChachaKey)
include hinj

theorem prefixed_injOn (pre : BinaryArray) :
    Set.InjOn (fun k => deriveFromKey P walletKey (pre ++ k)) {k | pre ++ k ∈ S} :=
  fun _ h1 _ h2 h => List.append_cancel_left (hinj walletKey h1 h2 h)

theorem parameterHash_injOn : Set.InjOn (parameterHash P walletKey) {k | asBinaryArray "db_parameters" ++ k ∈ S} :=
  prefixed_injOn hinj walletKey _

theorem labelHash_injOn : Set.InjOn (labelHash P walletKey) {a | asBinaryArray "db_labels" ++ a ∈ S} :=
  prefixed_injOn hinj walletKey _

theorem queueHash_injOn :
    Set.InjOn (queueHash P walletKey)
      {q | asBinaryArray "db_payment_queue_tid" ++ q.1.data ∈ S ∧
        asBinaryArray "db_payment_queue_net" ++ q.2 ∈ S} := by
  rintro ⟨t1, n1⟩ ⟨h1, h1'⟩ ⟨t2, n2⟩ ⟨h2, h2'⟩ h
  simp only [queueHash, Prod.mk.injEq] at h
  have ht : t1.data = t2.data := List.append_cancel_left (hinj walletKey h1 h2 h.1)
  have hn : n1 = n2 := List.append_cancel_left (hinj walletKey h1' h2' h.2)
  rw [← Pod.ofBytes_data t1, ht, Pod.ofBytes_data, hn]
end

/-! What the rows `put`, `set_label` and `payment_queue_add` write decrypt to. -/

variable {P} {walletKey : ChachaKey}

theorem decryptPair_encryptData {k v : BinaryArray} (hk : k.length < 2 ^ 31) (hv : v.length < 2 ^ 31)
    (h iv1 iv2 : Hash) :
    decryptPair P walletKey (h, encryptData P walletKey iv1 k, encryptData P walletKey iv2 v) = .ok (k, v) := by
  simp only [decryptPair, decryptData_encryptData_of_lt hk, decryptData_encryptData_of_lt hv]

theorem decryptQueued_encryptData {tid : Hash} {net x : BinaryArray} (hn : net.length < 2 ^ 31)
    (hx : x.length < 2 ^ 31) (h : Hash × Hash) (iv1 iv2 iv3 : Hash) :
    decryptQueued P walletKey
        (h, encryptData P walletKey iv1 tid.data, encryptData P walletKey iv2 net, encryptData P walletKey iv3 x) =
      .ok (tid, net, x) := by
  have ht : tid.data.length < 2 ^ 31 := by rw [tid.size_eq]; omega
  simp only [decryptQueued, decryptData_encryptData_of_lt ht, decryptData_encryptData_of_lt hn,
    decryptData_encryptData_of_lt hx, dif_pos tid.size_eq]

theorem decryptPair_eq_ok {r : Hash × BinaryArray × BinaryArray} {k v : BinaryArray}
    (h : decryptPair P walletKey r = .ok (k, v)) : decryptData P walletKey r.2.2 = .ok v := by
  unfold decryptPair at h
  split at h <;> cases h
  assumption

end

/-! ## The calls, as the code makes them -/

section
variable (P : Primitives)

theorem WalletHD.encrypt_eq (w : WalletHD) (data : BinaryArray) :
    w.encrypt P data = (encryptData P w.walletKey (w.randomHashes w.drawn) data, { w with drawn := w.drawn + 1 }) :=
  rfl

/-- `put` draws two ivs, then fails only when `nooverwrite` finds a row under the key's hash, and else replaces it -/
theorem put_eq (k v : BinaryArray) (no : Bool) (w : WalletHD) :
    put P k v no w =
      if no ∧ (w.db.current.parameters.lookup (parameterHash P w.walletKey k)).isSome then
        ({ w with drawn := w.drawn + 2 }, .error .sqliteError)
      else
        ({ w with drawn := w.drawn + 2 }.setTables { w.db.current with
          parameters := w.db.current.parameters.replace (parameterHash P w.walletKey k)
            (encryptData P w.walletKey (w.randomHashes w.drawn) k,
              encryptData P w.walletKey (w.randomHashes (w.drawn + 1)) v) }, .ok ()) := by
  cases no
  · rfl
  · simp only [put, WalletHD.encrypt_eq, Rows.insert_eq, true_and]
    split_ifs <;> rfl

/-- `set_label` draws two ivs, erases or replaces the row and the entry of `m_labels`, and commits -/
theorem setLabel_eq (a l : BinaryArray) (w : WalletHD) :
    setLabel P a l w =
      (if l = [] then
        { { w with drawn := w.drawn + 2 }.setTables { w.db.current with
            labels := w.db.current.labels.delete (labelHash P w.walletKey a) } with
          labels := w.labels.delete a }
      else
        { { w with drawn := w.drawn + 2 }.setTables { w.db.current with
            labels := w.db.current.labels.replace (labelHash P w.walletKey a)
              (encryptData P w.walletKey (w.randomHashes w.drawn) a,
                encryptData P w.walletKey (w.randomHashes (w.drawn + 1)) l) } with
          labels := w.labels.assign bytesLt a l }).commit :=
  rfl

/-- `payment_queue_add` draws three ivs and replaces the row -/
theorem paymentQueueAdd_eq (tid : Hash) (net x : BinaryArray) (w : WalletHD) :
    paymentQueueAdd P tid net x w =
      { w with drawn := w.drawn + 3 }.setTables { w.db.current with
        paymentQueue := w.db.current.paymentQueue.replace (queueHash P w.walletKey (tid, net))
          (encryptData P w.walletKey (w.randomHashes w.drawn) tid.data,
            encryptData P w.walletKey (w.randomHashes (w.drawn + 1)) net,
            encryptData P w.walletKey (w.randomHashes (w.drawn + 2)) x) } :=
  rfl

/-- `set_password` up to the loops: the tables emptied, a salt drawn and put, the key derived -/
theorem rekey_eq (password : BinaryArray) (w : WalletHD) :
    rekey P password w =
      { w with
        drawn := w.drawn + 1
        walletKey := P.generateChacha8Key ((w.randomHashes w.drawn).data ++ password)
        db := { w.db with current := ⟨some (w.randomHashes w.drawn).data, [], [], []⟩ } } :=
  rfl

/-! What the calls leave alone. -/

section
variable {k v a l x : BinaryArray} {no : Bool} {tid : Hash} {w : WalletHD}

@[simp] theorem put_walletKey : (put P k v no w).1.walletKey = w.walletKey := by rw [put_eq]; split_ifs <;> rfl
@[simp] theorem put_net : (put P k v no w).1.net = w.net := by rw [put_eq]; split_ifs <;> rfl
@[simp] theorem put_labels : (put P k v no w).1.labels = w.labels := by rw [put_eq]; split_ifs <;> rfl
@[simp] theorem put_committed : (put P k v no w).1.db.committed = w.db.committed := by rw [put_eq]; split_ifs <;> rfl
@[simp] theorem put_salt : (put P k v no w).1.db.current.salt = w.db.current.salt := by rw [put_eq]; split_ifs <;> rfl

@[simp] theorem setLabel_walletKey : (setLabel P a l w).walletKey = w.walletKey := by
  rw [setLabel_eq]; split_ifs <;> rfl
@[simp] theorem setLabel_net : (setLabel P a l w).net = w.net := by rw [setLabel_eq]; split_ifs <;> rfl
@[simp] theorem setLabel_committed : (setLabel P a l w).db.committed = (setLabel P a l w).db.current := by
  rw [setLabel_eq]; split_ifs <;> rfl
@[simp] theorem setLabel_salt : (setLabel P a l w).db.current.salt = w.db.current.salt := by
  rw [setLabel_eq]; split_ifs <;> rfl
theorem setLabel_labels :
    (setLabel P a l w).labels = if l = [] then w.labels.delete a else w.labels.assign bytesLt a l := by
  rw [setLabel_eq]; split_ifs <;> rfl

@[simp] theorem paymentQueueAdd_walletKey : (paymentQueueAdd P tid x v w).walletKey = w.walletKey := rfl
@[simp] theorem paymentQueueAdd_net : (paymentQueueAdd P tid x v w).net = w.net := rfl
@[simp] theorem paymentQueueAdd_labels : (paymentQueueAdd P tid x v w).labels = w.labels := rfl
@[simp] theorem paymentQueueAdd_committed : (paymentQueueAdd P tid x v w).db.committed = w.db.committed := rfl
@[simp] theorem paymentQueueAdd_salt : (paymentQueueAdd P tid x v w).db.current.salt = w.db.current.salt := rfl

@[simp] theorem paymentQueueRemove_walletKey : (paymentQueueRemove P tid w).walletKey = w.walletKey := by
  unfold paymentQueueRemove; split_ifs <;> rfl
@[simp] theorem paymentQueueRemove_net : (paymentQueueRemove P tid w).net = w.net := by
  unfold paymentQueueRemove; split_ifs <;> rfl
@[simp] theorem paymentQueueRemove_labels : (paymentQueueRemove P tid w).labels = w.labels := by
  unfold paymentQueueRemove; split_ifs <;> rfl
@[simp] theorem paymentQueueRemove_salt : (paymentQueueRemove P tid w).db.current.salt = w.db.current.salt := by
  unfold paymentQueueRemove; split_ifs <;> rfl
theorem paymentQueueRemove_committed : (paymentQueueRemove P tid w).db.committed =
    if tid.data.headD 0 = 120 then (paymentQueueRemove P tid w).db.current else w.db.committed := by
  unfold paymentQueueRemove; split_ifs <;> rfl

end

end

/-! ## The store the calls are meant to keep -/

/-- the store's calls; `reopen thc` closes the object and opens the file again with the password it has, with
`hardware_concurrency()` returning `thc` -/
inductive StoreOp
  | put (key value : BinaryArray) (nooverwrite : Bool)
  | setLabel (address label : BinaryArray)
  | paymentQueueAdd (tid : Hash) (net transaction : BinaryArray)
  | paymentQueueRemove (tid : Hash)
  | setPassword (password : BinaryArray)
  | reopen (thc : ℕ)

/-- the maps as the calls update them: `put` sets a key, `set_label` sets an address or erases it for an empty label,
`payment_queue_add` sets a tid and net, `payment_queue_remove` erases a tid of the wallet's net `net` -/
def Contents.apply (net : String) (c : Contents) : StoreOp → Contents
  | .put k v _ => { c with parameters := Function.update c.parameters k (some v) }
  | .setLabel a l => { c with labels := Function.update c.labels a (if l = [] then none else some l) }
  | .paymentQueueAdd tid n x => { c with paymentQueue := Function.update c.paymentQueue (tid, n) (some x) }
  | .paymentQueueRemove tid =>
    { c with paymentQueue := Function.update c.paymentQueue (tid, asBinaryArray net) none }
  | .setPassword _ | .reopen _ => c

/-- the maps of the open transaction and of the last commit -/
structure Durable where
  committed : Contents
  current : Contents

/-- the calls that commit: `set_label`, `set_password`, and `payment_queue_remove` of a tid whose first byte is
`'x'` -/
def StoreOp.commits : StoreOp → Bool
  | .setLabel _ _ | .setPassword _ => true
  | .paymentQueueRemove tid => tid.data.headD 0 = 120
  | _ => false

/-- one call on the durable maps: a reopening goes back to the last commit -/
def Durable.apply (net : String) (d : Durable) : StoreOp → Durable
  | .reopen _ => ⟨d.committed, d.committed⟩
  | op =>
    if op.commits then ⟨d.current.apply net op, d.current.apply net op⟩
    else ⟨d.committed, d.current.apply net op⟩

section
variable (net : String) (d : Durable)

@[simp] theorem Durable.apply_put (k v : BinaryArray) (no : Bool) :
    d.apply net (.put k v no) = ⟨d.committed, d.current.apply net (.put k v no)⟩ := rfl
@[simp] theorem Durable.apply_setLabel (a l : BinaryArray) :
    d.apply net (.setLabel a l) = ⟨d.current.apply net (.setLabel a l), d.current.apply net (.setLabel a l)⟩ := rfl
@[simp] theorem Durable.apply_paymentQueueAdd (tid : Hash) (n x : BinaryArray) :
    d.apply net (.paymentQueueAdd tid n x) = ⟨d.committed, d.current.apply net (.paymentQueueAdd tid n x)⟩ := rfl
@[simp] theorem Durable.apply_paymentQueueRemove (tid : Hash) :
    d.apply net (.paymentQueueRemove tid) =
      if tid.data.headD 0 = 120 then
        ⟨d.current.apply net (.paymentQueueRemove tid), d.current.apply net (.paymentQueueRemove tid)⟩
      else ⟨d.committed, d.current.apply net (.paymentQueueRemove tid)⟩ := by
  simp only [Durable.apply, StoreOp.commits, decide_eq_true_eq]
@[simp] theorem Durable.apply_setPassword (password : BinaryArray) :
    d.apply net (.setPassword password) = ⟨d.current, d.current⟩ := rfl
@[simp] theorem Durable.apply_reopen (thc : ℕ) : d.apply net (.reopen thc) = ⟨d.committed, d.committed⟩ := rfl

end

/-- the durable maps after the calls `ops` -/
def Durable.run (net : String) (d : Durable) (ops : List StoreOp) : Durable :=
  ops.foldl (Durable.apply net) d

/-- what each call needs: the strings it hashes lie in `S`, where `derive_from_key` is taken injective, and what it
encrypts is shorter than `2 ^ 31` bytes -/
def StoreOp.Fits (S : Set BinaryArray) (net : String) : StoreOp → Prop
  | .put k v _ => ParameterFits S (k, v)
  | .setLabel a l => asBinaryArray "db_labels" ++ a ∈ S ∧ a.length < 2 ^ 31 ∧ l.length < 2 ^ 31
  | .paymentQueueAdd tid n x => QueuedFits S (tid, n, x)
  | .paymentQueueRemove tid =>
    asBinaryArray "db_payment_queue_tid" ++ tid.data ∈ S ∧
      asBinaryArray "db_payment_queue_net" ++ asBinaryArray net ∈ S
  | .setPassword _ | .reopen _ => True

/-- an open `WalletHD` and the password it was opened with -/
structure Session where
  wallet : WalletHD
  password : BinaryArray

section
variable (P : Primitives) (H : HdPrimitives)

/-- one call on the object; a reopening closes it, which rolls the open transaction back, and opens the file with the
same password -/
def Session.apply (s : Session) : StoreOp → Except Failure Session
  | .put k v no =>
    match put P k v no s.wallet with
    | (w, .ok ()) => .ok ⟨w, s.password⟩
    | (_, .error e) => .error e
  | .setLabel a l => .ok ⟨setLabel P a l s.wallet, s.password⟩
  | .paymentQueueAdd tid n x => .ok ⟨paymentQueueAdd P tid n x s.wallet, s.password⟩
  | .paymentQueueRemove tid => .ok ⟨paymentQueueRemove P tid s.wallet, s.password⟩
  | .setPassword password =>
    match setPassword P password s.wallet with
    | (w, .ok ()) => .ok ⟨w, password⟩
    | (_, .error e) => .error e
  | .reopen thc =>
    (openWallet P H s.wallet.net thc s.password s.wallet.db.committed s.wallet.randomHashes s.wallet.drawn).map
      fun w => ⟨w, s.password⟩

/-- the calls one after the other, up to the first that throws -/
def Session.run (s : Session) : List StoreOp → Except Failure Session
  | [] => .ok s
  | op :: ops =>
    match s.apply P H op with
    | .ok s => s.run ops
    | .error e => .error e

end

/-! ## The refinement -/

section
variable (P : Primitives) (S : Set BinaryArray)

/-- the object stands for the durable maps `d`: the salt of both transactions gives its key with its password, the
open transaction's tables stand for the current maps and the committed tables for the committed maps, and `m_labels`,
in ascending order, is the labels map, which every change has committed -/
structure Refines (s : Session) (d : Durable) : Prop where
  salt : ∃ salt, s.wallet.db.current.salt = some salt ∧ s.wallet.db.committed.salt = some salt ∧
    P.generateChacha8Key (salt ++ s.password) = s.wallet.walletKey
  current : TablesRepresent P S s.wallet.walletKey s.wallet.db.current d.current
  committed : TablesRepresent P S s.wallet.walletKey s.wallet.db.committed d.committed
  labels : s.wallet.labels.lookup = d.current.labels
  ascending : Ascending s.wallet.labels
  labelsCommitted : d.committed.labels = d.current.labels

/-- what the reads give against the maps `c`: `get` of every key whose string lies in `S`, `get_label`,
`parameters_get`, `payment_queue_get2` and `payment_queue_get` of the wallet's net -/
structure Reads (w : WalletHD) (c : Contents) : Prop where
  get : ∀ k, asBinaryArray "db_parameters" ++ k ∈ S → get P k w = .ok (c.parameters k)
  getLabel : ∀ a, getLabel a w = (c.labels a).getD []
  parametersGet : ∃ ps, parametersGet P w = .ok ps ∧ Graph Prod.fst Prod.snd ps c.parameters
  paymentQueueGet2 : ∃ pq2, paymentQueueGet2 P w = .ok pq2 ∧
    Graph (fun e => (e.1, e.2.1)) (fun e => e.2.2) pq2 c.paymentQueue
  paymentQueueGet : ∃ txs, paymentQueueGet P w = .ok txs ∧
    ∀ x, x ∈ txs ↔ ∃ tid, c.paymentQueue (tid, asBinaryArray w.net) = some x

end

section
variable {P : Primitives} {S : Set BinaryArray} (hinj : ∀ key, Set.InjOn (deriveFromKey P key) S)
include hinj

/-! What each write does to the maps the tables stand for. -/

variable {w : WalletHD} {c : Contents} (ht : TablesRepresent P S w.walletKey w.db.current c) (net : String)
include ht

theorem TablesRepresent.put {k v : BinaryArray} {no : Bool} (hfit : ParameterFits S (k, v))
    (hok : (put P k v no w).2 = .ok ()) :
    TablesRepresent P S w.walletKey (put P k v no w).1.db.current (c.apply net (.put k v no)) := by
  rw [put_eq] at hok ⊢
  split_ifs at hok ⊢
  exact ⟨ht.parameters.replace (parameterHash_injOn hinj _) (fun _ h => h.1) (e := (k, v))
    (decryptPair_encryptData hfit.2.1 hfit.2.2 _ _ _) hfit, ht.labels, ht.paymentQueue⟩

theorem TablesRepresent.setLabel {a l : BinaryArray} (hfit : (StoreOp.setLabel a l).Fits S net) :
    TablesRepresent P S w.walletKey (setLabel P a l w).db.current (c.apply net (.setLabel a l)) := by
  rw [setLabel_eq]
  by_cases hl : l = []
  · simp only [hl, if_true, Contents.apply]
    exact ⟨ht.parameters, ht.labels.delete (labelHash_injOn hinj _) (fun _ h => h.1) hfit.1, ht.paymentQueue⟩
  · simp only [hl, if_false, Contents.apply]
    exact ⟨ht.parameters, ht.labels.replace (labelHash_injOn hinj _) (fun _ h => h.1) (e := (a, l))
      (decryptPair_encryptData hfit.2.1 hfit.2.2 _ _ _) ⟨hfit.1, hfit.2.1, hfit.2.2, hl⟩, ht.paymentQueue⟩

theorem TablesRepresent.paymentQueueAdd {tid : Hash} {n x : BinaryArray} (hfit : QueuedFits S (tid, n, x)) :
    TablesRepresent P S w.walletKey (paymentQueueAdd P tid n x w).db.current
      (c.apply net (.paymentQueueAdd tid n x)) :=
  ⟨ht.parameters, ht.labels, ht.paymentQueue.replace (queueHash_injOn hinj _) (fun _ h => ⟨h.1, h.2.1⟩)
    (e := (tid, n, x)) (decryptQueued_encryptData hfit.2.2.1 hfit.2.2.2 _ _ _ _) hfit⟩

theorem TablesRepresent.paymentQueueRemove {tid : Hash} (hfit : (StoreOp.paymentQueueRemove tid).Fits S w.net) :
    TablesRepresent P S w.walletKey (paymentQueueRemove P tid w).db.current
      (c.apply w.net (.paymentQueueRemove tid)) := by
  have h := ht.paymentQueue.delete (queueHash_injOn hinj _) (fun _ h => ⟨h.1, h.2.1⟩)
    (k := (tid, asBinaryArray w.net)) hfit
  unfold HD.paymentQueueRemove
  split_ifs <;> exact ⟨ht.parameters, ht.labels, h⟩

end

/-! The calls that do not reopen or rekey keep the refinement. -/

section
variable {P : Primitives} {S : Set BinaryArray} (hinj : ∀ key, Set.InjOn (deriveFromKey P key) S)
  {s : Session} {d : Durable} (hr : Refines P S s d)
include hinj hr

theorem Refines.put {k v : BinaryArray} {no : Bool} (hfit : ParameterFits S (k, v))
    (hok : (put P k v no s.wallet).2 = .ok ()) :
    Refines P S ⟨(put P k v no s.wallet).1, s.password⟩ (d.apply s.wallet.net (.put k v no)) := by
  obtain ⟨salt, h1, h2, h3⟩ := hr.salt
  rw [Durable.apply_put]
  exact ⟨⟨salt, by simpa using h1, by simpa using h2, by simpa using h3⟩,
    by simpa using hr.current.put hinj s.wallet.net hfit hok,
    by simpa using hr.committed, by simpa using hr.labels, by simpa using hr.ascending, hr.labelsCommitted⟩

theorem Refines.setLabel {a l : BinaryArray} (hfit : (StoreOp.setLabel a l).Fits S s.wallet.net) :
    Refines P S ⟨setLabel P a l s.wallet, s.password⟩ (d.apply s.wallet.net (.setLabel a l)) := by
  obtain ⟨salt, h1, -, h3⟩ := hr.salt
  have ht := hr.current.setLabel hinj s.wallet.net hfit
  rw [Durable.apply_setLabel]
  refine ⟨⟨salt, by simpa using h1, by simpa using h1, by simpa using h3⟩, by simpa using ht, by simpa using ht,
    ?_, ?_, rfl⟩
  · rw [setLabel_labels]
    split_ifs with hl
    · simp [Rows.lookup_delete, hr.labels, Contents.apply, hl]
    · simp [Rows.lookup_assign, hr.labels, Contents.apply, hl]
  · rw [setLabel_labels]
    split_ifs
    · exact hr.ascending.delete a
    · exact hr.ascending.assign

theorem Refines.paymentQueueAdd {tid : Hash} {n x : BinaryArray} (hfit : QueuedFits S (tid, n, x)) :
    Refines P S ⟨paymentQueueAdd P tid n x s.wallet, s.password⟩
      (d.apply s.wallet.net (.paymentQueueAdd tid n x)) := by
  rw [Durable.apply_paymentQueueAdd]
  exact ⟨hr.salt, hr.current.paymentQueueAdd hinj s.wallet.net hfit, hr.committed, hr.labels, hr.ascending,
    hr.labelsCommitted⟩

theorem Refines.paymentQueueRemove {tid : Hash} (hfit : (StoreOp.paymentQueueRemove tid).Fits S s.wallet.net) :
    Refines P S ⟨paymentQueueRemove P tid s.wallet, s.password⟩
      (d.apply s.wallet.net (.paymentQueueRemove tid)) := by
  obtain ⟨salt, h1, h2, h3⟩ := hr.salt
  have ht := hr.current.paymentQueueRemove hinj hfit
  have hc : (HD.paymentQueueRemove P tid s.wallet).db.committed = _ := paymentQueueRemove_committed P
  rw [Durable.apply_paymentQueueRemove]
  split_ifs at hc ⊢
  · exact ⟨⟨salt, by simpa using h1, by simpa [hc] using h1, by simpa using h3⟩, by simpa using ht,
      by simpa [hc] using ht, by simpa using hr.labels, by simpa using hr.ascending, rfl⟩
  · exact ⟨⟨salt, by simpa using h1, by simpa [hc] using h2, by simpa using h3⟩, by simpa using ht,
      by simpa [hc] using hr.committed, by simpa using hr.labels, by simpa using hr.ascending, hr.labelsCommitted⟩

end

theorem Rows.graph_lookup {K V : Type} [DecidableEq K] :
    ∀ {rows : Rows K V}, (rows.map Prod.fst).Nodup → Graph Prod.fst Prod.snd rows rows.lookup
  | [], _ => ⟨List.nodup_nil, by simp⟩
  | r :: rows, hnd => by
    have ih := Rows.graph_lookup (List.nodup_cons.1 hnd).2
    have hr : r.1 ∉ rows.map Prod.fst := (List.nodup_cons.1 hnd).1
    refine ⟨hnd, fun k v => ?_⟩
    rw [Rows.lookup_cons]
    by_cases h : r.1 = k
    · subst h
      simp only [if_true, Option.some.injEq, List.mem_cons]
      constructor
      · rintro rfl; exact ⟨r, .inl rfl, rfl, rfl⟩
      · rintro ⟨e, he | he, hk, rfl⟩
        · rw [he]
        · exact absurd (hk ▸ List.mem_map_of_mem Prod.fst he) hr
    · simp only [h, if_false, ih.mem_iff, List.mem_cons]
      constructor
      · rintro ⟨e, he, hk, hv⟩; exact ⟨e, .inr he, hk, hv⟩
      · rintro ⟨e, he | he, hk, hv⟩
        · exact absurd (he ▸ hk) h
        · exact ⟨e, he, hk, hv⟩

section
variable {R E K K' V : Type} {dec : K' × R → Except Failure E} {key : E → K} {val : E → V} {hash : K → K'}
  {fits : E → Prop} {rows : Rows K' R} {m : K → Option V}

theorem Represents.fits_of_eq_some (hr : Represents dec key val hash fits rows m) {k : K} {v : V}
    (h : m k = some v) : ∃ e, fits e ∧ key e = k ∧ val e = v := by
  obtain ⟨es, hF, hg⟩ := hr
  obtain ⟨e, he, hk, hv⟩ := (hg.mem_iff k v).1 h
  obtain ⟨_, -, -, -, hfit⟩ := forall₂_mem_right hF e he
  exact ⟨e, hfit, hk, hv⟩

theorem Represents.lookup_eq_none [DecidableEq K] [DecidableEq K'] {D : Set K} (hinj : Set.InjOn hash D)
    (hD : ∀ e, fits e → key e ∈ D) (hr : Represents dec key val hash fits rows m) {k : K} (hk : k ∈ D)
    (hm : m k = none) : rows.lookup (hash k) = none := by
  have h := hr.lookup hinj hD hk
  rw [hm] at h
  generalize rows.lookup (hash k) = o at h
  cases h
  rfl
end

section
variable {P : Primitives}

theorem foldl_setLabel_labels {L : Rows BinaryArray BinaryArray} (hL : ∀ e ∈ L, e.2 ≠ []) (w : WalletHD) :
    (L.foldl (fun w l => HD.setLabel P l.1 l.2 w) w).labels = L.foldl (fun m r => m.assign bytesLt r.1 r.2) w.labels :=
  foldl_rel (fun (w : WalletHD) (m : Rows BinaryArray BinaryArray) => w.labels = m)
    (fun w m e he (h : w.labels = m) => show (HD.setLabel P e.1 e.2 w).labels = m.assign bytesLt e.1 e.2 by
      rw [setLabel_labels, if_neg (hL e he), h]) rfl

theorem foldl_paymentQueueAdd_labels (Q : List (Hash × BinaryArray × BinaryArray)) (w : WalletHD) :
    (Q.foldl (fun w el => HD.paymentQueueAdd P el.1 el.2.1 el.2.2 w) w).labels = w.labels :=
  List.foldlRecOn (motive := fun (w' : WalletHD) => w'.labels = w.labels) Q
    (fun w el => HD.paymentQueueAdd P el.1 el.2.1 el.2.2 w)
    w rfl fun _ h _ _ => h

end

section
variable {P : Primitives} {S : Set BinaryArray} (hinj : ∀ key, Set.InjOn (deriveFromKey P key) S)
include hinj

/-! What the reads give. -/

theorem TablesRepresent.get {w : WalletHD} {c : Contents} (ht : TablesRepresent P S w.walletKey w.db.current c)
    {k : BinaryArray} (hk : asBinaryArray "db_parameters" ++ k ∈ S) : get P k w = .ok (c.parameters k) := by
  have hl : Option.Rel (fun x v => ∃ e, decryptPair P w.walletKey (parameterHash P w.walletKey k, x) = .ok e ∧
      ParameterFits S e ∧ e.1 = k ∧ e.2 = v) (w.db.current.parameters.lookup (parameterHash P w.walletKey k))
      (c.parameters k) :=
    ht.parameters.lookup (parameterHash_injOn hinj w.walletKey) (fun _ h => h.1) hk
  unfold HD.get
  generalize w.db.current.parameters.lookup (parameterHash P w.walletKey k) = o at hl ⊢
  generalize c.parameters k = m at hl ⊢
  cases hl with
  | none => rfl
  | some h =>
    obtain ⟨e, hdec, -, rfl, rfl⟩ := h
    simp only [decryptPair_eq_ok hdec]
    rfl

theorem Refines.reads {s : Session} {d : Durable} (hr : Refines P S s d) : Reads P S s.wallet d.current := by
  obtain ⟨ps, hps, hgps, -⟩ := hr.current.parameters.decryptRows
  obtain ⟨pq2, hpq, hgpq, -⟩ := hr.current.paymentQueue.decryptRows
  refine ⟨fun k hk => hr.current.get hinj hk, fun a => by rw [getLabel, hr.labels], ⟨ps, hps, hgps⟩,
    ⟨pq2, hpq, hgpq⟩, ⟨_, by rw [paymentQueueGet, show paymentQueueGet2 P s.wallet = .ok pq2 from hpq]; rfl,
    fun x => ?_⟩⟩
  simp only [List.mem_map, List.mem_filter, decide_eq_true_eq]
  constructor
  · rintro ⟨e, ⟨he, hnet⟩, rfl⟩
    exact ⟨e.1, hnet ▸ hgpq.of_mem he⟩
  · rintro ⟨tid, h⟩
    obtain ⟨e, he, hk, hv⟩ := (hgpq.mem_iff _ _).1 h
    exact ⟨e, ⟨he, congrArg Prod.snd hk⟩, hv⟩

/-! `set_password`: the parameters put back one by one, then the labels and the queue. -/

/-- the loop of `put`s with `nooverwrite`, over entries with distinct keys that the map lacks, returns and adds them -/
theorem putAll_represents :
    ∀ (ps : List (BinaryArray × BinaryArray)) (w : WalletHD) (m : BinaryArray → Option BinaryArray),
    (ps.map Prod.fst).Nodup → (∀ e ∈ ps, ParameterFits S e) → (∀ e ∈ ps, m e.1 = none) →
    Represents (decryptPair P w.walletKey) Prod.fst Prod.snd (parameterHash P w.walletKey) (ParameterFits S)
      w.db.current.parameters m →
    ∃ rows drawn,
      putAll P ps w = ({ w with drawn := drawn }.setTables { w.db.current with parameters := rows }, .ok ()) ∧
      Represents (decryptPair P w.walletKey) Prod.fst Prod.snd (parameterHash P w.walletKey) (ParameterFits S) rows
        (ps.foldl (fun f e => Function.update f e.1 (some e.2)) m)
  | [], w, m, _, _, _, hr => ⟨w.db.current.parameters, w.drawn, rfl, hr⟩
  | (k, v) :: ps, w, m, hnd, hfit, hnone, hr => by
    have hkv := hfit (k, v) (List.mem_cons_self _ _)
    have hlk := hr.lookup_eq_none (parameterHash_injOn hinj w.walletKey) (fun _ h => h.1) hkv.1
      (hnone (k, v) (List.mem_cons_self _ _))
    have hk : k ∉ ps.map Prod.fst := (List.nodup_cons.1 hnd).1
    let w1 := { w with drawn := w.drawn + 2 }.setTables { w.db.current with
      parameters := (w.db.current.parameters.replace (parameterHash P w.walletKey k)
        (encryptData P w.walletKey (w.randomHashes w.drawn) k,
          encryptData P w.walletKey (w.randomHashes (w.drawn + 1)) v)) }
    obtain ⟨rows, drawn, hput, hrep⟩ := putAll_represents ps w1 (Function.update m k (some v))
      (List.nodup_cons.1 hnd).2
      (fun e he => hfit e (List.mem_cons_of_mem _ he))
      (fun e he => by
        rw [Function.update_noteq (fun h : e.1 = k => hk (h ▸ List.mem_map_of_mem Prod.fst he))]
        exact hnone e (List.mem_cons_of_mem _ he))
      (hr.replace (parameterHash_injOn hinj w.walletKey) (fun _ h => h.1) (e := (k, v))
        (decryptPair_encryptData hkv.2.1 hkv.2.2 _ (w.randomHashes w.drawn) (w.randomHashes (w.drawn + 1))) hkv)
    refine ⟨rows, drawn, ?_, hrep⟩
    rw [putAll, put_eq, if_neg (by simp [hlk])]
    exact hput

variable (P S) in
/-- between the loops of `set_password`: the key is `key`, the open transaction's salt `salt`, the net `net`, and
the open transaction's tables stand for `c` under `key` -/
structure Rewriting (key : ChachaKey) (salt : BinaryArray) (net : String) (w : WalletHD) (c : Contents) : Prop where
  walletKey : w.walletKey = key
  salt : w.db.current.salt = some salt
  net : w.net = net
  tables : TablesRepresent P S key w.db.current c

section
variable {key : ChachaKey} {salt : BinaryArray} {net : String}

theorem Rewriting.setLabel {w : WalletHD} {c : Contents} (hw : Rewriting P S key salt net w c) {a l : BinaryArray}
    (hfit : LabelFits S (a, l)) :
    Rewriting P S key salt net (HD.setLabel P a l w) { c with labels := Function.update c.labels a (some l) } := by
  have ht : TablesRepresent P S w.walletKey w.db.current c := by rw [hw.walletKey]; exact hw.tables
  have h := ht.setLabel hinj net (a := a) (l := l) ⟨hfit.1, hfit.2.1, hfit.2.2.1⟩
  simp only [Contents.apply, hfit.2.2.2, if_false, hw.walletKey] at h
  exact ⟨by simp [hw.walletKey], by simp [hw.salt], by simp [hw.net], h⟩

theorem Rewriting.paymentQueueAdd {w : WalletHD} {c : Contents} (hw : Rewriting P S key salt net w c)
    {e : Hash × BinaryArray × BinaryArray} (hfit : QueuedFits S e) :
    Rewriting P S key salt net (HD.paymentQueueAdd P e.1 e.2.1 e.2.2 w)
      { c with paymentQueue := Function.update c.paymentQueue (e.1, e.2.1) (some e.2.2) } := by
  have ht : TablesRepresent P S w.walletKey w.db.current c := by rw [hw.walletKey]; exact hw.tables
  have h := ht.paymentQueueAdd hinj net (show QueuedFits S (e.1, e.2.1, e.2.2) from hfit)
  rw [hw.walletKey] at h
  exact ⟨hw.walletKey, hw.salt, hw.net, h⟩

theorem Rewriting.foldl_setLabel {L : Rows BinaryArray BinaryArray} (hL : ∀ e ∈ L, LabelFits S e) {w : WalletHD}
    {c : Contents} (hw : Rewriting P S key salt net w c) :
    Rewriting P S key salt net (L.foldl (fun w l => HD.setLabel P l.1 l.2 w) w)
      { c with labels := (L.foldl (fun (f : BinaryArray → Option BinaryArray) e => Function.update f e.1 (some e.2))
        c.labels) } :=
  foldl_rel (fun w f => Rewriting P S key salt net w { c with labels := f })
    (fun _ _ e he hw => hw.setLabel hinj (hL e he)) hw

theorem Rewriting.foldl_paymentQueueAdd {Q : List (Hash × BinaryArray × BinaryArray)}
    (hQ : ∀ e ∈ Q, QueuedFits S e)
    {w : WalletHD} {c : Contents} (hw : Rewriting P S key salt net w c) :
    Rewriting P S key salt net (Q.foldl (fun w el => HD.paymentQueueAdd P el.1 el.2.1 el.2.2 w) w)
      { c with paymentQueue := (Q.foldl (fun (f : Hash × BinaryArray → Option BinaryArray) e =>
        Function.update f (e.1, e.2.1) (some e.2.2)) c.paymentQueue) } :=
  foldl_rel (fun w f => Rewriting P S key salt net w { c with paymentQueue := f })
    (fun _ _ e he hw => hw.paymentQueueAdd hinj (hQ e he)) hw

/-- the end of `set_password`: from tables that stand for the parameters alone, the label loop over `m_labels` and
the queue loop over `pq2` leave them standing for all three maps -/
theorem Rewriting.rewriteLabelsQueue {w : WalletHD} {c : Contents}
    (hw : Rewriting P S key salt net w ⟨c.parameters, fun _ => none, fun _ => none⟩)
    (hL : Graph Prod.fst Prod.snd w.labels c.labels) (hLfit : ∀ e ∈ w.labels, LabelFits S e)
    {pq2 : List (Hash × BinaryArray × BinaryArray)} (hQ : Graph (fun e => (e.1, e.2.1)) (fun e => e.2.2) pq2 c.paymentQueue)
    (hQfit : ∀ e ∈ pq2, QueuedFits S e) :
    Rewriting P S key salt net (HD.rewriteLabelsQueue P pq2 w) c := by
  have h := (hw.foldl_setLabel hinj hLfit).foldl_paymentQueueAdd hinj hQfit
  simp only [Graph.foldl_update _ hL, Graph.foldl_update _ hQ, Option.or_none] at h
  exact ⟨h.walletKey, h.salt, h.net, h.tables⟩

end

/-- `set_password` up to its label loop: both reads return, and so do the `put`s, which leave the open transaction
standing for the parameters alone under the key of the drawn salt, with `m_labels`, the net and the committed tables
as they were -/
theorem Refines.putAll_rekey {s : Session} {d : Durable} (hr : Refines P S s d) (password : BinaryArray) :
    ∃ ps pq2 w1, parametersGet P s.wallet = .ok ps ∧ paymentQueueGet2 P s.wallet = .ok pq2 ∧
      putAll P ps (rekey P password s.wallet) = (w1, .ok ()) ∧
      Graph (fun e => (e.1, e.2.1)) (fun e => e.2.2) pq2 d.current.paymentQueue ∧ (∀ e ∈ pq2, QueuedFits S e) ∧
      w1.labels = s.wallet.labels ∧ w1.db.committed = s.wallet.db.committed ∧
      Rewriting P S (rekey P password s.wallet).walletKey (s.wallet.randomHashes s.wallet.drawn).data s.wallet.net w1
        ⟨d.current.parameters, fun _ => none, fun _ => none⟩ := by
  obtain ⟨ps, hps, hgps, hfps⟩ := hr.current.parameters.decryptRows
  obtain ⟨pq2, hpq, hgpq, hfpq⟩ := hr.current.paymentQueue.decryptRows
  obtain ⟨rows, dr, hput, hrep⟩ := putAll_represents hinj ps (rekey P password s.wallet) (fun _ => none) hgps.nodup
    hfps (fun _ _ => rfl) Represents.nil
  rw [Graph.foldl_update _ hgps] at hrep
  simp only [Option.or_none] at hrep
  exact ⟨ps, pq2, _, hps, hpq, hput, hgpq, hfpq, rfl, rfl, rfl, rfl, rfl, hrep, .nil, .nil⟩

/-- **`set_password` keeps the maps.** It never throws; afterwards every table stands for the same maps under the
key of the new salt and the new password, all of it committed, and `m_labels` is unchanged -/
theorem Refines.setPassword {s : Session} {d : Durable} (hr : Refines P S s d) (password : BinaryArray) :
    ∃ w, setPassword P password s.wallet = (w, .ok ()) ∧
      Refines P S ⟨w, password⟩ (d.apply s.wallet.net (.setPassword password)) ∧ w.net = s.wallet.net := by
  obtain ⟨ps, pq2, w1, hps, hpq, hput, hgpq, hfpq, hw1, -, h1⟩ := hr.putAll_rekey hinj password
  have hLg : Graph Prod.fst Prod.snd w1.labels w1.labels.lookup := Rows.graph_lookup (hw1 ▸ hr.ascending).nodup
  have hL : ∀ e ∈ w1.labels, LabelFits S e := fun e he => by
    obtain ⟨e', hfit, h1, h2⟩ := hr.current.labels.fits_of_eq_some (hr.labels ▸ hw1 ▸ hLg.of_mem he)
    rwa [← Prod.ext h1 h2]
  have hLc : Graph Prod.fst Prod.snd w1.labels d.current.labels := by rw [← hr.labels, ← hw1]; exact hLg
  have h3 := h1.rewriteLabelsQueue hinj hLc hL hgpq hfpq
  have hml : (rewriteLabelsQueue P pq2 w1).labels = w1.labels.foldl (fun m r => m.assign bytesLt r.1 r.2) w1.labels :=
    (foldl_paymentQueueAdd_labels pq2 _).trans (foldl_setLabel_labels (fun e he => (hL e he).2.2.2) w1)
  refine ⟨rewriteLabelsQueue P pq2 w1, ?_, ?_, h3.net⟩
  · rw [HD.setPassword, show parametersGet P s.wallet = .ok ps from hps,
      show paymentQueueGet2 P s.wallet = .ok pq2 from hpq]
    simp only [hput]
  · rw [Durable.apply_setPassword]
    have ht := h3.tables
    rw [← h3.walletKey] at ht
    refine ⟨⟨_, h3.salt, h3.salt, h3.walletKey.symm⟩, ht, ht, ?_, ?_, rfl⟩
    · rw [hml, Rows.lookup_foldl_assign, Graph.foldl_update _ hLg, hw1, ← hr.labels]; simp
    · rw [hml]; exact Ascending.foldl_assign _ (hw1 ▸ hr.ascending)

end

/-! Reopening. -/

section
variable (P : Primitives) (H : HdPrimitives)

/-- what opening reads: the salt of the file's tables and the key from it and the password, both transactions on the
file's tables, the net it is given, and `m_labels` from the decrypted label rows -/
theorem openWallet_store {net : String} {thc : ℕ} {password : BinaryArray} {t : Tables} {rh : ℕ → Hash}
    {drawn : ℕ} {w : WalletHD} (h : openWallet P H net thc password t rh drawn = .ok w) :
    ∃ salt rows, t.salt = some salt ∧ w.walletKey = P.generateChacha8Key (salt ++ password) ∧
      w.db = ⟨t, t⟩ ∧
      w.net = net ∧ decryptRows (decryptPair P w.walletKey) t.labels = .ok rows ∧
      w.labels = rows.foldl (fun (m : Rows BinaryArray BinaryArray) r => m.assign bytesLt r.1 r.2) [] := by
  unfold openWallet at h
  dsimp only at h
  split at h
  · cases h
  · rename_i salt hsalt
    have hts : t.salt = some salt := by
      cases hs : t.salt with
      | none => simp [getSalt, WalletHD.fresh, hs] at hsalt
      | some s => simpa [getSalt, WalletHD.fresh, hs] using hsalt
    clear hsalt
    split at h
    · rename_i w1 hl
      cases h
      obtain ⟨keys, counts, rows, -, -, hrows, rfl⟩ := load_eq_ok P H hl
      obtain ⟨rs, mm, hg⟩ := generateAhead_frame H thc
        { { { WalletHD.fresh net ⟨t, t⟩ rh with drawn := drawn } with
          walletKey := P.generateChacha8Key (salt ++ password) }.setKeys keys with
          usedAddressCount := counts.1, oldestTimestamp := counts.2 }
      rw [hg]
      exact ⟨salt, rows, hts, rfl, rfl, rfl, hrows, rfl⟩
    · cases h

end

section
variable {P : Primitives} {H : HdPrimitives} {S : Set BinaryArray}

/-- **Opening refines.** Opening a file whose tables stand for maps `c` under the key of its salt and the password
gives an object that stands for `c`, in both transactions -/
theorem openWallet_refines {net : String} {thc : ℕ} {password : BinaryArray} {t : Tables} {rh : ℕ → Hash}
    {drawn : ℕ} {w : WalletHD} {c : Contents} (h : openWallet P H net thc password t rh drawn = .ok w)
    (ht : ∀ salt, t.salt = some salt → TablesRepresent P S (P.generateChacha8Key (salt ++ password)) t c) :
    Refines P S ⟨w, password⟩ ⟨c, c⟩ := by
  obtain ⟨salt, rows, hts, hkey, hdb, -, hrows, hlabels⟩ := openWallet_store P H h
  have htw : TablesRepresent P S w.walletKey t c := hkey ▸ ht salt hts
  obtain ⟨es, hes, hg, -⟩ := htw.labels.decryptRows
  rw [hes, Except.ok.injEq] at hrows
  subst hrows
  have htc : TablesRepresent P S w.walletKey w.db.current c := by rw [hdb]; exact htw
  refine ⟨⟨salt, by rw [hdb]; exact hts, by rw [hdb]; exact hts, hkey.symm⟩, htc, by rw [hdb]; exact htw, ?_, ?_,
    rfl⟩
  · rw [hlabels, Rows.lookup_foldl_assign, Graph.foldl_update _ hg]; simp
  · rw [hlabels]; exact Ascending.foldl_assign es List.Pairwise.nil

theorem Refines.committed_salt {s : Session} {d : Durable} (hr : Refines P S s d) (salt : BinaryArray)
    (hs : s.wallet.db.committed.salt = some salt) :
    TablesRepresent P S (P.generateChacha8Key (salt ++ s.password)) s.wallet.db.committed d.committed := by
  obtain ⟨salt', -, hsalt, hk⟩ := hr.salt
  rw [hsalt, Option.some.injEq] at hs
  rw [← hs, hk]
  exact hr.committed

/-- reopening with the password goes back to the committed maps -/
theorem Refines.reopen {s : Session} {d : Durable} (hr : Refines P S s d) {thc : ℕ} {w : WalletHD}
    (h : openWallet P H s.wallet.net thc s.password s.wallet.db.committed s.wallet.randomHashes s.wallet.drawn =
      .ok w) :
    Refines P S ⟨w, s.password⟩ (d.apply s.wallet.net (.reopen thc)) ∧ w.net = s.wallet.net := by
  obtain ⟨-, -, -, -, -, hnet, -⟩ := openWallet_store P H h
  exact ⟨openWallet_refines h hr.committed_salt, hnet⟩

end

/-! Creating. -/

/-- the parameters the creating constructor puts, in the order it puts them, with the mnemonic as checked and the
used address count of a new object -/
def createdParameters (H : HdPrimitives) (mnemonic : BinaryArray) (addressType : UInt8)
    (mnemonicPassword : BinaryArray) : List (BinaryArray × BinaryArray) :=
  [(asBinaryArray "version", currentVersion), (asBinaryArray "coinname", H.cryptonoteName),
    (asBinaryArray "address-type", [addressType]), (asBinaryArray "mnemonic", mnemonic),
    (asBinaryArray "mnemonic-password", mnemonicPassword), (addressCountPrefix, H.sizeToBinary 0)]

/-- the maps of a wallet created from a mnemonic: the six parameters, no labels, no queued transactions -/
def createdContents (H : HdPrimitives) (mnemonic : BinaryArray) (addressType : UInt8)
    (mnemonicPassword : BinaryArray) : Contents :=
  ⟨(createdParameters H mnemonic addressType mnemonicPassword).foldl
    (fun f e => Function.update f e.1 (some e.2)) fun _ => none, fun _ => none, fun _ => none⟩

theorem onFirstOutputFound_of_ne_zero (P : Primitives) (H : HdPrimitives) (ts : Timestamp) {w : WalletHD}
    (h : w.oldestTimestamp ≠ 0) : onFirstOutputFound P H ts w = w :=
  if_pos (.inl h)

/-- the steps of the creating constructor with a mnemonic that returns: the object with the salt drawn, the `put`s,
`on_first_output_found`, `load()` and `commit()` -/
theorem createWallet_steps (P : Primitives) (H : HdPrimitives) {net : String} {thc : ℕ}
    {password mnemonic : BinaryArray} {addressType : UInt8} {ts : Timestamp} {mnemonicPassword : BinaryArray}
    {rh : ℕ → Hash} {drawn : ℕ} {w : WalletHD} (hm : mnemonic ≠ [])
    (h : createWallet P H net thc password mnemonic addressType ts mnemonicPassword rh drawn = .ok w) :
    ∃ w0 w1 w2, w0.usedAddressCount = 0 ∧ w0.db.current = ⟨some (rh drawn).data, [], [], []⟩ ∧
      w0.walletKey = P.generateChacha8Key ((rh drawn).data ++ password) ∧ w0.net = net ∧ w0.labels = [] ∧
      w0.oldestTimestamp = timestampMax ∧ putCreated P H mnemonic addressType mnemonicPassword w0 = .ok w1 ∧
      load P H thc (onFirstOutputFound P H ts w1) = .ok w2 ∧ w = w2.commit := by
  unfold createWallet at h
  dsimp only at h
  rw [if_neg hm] at h
  split at h
  · cases h
  · split at h
    · cases h
      exact ⟨_, _, _, rfl, rfl, rfl, rfl, rfl, rfl, ‹_›, ‹_›, rfl⟩
    · cases h

section
variable {P : Primitives} {H : HdPrimitives} {S : Set BinaryArray} (hinj : ∀ key, Set.InjOn (deriveFromKey P key) S)
include hinj

/-- the `put`s of the creating constructor, into an empty parameters table of an object with no used address, add
the six parameters -/
theorem putCreated_represents {mnemonic checked : BinaryArray} {addressType : UInt8} {mnemonicPassword : BinaryArray}
    {w w' : WalletHD} (hcheck : H.checkBip39Mnemonic mnemonic = .ok checked)
    (hfit : ∀ e ∈ createdParameters H checked addressType mnemonicPassword, ParameterFits S e)
    (hcount : w.usedAddressCount = 0)
    (hr : Represents (decryptPair P w.walletKey) Prod.fst Prod.snd (parameterHash P w.walletKey) (ParameterFits S)
      w.db.current.parameters fun _ => none)
    (h : putCreated P H mnemonic addressType mnemonicPassword w = .ok w') :
    ∃ rows drawn, w' = { w with drawn := drawn }.setTables { w.db.current with parameters := rows } ∧
      Represents (decryptPair P w.walletKey) Prod.fst Prod.snd (parameterHash P w.walletKey) (ParameterFits S) rows
        (createdContents H checked addressType mnemonicPassword).parameters := by
  simp only [createdParameters, List.mem_cons, List.mem_singleton, forall_eq_or_imp, forall_eq,
    List.not_mem_nil, false_imp_iff, imp_true_iff, and_true] at hfit
  obtain ⟨h1, h2, h3, h4, h5, h6⟩ := hfit
  obtain ⟨rows1, d1, hput1, hr1⟩ := putAll_represents hinj [(asBinaryArray "version", currentVersion),
    (asBinaryArray "coinname", H.cryptonoteName), (asBinaryArray "address-type", [addressType])] w (fun _ => none)
    (by simp only [List.map_cons, List.map_nil]; decide)
    (by simp only [List.mem_cons, List.mem_singleton, forall_eq_or_imp, forall_eq,
      List.not_mem_nil, false_imp_iff, imp_true_iff, and_true]; exact ⟨h1, h2, h3⟩) (fun _ _ => rfl) hr
  -- the object after the first three `put`s, kept opaque: its fields are read off one by one
  obtain ⟨w1, hw1⟩ : ∃ w1, { w with drawn := d1 }.setTables { w.db.current with parameters := rows1 } = w1 :=
    ⟨_, rfl⟩
  have hk1 : w1.walletKey = w.walletKey := by rw [← hw1]; rfl
  have hp1 : w1.db.current.parameters = rows1 := by rw [← hw1]; rfl
  have hc1 : w1.usedAddressCount = 0 := by rw [← hw1]; exact hcount
  obtain ⟨rows2, d2, hput2, hr2⟩ := putAll_represents hinj [(asBinaryArray "mnemonic", checked),
    (asBinaryArray "mnemonic-password", mnemonicPassword), (addressCountPrefix, H.sizeToBinary 0)] w1
    ([(asBinaryArray "version", currentVersion), (asBinaryArray "coinname", H.cryptonoteName),
      (asBinaryArray "address-type", [addressType])].foldl (fun f e => Function.update f e.1 (some e.2)) fun _ => none)
    (by simp only [List.map_cons, List.map_nil]; decide)
    (by simp only [List.mem_cons, List.mem_singleton, forall_eq_or_imp, forall_eq,
      List.not_mem_nil, false_imp_iff, imp_true_iff, and_true]; exact ⟨h4, h5, h6⟩)
    (fun e he => foldl_update_of_ne _ fun e' he' => by
      simp only [List.mem_cons, List.mem_singleton, List.not_mem_nil, or_false] at he he'
      rcases he with rfl | rfl | rfl <;> rcases he' with rfl | rfl | rfl <;> (dsimp only; decide))
    (by rw [hk1, hp1]; exact hr1)
  rw [hk1] at hr2
  refine ⟨rows2, d2, ?_, hr2⟩
  rw [hw1] at hput1
  simp only [putCreated, hput1, hcheck] at h
  rw [hc1, hput2, Except.ok.injEq] at h
  rw [← h, ← hw1]
  rfl

/-- what the creating constructor with a mnemonic leaves: both transactions on the same tables, salted with the value
drawn and keyed by it and the password, no labels, and tables that stand for the six parameters -/
theorem createWallet_tables {net : String} {thc : ℕ} {password mnemonic checked : BinaryArray} {addressType : UInt8}
    {ts : Timestamp} {mnemonicPassword : BinaryArray} {rh : ℕ → Hash} {drawn : ℕ} {w : WalletHD}
    (h : createWallet P H net thc password mnemonic addressType ts mnemonicPassword rh drawn = .ok w)
    (hm : mnemonic ≠ []) (hcheck : H.checkBip39Mnemonic mnemonic = .ok checked)
    (hfit : ∀ e ∈ createdParameters H checked addressType mnemonicPassword, ParameterFits S e) :
    w.db.committed = w.db.current ∧ w.db.current.salt = some (rh drawn).data ∧
      w.walletKey = P.generateChacha8Key ((rh drawn).data ++ password) ∧ w.labels = [] ∧ w.net = net ∧
      TablesRepresent P S w.walletKey w.db.current (createdContents H checked addressType mnemonicPassword) := by
  obtain ⟨w0, w1, w2, hc, hdb, hk, hn, hlab, hts, hpc, hl, rfl⟩ := createWallet_steps P H hm h
  obtain ⟨rows, dr, rfl, hrep⟩ := putCreated_represents hinj hcheck hfit hc (hdb ▸ Represents.nil) hpc
  rw [onFirstOutputFound_of_ne_zero P H ts (by show w0.oldestTimestamp ≠ 0; rw [hts]; decide)] at hl
  obtain ⟨keys, counts, lrows, -, -, hlr, rfl⟩ := load_eq_ok P H hl
  obtain ⟨rs, m, hg⟩ := generateAhead_frame H thc
    { (({ w0 with drawn := dr }.setTables { w0.db.current with parameters := rows }).setKeys keys) with
      usedAddressCount := counts.1, oldestTimestamp := counts.2 }
  -- the label table is empty, so `load()` reads no labels
  have hlr' : lrows = [] := by
    simp only [WalletHD.setTables, hdb] at hlr
    exact (Except.ok.inj hlr).symm
  subst hlr'
  rw [hg]
  refine ⟨rfl, ?_, hk, hlab, hn, hrep, ?_, ?_⟩
  · show w0.db.current.salt = _
    rw [hdb]
  · show Represents _ _ _ _ _ w0.db.current.labels _
    rw [hdb]
    exact .nil
  · show Represents _ _ _ _ _ w0.db.current.paymentQueue _
    rw [hdb]
    exact .nil

/-- **Creating refines.** A wallet created from a mnemonic stands, in both transactions, for the six parameters the
constructor puts, with no labels and no queued transactions -/
theorem createWallet_refines {net : String} {thc : ℕ} {password mnemonic checked : BinaryArray} {addressType : UInt8}
    {ts : Timestamp} {mnemonicPassword : BinaryArray} {rh : ℕ → Hash} {drawn : ℕ} {w : WalletHD}
    (h : createWallet P H net thc password mnemonic addressType ts mnemonicPassword rh drawn = .ok w)
    (hm : mnemonic ≠ []) (hcheck : H.checkBip39Mnemonic mnemonic = .ok checked)
    (hfit : ∀ e ∈ createdParameters H checked addressType mnemonicPassword, ParameterFits S e) :
    Refines P S ⟨w, password⟩ ⟨createdContents H checked addressType mnemonicPassword,
      createdContents H checked addressType mnemonicPassword⟩ := by
  obtain ⟨hc, hs, hk, hl, -, ht⟩ := createWallet_tables hinj h hm hcheck hfit
  refine ⟨⟨_, hs, hc ▸ hs, hk.symm⟩, ht, hc ▸ ht, ?_, ?_, rfl⟩ <;> rw [hl]
  · rfl
  · exact List.Pairwise.nil

end

/-! A store where `derive_from_key` is injective on the parameters `load()` reads. -/

/-- the parameters `load()` reads -/
def loadParameters (net : String) : List BinaryArray :=
  [asBinaryArray "version", asBinaryArray "coinname", asBinaryArray "address-type", asBinaryArray "mnemonic",
    asBinaryArray "mnemonic-password", asBinaryArray "spend_key_base_public_key", asBinaryArray "tx_derivation_seed",
    addressCountPrefix, creationTimestampKey net]

/-- collaborators whose `cn_fast_hash` of `key ‖ s ‖ key` is the first 32 bytes of `s`, zero-padded -/
def prefixPrimitives : Primitives :=
  { plainPrimitives with cnFastHash := fun bs => Pod.ofBytes 32 ((bs.drop 32).take (bs.length - 64)) }

/-- the strings `get` hashes for the parameters `load()` reads on the main net -/
def mainParameterStrings : Set BinaryArray :=
  {x | x ∈ (loadParameters "main").map (asBinaryArray "db_parameters" ++ ·)}

theorem prefixPrimitives_deriveFromKey (key : ChachaKey) (x : BinaryArray) :
    deriveFromKey prefixPrimitives key x = Pod.ofBytes 32 x := by
  show Pod.ofBytes 32 (((key.data ++ x ++ key.data).drop 32).take ((key.data ++ x ++ key.data).length - 64)) = _
  rw [List.append_assoc, List.drop_left' key.size_eq, List.length_append, List.length_append, key.size_eq,
    show 32 + (x.length + 32) - 64 = x.length by omega, List.take_left]

theorem prefixPrimitives_injOn (key : ChachaKey) :
    Set.InjOn (deriveFromKey prefixPrimitives key) mainParameterStrings := fun x hx y hy hxy => by
  rw [prefixPrimitives_deriveFromKey, prefixPrimitives_deriveFromKey] at hxy
  have hsep : ∀ x ∈ (loadParameters "main").map (asBinaryArray "db_parameters" ++ ·),
      ∀ y ∈ (loadParameters "main").map (asBinaryArray "db_parameters" ++ ·),
      Pod.ofBytes 32 x = Pod.ofBytes 32 y → x = y := by decide
  exact hsep x hx y hy hxy

set_option maxRecDepth 100000 in
/-- a wallet created from the mnemonic `abandon` stands for its six parameters -/
theorem abandon_refines :
    ∃ w, createWallet prefixPrimitives plainHdPrimitives "main" 0 [] (asBinaryArray "abandon") 1 0 []
        (fun _ => Pod.zero 32) 0 = .ok w ∧
      Refines prefixPrimitives mainParameterStrings ⟨w, []⟩
        ⟨createdContents plainHdPrimitives (asBinaryArray "abandon") 1 [],
          createdContents plainHdPrimitives (asBinaryArray "abandon") 1 []⟩ := by
  obtain ⟨w, hw⟩ : ∃ w, createWallet prefixPrimitives plainHdPrimitives "main" 0 [] (asBinaryArray "abandon") 1 0 []
      (fun _ => Pod.zero 32) 0 = .ok w := ⟨_, rfl⟩
  refine ⟨w, hw, createWallet_refines prefixPrimitives_injOn hw (by decide) rfl ?_⟩
  simp only [ParameterFits, mainParameterStrings, Set.mem_setOf_eq]
  decide

/-! Runs. -/

section
variable {P : Primitives} {H : HdPrimitives} {S : Set BinaryArray} (hinj : ∀ key, Set.InjOn (deriveFromKey P key) S)
include hinj

/-- one call that returns keeps the refinement, and the net -/
theorem Refines.apply {s : Session} {d : Durable} (hr : Refines P S s d) {op : StoreOp}
    (hfit : op.Fits S s.wallet.net) {s' : Session} (h : s.apply P H op = .ok s') :
    Refines P S s' (d.apply s.wallet.net op) ∧ s'.wallet.net = s.wallet.net := by
  cases op with
  | put k v no =>
    simp only [Session.apply] at h
    split at h
    · rename_i w hp
      cases h
      have hnet : (HD.put P k v no s.wallet).1.net = s.wallet.net := put_net P
      rw [hp] at hnet
      have := hr.put hinj hfit (by rw [hp])
      rw [hp] at this
      exact ⟨this, hnet⟩
    · cases h
  | setLabel a l => cases h; exact ⟨hr.setLabel hinj hfit, setLabel_net P⟩
  | paymentQueueAdd tid n x => cases h; exact ⟨hr.paymentQueueAdd hinj hfit, rfl⟩
  | paymentQueueRemove tid => cases h; exact ⟨hr.paymentQueueRemove hinj hfit, paymentQueueRemove_net P⟩
  | setPassword password =>
    obtain ⟨w, hw, hr', hnet⟩ := hr.setPassword hinj password
    simp only [Session.apply, hw] at h
    cases h
    exact ⟨hr', hnet⟩
  | reopen thc =>
    simp only [Session.apply] at h
    cases ho : openWallet P H s.wallet.net thc s.password s.wallet.db.committed s.wallet.randomHashes
        s.wallet.drawn with
    | error e => simp [ho, Except.map] at h
    | ok w =>
      simp only [ho, Except.map, Except.ok.injEq] at h
      subst h
      exact hr.reopen ho

/-- every call but a reopening returns, `put` with `nooverwrite` as long as the map lacks the key -/
theorem Refines.apply_ok {s : Session} {d : Durable} (hr : Refines P S s d) {op : StoreOp}
    (hfit : op.Fits S s.wallet.net) (hop : ∀ thc, op ≠ .reopen thc)
    (hno : ∀ k v, op = .put k v true → d.current.parameters k = none) : ∃ s', s.apply P H op = .ok s' := by
  cases op with
  | put k v no =>
    have hok : (HD.put P k v no s.wallet).2 = .ok () := by
      rw [put_eq]
      cases no
      · rfl
      · rw [if_neg (by simp [hr.current.parameters.lookup_eq_none (parameterHash_injOn hinj _) (fun _ h => h.1)
          hfit.1 (hno k v rfl)])]
    simp only [Session.apply]
    split
    · exact ⟨_, rfl⟩
    · rename_i e he; rw [he] at hok; cases hok
  | setLabel | paymentQueueAdd | paymentQueueRemove => exact ⟨_, rfl⟩
  | setPassword password =>
    obtain ⟨w, hw, -⟩ := hr.setPassword hinj password
    exact ⟨⟨w, password⟩, by simp only [Session.apply, hw]⟩
  | reopen thc => exact absurd rfl (hop thc)

/-- a run of calls that returns keeps the refinement, and the net -/
theorem Refines.run : ∀ {ops : List StoreOp} {s s' : Session} {d : Durable}, Refines P S s d →
    (∀ op ∈ ops, op.Fits S s.wallet.net) → s.run P H ops = .ok s' →
    Refines P S s' (d.run s.wallet.net ops) ∧ s'.wallet.net = s.wallet.net
  | [], _, _, _, hr, _, h => by cases h; exact ⟨hr, rfl⟩
  | op :: ops, s, s', d, hr, hfit, h => by
    simp only [Session.run] at h
    split at h
    · rename_i s1 h1
      obtain ⟨hr1, hnet1⟩ := hr.apply hinj (hfit op (List.mem_cons_self _ _)) h1
      obtain ⟨hr2, hnet2⟩ := Refines.run hr1 (fun o ho => hnet1 ▸ hfit o (List.mem_cons_of_mem _ ho)) h
      rw [hnet1] at hr2
      exact ⟨hr2, hnet2.trans hnet1⟩
    · cases h

end

/-- **The store refines three maps.** Where `derive_from_key` is injective on the strings `S` the calls hash, from
an object that stands for durable maps `d` (as every opened one does, `openWallet_refines`), after any calls of `put`,
`set_label`, `payment_queue_add`, `payment_queue_remove`, `set_password` and reopening with the password, whose strings
lie in `S` and whose values are shorter than `2 ^ 31` bytes, that return: the open transaction's tables stand for the
maps the calls build and the committed tables for the maps as of the last commit (`set_label`, `set_password`, and
`payment_queue_remove` of a tid whose first byte is `'x'`, commit; a reopening goes back to the committed maps),
`m_labels` is the labels map, the reads read the current maps, and every further call but a reopening returns, `put`
with `nooverwrite` as long as the map lacks the key -/
theorem store_refines {P : Primitives} {H : HdPrimitives} {S : Set BinaryArray}
    (hinj : ∀ key, Set.InjOn (deriveFromKey P key) S) {s s' : Session} {d : Durable} (hr : Refines P S s d)
    {ops : List StoreOp} (hfit : ∀ op ∈ ops, op.Fits S s.wallet.net) (hrun : s.run P H ops = .ok s') :
    Refines P S s' (d.run s.wallet.net ops) ∧ Reads P S s'.wallet (d.run s.wallet.net ops).current ∧
      ∀ op, op.Fits S s.wallet.net → (∀ thc, op ≠ .reopen thc) →
        (∀ k v, op = .put k v true → (d.run s.wallet.net ops).current.parameters k = none) →
        ∃ s'', s'.apply P H op = .ok s'' := by
  obtain ⟨hr', hnet⟩ := hr.run hinj hfit hrun
  exact ⟨hr', hr'.reads hinj, fun op hf hop hno => hr'.apply_ok hinj (hnet ▸ hf) hop hno⟩

/-- a session on a new database with only its salt, committed -/
def emptySession : Session where
  wallet := { WalletHD.fresh "main"
      ⟨⟨some (Pod.zero 32).data, [], [], []⟩, ⟨some (Pod.zero 32).data, [], [], []⟩⟩
      (fun _ => Pod.zero 32) with walletKey := hashPrimitives.generateChacha8Key ((Pod.zero 32).data ++ []) }
  password := []

/-- the address whose label the sample run sets -/
def sampleAddress : BinaryArray := asBinaryArray "addr"

/-- set a label, change the password, erase the label -/
def labelOps : List StoreOp := [.setLabel sampleAddress [7], .setPassword [1], .setLabel sampleAddress []]

theorem labelOps_refine :
    (∀ key, Set.InjOn (deriveFromKey hashPrimitives key) {asBinaryArray "db_labels" ++ sampleAddress}) ∧
    Refines hashPrimitives {asBinaryArray "db_labels" ++ sampleAddress} emptySession
      ⟨Contents.empty, Contents.empty⟩ ∧
    (∀ op ∈ labelOps, op.Fits {asBinaryArray "db_labels" ++ sampleAddress} "main") ∧
    ∃ s', emptySession.run hashPrimitives plainHdPrimitives labelOps = .ok s' ∧
      Refines hashPrimitives {asBinaryArray "db_labels" ++ sampleAddress} s'
        ((⟨Contents.empty, Contents.empty⟩ : Durable).run "main" labelOps) ∧
      Reads hashPrimitives {asBinaryArray "db_labels" ++ sampleAddress} s'.wallet
        ((⟨Contents.empty, Contents.empty⟩ : Durable).run "main" labelOps).current := by
  have hinj : ∀ key, Set.InjOn (deriveFromKey hashPrimitives key) {asBinaryArray "db_labels" ++ sampleAddress} :=
    fun _ => Set.injOn_singleton _ _
  have hr : Refines hashPrimitives {asBinaryArray "db_labels" ++ sampleAddress} emptySession
      ⟨Contents.empty, Contents.empty⟩ :=
    ⟨⟨_, rfl, rfl, rfl⟩, TablesRepresent.empty _ _ _ _, TablesRepresent.empty _ _ _ _, rfl, List.Pairwise.nil,
      rfl⟩
  have hfit : ∀ op ∈ labelOps, op.Fits {asBinaryArray "db_labels" ++ sampleAddress} "main" := by
    simp [labelOps, StoreOp.Fits, sampleAddress, asBinaryArray]
  have h := store_refines (H := plainHdPrimitives) hinj hr hfit rfl
  exact ⟨hinj, hr, hfit, _, rfl, h.1, h.2.1⟩

/-- the object `sampleDatabase` opens to -/
def sampleWallet : WalletHD :=
  match openWallet hashPrimitives plainHdPrimitives "main" 0 [] sampleDatabase (fun _ => Pod.zero 32) 0 with
  | .ok w => w
  | .error _ => WalletHD.fresh "main" ⟨sampleDatabase, sampleDatabase⟩ (fun _ => Pod.zero 32)

/-- the parameter the counterexample puts -/
def noteKey : BinaryArray := asBinaryArray "note"

set_option maxRecDepth 100000 in
theorem reopen_loses_put :
    ∃ s', Session.run hashPrimitives plainHdPrimitives ⟨sampleWallet, []⟩ [.put noteKey [1] false, .reopen 0] =
        .ok s' ∧
      get hashPrimitives noteKey (put hashPrimitives noteKey [1] false sampleWallet).1 = .ok (some [1]) ∧
      (∀ c : Contents,
        ([StoreOp.put noteKey [1] false, .reopen 0].foldl (Contents.apply "main") c).parameters noteKey = some [1]) ∧
      get hashPrimitives noteKey s'.wallet = .ok none :=
  ⟨_, rfl, rfl, fun _ => by simp [Contents.apply], rfl⟩

end BytecoinWallet.HD
