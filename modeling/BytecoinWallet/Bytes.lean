/-
Bytes, little-endian integers, the chacha stream ciphers and files, as the wallet storage core
(`src/src/Core/Wallet.cpp`) uses them.

`BinaryArray` is a list of bytes. `uint_le_to_bytes` / `uint_le_from_bytes` (from `common/`) are the fixed-width
little-endian codecs of the container layout and of the length header of an HD row. `chacha8` and `chacha(20, ...)`
are stream ciphers: they XOR the data with a keystream fixed by the key and the iv, so the same call undoes itself
(`chachaXor_chachaXor`); nothing is assumed about the keystream. A file is its bytes: `writeAt` is `seek` then
`write` (a write past the end leaves a gap of zero bytes), `readAt` is `seek` then `read` (a short read throws
`common::StreamError`).
-/
import Mathlib.Data.List.Basic
import Mathlib.Algebra.Order.Group.Nat

namespace BytecoinWallet

/-- `BinaryArray`, the byte vector of `common/` -/
abbrev BinaryArray := List UInt8

/-! ## Bytes -/

theorem byte_xor_xor_cancel (a b : UInt8) : (a ^^^ b) ^^^ b = a := by
  cases a; cases b
  show UInt8.mk _ = _
  congr 1
  show (_ ^^^ _) ^^^ _ = _
  rw [BitVec.xor_assoc, BitVec.xor_self, BitVec.xor_zero]

theorem byte_ofNat_toNat (b : UInt8) : UInt8.ofNat b.toNat = b := by
  cases b with | mk v => ?_
  show UInt8.mk (BitVec.ofNat 8 v.toNat) = _
  rw [BitVec.ofNat_toNat, BitVec.setWidth_eq]

/-- `common::as_binary_array` of a string: its characters as bytes (the strings the core hashes are ASCII) -/
def asBinaryArray (s : String) : BinaryArray := s.toList.map fun ch => UInt8.ofNat ch.toNat

/-- `operator<` of `std::string`: the bytes compared as unsigned characters, a proper prefix first -/
def bytesLt : BinaryArray → BinaryArray → Bool
  | [], [] => false
  | [], _ :: _ => true
  | _ :: _, [] => false
  | a :: as, b :: bs => if a = b then bytesLt as bs else decide (a.toNat < b.toNat)

/-! `bytesLt` is a strict total order, so a `std::map` keyed by strings has each key once. -/

theorem bytesLt_irrefl : ∀ a : BinaryArray, bytesLt a a = false
  | [] => rfl
  | _ :: as => by simp only [bytesLt, if_true, bytesLt_irrefl as]

theorem bytesLt_trans : ∀ {a b c : BinaryArray}, bytesLt a b = true → bytesLt b c = true → bytesLt a c = true
  | [], _ :: _, _ :: _, _, _ => rfl
  | x :: as, y :: bs, z :: cs, hab, hbc => by
    simp only [bytesLt] at hab hbc ⊢
    by_cases hxy : x = y <;> by_cases hyz : y = z
    · subst hxy hyz; simp only [if_true] at hab hbc ⊢; exact bytesLt_trans hab hbc
    · subst hxy; simpa only [hyz, if_true, if_false] using hbc
    · subst hyz; simpa only [hxy, if_true, if_false] using hab
    · simp only [hxy, hyz, if_false, decide_eq_true_eq] at hab hbc
      rw [if_neg (fun e => by subst e; omega), decide_eq_true_eq]; omega
  | [], [], _, hab, _ | _ :: _, [], _, hab, _ => by simp [bytesLt] at hab
  | [], _ :: _, [], _, hbc | _ :: _, _ :: _, [], _, hbc => by simp [bytesLt] at hbc

theorem bytesLt_total : ∀ {a b : BinaryArray}, a ≠ b → bytesLt a b = false → bytesLt b a = true
  | [], [], h, _ => absurd rfl h
  | [], _ :: _, _, h => by simp [bytesLt] at h
  | _ :: _, [], _, _ => rfl
  | x :: as, y :: bs, hne, h => by
    simp only [bytesLt] at h ⊢
    by_cases hxy : x = y
    · subst hxy
      simp only [if_true] at h ⊢
      exact bytesLt_total (fun e => hne (by rw [e])) h
    · rw [if_neg hxy, decide_eq_false_iff_not] at h
      rw [if_neg (Ne.symm hxy), decide_eq_true_eq]
      have : x.toNat ≠ y.toNat := fun e => hxy (UInt8.toNat.inj e)
      omega

/-! ## Little-endian integers -/

/-- `common::uint_le_to_bytes`: the `w` low bytes of `n`, least significant first -/
def uintLeToBytes : ℕ → ℕ → BinaryArray
  | 0, _ => []
  | w + 1, n => UInt8.ofNat n :: uintLeToBytes w (n / 256)

/-- `common::uint_le_from_bytes` over all the bytes it is given -/
def uintLeFromBytes : BinaryArray → ℕ
  | [] => 0
  | b :: bs => b.toNat + 256 * uintLeFromBytes bs

@[simp] theorem length_uintLeToBytes (w n : ℕ) : (uintLeToBytes w n).length = w := by
  induction w generalizing n with
  | zero => rfl
  | succ w ih => simp [uintLeToBytes, ih]

/-- decoding the `w` bytes of `n` gives `n` modulo `256 ^ w` -/
theorem uintLeFromBytes_uintLeToBytes (w n : ℕ) : uintLeFromBytes (uintLeToBytes w n) = n % 256 ^ w := by
  induction w generalizing n with
  | zero => simp [uintLeToBytes, uintLeFromBytes, Nat.mod_one]
  | succ w ih =>
    show (UInt8.ofNat n).toNat + 256 * uintLeFromBytes (uintLeToBytes w (n / 256)) = _
    rw [ih, pow_succ', Nat.mod_mul]
    rfl

theorem uintLeFromBytes_uintLeToBytes_of_lt {w n : ℕ} (h : n < 256 ^ w) :
    uintLeFromBytes (uintLeToBytes w n) = n := by
  rw [uintLeFromBytes_uintLeToBytes, Nat.mod_eq_of_lt h]

theorem uintLeFromBytes_lt (bs : BinaryArray) : uintLeFromBytes bs < 256 ^ bs.length := by
  induction bs with
  | nil => simp [uintLeFromBytes]
  | cons b bs ih =>
    have hb : b.toNat < 256 := b.toNat_lt_size
    simp only [uintLeFromBytes, List.length_cons, pow_succ]
    omega

/-! ## Stream ciphers -/

/-- a keystream: byte `i` of the pad that one key and one iv give -/
abbrev Keystream := ℕ → UInt8

/-- the data XOR the keystream from byte `i` of the pad on -/
def chachaXorFrom (ks : Keystream) : ℕ → BinaryArray → BinaryArray
  | _, [] => []
  | i, b :: bs => (b ^^^ ks i) :: chachaXorFrom ks (i + 1) bs

/-- `chacha8(data, size, key, iv, out)` and `chacha(20, ...)`: the data XOR the keystream, from its first byte -/
def chachaXor (ks : Keystream) (data : BinaryArray) : BinaryArray :=
  chachaXorFrom ks 0 data

theorem length_chachaXorFrom (ks : Keystream) (i : ℕ) (data : BinaryArray) :
    (chachaXorFrom ks i data).length = data.length := by
  induction data generalizing i with
  | nil => rfl
  | cons b bs ih => simp [chachaXorFrom, ih]

@[simp] theorem length_chachaXor (ks : Keystream) (data : BinaryArray) : (chachaXor ks data).length = data.length :=
  length_chachaXorFrom ks 0 data

theorem chachaXorFrom_chachaXorFrom (ks : Keystream) (i : ℕ) (data : BinaryArray) :
    chachaXorFrom ks i (chachaXorFrom ks i data) = data := by
  induction data generalizing i with
  | nil => rfl
  | cons b bs ih => simp [chachaXorFrom, ih, byte_xor_xor_cancel]

@[simp] theorem chachaXor_chachaXor (ks : Keystream) (data : BinaryArray) :
    chachaXor ks (chachaXor ks data) = data :=
  chachaXorFrom_chachaXorFrom ks 0 data

/-! ## Files -/

/-- `seek(pos)` then `write(data)`: a write past the end leaves the gap as zero bytes -/
def writeAt (f : BinaryArray) (pos : ℕ) (data : BinaryArray) : BinaryArray :=
  (f ++ List.replicate (pos - f.length) 0).take pos ++ data ++ f.drop (pos + data.length)

/-- `seek(pos)` then `read(n)`: `none` is the `common::StreamError` of a short read -/
def readAt (f : BinaryArray) (pos n : ℕ) : Option BinaryArray :=
  if pos + n ≤ f.length then some ((f.drop pos).take n) else none

theorem length_writeAt (f : BinaryArray) (pos : ℕ) (data : BinaryArray) :
    (writeAt f pos data).length = max f.length (pos + data.length) := by
  simp only [writeAt, List.length_append, List.length_take, List.length_replicate, List.length_drop]
  omega

theorem writeAt_length (f data : BinaryArray) : writeAt f f.length data = f ++ data := by
  simp [writeAt]

theorem writeAt_of_le {f : BinaryArray} {pos : ℕ} {data : BinaryArray} (h : pos + data.length ≤ f.length) :
    writeAt f pos data = f.take pos ++ data ++ f.drop (pos + data.length) := by
  have : pos - f.length = 0 := by omega
  simp [writeAt, this]

theorem take_writeAt {f : BinaryArray} {pos n : ℕ} (data : BinaryArray) (hn : n ≤ pos) (hf : n ≤ f.length) :
    (writeAt f pos data).take n = f.take n := by
  have hA : n ≤ ((f ++ List.replicate (pos - f.length) 0).take pos).length := by simp; omega
  rw [writeAt, List.append_assoc, List.take_append_of_le_length hA, List.take_take, min_eq_left hn,
    List.take_append_of_le_length hf]

theorem readAt_of_le {f : BinaryArray} {pos n : ℕ} (h : pos + n ≤ f.length) :
    readAt f pos n = some ((f.drop pos).take n) := if_pos h

theorem readAt_of_lt {f : BinaryArray} {pos n : ℕ} (h : f.length < pos + n) : readAt f pos n = none :=
  if_neg (Nat.not_le.2 h)

/-- one operation on the file at a path, as the program issues it -/
inductive FileEvent where
  /-- `seek(pos)` then `write(data)` -/
  | write (pos : ℕ) (data : BinaryArray)
  /-- `fsync()`: every earlier write is durable -/
  | fsync
  /-- `truncate(size)` -/
  | truncate (size : ℕ)
  /-- `platform::atomic_replace_file` from a temporary file that holds `contents`, written and synced before -/
  | replace (contents : BinaryArray)

/-- the file after one operation -/
def FileEvent.apply (f : BinaryArray) : FileEvent → BinaryArray
  | .write pos data => writeAt f pos data
  | .fsync => f
  | .truncate size => f.take size
  | .replace contents => contents

end BytecoinWallet
