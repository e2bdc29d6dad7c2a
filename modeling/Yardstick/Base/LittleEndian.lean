import Mathlib.Data.List.Basic
import Mathlib.Tactic.Ring

/-!
# LittleEndian — fixed-width little-endian integers as byte lists

The memory image of an unsigned integer of `n` bits on a little-endian host,
and the two directions of its round trip:

* `encode` / `decode` on `BitVec n`, for widths `n` that are whole bytes;
* `field`, which reads one integer off the front of a byte list and fails
  when too few bytes are left.
-/

namespace LittleEndian

/-! ## Naturals -/

/-- The `w` low bytes of a number, least significant byte first. -/
def toBytes : ℕ → ℕ → List UInt8
  | 0, _ => []
  | w + 1, x => UInt8.ofNat x :: toBytes w (x / 256)

/-- The number whose bytes, least significant first, are given. -/
def ofBytes (bs : List UInt8) : ℕ := bs.foldr (fun b acc => b.toNat + 256 * acc) 0

@[simp] theorem ofBytes_nil : ofBytes [] = 0 := rfl

theorem ofBytes_cons (b : UInt8) (bs : List UInt8) :
    ofBytes (b :: bs) = b.toNat + 256 * ofBytes bs := rfl

@[simp] theorem toBytes_length (w x : ℕ) : (toBytes w x).length = w := by
  induction w generalizing x with
  | zero => rfl
  | succ w ih => simp [toBytes, ih]

theorem ofBytes_toBytes (w x : ℕ) : ofBytes (toBytes w x) = x % 256 ^ w := by
  induction w generalizing x with
  | zero => simp [toBytes, Nat.mod_one]
  | succ w ih =>
    have hlow : (UInt8.ofNat x).toNat = x % 256 := by simp
    rw [toBytes, ofBytes_cons, ih, hlow, Nat.pow_succ', Nat.mod_mul]

/-- Bytes are those of their own number. -/
theorem toBytes_ofBytes (bs : List UInt8) : toBytes bs.length (ofBytes bs) = bs := by
  induction bs with
  | nil => rfl
  | cons b bs ih =>
    have hb : b.toNat < 256 := b.toNat_lt
    have hhead : UInt8.ofNat (b.toNat + 256 * ofBytes bs) = b := by
      apply UInt8.toNat_inj.mp
      simp
    have htail : (b.toNat + 256 * ofBytes bs) / 256 = ofBytes bs := by omega
    rw [List.length_cons, ofBytes_cons, toBytes, hhead, htail, ih]

theorem ofBytes_lt (bs : List UInt8) : ofBytes bs < 256 ^ bs.length := by
  induction bs with
  | nil => simp
  | cons b bs ih =>
    have hb : b.toNat < 256 := b.toNat_lt
    rw [ofBytes_cons, List.length_cons, Nat.pow_succ]
    omega

/-- The low bytes first, then those of the quotient. -/
theorem toBytes_add (v w x : ℕ) : toBytes (v + w) x = toBytes v x ++ toBytes w (x / 256 ^ v) := by
  induction v generalizing x with
  | zero => simp [toBytes]
  | succ v ih =>
    have hdiv : x / 256 / 256 ^ v = x / 256 ^ (v + 1) := by
      rw [Nat.div_div_eq_div_mul, Nat.pow_succ']
    rw [Nat.succ_add, toBytes, toBytes, ih, hdiv, List.cons_append]

/-- Only the low bytes count. -/
theorem toBytes_mod (w x : ℕ) : toBytes w x = toBytes w (x % 256 ^ w) := by
  have h := toBytes_ofBytes (toBytes w x)
  rw [toBytes_length, ofBytes_toBytes] at h
  exact h.symm

/-! ## Bit vectors -/

/-- The bytes of an `n`-bit integer. -/
def encode {n : ℕ} (x : BitVec n) : List UInt8 := toBytes (n / 8) x.toNat

/-- The `n`-bit integer with the given bytes. -/
def decode (n : ℕ) (bs : List UInt8) : BitVec n := BitVec.ofNat n (ofBytes bs)

@[simp] theorem encode_length {n : ℕ} (x : BitVec n) : (encode x).length = n / 8 := by
  simp [encode]

theorem pow_bytes {n : ℕ} (h : 8 ∣ n) : 256 ^ (n / 8) = 2 ^ n := by
  rcases h with ⟨w, rfl⟩
  rw [Nat.mul_div_cancel_left w (by omega), Nat.pow_mul]

theorem ofBytes_encode {n : ℕ} (h : 8 ∣ n) (x : BitVec n) : ofBytes (encode x) = x.toNat := by
  rw [encode, ofBytes_toBytes, pow_bytes h, Nat.mod_eq_of_lt x.isLt]

theorem decode_encode {n : ℕ} (h : 8 ∣ n) (x : BitVec n) : decode n (encode x) = x := by
  simp [decode, ofBytes_encode h]

theorem decode_toNat {n : ℕ} (h : 8 ∣ n) {bs : List UInt8} (hlen : bs.length = n / 8) :
    (decode n bs).toNat = ofBytes bs := by
  have hlt := ofBytes_lt bs
  rw [hlen, pow_bytes h] at hlt
  simp [decode, Nat.mod_eq_of_lt hlt]

theorem encode_decode {n : ℕ} (h : 8 ∣ n) {bs : List UInt8} (hlen : bs.length = n / 8) :
    encode (decode n bs) = bs := by
  rw [encode, decode_toNat h hlen, ← hlen, toBytes_ofBytes]

/-! ## Reading a field -/

/-- Read one `n`-bit integer off the front. -/
def field (n : ℕ) (bs : List UInt8) : Option (BitVec n × List UInt8) :=
  if n / 8 ≤ bs.length then some (decode n (bs.take (n / 8)), bs.drop (n / 8)) else none

@[simp] theorem field_encode {n : ℕ} (h : 8 ∣ n) (x : BitVec n) (rest : List UInt8) :
    field n (encode x ++ rest) = some (x, rest) := by
  have htake : (encode x ++ rest).take (n / 8) = encode x :=
    List.take_left' (encode_length x)
  have hdrop : (encode x ++ rest).drop (n / 8) = rest :=
    List.drop_left' (encode_length x)
  simp [field, htake, hdrop, decode_encode h]

/-- What is read as a field begins with the bytes of its value. -/
theorem of_field {n : ℕ} (h : 8 ∣ n) {bs rest : List UInt8} {x : BitVec n}
    (hf : field n bs = some (x, rest)) : bs = encode x ++ rest := by
  unfold field at hf
  split at hf
  · rename_i hle
    rcases Prod.mk.inj (Option.some.inj hf) with ⟨rfl, rfl⟩
    rw [encode_decode h (by simpa using hle), List.take_append_drop]
  · cases hf

end LittleEndian
