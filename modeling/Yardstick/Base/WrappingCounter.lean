import Mathlib.Algebra.Group.Nat.Defs

/-!
# WrappingCounter — fixed-width images of natural counters

A counter of `w` bits is the image of an unbounded one. Two values with one
image differ by a multiple of `2 ^ w`, so a counter that has moved by less is
known exactly (`eq_of_ofNat`), and the sign of a difference tells which of two
counters less than half a lap apart is behind (`slt_zero_sub`). Masking with
`2 ^ k - 1` takes the remainder by `2 ^ k` (`toNat_and_mask`), also of a
difference of remainders (`toNat_sub_and_mask`).
-/

namespace WrappingCounter

/-- A counter that comes back to its image within one lap has not moved. -/
theorem eq_of_ofNat {w a b : ℕ} (hab : a ≤ b) (hlap : b - a < 2 ^ w)
    (h : BitVec.ofNat w a = BitVec.ofNat w b) : a = b := by
  have hmod : a % 2 ^ w = b % 2 ^ w := by
    have hnat := congrArg BitVec.toNat h
    rw [BitVec.toNat_ofNat, BitVec.toNat_ofNat] at hnat
    exact hnat
  have hdiv : 2 ^ w ∣ b - a :=
    Nat.dvd_of_mod_eq_zero (Nat.sub_mod_eq_zero_of_mod_eq hmod.symm)
  have hzero : b - a = 0 := Nat.eq_zero_of_dvd_of_lt hdiv hlap
  omega

/-- The signed difference of counters less than half a lap apart is negative
exactly when the first is behind. -/
theorem slt_zero_sub {w a b : ℕ} (hahead : 2 * (a - b) < 2 ^ w) (hbehind : 2 * (b - a) ≤ 2 ^ w) :
    (BitVec.ofNat w a - BitVec.ofNat w b).slt 0 = true ↔ a < b := by
  have hdiff : (BitVec.ofNat w a - BitVec.ofNat w b).toInt = (a : ℤ) - b := by
    rw [BitVec.toInt_sub, BitVec.toInt_ofNat', BitVec.toInt_ofNat', ← Int.sub_bmod]
    apply Int.bmod_eq_of_le_mul_two <;> omega
  have hzero : (0 : BitVec w).toInt = 0 := BitVec.toInt_zero
  rw [BitVec.slt_iff_toInt_lt, hdiff, hzero]
  omega

/-- The low `k` bits of a counter are its remainder by `2 ^ k`. -/
theorem toNat_and_mask {w k : ℕ} (hk : k ≤ w) (n : ℕ) :
    (BitVec.ofNat w n &&& BitVec.ofNat w (2 ^ k - 1)).toNat = n % 2 ^ k := by
  have hmask : 2 ^ k - 1 < 2 ^ w := by
    have hle := Nat.pow_le_pow_right (show 0 < 2 by decide) hk
    have hpos := Nat.two_pow_pos k
    omega
  rw [BitVec.toNat_and, BitVec.toNat_ofNat, BitVec.toNat_ofNat, Nat.mod_eq_of_lt hmask,
    Nat.and_two_pow_sub_one_eq_mod, Nat.mod_mod_of_dvd]
  exact Nat.pow_dvd_pow 2 hk

/-- The distance of two counters less than a lap of `2 ^ k` apart, of which only
the remainders by `2 ^ k` are kept. -/
theorem toNat_sub_and_mask {w k a b : ℕ} (hk : k ≤ w) (hba : b ≤ a) (hlap : a < b + 2 ^ k) :
    ((BitVec.ofNat w (a % 2 ^ k) - BitVec.ofNat w (b % 2 ^ k)) &&&
      BitVec.ofNat w (2 ^ k - 1)).toNat = a - b := by
  have hle := Nat.pow_le_pow_right (show 0 < 2 by decide) hk
  have hpos := Nat.two_pow_pos k
  have ha := Nat.mod_lt a hpos
  have hb := Nat.mod_lt b hpos
  -- the difference is the image of a number that differs from it by laps
  have hsub : BitVec.ofNat w (a % 2 ^ k) - BitVec.ofNat w (b % 2 ^ k) =
      BitVec.ofNat w (2 ^ w - b % 2 ^ k + a % 2 ^ k) := by
    apply BitVec.eq_of_toNat_eq
    rw [BitVec.toNat_sub, BitVec.toNat_ofNat, BitVec.toNat_ofNat, BitVec.toNat_ofNat,
      Nat.mod_eq_of_lt (a := a % 2 ^ k) (by omega), Nat.mod_eq_of_lt (a := b % 2 ^ k) (by omega)]
  obtain ⟨c, hc⟩ := Nat.pow_dvd_pow 2 hk
  have hda := Nat.div_add_mod a (2 ^ k)
  have hdb := Nat.div_add_mod b (2 ^ k)
  have hlaps : a / 2 ^ k ≤ c + b / 2 ^ k := by
    have hc1 : 0 < c := by
      rcases Nat.eq_zero_or_pos c with rfl | h
      · omega
      · exact h
    have hlt : a / 2 ^ k < b / 2 ^ k + 2 := by
      rw [Nat.div_lt_iff_lt_mul hpos, Nat.add_mul, Nat.mul_comm (b / 2 ^ k)]
      omega
    omega
  have hsum : 2 ^ w - b % 2 ^ k + a % 2 ^ k =
      (a - b) + 2 ^ k * (c + b / 2 ^ k - a / 2 ^ k) := by
    have hmul := Nat.mul_le_mul_left (2 ^ k) hlaps
    rw [Nat.mul_add] at hmul
    rw [Nat.mul_sub, Nat.mul_add]
    omega
  rw [hsub, toNat_and_mask hk, hsum, Nat.add_mul_mod_self_left, Nat.mod_eq_of_lt (by omega)]

end WrappingCounter
