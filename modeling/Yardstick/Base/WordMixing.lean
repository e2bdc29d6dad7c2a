import Mathlib.Data.BitVec
import Mathlib.Data.FinEnum
import Mathlib.Data.Set.Card
import Mathlib.Tactic.Ring

/-!
# WordMixing — mixing functions of a machine word

A mixing function is a chain of steps, each a wrapping multiplication with an
addition, or an exclusive or of the word with itself shifted to the right. Such
a chain loses nothing as long as every multiplier is odd and every shift is by
at least one bit.

* `mix_bijective`: the chain is a bijection of the words;
* `ncard_truncated`: what is lost by a truncation behind a bijection;
* `not_add_shiftLeft`, `add_shiftLeft`: multiplications written as shifts.
-/

namespace WordMixing

variable {w : ℕ}

/-! ## Steps -/

inductive Step (w : ℕ) where
  /-- `key * a + b` -/
  | affine (a b : BitVec w)
  /-- `key ^ (key >> n)` -/
  | xorShift (n : ℕ)

def Step.apply (key : BitVec w) : Step w → BitVec w
  | .affine a b => key * a + b
  | .xorShift n => key ^^^ (key >>> n)

/-- No two words become one. -/
def Step.Lossless : Step w → Prop
  | .affine a _ => Nat.Coprime a.toNat 2
  | .xorShift n => 0 < n

instance (step : Step w) : Decidable step.Lossless := by
  cases step <;> unfold Step.Lossless <;> infer_instance

/-- The steps, one after another. -/
def mix (steps : List (Step w)) (key : BitVec w) : BitVec w := steps.foldl Step.apply key

/-- Multiplying by an odd number loses nothing, as it can be undone modulo a power
of two. -/
theorem affine_injective {a : BitVec w} (b : BitVec w) (ha : Nat.Coprime a.toNat 2) :
    Function.Injective fun key => key * a + b := by
  intro x y hxy
  have hmul : x * a = y * a := add_right_cancel hxy
  have hmod : x.toNat * a.toNat ≡ y.toNat * a.toNat [MOD 2 ^ w] := by
    have htoNat := congrArg BitVec.toNat hmul
    rwa [BitVec.toNat_mul, BitVec.toNat_mul] at htoNat
  have hcancel : x.toNat ≡ y.toNat [MOD 2 ^ w] :=
    hmod.cancel_right_of_coprime (Nat.Coprime.pow_right w ha).symm
  exact BitVec.eq_of_toNat_eq (hcancel.eq_of_lt_of_lt x.isLt y.isLt)

/-- A word that is its own shift is zero. -/
theorem eq_zero_of_eq_shift {n : ℕ} (hn : 0 < n) {d : BitVec w} (hd : d = d >>> n) : d = 0 := by
  have hdiv : d.toNat = d.toNat / 2 ^ n := by
    conv_lhs => rw [hd, BitVec.toNat_ushiftRight, Nat.shiftRight_eq_div_pow]
  by_contra hne
  have hpos : 0 < d.toNat := Nat.pos_of_ne_zero fun h => hne (BitVec.eq_of_toNat_eq h)
  have hlt : d.toNat / 2 ^ n < d.toNat := Nat.div_lt_self hpos (Nat.one_lt_two_pow hn.ne')
  omega

/-- The difference of two words with one image is its own shift. -/
theorem xorShift_injective {n : ℕ} (hn : 0 < n) :
    Function.Injective fun key : BitVec w => key ^^^ (key >>> n) := by
  intro x y hxy
  have hxy' : x ^^^ (x >>> n) = y ^^^ (y >>> n) := hxy
  have hshift : x ^^^ y = (x ^^^ y) >>> n := by
    rw [BitVec.ushiftRight_xor_distrib]
    calc x ^^^ y = (x ^^^ (x >>> n)) ^^^ (x >>> n) ^^^ y := by
          rw [BitVec.xor_assoc x, BitVec.xor_self, BitVec.xor_zero]
      _ = (y ^^^ (y >>> n)) ^^^ (x >>> n) ^^^ y := by rw [hxy']
      _ = (x >>> n) ^^^ (y >>> n) := by
          rw [BitVec.xor_comm _ y, BitVec.xor_assoc y, ← BitVec.xor_assoc y y, BitVec.xor_self,
            BitVec.zero_xor, BitVec.xor_comm]
  exact BitVec.xor_eq_zero_iff.mp (eq_zero_of_eq_shift hn hshift)

theorem apply_injective {step : Step w} (h : step.Lossless) :
    Function.Injective fun key => step.apply key := by
  cases step with
  | affine a b => exact affine_injective b h
  | xorShift n => exact xorShift_injective h

theorem mix_injective {steps : List (Step w)} (h : ∀ step ∈ steps, step.Lossless) :
    Function.Injective (mix steps) := by
  induction steps with
  | nil => exact Function.injective_id
  | cons step steps ih =>
    have hstep := apply_injective (h step List.mem_cons_self)
    exact (ih fun s hs => h s (List.mem_cons_of_mem step hs)).comp hstep

theorem mix_bijective {steps : List (Step w)} (h : ∀ step ∈ steps, step.Lossless) :
    Function.Bijective (mix steps) :=
  Finite.injective_iff_bijective.mp (mix_injective h)

/-! ## Truncation -/

theorem card_words (w : ℕ) : Nat.card (BitVec w) = 2 ^ w := by
  rw [Nat.card_eq_fintype_card, ← FinEnum.card_eq_fintypeCard, FinEnum.card_bitVec]

/-- The words with the given low bits, by their high bits. -/
theorem range_append {n m : ℕ} (low : BitVec m) :
    Set.range (fun high : BitVec n => high ++ low) = {x : BitVec (n + m) | x.setWidth m = low} := by
  ext x
  constructor
  · rintro ⟨high, rfl⟩
    exact BitVec.setWidth_append.trans ((dif_pos (Nat.le_refl m)).trans (BitVec.setWidth_eq low))
  · intro hx
    refine ⟨x.extractLsb' m n, ?_⟩
    have hlow : x.extractLsb' 0 m = low := by
      rw [← BitVec.setWidth_eq_extractLsb' (Nat.le_add_left m n)]
      exact hx
    rw [← hlow]
    exact BitVec.extractLsb'_append_extractLsb'

theorem append_injective {n m : ℕ} (low : BitVec m) :
    Function.Injective fun high : BitVec n => high ++ low := by
  intro x y hxy
  have hx : (x ++ low).extractLsb' m n = (y ++ low).extractLsb' m n := congrArg _ hxy
  rwa [BitVec.extractLsb'_append_eq_left, BitVec.extractLsb'_append_eq_left] at hx

/-- Of the words that a bijection takes to given low bits there are as many as
there are high bits. -/
theorem ncard_truncated {n m : ℕ} {f : BitVec (n + m) → BitVec (n + m)}
    (hf : Function.Bijective f) (low : BitVec m) :
    {key | (f key).setWidth m = low}.ncard = 2 ^ n := by
  have hrange : {x : BitVec (n + m) | x.setWidth m = low} ⊆ Set.range f := by
    rw [hf.surjective.range_eq]
    exact Set.subset_univ _
  calc {key | (f key).setWidth m = low}.ncard
      = {x : BitVec (n + m) | x.setWidth m = low}.ncard :=
        Set.ncard_preimage_of_injective_subset_range hf.injective hrange
    _ = Nat.card (BitVec n) := by
        rw [← range_append, Set.ncard_range_of_injective (append_injective low)]
    _ = 2 ^ n := card_words n

/-! ## Multiplications written as shifts -/

theorem not_add_shiftLeft (key : BitVec w) (n : ℕ) :
    ~~~key + (key <<< n) = key * (BitVec.twoPow w n - 1) + -1 := by
  have hone : 1#w = 1 := rfl
  rw [BitVec.not_eq_neg_add, BitVec.shiftLeft_eq_mul_twoPow, hone]
  ring

theorem add_shiftLeft (key : BitVec w) (n : ℕ) :
    key + (key <<< n) = key * (BitVec.twoPow w n + 1) + 0 := by
  rw [BitVec.shiftLeft_eq_mul_twoPow]
  ring

end WordMixing
