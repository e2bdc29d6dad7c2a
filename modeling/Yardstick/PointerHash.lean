import Mathlib.Data.Nat.Notation
import Yardstick.Base.WordMixing

/-!
# PointerHash — string handles

A string travels over the wire as a 32-bit handle computed from its address.
The mixing depends on the size of a pointer on the host. Both hashes mix without
loss: the left shifts with an addition are multiplications by odd numbers, as the
comments beside them say, and the unsigned shifts to the right can be undone.
Only the truncation of the 64-bit hash gives one handle to several addresses.

* `hash4_eq_mix`, `mix8_eq_mix`: the hashes as chains of steps;
* `hash_bijective`: so they are bijections, and every handle is the hash of
  equally many keys.
-/

namespace Yardstick.PointerHash

open WordMixing

/-- `sizeof(void*)` on the host. -/
inductive PtrSize where
  | four
  | eight
deriving DecidableEq, Repr

/-- The bits of an address. -/
def PtrSize.bits : PtrSize → ℕ
  | .four => 32
  | .eight => 64

/-- `_hash_pointer_impl<4>::hash`. -/
def hash4 (key : BitVec 32) : BitVec 32 :=
  let key := ~~~key + (key <<< 15)
  let key := key ^^^ (key >>> 12)
  let key := key + (key <<< 2)
  let key := key ^^^ (key >>> 4)
  let key := key * 2057
  let key := key ^^^ (key >>> 16)
  key

/-- The 64-bit mixing of `_hash_pointer_impl<8>::hash`. -/
def mix8 (key : BitVec 64) : BitVec 64 :=
  let key := ~~~key + (key <<< 18)
  let key := key ^^^ (key >>> 31)
  let key := key * 21
  let key := key ^^^ (key >>> 11)
  let key := key + (key <<< 6)
  let key := key ^^^ (key >>> 22)
  key

/-- `_hash_pointer_impl<8>::hash`: the low half of the mixed key. -/
def hash8 (key : BitVec 64) : BitVec 32 := (mix8 key).setWidth 32

/-- `hash_pointer`, on an address of the host's size. -/
def hashPointer : (p : PtrSize) → BitVec p.bits → BitVec 32
  | .four, ptr => hash4 ptr
  | .eight, ptr => hash8 ptr

/-- A `char const*` together with the string it points to, up to the
terminating zero byte. -/
structure CString (p : PtrSize) where
  addr : BitVec p.bits
  text : List UInt8
  no_nul : 0 ∉ text
deriving DecidableEq

/-- The handle a string is sent under. -/
def CString.handle {p : PtrSize} (s : CString p) : BitVec 32 := hashPointer p s.addr

/-! ## Which strings share a handle -/

/-- The steps of `_hash_pointer_impl<4>::hash`. -/
def steps4 : List (Step 32) :=
  [.affine 0x7fff (-1), .xorShift 12, .affine 5 0, .xorShift 4, .affine 2057 0, .xorShift 16]

/-- The steps of `_hash_pointer_impl<8>::hash`, up to the truncation. -/
def steps8 : List (Step 64) :=
  [.affine 0x3ffff (-1), .xorShift 31, .affine 21 0, .xorShift 11, .affine 65 0, .xorShift 22]

theorem hash4_eq_mix (key : BitVec 32) : hash4 key = mix steps4 key := by
  have hfirst : ∀ k : BitVec 32, ~~~k + (k <<< 15) = k * 0x7fff + -1 :=
    fun k => not_add_shiftLeft k 15
  have hthird : ∀ k : BitVec 32, k + (k <<< 2) = k * 5 + 0 := fun k => add_shiftLeft k 2
  simp only [hash4, hfirst, hthird, mix, steps4, List.foldl_cons, List.foldl_nil, Step.apply,
    add_zero]

theorem mix8_eq_mix (key : BitVec 64) : mix8 key = mix steps8 key := by
  have hfirst : ∀ k : BitVec 64, ~~~k + (k <<< 18) = k * 0x3ffff + -1 :=
    fun k => not_add_shiftLeft k 18
  have hfifth : ∀ k : BitVec 64, k + (k <<< 6) = k * 65 + 0 := fun k => add_shiftLeft k 6
  simp only [mix8, hfirst, hfifth, mix, steps8, List.foldl_cons, List.foldl_nil, Step.apply,
    add_zero]

theorem hash4_bijective : Function.Bijective hash4 := by
  rw [funext hash4_eq_mix]
  exact mix_bijective (by decide)

theorem mix8_bijective : Function.Bijective mix8 := by
  rw [funext mix8_eq_mix]
  exact mix_bijective (by decide)

/-- The 32-bit hash and the 64-bit mixing are bijections. So on a 32-bit host two
strings have one handle only if they have one address, and on a 64-bit host every
handle is that of `2 ^ 32` addresses. -/
theorem hash_bijective :
    Function.Bijective hash4 ∧
      (∀ s t : CString .four, s.handle = t.handle ↔ s.addr = t.addr) ∧
      Function.Bijective mix8 ∧
      ∀ handle : BitVec 32, {key : BitVec 64 | hash8 key = handle}.ncard = 2 ^ 32 := by
  refine ⟨hash4_bijective, fun s t => ?_, mix8_bijective, fun handle => ?_⟩
  · exact hash4_bijective.injective.eq_iff
  · exact ncard_truncated mix8_bijective handle

/-- Two addresses of a 64-bit host with one handle. -/
example : hash8 0xffbfffeffffbffff = hash8 0x57bed22f9274ac2a := by decide

end Yardstick.PointerHash
