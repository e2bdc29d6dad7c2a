import Mathlib.Data.Finset.Range
import Yardstick.Base.BoundedFifo
import Yardstick.ConcurrentCircularBuffer

/-!
# CircularBufferFifo — the circular buffer with one call at a time

`tryWrite` and `read` are the two functions from end to end, with their copies
as `memcpy` makes them.

* `Represents`: the indices and the buffer as a window of a stream;
* `tryWrite_represents`, `read_represents`: one call, as the FIFO answers it;
* `buffer_refines_fifo`: any number of calls;
* `run_writeSteps`, `run_readSteps`: the functions are runs of the two threads
  in which one of them does not move.
-/

namespace Yardstick.ConcurrentCircularBuffer

open BoundedFifo RingWindow Runs

variable (k : ℕ)

/-! ## The functions -/

/-- The members of the buffer. -/
structure Buffer where
  write : BitVec 32
  read : BitVec 32
  buffer : ℕ → UInt8

/-- The constructor: the bytes have any contents. -/
def construct (buffer : ℕ → UInt8) : Buffer := ⟨0, 0, buffer⟩

def tryWrite (b : Buffer) (data : ℕ → UInt8) (size : BitVec 32) : Bool × Buffer :=
  let tail := b.read
  let head := b.write
  if fits k head tail size then
    let count := writeCount k head size
    let remaining := size - count
    let buffer := memcpy b.buffer head.toNat data 0 count.toNat
    let buffer := memcpy buffer 0 data count.toNat remaining.toNat
    (true, { b with buffer := buffer, write := (head + size) &&& kBufferMask k })
  else (false, b)

/-- What `Read` returns, what it leaves in `out`, and the buffer. -/
def read (b : Buffer) (out : ℕ → UInt8) (size : BitVec 32) : ℤ × (ℕ → UInt8) × Buffer :=
  let tail := b.write
  let head := b.read
  let available := used k tail head
  if 0 < available then
    let amount := if size < available then size else available
    let count := readCount k head amount
    let remaining := amount - count
    let out := memcpy out 0 b.buffer head.toNat count.toNat
    let out := memcpy out count.toNat b.buffer 0 remaining.toNat
    (amount.toInt, out, { b with read := (head + amount) &&& kBufferMask k })
  else (0, out, b)

/-- The bytes between the two indices. -/
def contents (b : Buffer) : List UInt8 :=
  (List.range (used k b.write b.read).toNat).map fun i => b.buffer ((b.read.toNat + i) % 2 ^ k)

/-! ## Calls -/

inductive Call where
  | tryWrite (data : ℕ → UInt8) (size : BitVec 32)
  | read (out : ℕ → UInt8) (size : BitVec 32)

inductive Answer where
  | wrote (success : Bool)
  | got (amount : ℤ) (out : ℕ → UInt8)

def perform (b : Buffer) : Call → Answer × Buffer
  | .tryWrite data size =>
    let r := tryWrite k b data size
    (.wrote r.1, r.2)
  | .read out size =>
    let r := read k b out size
    (.got r.1 r.2.1, r.2.2)

/-- The `size` bytes at `data`. -/
def block (data : ℕ → UInt8) (size : BitVec 32) : List UInt8 := (List.range size.toNat).map data

/-- The bytes behind those that are delivered. -/
def deliver (bytes : List UInt8) (out : ℕ → UInt8) : ℕ → UInt8 := fun i => bytes[i]?.getD (out i)

/-- How a FIFO of `2 ^ k - 1` bytes answers. -/
def specify (q : Fifo UInt8 (2 ^ k - 1)) : Call → Answer × Fifo UInt8 (2 ^ k - 1)
  | .tryWrite data size =>
    match q.pushAll (block data size) with
    | some q' => (.wrote true, q')
    | none => (.wrote false, q)
  | .read out size =>
    let r := q.popMany size.toNat
    (.got r.1.length (deliver r.1 out), r.2)

/-! ## A window of a stream -/

/-- The buffer keeps the bytes of the stream from byte `r` on. -/
structure Window (b : Buffer) (stream : List UInt8) (r : ℕ) : Prop where
  write : b.write = index k stream.length
  read : b.read = index k r
  le : r ≤ stream.length
  room : stream.length < r + 2 ^ k
  holds : Holds (2 ^ k) b.buffer stream r

def Represents (b : Buffer) (bytes : List UInt8) : Prop :=
  ∃ stream r, Window k b stream r ∧ bytes = stream.drop r

theorem construct_represents (buffer : ℕ → UInt8) : Represents k (construct buffer) [] := by
  refine ⟨[], 0, ⟨?_, ?_, Nat.le_refl 0, ?_, holds_nil⟩, rfl⟩
  · simp [construct, index]
  · simp [construct, index]
  · exact Nat.lt_of_lt_of_eq (Nat.two_pow_pos k) (Nat.zero_add _).symm

section
variable {k} {b : Buffer} {bytes : List UInt8}

theorem Represents.bounded (h : Represents k b bytes) : bytes.length ≤ 2 ^ k - 1 := by
  rcases h with ⟨stream, r, hwin, rfl⟩
  have hroom := hwin.room
  rw [List.length_drop]
  omega

variable (hk : k ≤ 31)
include hk

theorem Represents.used_eq (h : Represents k b bytes) :
    (used k b.write b.read).toNat = bytes.length := by
  rcases h with ⟨stream, r, hwin, rfl⟩
  rw [hwin.write, hwin.read, used_toNat hk hwin.le hwin.room, List.length_drop]

/-- The bytes between the indices are those represented. -/
theorem Represents.contents_eq (h : Represents k b bytes) : contents k b = bytes := by
  have hused := h.used_eq hk
  rcases h with ⟨stream, r, hwin, rfl⟩
  apply List.ext_getElem?
  intro i
  rw [contents, hused, List.getElem?_map, List.getElem?_drop]
  by_cases hi : i < (stream.drop r).length
  · have hlt : r + i < stream.length := by
      rw [List.length_drop] at hi
      omega
    have hget : stream[r + i]? = some stream[r + i] := List.getElem?_eq_getElem hlt
    have hcell := hwin.holds (r + i) _ (by omega) hget
    rw [List.getElem?_range hi, hget, Option.map_some, hwin.read, index_toNat hk, Nat.mod_add_mod,
      hcell]
  · have hge : stream.length ≤ r + i := by
      rw [List.length_drop] at hi
      omega
    rw [List.getElem?_eq_none (by simpa using hi), List.getElem?_eq_none hge]
    rfl

/-! ## One call -/

theorem tryWrite_fits (h : Represents k b bytes) (size : BitVec 32) :
    fits k b.write b.read size ↔ bytes.length + size.toNat ≤ 2 ^ k - 1 := by
  have hpos := Nat.two_pow_pos k
  rcases h with ⟨stream, r, hwin, rfl⟩
  have hle := hwin.le
  rw [hwin.write, hwin.read, fits_iff hk hwin.le hwin.room, List.length_drop]
  omega

/-- A write that goes on appends its block. -/
theorem tryWrite_represents (h : Represents k b bytes) (data : ℕ → UInt8) {size : BitVec 32}
    (hfits : fits k b.write b.read size) :
    Represents k (tryWrite k b data size).2 (bytes ++ block data size) := by
  have hroom := (tryWrite_fits hk h size).mp hfits
  rcases h with ⟨stream, r, hwin, rfl⟩
  have hle := hwin.le
  have hpos := Nat.two_pow_pos k
  have hmod := Nat.mod_lt stream.length hpos
  rw [List.length_drop] at hroom
  have hcount := writeCount_toNat hk stream.length size
  have hrest : (size - writeCount k (index k stream.length) size).toNat =
      size.toNat - min size.toNat (2 ^ k - stream.length % 2 ^ k) := by
    rw [BitVec.toNat_sub_of_le, hcount]
    rw [BitVec.le_def, hcount]
    omega
  rw [tryWrite, if_pos hfits]
  refine ⟨stream ++ block data size, r, ?_, (List.drop_append_of_le_length hle).symm⟩
  have hlength : (stream ++ block data size).length = stream.length + size.toNat := by
    simp [block]
  constructor
  · rw [hlength, ← index_add hk, ← hwin.write]
  · exact hwin.read
  · rw [hlength]
    omega
  · rw [hlength]
    omega
  · -- the two copies visit the cells behind the end of the stream
    dsimp only
    rw [hwin.write, hcount, hrest, index_toNat hk]
    refine hwin.holds.block (by omega) ?_ ?_
    · intro i hi
      rw [← Nat.mod_add_mod]
      exact memcpy_into b.buffer data hmod hi (by omega)
    · intro p hp
      refine memcpy_into_other b.buffer data hmod (by omega) ?_
      intro i hi
      rw [Nat.mod_add_mod]
      exact hp i hi

/-- `amount` of `Read`. -/
theorem amount_toNat (h : Represents k b bytes) (size : BitVec 32) :
    (if size < used k b.write b.read then size else used k b.write b.read).toNat =
      min size.toNat bytes.length := by
  have hused := h.used_eq hk
  split
  · next hlt =>
    rw [BitVec.lt_def, hused] at hlt
    omega
  · next hge =>
    rw [BitVec.lt_def, hused] at hge
    omega

/-- The window without its oldest `m` bytes. -/
theorem Window.advance {stream : List UInt8} {r : ℕ} (hwin : Window k b stream r)
    {amount : BitVec 32} (hle : r + amount.toNat ≤ stream.length) :
    Window k { b with read := (b.read + amount) &&& kBufferMask k } stream
      (r + amount.toNat) := by
  have hroom := hwin.room
  constructor
  · exact hwin.write
  · rw [hwin.read, index_add hk]
  · exact hle
  · omega
  · exact hwin.holds.later (Nat.le_add_right _ _)

/-- The two copies of `Read` deliver the oldest bytes. -/
theorem copies_deliver {stream : List UInt8} {r : ℕ} (hwin : Window k b stream r)
    (out : ℕ → UInt8) {amount : BitVec 32} (hle : r + amount.toNat ≤ stream.length) :
    memcpy (memcpy out 0 b.buffer b.read.toNat (readCount k b.read amount).toNat)
      (readCount k b.read amount).toNat b.buffer 0 (amount - readCount k b.read amount).toNat =
      deliver ((stream.drop r).take amount.toNat) out := by
  have hmod := Nat.mod_lt r (Nat.two_pow_pos k)
  have hroom := hwin.room
  have hcount := readCount_toNat hk r amount
  have hrest : (amount - readCount k (index k r) amount).toNat =
      amount.toNat - min amount.toNat (2 ^ k - r % 2 ^ k) := by
    rw [BitVec.toNat_sub_of_le, hcount]
    rw [BitVec.le_def, hcount]
    omega
  funext i
  rw [hwin.read, hrest, hcount, index_toNat hk, memcpy_out_of out b.buffer hmod (by omega),
    Nat.mod_add_mod, deliver, List.getElem?_take, List.getElem?_drop]
  by_cases hi : i < amount.toNat
  · have hget : stream[r + i]? = some stream[r + i] := List.getElem?_eq_getElem (by omega)
    rw [if_pos hi, if_pos hi, hwin.holds (r + i) _ (by omega) hget, hget]
    rfl
  · rw [if_neg hi, if_neg hi]
    rfl

/-- A read delivers the oldest bytes and removes them. -/
theorem read_represents (h : Represents k b bytes) (out : ℕ → UInt8) (size : BitVec 32) :
    (read k b out size).1 = ((bytes.take size.toNat).length : ℤ) ∧
      (read k b out size).2.1 = deliver (bytes.take size.toNat) out ∧
      Represents k (read k b out size).2.2 (bytes.drop size.toNat) := by
  have hused := h.used_eq hk
  have hamount := amount_toNat hk h size
  have hbounded := h.bounded
  by_cases havail : 0 < used k b.write b.read
  · rw [read, if_pos havail]
    dsimp only
    generalize (if size < used k b.write b.read then size else used k b.write b.read) = amount at *
    rcases h with ⟨stream, r, hwin, rfl⟩
    have hwinle := hwin.le
    have hle : r + amount.toNat ≤ stream.length := by
      rw [List.length_drop] at hamount
      omega
    have htake : (stream.drop r).take size.toNat = (stream.drop r).take amount.toNat := by
      rw [hamount]
      exact List.take_eq_take_min
    refine ⟨?_, ?_, stream, r + amount.toNat, hwin.advance hk hle, ?_⟩
    · -- the amount fits an `int`
      have hpow : 2 ^ k ≤ 2 ^ 31 := Nat.pow_le_pow_right (by decide) hk
      rw [BitVec.toInt_eq_toNat_of_lt (by omega), hamount, List.length_take]
    · rw [htake]
      exact copies_deliver hk hwin out hle
    · rw [← List.drop_drop, hamount]
      exact List.drop_eq_drop_min
  · -- nothing is stored
    have hnil : bytes = [] := by
      rw [BitVec.lt_def, hused] at havail
      exact List.length_eq_zero_iff.mp (Nat.eq_zero_of_not_pos havail)
    subst hnil
    rw [read, if_neg havail]
    refine ⟨by simp, ?_, by simpa using h⟩
    funext i
    simp [deliver]

/-! ## All calls -/

/-- A call is answered as by the FIFO, and leaves what the FIFO is left with. -/
theorem perform_simulates {q : Fifo UInt8 (2 ^ k - 1)} (h : Represents k b q.items) (call : Call) :
    (perform k b call).1 = (specify k q call).1 ∧
      Represents k (perform k b call).2 (specify k q call).2.items := by
  cases call with
  | tryWrite data size =>
    have hlength : (block data size).length = size.toNat := by simp [block]
    -- the test for room is exact, so both take it or both refuse
    by_cases hfits : fits k b.write b.read size
    · have hroom := (tryWrite_fits hk h size).mp hfits
      have hafter := tryWrite_represents hk h data hfits
      have hpush : q.pushAll (block data size) = some ⟨q.items ++ block data size, by
          rw [List.length_append, hlength]; exact hroom⟩ := by
        rw [Fifo.pushAll, dif_pos (by rw [hlength]; exact hroom)]
      rw [specify, hpush, perform]
      refine ⟨?_, hafter⟩
      rw [tryWrite, if_pos hfits]
    · -- without room nothing changes
      have hfull := mt (tryWrite_fits hk h size).mpr hfits
      have hpush : q.pushAll (block data size) = none := by
        rw [Fifo.pushAll, dif_neg (by rw [hlength]; exact hfull)]
      rw [specify, hpush, perform, tryWrite, if_neg hfits]
      exact ⟨rfl, h⟩
  | read out size =>
    rcases read_represents hk h out size with ⟨hamount, hout, hafter⟩
    refine ⟨?_, hafter⟩
    rw [perform, specify, hamount, hout]
    rfl

end

/-- What a call does to the bytes that are stored, and to `out`. -/
structure Exact (b : Buffer) : Prop where
  succeeds_iff : ∀ data size, (tryWrite k b data size).1 = true ↔
    (contents k b).length + size.toNat ≤ 2 ^ k - 1
  appends : ∀ data size, (tryWrite k b data size).1 = true →
    contents k (tryWrite k b data size).2 = contents k b ++ block data size
  refuses : ∀ data size, (tryWrite k b data size).1 = false → (tryWrite k b data size).2 = b
  amount : ∀ out size, (read k b out size).1 = (min size.toNat (contents k b).length : ℕ)
  removes : ∀ out size, contents k (read k b out size).2.2 = (contents k b).drop size.toNat
  delivers : ∀ out size i, (i : ℕ) < (read k b out size).1 →
    (contents k b)[i]? = some ((read k b out size).2.1 i)
  leaves : ∀ out size i, (read k b out size).1 ≤ (i : ℕ) → (read k b out size).2.1 i = out i

section
variable {k} {b : Buffer} {bytes : List UInt8}

/-- A buffer that represents a list of bytes does what a queue of these bytes does.
-/
theorem exact_of_represents (hk : k ≤ 31) (h : Represents k b bytes) : Exact k b := by
  have hcontents := h.contents_eq hk
  have hsuccess : ∀ data size, (tryWrite k b data size).1 = true ↔ fits k b.write b.read size := by
    intro data size
    rw [tryWrite]
    split
    · next hfits => exact iff_of_true rfl hfits
    · next hfits => exact iff_of_false (by simp) hfits
  have hread := read_represents hk h
  constructor
  · intro data size
    rw [hsuccess, hcontents]
    exact tryWrite_fits hk h size
  · intro data size hs
    rw [hcontents]
    exact (tryWrite_represents hk h data ((hsuccess data size).mp hs)).contents_eq hk
  · intro data size hs
    rw [tryWrite] at hs ⊢
    split
    · next hfits =>
      rw [if_pos hfits] at hs
      cases hs
    · rfl
  · intro out size
    rw [(hread out size).1, hcontents, List.length_take]
  · intro out size
    rw [hcontents]
    exact (hread out size).2.2.contents_eq hk
  · -- in front of the amount returned: the oldest bytes
    intro out size i hi
    rw [(hread out size).1] at hi
    have hlt : i < (bytes.take size.toNat).length := by omega
    have hget := List.getElem?_eq_getElem hlt
    rw [(hread out size).2.1, hcontents, deliver, hget, Option.getD_some, ← hget,
      List.getElem?_take, if_pos]
    rw [List.length_take] at hlt
    omega
  · -- behind it: what was there
    intro out size i hi
    rw [(hread out size).1] at hi
    rw [(hread out size).2.1, deliver, List.getElem?_eq_none (by omega), Option.getD_none]

end

/-- Any calls, one after another, are answered as by a FIFO of `2 ^ k - 1` bytes
and leave the bytes it holds: a write succeeds if there is room, and appends its
data; a read returns and removes as many of the oldest bytes as it asks for and
there are. -/
theorem buffer_refines_fifo (hk : k ≤ 31) (buffer : ℕ → UInt8) (calls : List Call) :
    let after := replies (perform k) (construct buffer) calls
    let spec := replies (specify k) (Fifo.empty : Fifo UInt8 (2 ^ k - 1)) calls
    after.1 = spec.1 ∧ contents k after.2 = spec.2.items ∧ Exact k after.2 := by
  have hsim := replies_simulate (R := fun b (q : Fifo UInt8 (2 ^ k - 1)) => Represents k b q.items)
    (fun b q call h => perform_simulates hk h call)
    (show Represents k (construct buffer) (Fifo.empty : Fifo UInt8 (2 ^ k - 1)).items from
      construct_represents k buffer) calls
  exact ⟨hsim.1, hsim.2.contents_eq hk, exact_of_represents hk hsim.2⟩

/-- Writes and reads that go round a buffer of four bytes; the third write finds
no room. -/
def around : List Call :=
  [.tryWrite (fun i => UInt8.ofNat (i + 1)) 3, .read (fun _ => 0) 2,
    .tryWrite (fun i => UInt8.ofNat (i + 4)) 2, .tryWrite (fun _ => 9) 1]

theorem buffer_refines_fifo_around :
    contents 2 (replies (perform 2) (construct fun _ => 0) around).2 = [3, 4, 5] ∧
      Exact 2 (replies (perform 2) (construct fun _ => 0) around).2 := by
  have hspec : (replies (specify 2) (Fifo.empty : Fifo UInt8 (2 ^ 2 - 1)) around).2.items =
      [3, 4, 5] := rfl
  rcases buffer_refines_fifo 2 (by decide) (fun _ => 0) around with ⟨_, hcontents, hexact⟩
  exact ⟨hcontents.trans hspec, hexact⟩

/-! ## A call as steps -/

section
variable {k} {st : St}

/-- The members that the functions use. -/
def St.members (st : St) : Buffer := ⟨st.write, st.read, st.buffer⟩

/-- The buffer when the first `m` bytes of a block have been copied into it. -/
def copied (buffer : ℕ → UInt8) (head : ℕ) (data : ℕ → UInt8) (count m : ℕ) : ℕ → UInt8 :=
  memcpy (memcpy buffer head data 0 (min m count)) 0 data count (m - count)

/-- The copy loop adds one byte at the next address. -/
theorem copied_succ (buffer : ℕ → UInt8) (head : BitVec 32) (data : ℕ → UInt8)
    (count : BitVec 32) (m : ℕ) :
    copied buffer head.toNat data count.toNat (m + 1) =
      Function.update (copied buffer head.toNat data count.toNat m) (address head count m)
        (data m) := by
  have hsum : (if m < count.toNat then 0 + m else count.toNat + (m - count.toNat)) = m := by
    split <;> omega
  rw [copied, memcpy_split_succ, hsum, ← copied, Nat.zero_add, ← address]

/-- What is in `out` when the first `m` bytes have been copied out. -/
def delivered (out buffer : ℕ → UInt8) (head count m : ℕ) : ℕ → UInt8 :=
  memcpy (memcpy out 0 buffer head (min m count)) count buffer 0 (m - count)

theorem delivered_succ (out buffer : ℕ → UInt8) (head count : BitVec 32) (m : ℕ) :
    delivered out buffer head.toNat count.toNat (m + 1) =
      Function.update (delivered out buffer head.toNat count.toNat m) m
        (buffer (address head count m)) := by
  have hsum : (if m < count.toNat then 0 + m else count.toNat + (m - count.toNat)) = m := by
    split <;> omega
  rw [delivered, memcpy_split_succ, hsum, ← delivered, Nat.zero_add, ← address]

theorem copied_all (buffer : ℕ → UInt8) (head : ℕ) (data : ℕ → UInt8) {size count : BitVec 32}
    (hle : count ≤ size) :
    copied buffer head data count.toNat size.toNat =
      memcpy (memcpy buffer head data 0 count.toNat) 0 data count.toNat (size - count).toNat := by
  rw [copied, Nat.min_eq_right hle, BitVec.toNat_sub_of_le hle]

theorem delivered_all (out buffer : ℕ → UInt8) (head : ℕ) {amount count : BitVec 32}
    (hle : count ≤ amount) :
    delivered out buffer head count.toNat amount.toNat =
      memcpy (memcpy out 0 buffer head count.toNat) count.toNat buffer 0
        (amount - count).toNat := by
  rw [delivered, Nat.min_eq_right hle, BitVec.toNat_sub_of_le hle]

theorem writeCount_le (head size : BitVec 32) : writeCount k head size ≤ size := by
  rw [writeCount]
  split
  · exact BitVec.le_refl _
  · next hge => exact BitVec.not_lt.mp hge

theorem readCount_le (head amount : BitVec 32) : readCount k head amount ≤ amount := by
  rw [readCount]
  split
  · next hlt => exact BitVec.le_of_lt hlt
  · exact BitVec.le_refl _

/-- The next byte of a copy in order. -/
theorem mayCopy_range (count : BitVec 32) (m : ℕ) : MayCopy count (Finset.range m) m := by
  refine ⟨Finset.notMem_range_self, ?_⟩
  by_cases hlt : m < count.toNat
  · exact Or.inl hlt
  · exact Or.inr fun j hj => Finset.mem_range.mpr (by omega)

/-- The writer copies its bytes in order. -/
theorem run_writeBytes {data : List UInt8} {f : ℕ → UInt8} {head : BitVec 32}
    (hf : ∀ i, i < data.length → data[i]? = some (f i))
    (hst : st.writer = .copying data head ∅) {m : ℕ} (hm : m ≤ data.length) :
    run (step k) st ((List.range m).map .writeByte) =
      some { st with
        buffer := copied st.buffer head.toNat f (writeCount k head (dataSize data)).toNat m
        writer := .copying data head (Finset.range m) } := by
  induction m with
  | zero =>
    rw [copied, Nat.zero_min, Nat.zero_sub, memcpy_zero, memcpy_zero, Finset.range_zero, ← hst]
    rfl
  | succ m ih =>
    rw [List.range_succ, List.map_append, run_append, ih (by omega)]
    simp only [List.map_cons, List.map_nil, Option.bind_some, run_cons, step, hf m hm,
      if_pos (mayCopy_range _ m), copied_succ, Finset.range_add_one, run_nil]

/-- The reader copies its bytes in order. -/
theorem run_readBytes {amount head : BitVec 32} {out : ℕ → UInt8}
    (hst : st.reader = .copying amount head out ∅) {m : ℕ} (hm : m ≤ amount.toNat) :
    run (step k) st ((List.range m).map .readByte) =
      some { st with
        reader := .copying amount head
          (delivered out st.buffer head.toNat (readCount k head amount).toNat m)
          (Finset.range m) } := by
  induction m with
  | zero =>
    rw [delivered, Nat.zero_min, Nat.zero_sub, memcpy_zero, memcpy_zero, Finset.range_zero, ← hst]
    rfl
  | succ m ih =>
    have hboth : m < amount.toNat ∧ MayCopy (readCount k head amount) (Finset.range m) m :=
      ⟨hm, mayCopy_range _ m⟩
    rw [List.range_succ, List.map_append, run_append, ih (by omega)]
    simp only [List.map_cons, List.map_nil, Option.bind_some, run_cons, step, if_pos hboth,
      delivered_succ, Finset.range_add_one, run_nil]

/-- A call of `TryWrite` that nothing interrupts, as steps. -/
def writeSteps (b : Buffer) (data : ℕ → UInt8) (size : BitVec 32) : List Act :=
  .tryWrite (block data size) :: .writeLoad ::
    if fits k b.write b.read size then (List.range size.toNat).map .writeByte ++ [.writeStore]
    else []

/-- `TryWrite` as a run of the writer's steps: it loads, copies byte by byte, and
stores, or does nothing but load. -/
theorem run_writeSteps (hst : st.writer = .idle) (data : ℕ → UInt8) (size : BitVec 32) :
    let r := tryWrite k st.members data size
    run (step k) st (writeSteps (k := k) st.members data size) =
      some { st with
        write := r.2.write, buffer := r.2.buffer
        accepted := if r.1 then st.accepted ++ block data size else st.accepted } := by
  have hlength : (block data size).length = size.toNat := by simp [block]
  have hsize : dataSize (block data size) = size := by
    rw [dataSize, hlength, BitVec.ofNat_toNat, BitVec.setWidth_eq]
  have hlt := size.isLt
  have hcall : step k st (.tryWrite (block data size)) =
      some { st with writer := .loaded (block data size) st.read } := by
    simp only [step, hst, hlength, if_pos hlt]
  rw [writeSteps, run_cons, hcall, Option.bind_some, run_cons]
  by_cases hfits : fits k st.write st.read size
  · -- the copies, byte by byte, and the store of `_write`
    have hload : step k { st with writer := .loaded (block data size) st.read } .writeLoad =
        some { st with writer := .copying (block data size) st.write ∅ } := by
      simp only [step, hsize, if_pos hfits]
    have hf : ∀ i, i < (block data size).length → (block data size)[i]? = some (data i) := by
      intro i hi
      simp [block, List.getElem?_range (hlength ▸ hi)]
    have hbytes := fun (st₁ : St) (h : st₁.writer = .copying (block data size) st.write ∅) =>
      run_writeBytes (k := k) hf h (Nat.le_of_eq hlength.symm)
    have hfits' : fits k st.members.write st.members.read size := hfits
    have hall : ∀ j, j < (block data size).length → j ∈ Finset.range size.toNat := by
      intro j hj
      rw [Finset.mem_range, ← hlength]
      exact hj
    have hcopies := copied_all st.buffer st.write.toNat data (writeCount_le (k := k) st.write size)
    rw [hload, Option.bind_some, if_pos hfits', run_append, hbytes _ rfl, hsize,
      Option.bind_some, run_cons, tryWrite, if_pos hfits']
    simp only [step, if_pos hall, hcopies, hsize, St.members, if_true]
    rw [← hst]
    rfl
  · have hload : step k { st with writer := .loaded (block data size) st.read } .writeLoad =
        some { st with writer := .idle } := by
      simp only [step, hsize, if_neg hfits]
    have hfits' : ¬ fits k st.members.write st.members.read size := hfits
    rw [hload, Option.bind_some, if_neg hfits', tryWrite, if_neg hfits', ← hst]
    rfl

/-- A call of `Read` that nothing interrupts, as steps. -/
def readSteps (b : Buffer) (out : ℕ → UInt8) (size : BitVec 32) : List Act :=
  .read size out :: .readLoad ::
    if 0 < used k b.write b.read then
      (List.range (read k b out size).1.toNat).map .readByte ++ [.readStore]
    else []

/-- What `Read` transfers fits an `int`. -/
theorem amount_toInt (hk : k ≤ 31) {write read size amount : BitVec 32}
    (hamount : amount = if size < used k write read then size else used k write read) :
    amount.toInt = (amount.toNat : ℤ) := by
  have hpos := Nat.two_pow_pos k
  have hpow : 2 ^ k ≤ 2 ^ 31 := Nat.pow_le_pow_right (by decide) hk
  have hused : (used k write read).toNat ≤ 2 ^ k - 1 := by
    rw [used, kBufferMask_eq hk, BitVec.toNat_and, BitVec.toNat_ofNat]
    exact Nat.le_trans Nat.and_le_right (Nat.mod_le _ _)
  have hle : amount.toNat ≤ (used k write read).toNat := by
    rw [hamount]
    split
    · next hlt => exact Nat.le_of_lt hlt
    · exact Nat.le_refl _
  exact BitVec.toInt_eq_toNat_of_lt (by omega)

/-- `Read` as a run of the reader's steps. -/
theorem run_readSteps (hk : k ≤ 31) (hst : st.reader = .idle) (out : ℕ → UInt8)
    (size : BitVec 32) :
    let r := read k st.members out size
    run (step k) st (readSteps (k := k) st.members out size) =
      some { st with
        read := r.2.2.read
        returned := st.returned ++ (List.range r.1.toNat).map r.2.1 } := by
  have hcall : step k st (.read size out) =
      some { st with reader := .loaded size out st.write } := by
    simp only [step, hst]
  rw [readSteps, run_cons, hcall, Option.bind_some, run_cons]
  by_cases havail : 0 < used k st.write st.read
  · -- the copies, byte by byte, and the store of `_read`
    have havail' : 0 < used k st.members.write st.members.read := havail
    have hload : step k { st with reader := .loaded size out st.write } .readLoad =
        some { st with
          reader := .copying (if size < used k st.members.write st.members.read then size
            else used k st.members.write st.members.read) st.read out ∅ } := by
      simp only [step, if_pos havail]
      rfl
    rw [if_pos havail', read, if_pos havail']
    dsimp only
    generalize hamount : (if size < used k st.members.write st.members.read then size
      else used k st.members.write st.members.read) = amount at *
    have hbytes := fun (st₁ : St) (h : st₁.reader = .copying amount st.read out ∅) =>
      run_readBytes (k := k) h (Nat.le_refl _)
    have hall : ∀ j, j < amount.toNat → j ∈ Finset.range amount.toNat :=
      fun j hj => Finset.mem_range.mpr hj
    have hcopies := delivered_all out st.buffer st.read.toNat
      (readCount_le (k := k) st.read amount)
    rw [hload, amount_toInt hk hamount.symm, Int.toNat_natCast, Option.bind_some, run_append,
      hbytes _ rfl, Option.bind_some, run_cons]
    simp only [step, if_pos hall, hcopies, St.members]
    rw [← hst]
    rfl
  · have havail' : ¬ 0 < used k st.members.write st.members.read := havail
    have hload : step k { st with reader := .loaded size out st.write } .readLoad =
        some { st with reader := .idle } := by
      simp only [step, if_neg havail]
    rw [hload, Option.bind_some, if_neg havail', read, if_neg havail', ← hst]
    simp [St.members]

/-- While nobody is in a call, the buffer represents what has been accepted and
not yet returned. -/
theorem Inv.represents (h : Inv k st) :
    Represents k st.members (st.accepted.drop st.returned.length) :=
  ⟨st.accepted, st.returned.length, ⟨h.write, h.read, h.stream.length_le, h.room, h.holds⟩, rfl⟩

end

end Yardstick.ConcurrentCircularBuffer
