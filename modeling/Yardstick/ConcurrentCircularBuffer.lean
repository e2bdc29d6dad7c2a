import Mathlib.Data.Finset.Insert
import Yardstick.Base.RingWindow
import Yardstick.Base.Runs
import Yardstick.Base.WrappingCounter

/-!
# ConcurrentCircularBuffer — a byte stream between two threads

One thread calls `TryWrite`, another `Read`. Each load of an index, each byte
copied and each store of an index is a step; the bytes of one `memcpy` are
copied in any order. The buffer has `2 ^ k` bytes, and the indices are the
remainders of the numbers of bytes written and read.

* `WriterInv`, `ReaderInv`: what either side knows from stale indices;
* `circularBuffer_safe`: what has been read is the start of what has been
  written, all accesses are in bounds, and the two sides never meet.
-/

namespace Yardstick.ConcurrentCircularBuffer

open RingWindow Runs

variable (k : ℕ)

/-! ## Indices -/

def kBufferSize : BitVec 32 := BitVec.ofNat 32 (2 ^ k)

def kBufferMask : BitVec 32 := kBufferSize k - 1

/-- `used` of `TryWrite`, `available` of `Read`. -/
def used (write read : BitVec 32) : BitVec 32 := (write - read) &&& kBufferMask k

/-- `TryWrite` goes on. -/
def fits (head tail size : BitVec 32) : Prop := size < kBufferSize k - used k head tail

instance (head tail size : BitVec 32) : Decidable (fits k head tail size) := by
  unfold fits
  infer_instance

/-- `count` of `TryWrite`, the size of its first `memcpy`. -/
def writeCount (head size : BitVec 32) : BitVec 32 :=
  let space := kBufferSize k - head
  if size < space then size else space

/-- `count` of `Read`. -/
def readCount (head amount : BitVec 32) : BitVec 32 :=
  let space := kBufferSize k - head
  if space < amount then space else amount

/-- The place in `_buffer` of the byte at offset `i` of a transfer: the first
`memcpy` begins at `head`, the second one at the front of the buffer. -/
def address (head count : BitVec 32) (i : ℕ) : ℕ :=
  if i < count.toNat then head.toNat + i else i - count.toNat

/-- The second `memcpy` comes after the first. -/
def MayCopy (count : BitVec 32) (done : Finset ℕ) (i : ℕ) : Prop :=
  i ∉ done ∧ (i < count.toNat ∨ ∀ j < count.toNat, j ∈ done)

instance (count : BitVec 32) (done : Finset ℕ) (i : ℕ) : Decidable (MayCopy count done i) := by
  unfold MayCopy
  infer_instance

/-! ## States -/

/-- Where `TryWrite` is: `_read` has been loaded, or the offsets `done` have
been copied. -/
inductive Writer where
  | idle
  | loaded (data : List UInt8) (tail : BitVec 32)
  | copying (data : List UInt8) (head : BitVec 32) (done : Finset ℕ)

/-- Where `Read` is: `_write` has been loaded, or the offsets `done` have been
copied to `out`. -/
inductive Reader where
  | idle
  | loaded (size : BitVec 32) (out : ℕ → UInt8) (tail : BitVec 32)
  | copying (amount head : BitVec 32) (out : ℕ → UInt8) (done : Finset ℕ)

/-- The members, the two threads, and the bytes that `TryWrite` has accepted
and `Read` has returned so far. -/
structure St where
  write : BitVec 32
  read : BitVec 32
  buffer : ℕ → UInt8
  writer : Writer
  reader : Reader
  accepted : List UInt8
  returned : List UInt8

def init (buffer : ℕ → UInt8) : St :=
  { write := 0, read := 0, buffer := buffer, writer := .idle, reader := .idle
    accepted := [], returned := [] }

/-! ## Steps -/

/-- The steps of `TryWrite`, and those of `Read`. The first of either is the
call up to its first load. -/
inductive Act where
  | tryWrite (data : List UInt8)
  | writeLoad
  | writeByte (i : ℕ)
  | writeStore
  | read (size : BitVec 32) (out : ℕ → UInt8)
  | readLoad
  | readByte (i : ℕ)
  | readStore

/-- The `size` of `TryWrite`. -/
def dataSize (data : List UInt8) : BitVec 32 := BitVec.ofNat 32 data.length

/-- The byte of `_buffer` that a step writes or reads. -/
def access (st : St) : Act → Option ℕ
  | .writeByte i =>
    match st.writer with
    | .copying data head _ => some (address head (writeCount k head (dataSize data)) i)
    | _ => none
  | .readByte i =>
    match st.reader with
    | .copying amount head _ _ => some (address head (readCount k head amount) i)
    | _ => none
  | _ => none

def step (st : St) : Act → Option St
  -- TryWrite
  | .tryWrite data =>
    match st.writer with
    | .idle =>
      if data.length < 2 ^ 32 then some { st with writer := .loaded data st.read } else none
    | _ => none
  | .writeLoad =>
    match st.writer with
    | .loaded data tail =>
      if fits k st.write tail (dataSize data) then
        some { st with writer := .copying data st.write ∅ }
      else some { st with writer := .idle }
    | _ => none
  | .writeByte i =>
    match st.writer with
    | .copying data head done =>
      let count := writeCount k head (dataSize data)
      match data[i]? with
      | some v =>
        if MayCopy count done i then
          some { st with
            buffer := Function.update st.buffer (address head count i) v
            writer := .copying data head (insert i done) }
        else none
      | none => none
    | _ => none
  | .writeStore =>
    match st.writer with
    | .copying data head done =>
      if ∀ j < data.length, j ∈ done then
        some { st with
          write := (head + dataSize data) &&& kBufferMask k, writer := .idle
          accepted := st.accepted ++ data }
      else none
    | _ => none
  -- Read
  | .read size out =>
    match st.reader with
    | .idle => some { st with reader := .loaded size out st.write }
    | _ => none
  | .readLoad =>
    match st.reader with
    | .loaded size out tail =>
      let available := used k tail st.read
      if 0 < available then
        let amount := if size < available then size else available
        some { st with reader := .copying amount st.read out ∅ }
      else some { st with reader := .idle }
    | _ => none
  | .readByte i =>
    match st.reader with
    | .copying amount head out done =>
      let count := readCount k head amount
      if i < amount.toNat ∧ MayCopy count done i then
        some { st with
          reader := .copying amount head (Function.update out i (st.buffer (address head count i)))
            (insert i done) }
      else none
    | _ => none
  | .readStore =>
    match st.reader with
    | .copying amount head out done =>
      if ∀ j < amount.toNat, j ∈ done then
        some { st with
          read := (head + amount) &&& kBufferMask k, reader := .idle
          returned := st.returned ++ (List.range amount.toNat).map out }
      else none
    | _ => none

/-! ## What should hold -/

/-- The bytes of `_buffer` that `TryWrite` copies. -/
def Writing (st : St) (p : ℕ) : Prop :=
  ∃ data head done, st.writer = .copying data head done ∧
    ∃ i < data.length, p = address head (writeCount k head (dataSize data)) i

/-- The bytes of `_buffer` that `Read` copies. -/
def Reading (st : St) (p : ℕ) : Prop :=
  ∃ amount head out done, st.reader = .copying amount head out done ∧
    ∃ i < amount.toNat, p = address head (readCount k head amount) i

/-- What has been returned is the start of what has been accepted; a step
accesses `_buffer` in bounds, writes no byte that is being read, and reads none
that is being written, but the next one accepted. -/
structure Safe (st : St) : Prop where
  stream : st.returned <+: st.accepted
  in_bounds : ∀ act st' p, step k st act = some st' → access k st act = some p → p < 2 ^ k
  not_overwritten : ∀ i st' p, step k st (.writeByte i) = some st' →
    access k st (.writeByte i) = some p → ¬ Reading k st p
  complete : ∀ i st' p, step k st (.readByte i) = some st' →
    access k st (.readByte i) = some p →
    ¬ Writing k st p ∧ st.accepted[st.returned.length + i]? = some (st.buffer p)

/-! ## Indices as remainders -/

/-- The index after `n` bytes. -/
def index (n : ℕ) : BitVec 32 := BitVec.ofNat 32 (n % 2 ^ k)

section
variable {k} (hk : k ≤ 31)
include hk

theorem size_lt : 2 ^ k < 2 ^ 32 := Nat.pow_lt_pow_right (by decide) (by omega)

theorem kBufferSize_toNat : (kBufferSize k).toNat = 2 ^ k := by
  rw [kBufferSize, BitVec.toNat_ofNat, Nat.mod_eq_of_lt (size_lt hk)]

theorem kBufferMask_eq : kBufferMask k = BitVec.ofNat 32 (2 ^ k - 1) := by
  have hlt := size_lt hk
  have hpos := Nat.two_pow_pos k
  apply BitVec.eq_of_toNat_eq
  rw [kBufferMask, BitVec.toNat_sub_of_le (by rw [BitVec.le_def, kBufferSize_toNat hk]; exact hpos),
    kBufferSize_toNat hk, BitVec.toNat_ofNat, Nat.mod_eq_of_lt (by omega)]
  rfl

theorem index_toNat (n : ℕ) : (index k n).toNat = n % 2 ^ k := by
  have hlt := size_lt hk
  have hmod := Nat.mod_lt n (Nat.two_pow_pos k)
  rw [index, BitVec.toNat_ofNat, Nat.mod_eq_of_lt (by omega)]

theorem used_toNat {w r : ℕ} (hle : r ≤ w) (hlap : w < r + 2 ^ k) :
    (used k (index k w) (index k r)).toNat = w - r := by
  rw [used, kBufferMask_eq hk]
  exact WrappingCounter.toNat_sub_and_mask (by omega) hle hlap

/-- The test for room computes with indices what the counters would say. -/
theorem fits_iff {w r : ℕ} (hle : r ≤ w) (hlap : w < r + 2 ^ k) (size : BitVec 32) :
    fits k (index k w) (index k r) size ↔ w + size.toNat < r + 2 ^ k := by
  have hused := used_toNat hk hle hlap
  have hsub : used k (index k w) (index k r) ≤ kBufferSize k := by
    rw [BitVec.le_def, hused, kBufferSize_toNat hk]
    omega
  rw [fits, BitVec.lt_def, BitVec.toNat_sub_of_le hsub, hused, kBufferSize_toNat hk]
  omega

/-- The bytes from an index to the end of the buffer. -/
theorem space_toNat (n : ℕ) : (kBufferSize k - index k n).toNat = 2 ^ k - n % 2 ^ k := by
  have hmod := Nat.mod_lt n (Nat.two_pow_pos k)
  have hle : index k n ≤ kBufferSize k := by
    rw [BitVec.le_def, index_toNat hk, kBufferSize_toNat hk]
    omega
  rw [BitVec.toNat_sub_of_le hle, index_toNat hk, kBufferSize_toNat hk]

/-- A write stops at the end of the buffer and goes on from its beginning. -/
theorem writeCount_toNat (n : ℕ) (size : BitVec 32) :
    (writeCount k (index k n) size).toNat = min size.toNat (2 ^ k - n % 2 ^ k) := by
  have hspace := space_toNat hk n
  simp only [writeCount, BitVec.lt_def, hspace]
  split
  · omega
  · rw [hspace]
    omega

/-- So does a read. -/
theorem readCount_toNat (n : ℕ) (amount : BitVec 32) :
    (readCount k (index k n) amount).toNat = min amount.toNat (2 ^ k - n % 2 ^ k) := by
  have hspace := space_toNat hk n
  simp only [readCount, BitVec.lt_def, hspace]
  split
  · rw [hspace]
    omega
  · omega

/-- The places of a transfer are those of the bytes of the stream. -/
theorem address_eq {n size i : ℕ} {count : BitVec 32} (hi : i < size) (hsize : size ≤ 2 ^ k)
    (hcount : count.toNat = min size (2 ^ k - n % 2 ^ k)) :
    address (index k n) count i = (n + i) % 2 ^ k := by
  have hmod := Nat.mod_lt n (Nat.two_pow_pos k)
  rw [address, hcount, index_toNat hk, wrapped hmod hi hsize, Nat.mod_add_mod]

/-- The index stored after a transfer. -/
theorem index_add (n : ℕ) (size : BitVec 32) :
    (index k n + size) &&& kBufferMask k = index k (n + size.toNat) := by
  have hsum : index k n + size = BitVec.ofNat 32 (n % 2 ^ k + size.toNat) := by
    apply BitVec.eq_of_toNat_eq
    rw [BitVec.toNat_add, index_toNat hk, BitVec.toNat_ofNat]
  apply BitVec.eq_of_toNat_eq
  rw [hsum, kBufferMask_eq hk, WrappingCounter.toNat_and_mask (by omega), index_toNat hk,
    Nat.mod_add_mod]

end

/-! ## The invariant -/

/-- What `TryWrite` knows, with `a` bytes accepted and `r` returned: `_read` may
have moved on since it was loaded, so there is at least the room it saw. -/
def WriterInv (a r : ℕ) (buffer : ℕ → UInt8) : Writer → Prop
  | .idle => True
  | .loaded data tail =>
    data.length < 2 ^ 32 ∧ ∃ t ≤ r, tail = index k t ∧ a < t + 2 ^ k
  | .copying data head done =>
    head = index k a ∧ data.length < 2 ^ 32 ∧ a + data.length < r + 2 ^ k ∧
      ∀ i ∈ done, ∀ v, data[i]? = some v → buffer ((a + i) % 2 ^ k) = v

/-- What `Read` knows: `_write` may have moved on, so there is at least as much
to read as it saw. -/
def ReaderInv (accepted : List UInt8) (r : ℕ) : Reader → Prop
  | .idle => True
  | .loaded _ _ tail => ∃ t, r ≤ t ∧ t ≤ accepted.length ∧ tail = index k t
  | .copying amount head out done =>
    head = index k r ∧ r + amount.toNat ≤ accepted.length ∧
      ∀ i ∈ done, i < amount.toNat → accepted[r + i]? = some (out i)

structure Inv (st : St) : Prop where
  write : st.write = index k st.accepted.length
  read : st.read = index k st.returned.length
  stream : st.returned <+: st.accepted
  room : st.accepted.length < st.returned.length + 2 ^ k
  holds : Holds (2 ^ k) st.buffer st.accepted st.returned.length
  writer : WriterInv k st.accepted.length st.returned.length st.buffer st.writer
  reader : ReaderInv k st.accepted st.returned.length st.reader

section
variable {k} {st st' : St} {act : Act}

theorem init_inv (buffer : ℕ → UInt8) : Inv k (init buffer) := by
  refine ⟨?_, ?_, List.prefix_rfl, ?_, holds_nil, trivial, trivial⟩
  · simp [init, index]
  · simp [init, index]
  · show 0 < 0 + 2 ^ k
    rw [Nat.zero_add]
    exact Nat.two_pow_pos k

/-- More bytes returned: the writer has no less room. -/
theorem WriterInv.later {a r r' : ℕ} {buffer : ℕ → UInt8} {w : Writer} (hle : r ≤ r')
    (h : WriterInv k a r buffer w) : WriterInv k a r' buffer w := by
  cases w with
  | idle => trivial
  | loaded data tail =>
    obtain ⟨hlen, t, ht, htail, hroom⟩ := h
    exact ⟨hlen, t, by omega, htail, hroom⟩
  | copying data head done =>
    obtain ⟨hhead, hlen, hroom, hdone⟩ := h
    exact ⟨hhead, hlen, by omega, hdone⟩

/-- More bytes accepted: the reader has no less to read. -/
theorem ReaderInv.append {accepted data : List UInt8} {r : ℕ} {reader : Reader}
    (h : ReaderInv k accepted r reader) : ReaderInv k (accepted ++ data) r reader := by
  cases reader with
  | idle => trivial
  | loaded size out tail =>
    obtain ⟨t, hrt, hta, htail⟩ := h
    exact ⟨t, hrt, by rw [List.length_append]; omega, htail⟩
  | copying amount head out done =>
    obtain ⟨hhead, hle, hdone⟩ := h
    refine ⟨hhead, by rw [List.length_append]; omega, fun i hi hlt => ?_⟩
    rw [List.getElem?_append_left (by omega)]
    exact hdone i hi hlt

theorem dataSize_toNat {data : List UInt8} (h : data.length < 2 ^ 32) :
    (dataSize data).toNat = data.length := by
  rw [dataSize, BitVec.toNat_ofNat, Nat.mod_eq_of_lt h]

variable (hk : k ≤ 31)
include hk

/-- Where `TryWrite` puts the byte at offset `i`. -/
theorem WriterInv.address {a r i : ℕ} {buffer : ℕ → UInt8} {data : List UInt8}
    {head : BitVec 32} {done : Finset ℕ} (h : WriterInv k a r buffer (.copying data head done))
    (hra : r ≤ a) (hi : i < data.length) :
    address head (writeCount k head (dataSize data)) i = (a + i) % 2 ^ k := by
  obtain ⟨rfl, hlen, hroom, -⟩ := h
  refine address_eq hk hi (by omega) ?_
  rw [writeCount_toNat hk, dataSize_toNat hlen]

/-- Where `Read` finds the byte at offset `i`. -/
theorem ReaderInv.address {accepted : List UInt8} {r i : ℕ} {amount head : BitVec 32}
    {out : ℕ → UInt8} {done : Finset ℕ}
    (h : ReaderInv k accepted r (.copying amount head out done))
    (hroom : accepted.length < r + 2 ^ k) (hi : i < amount.toNat) :
    address head (readCount k head amount) i = (r + i) % 2 ^ k := by
  obtain ⟨rfl, hle, -⟩ := h
  exact address_eq hk hi (by omega) (readCount_toNat hk r amount)

/-! ## Steps -/

/-- The writer has loaded its own index, and there is room. -/
theorem writeLoad_inv {data : List UInt8} {tail : BitVec 32} (hinv : Inv k st)
    (hw : st.writer = .loaded data tail) (hfits : fits k st.write tail (dataSize data)) :
    Inv k { st with writer := .copying data st.write ∅ } := by
  have hwriter := hinv.writer
  rw [hw] at hwriter
  obtain ⟨hlen, t, ht, rfl, hroom⟩ := hwriter
  have hra := hinv.stream.length_le
  rw [hinv.write, fits_iff hk (by omega) hroom, dataSize_toNat hlen] at hfits
  -- the room there was when `_read` was loaded is still there
  have hstill : st.accepted.length + data.length < st.returned.length + 2 ^ k := by omega
  exact ⟨hinv.write, hinv.read, hinv.stream, hinv.room, hinv.holds,
    ⟨hinv.write, hlen, hstill, fun i hi => absurd hi (Finset.notMem_empty i)⟩, hinv.reader⟩

/-- The writer has copied the byte at offset `i`. -/
theorem writeByte_inv {data : List UInt8} {head : BitVec 32} {done : Finset ℕ} {i : ℕ} {v : UInt8}
    (hinv : Inv k st) (hw : st.writer = .copying data head done) (hv : data[i]? = some v) :
    Inv k { st with
      buffer := Function.update st.buffer
        (address head (writeCount k head (dataSize data)) i) v
      writer := .copying data head (insert i done) } := by
  have hwriter := hinv.writer
  rw [hw] at hwriter
  obtain ⟨hi, -⟩ := List.getElem?_eq_some_iff.mp hv
  have hra := hinv.stream.length_le
  have haddress := hwriter.address hk hra hi
  obtain ⟨hhead, hlen, hroom, hdone⟩ := hwriter
  rw [haddress]
  refine ⟨hinv.write, hinv.read, hinv.stream, hinv.room, ?_, ?_, hinv.reader⟩
  · exact hinv.holds.write (by omega) (by omega)
  · refine ⟨hhead, hlen, hroom, fun j hj u hu => ?_⟩
    obtain ⟨hjlen, -⟩ := List.getElem?_eq_some_iff.mp hu
    show Function.update st.buffer _ v ((st.accepted.length + j) % 2 ^ k) = u
    by_cases hji : j = i
    · subst hji
      rw [Function.update_self]
      exact Option.some.inj (hv.symm.trans hu)
    · -- the bytes of one transfer have different places
      have hne : (st.accepted.length + j) % 2 ^ k ≠ (st.accepted.length + i) % 2 ^ k := by
        rcases Nat.lt_or_gt_of_ne hji with hlt | hgt
        · exact mod_ne (by omega) (by omega)
        · exact (mod_ne (by omega) (by omega)).symm
      rw [Function.update_of_ne hne]
      exact hdone j (Finset.mem_of_mem_insert_of_ne hj hji) u hu

/-- The writer has stored its index. -/
theorem writeStore_inv {data : List UInt8} {head : BitVec 32} {done : Finset ℕ}
    (hinv : Inv k st) (hw : st.writer = .copying data head done)
    (hall : ∀ j < data.length, j ∈ done) :
    Inv k { st with
      write := (head + dataSize data) &&& kBufferMask k, writer := .idle
      accepted := st.accepted ++ data } := by
  have hwriter := hinv.writer
  rw [hw] at hwriter
  obtain ⟨rfl, hlen, hroom, hdone⟩ := hwriter
  refine ⟨?_, hinv.read, hinv.stream.trans (List.prefix_append _ _), ?_, ?_, trivial,
    hinv.reader.append⟩
  · show (index k st.accepted.length + dataSize data) &&& kBufferMask k =
      index k (st.accepted ++ data).length
    rw [index_add hk, dataSize_toNat hlen, List.length_append]
  · show (st.accepted ++ data).length < _
    rw [List.length_append]
    exact hroom
  · refine hinv.holds.extend fun j v hv => ?_
    obtain ⟨hj, -⟩ := List.getElem?_eq_some_iff.mp hv
    exact hdone j (hall j hj) v hv

/-- The reader has loaded its own index: it copies no more than there was when
`_write` was loaded, which is still there. -/
theorem readLoad_inv {size tail : BitVec 32} {out : ℕ → UInt8} (hinv : Inv k st)
    (hr : st.reader = .loaded size out tail) :
    Inv k { st with
      reader := .copying (if size < used k tail st.read then size else used k tail st.read)
        st.read out ∅ } := by
  have hreader := hinv.reader
  rw [hr] at hreader
  obtain ⟨t, hrt, hta, rfl⟩ := hreader
  have hroom := hinv.room
  have hused := used_toNat hk (w := t) (r := st.returned.length) hrt (by omega)
  rw [← hinv.read] at hused
  refine ⟨hinv.write, hinv.read, hinv.stream, hinv.room, hinv.holds, hinv.writer, hinv.read,
    ?_, fun i hi => absurd hi (Finset.notMem_empty i)⟩
  split
  · rename_i hlt
    rw [BitVec.lt_def, hused] at hlt
    show st.returned.length + size.toNat ≤ st.accepted.length
    omega
  · rw [hused]
    show st.returned.length + (t - st.returned.length) ≤ st.accepted.length
    omega

/-- The byte of the stream that the reader copies next to offset `i`. -/
theorem readByte_value {amount head : BitVec 32} {out : ℕ → UInt8} {done : Finset ℕ} {i : ℕ}
    (hinv : Inv k st) (hr : st.reader = .copying amount head out done) (hi : i < amount.toNat) :
    st.accepted[st.returned.length + i]? =
      some (st.buffer (address head (readCount k head amount) i)) := by
  have hreader := hinv.reader
  rw [hr] at hreader
  rw [hreader.address hk hinv.room hi]
  have hle := hreader.2.1
  obtain ⟨v, hv⟩ : ∃ v, st.accepted[st.returned.length + i]? = some v :=
    ⟨_, List.getElem?_eq_getElem (by omega)⟩
  rw [hv, hinv.holds _ v (Nat.le_add_right _ _) hv]

/-- The reader has copied the byte at offset `i`. -/
theorem readByte_inv {amount head : BitVec 32} {out : ℕ → UInt8} {done : Finset ℕ} {i : ℕ}
    (hinv : Inv k st) (hr : st.reader = .copying amount head out done) (hi : i < amount.toNat) :
    Inv k { st with
      reader := .copying amount head
        (Function.update out i (st.buffer (address head (readCount k head amount) i)))
        (insert i done) } := by
  have hvalue := readByte_value hk hinv hr hi
  have hreader := hinv.reader
  rw [hr] at hreader
  obtain ⟨hhead, hle, hdone⟩ := hreader
  refine ⟨hinv.write, hinv.read, hinv.stream, hinv.room, hinv.holds, hinv.writer, hhead, hle, ?_⟩
  intro j hj hlt
  by_cases hji : j = i
  · subst hji
    rw [Function.update_self]
    exact hvalue
  · rw [Function.update_of_ne hji]
    exact hdone j (Finset.mem_of_mem_insert_of_ne hj hji) hlt

/-- The reader has stored its index. -/
theorem readStore_inv {amount head : BitVec 32} {out : ℕ → UInt8} {done : Finset ℕ}
    (hinv : Inv k st) (hr : st.reader = .copying amount head out done)
    (hall : ∀ j < amount.toNat, j ∈ done) :
    Inv k { st with
      read := (head + amount) &&& kBufferMask k, reader := .idle
      returned := st.returned ++ (List.range amount.toNat).map out } := by
  have hreader := hinv.reader
  rw [hr] at hreader
  obtain ⟨rfl, hle, hdone⟩ := hreader
  have hlength : (st.returned ++ (List.range amount.toNat).map out).length =
      st.returned.length + amount.toNat := by simp
  have hlater : st.returned.length ≤
      (st.returned ++ (List.range amount.toNat).map out).length := by omega
  refine ⟨hinv.write, ?_, prefix_read hinv.stream fun j hj => hdone j (hall j hj) hj, ?_,
    hinv.holds.later hlater, hinv.writer.later hlater, trivial⟩
  · show (index k st.returned.length + amount) &&& kBufferMask k = _
    rw [index_add hk, hlength]
  · exact Nat.lt_of_lt_of_le hinv.room (Nat.add_le_add_right hlater _)

omit hk in
/-- What the copy of a byte does, and where. -/
theorem writeByte_cases {i : ℕ} (h : step k st (.writeByte i) = some st') :
    ∃ data head done v, st.writer = .copying data head done ∧ data[i]? = some v ∧
      access k st (.writeByte i) = some (address head (writeCount k head (dataSize data)) i) ∧
      st' = { st with
        buffer := Function.update st.buffer
          (address head (writeCount k head (dataSize data)) i) v
        writer := .copying data head (insert i done) } := by
  simp only [step] at h
  split at h
  · rename_i data head done hw
    split at h
    · rename_i v hv
      obtain ⟨-, hst'⟩ := Option.ite_none_right_eq_some.mp h
      cases hst'
      exact ⟨data, head, done, v, hw, hv, by simp only [access, hw], rfl⟩
    · cases h
  · cases h

omit hk in
/-- What a step of `Read`'s copy does: one byte from the ring into the output. -/
theorem readByte_cases {i : ℕ} (h : step k st (.readByte i) = some st') :
    ∃ amount head out done, st.reader = .copying amount head out done ∧ i < amount.toNat ∧
      access k st (.readByte i) = some (address head (readCount k head amount) i) ∧
      st' = { st with
        reader := .copying amount head
          (Function.update out i (st.buffer (address head (readCount k head amount) i)))
          (insert i done) } := by
  simp only [step] at h
  split at h
  · rename_i amount head out done hr
    obtain ⟨⟨hi, -⟩, hst'⟩ := Option.ite_none_right_eq_some.mp h
    cases hst'
    exact ⟨amount, head, out, done, hr, hi, by simp only [access, hr], rfl⟩
  · cases h

/-- Every step keeps the invariant. -/
theorem step_inv (h : step k st act = some st') (hinv : Inv k st) : Inv k st' := by
  have hra := hinv.stream.length_le
  cases act with
  | tryWrite data =>
    simp only [step] at h
    split at h
    · -- the head loaded is the writer's own, and the tail is that of what has been
      -- returned
      obtain ⟨hlen, hst'⟩ := Option.ite_none_right_eq_some.mp h
      cases hst'
      exact ⟨hinv.write, hinv.read, hinv.stream, hinv.room, hinv.holds,
        ⟨hlen, st.returned.length, Nat.le_refl _, hinv.read, hinv.room⟩, hinv.reader⟩
    · cases h
  | writeLoad =>
    simp only [step] at h
    split at h
    · rename_i data tail hw
      split at h
      · -- the space loaded is at most what there is
        rename_i hfits
        cases h
        exact writeLoad_inv hk hinv hw hfits
      · -- no room: the call is over
        cases h
        exact ⟨hinv.write, hinv.read, hinv.stream, hinv.room, hinv.holds, trivial, hinv.reader⟩
    · cases h
  | writeByte i =>
    obtain ⟨data, head, done, v, hw, hv, -, rfl⟩ := writeByte_cases h
    exact writeByte_inv hk hinv hw hv
  | writeStore =>
    simp only [step] at h
    split at h
    · rename_i data head done hw
      obtain ⟨hall, hst'⟩ := Option.ite_none_right_eq_some.mp h
      cases hst'
      exact writeStore_inv hk hinv hw hall
    · cases h
  | read size out =>
    simp only [step] at h
    split at h
    · -- the same with the ends exchanged
      cases h
      exact ⟨hinv.write, hinv.read, hinv.stream, hinv.room, hinv.holds, hinv.writer,
        st.accepted.length, hra, Nat.le_refl _, hinv.write⟩
    · cases h
  | readLoad =>
    simp only [step] at h
    split at h
    · rename_i size out tail hr
      split at h
      · cases h
        exact readLoad_inv hk hinv hr
      · -- nothing to read
        cases h
        exact ⟨hinv.write, hinv.read, hinv.stream, hinv.room, hinv.holds, hinv.writer, trivial⟩
    · cases h
  | readByte i =>
    obtain ⟨amount, head, out, done, hr, hi, -, rfl⟩ := readByte_cases h
    exact readByte_inv hk hinv hr hi
  | readStore =>
    simp only [step] at h
    split at h
    · rename_i amount head out done hr
      obtain ⟨hall, hst'⟩ := Option.ite_none_right_eq_some.mp h
      cases hst'
      exact readStore_inv hk hinv hr hall
    · cases h

/-! ## Safety -/

/-- The writer is at bytes of the stream not accepted yet, less than a lap ahead
of what has been returned. -/
theorem writing_place {p : ℕ} (hinv : Inv k st) (hp : Writing k st p) :
    ∃ i, st.accepted.length + i < st.returned.length + 2 ^ k ∧
      p = (st.accepted.length + i) % 2 ^ k := by
  obtain ⟨data, head, done, hw, i, hi, rfl⟩ := hp
  have hwriter := hinv.writer
  rw [hw] at hwriter
  refine ⟨i, ?_, hwriter.address hk hinv.stream.length_le hi⟩
  have hroom := hwriter.2.2.1
  omega

/-- The reader is at bytes that have been accepted and not returned. -/
theorem reading_place {p : ℕ} (hinv : Inv k st) (hp : Reading k st p) :
    ∃ i, st.returned.length + i < st.accepted.length ∧
      p = (st.returned.length + i) % 2 ^ k := by
  obtain ⟨amount, head, out, done, hr, i, hi, rfl⟩ := hp
  have hreader := hinv.reader
  rw [hr] at hreader
  refine ⟨i, ?_, hreader.address hk hinv.room hi⟩
  have hle := hreader.2.1
  omega

theorem not_writing_of_reading {p : ℕ} (hinv : Inv k st) (hr : Reading k st p) :
    ¬ Writing k st p := by
  intro hw
  obtain ⟨i, hi, hpi⟩ := reading_place hk hinv hr
  obtain ⟨j, hj, hpj⟩ := writing_place hk hinv hw
  exact mod_ne (by omega) (by omega) (hpi.symm.trans hpj)

omit hk in
theorem writing_of_step {i p : ℕ} (h : step k st (.writeByte i) = some st')
    (hp : access k st (.writeByte i) = some p) : Writing k st p := by
  obtain ⟨data, head, done, v, hw, hv, haccess, -⟩ := writeByte_cases h
  obtain ⟨hi, -⟩ := List.getElem?_eq_some_iff.mp hv
  exact ⟨data, head, done, hw, i, hi, Option.some.inj (hp.symm.trans haccess)⟩

omit hk in
theorem reading_of_step {i p : ℕ} (h : step k st (.readByte i) = some st')
    (hp : access k st (.readByte i) = some p) : Reading k st p := by
  obtain ⟨amount, head, out, done, hr, hi, haccess, -⟩ := readByte_cases h
  exact ⟨amount, head, out, done, hr, i, hi, Option.some.inj (hp.symm.trans haccess)⟩

/-- What the reader copies is the next byte of the stream. -/
theorem read_next {i p : ℕ} (hinv : Inv k st) (h : step k st (.readByte i) = some st')
    (hp : access k st (.readByte i) = some p) :
    st.accepted[st.returned.length + i]? = some (st.buffer p) := by
  obtain ⟨amount, head, out, done, hr, hi, haccess, -⟩ := readByte_cases h
  rw [haccess] at hp
  cases hp
  exact readByte_value hk hinv hr hi

/-- What the invariant says about a state is enough for safety. -/
theorem safe_of_inv (hinv : Inv k st) : Safe k st := by
  refine ⟨hinv.stream, ?_, ?_, ?_⟩
  · intro act st' p h hp
    cases act with
    | writeByte i =>
      obtain ⟨j, -, rfl⟩ := writing_place hk hinv (writing_of_step h hp)
      exact Nat.mod_lt _ (Nat.two_pow_pos k)
    | readByte i =>
      obtain ⟨j, -, rfl⟩ := reading_place hk hinv (reading_of_step h hp)
      exact Nat.mod_lt _ (Nat.two_pow_pos k)
    | _ => cases hp
  · intro i st' p h hp hreading
    exact not_writing_of_reading hk hinv hreading (writing_of_step h hp)
  · intro i st' p h hp
    exact ⟨not_writing_of_reading hk hinv (reading_of_step h hp), read_next hk hinv h hp⟩

/-- In every state a run leads to, whatever the size of the buffer and however
the two threads take turns. -/
theorem circularBuffer_safe (buffer : ℕ → UInt8) (acts : List Act)
    (hrun : run (step k) (init buffer) acts = some st) : Safe k st :=
  safe_of_inv hk (run_invariant (step k) (fun _ _ _ h hinv => step_inv hk h hinv)
    (init_inv buffer) hrun)

end

/-- Two writes with a read in between, and a write refused because of a stale
index; the second transfer wraps. -/
def wrap : List Act :=
  [.tryWrite [1, 2, 3], .writeLoad, .writeByte 1, .writeByte 0, .writeByte 2, .writeStore,
    .read 2 fun _ => 0, .readLoad, .tryWrite [4, 5], .readByte 0, .readByte 1, .readStore,
    .writeLoad, .tryWrite [4, 5], .writeLoad, .writeByte 0, .writeByte 1, .read 5 fun _ => 0,
    .writeStore, .readLoad, .readByte 0, .readStore, .read 5 fun _ => 0, .readLoad, .readByte 0,
    .readByte 1, .readStore]

theorem circularBuffer_safe_wrap :
    ∃ st, run (step 2) (init fun _ => 0) wrap = some st ∧ st.returned = [1, 2, 3, 4, 5] ∧
      Safe 2 st := by
  refine ⟨_, rfl, rfl, ?_⟩
  exact circularBuffer_safe (by decide) (fun _ => 0) wrap rfl

end Yardstick.ConcurrentCircularBuffer
