import Yardstick.Base.LittleEndian
import Yardstick.PointerHash

/-!
# Protocol — EncodeEvent and EncodeSize

Events as the library holds them (`EventData`), and their encoding into a
buffer. `EncodeEvent` writes field after field and gives up at the first one
that does not fit into what is left of the buffer; the text of a `String`
event is copied without that test.
-/

namespace Yardstick.Protocol

open LittleEndian PointerHash

/-- `ysResult`. -/
inductive YsResult where
  | success
  | invalidParameter
  | noMemory
  | unknown
  | system
  | uninitialized
  | disabled
  | alreadyInitialized
deriving DecidableEq, Repr

/-! ## Events -/

/-- The payload of a `String` event: `str` points to at least `size` bytes. -/
structure StringData where
  id : BitVec 32
  size : BitVec 16
  str : List UInt8
  size_le : size.toNat ≤ str.length

/-- `EventData`. Times are 64-bit integers, doubles their 64-bit patterns. -/
inductive EventData (p : PtrSize) where
  | none
  | header (frequency start : BitVec 64)
  | tick (when : BitVec 64)
  | region (line : BitVec 32) (name file : CString p) (begin end' : BitVec 64)
  | counterSet (line : BitVec 32) (name file : CString p) (when value : BitVec 64)
  | string (data : StringData)
  | counterAdd (name : CString p) (amount : BitVec 64)

variable {p : PtrSize}

/-- The numbers of `EventType`. -/
def EventData.type : EventData p → UInt8
  | .none => 0
  | .header .. => 1
  | .tick .. => 2
  | .region .. => 3
  | .counterSet .. => 4
  | .string .. => 5
  | .counterAdd .. => 6

/-- `EncodeSize`. -/
def encodeSize : EventData p → ℕ
  | .none => 1
  | .header .. => 1 + 8 + 8
  | .tick .. => 1 + 8
  | .region .. => 1 + 4 + 4 + 4 + 8 + 8
  | .counterSet .. => 1 + 4 + 4 + 4 + 8 + 8
  | .string data => 1 + 4 + 2 + data.size.toNat
  | .counterAdd .. => 1 + 4 + 8

/-! ## Encoding -/

/-- A sequence of `TRY_WRITE`s: the fields are appended to what is written
already, up to the first one that is longer than the space left. -/
def tryWrites (available : ℕ) : List (List UInt8) → List UInt8 → YsResult × List UInt8
  | [], written => (.success, written)
  | value :: values, written =>
    if value.length > available - written.length then (.noMemory, written)
    else tryWrites available values (written ++ value)

/-- `EncodeEvent`: the result, and the bytes written from the start of the
buffer on. Their number is `out_length`. -/
def encodeEvent (isNull : Bool) (available : ℕ) (ev : EventData p) : YsResult × List UInt8 :=
  if isNull then (.invalidParameter, []) else
  match ev with
  | .none => tryWrites available [[ev.type]] []
  | .header frequency start =>
    tryWrites available [[ev.type], encode frequency, encode start] []
  | .tick time => tryWrites available [[ev.type], encode time] []
  | .region line name file begin end' =>
    tryWrites available [[ev.type], encode line, encode name.handle, encode file.handle,
      encode begin, encode end'] []
  | .counterSet line name file time value =>
    tryWrites available [[ev.type], encode line, encode name.handle, encode file.handle,
      encode time, encode value] []
  | .string data =>
    match tryWrites available [[ev.type], encode data.id, encode data.size] [] with
    | (.success, written) => (.success, written ++ data.str.take data.size.toNat)
    | failed => failed
  | .counterAdd name amount =>
    tryWrites available [[ev.type], encode name.handle, encode amount] []

/-- Fields that fit are all written. -/
theorem tryWrites_fit {available : ℕ} {values : List (List UInt8)} {written : List UInt8}
    (hfit : written.length + values.flatten.length ≤ available) :
    tryWrites available values written = (.success, written ++ values.flatten) := by
  induction values generalizing written with
  | nil => simp [tryWrites]
  | cons value values ih =>
    rw [List.flatten_cons, List.length_append] at hfit
    have hspace : ¬ value.length > available - written.length := by omega
    have hrest : (written ++ value).length + values.flatten.length ≤ available := by
      rw [List.length_append]
      omega
    rw [tryWrites, if_neg hspace, ih hrest, List.flatten_cons, List.append_assoc]

end Yardstick.Protocol
