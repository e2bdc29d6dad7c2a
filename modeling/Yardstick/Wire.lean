import Yardstick.Base.Framing
import Yardstick.Protocol

/-!
# Wire — the byte format both ends agree on

The six records of the stream, as the numbers their bytes stand for: what
`EncodeEvent` produces and `YsEventReader` accepts is compared with this
format, so neither end is described by the other.

* `format`: records are self-delimiting (`Framing.Format`), so a byte array
  splits in one way into records and a rest no record is in front of;
* `encodeEvent_record`: with enough room `EncodeEvent` writes exactly the
  record of the event, and `EncodeSize` is its length.
-/

namespace Yardstick.Wire

open LittleEndian PointerHash Protocol Framing

/-- The text of a `String` record; its length is sent in 16 bits. -/
abbrev Payload := { bs : List UInt8 // bs.length < 2 ^ 16 }

/-- One record of the stream. -/
inductive Record where
  | header (frequency start : BitVec 64)
  | tick (when : BitVec 64)
  | region (line name file : BitVec 32) (begin end' : BitVec 64)
  | counterSet (line name file : BitVec 32) (when value : BitVec 64)
  | string (id : BitVec 32) (payload : Payload)
  | counterAdd (name : BitVec 32) (amount : BitVec 64)
deriving DecidableEq

namespace Record

/-- The bytes after the type byte. -/
def body : Record → List UInt8
  | .header frequency start => encode frequency ++ encode start
  | .tick time => encode time
  | .region line name file begin end' =>
    encode line ++ (encode name ++ (encode file ++ (encode begin ++ encode end')))
  | .counterSet line name file time value =>
    encode line ++ (encode name ++ (encode file ++ (encode time ++ encode value)))
  | .string id payload =>
    encode id ++ (encode (BitVec.ofNat 16 payload.val.length) ++ payload.val)
  | .counterAdd name amount => encode name ++ encode amount

/-- The type byte. -/
def tag : Record → UInt8
  | .header .. => 1
  | .tick .. => 2
  | .region .. => 3
  | .counterSet .. => 4
  | .string .. => 5
  | .counterAdd .. => 6

/-- The bytes of a record. -/
def text (r : Record) : List UInt8 := r.tag :: r.body

/-- A `String` record. -/
def isString : Record → Bool
  | .string .. => true
  | _ => false

end Record

/-! ## Taking a record off the front -/

/-- `payload` bytes, as many as the given length says. -/
def payload (size : BitVec 16) (bs : List UInt8) : Option (Payload × List UInt8) :=
  if size.toNat ≤ bs.length then
    some (⟨bs.take size.toNat, by have := size.isLt; simp; omega⟩, bs.drop size.toNat)
  else none

/-- Three 32-bit fields and two 64-bit ones: the layout `Region` and
`CounterSet` share. -/
def parseSample (make : BitVec 32 → BitVec 32 → BitVec 32 → BitVec 64 → BitVec 64 → Record)
    (bs : List UInt8) : Option (Record × List UInt8) :=
  (field 32 bs).bind fun (line, bs) =>
  (field 32 bs).bind fun (name, bs) =>
  (field 32 bs).bind fun (file, bs) =>
  (field 64 bs).bind fun (x, bs) =>
  (field 64 bs).bind fun (y, bs) => some (make line name file x y, bs)

/-- The fields that follow a type byte. -/
def parseBody (tag : UInt8) (bs : List UInt8) : Option (Record × List UInt8) :=
  if tag = 1 then
    (field 64 bs).bind fun (frequency, bs) =>
    (field 64 bs).bind fun (start, bs) => some (.header frequency start, bs)
  else if tag = 2 then
    (field 64 bs).bind fun (time, bs) => some (.tick time, bs)
  else if tag = 3 then parseSample .region bs
  else if tag = 4 then parseSample .counterSet bs
  else if tag = 5 then
    (field 32 bs).bind fun (id, bs) =>
    (field 16 bs).bind fun (size, bs) =>
    (payload size bs).bind fun (text, bs) => some (.string id text, bs)
  else if tag = 6 then
    (field 32 bs).bind fun (name, bs) =>
    (field 64 bs).bind fun (amount, bs) => some (.counterAdd name amount, bs)
  else none

/-- One record off the front of a byte list. -/
def parse : List UInt8 → Option (Record × List UInt8)
  | [] => none
  | tag :: bs => parseBody tag bs

@[simp] theorem payload_length_toNat (text : Payload) :
    (BitVec.ofNat 16 text.val.length).toNat = text.val.length := by
  have hlt := text.property
  rw [BitVec.toNat_ofNat]
  exact Nat.mod_eq_of_lt hlt

@[simp] theorem payload_append (text : Payload) (rest : List UInt8) :
    payload (BitVec.ofNat 16 text.val.length) (text.val ++ rest) = some (text, rest) := by
  simp only [payload, payload_length_toNat]
  simp

/-- What is read as a text has the length that stands in front of it. -/
theorem of_payload {size : BitVec 16} {bs rest : List UInt8} {text : Payload}
    (h : payload size bs = some (text, rest)) :
    bs = text.val ++ rest ∧ text.val.length = size.toNat := by
  unfold payload at h
  split at h
  · rename_i hle
    rcases Prod.mk.inj (Option.some.inj h) with ⟨rfl, rfl⟩
    constructor
    · exact (List.take_append_drop _ _).symm
    · simpa using hle
  · cases h

theorem parse_text (r : Record) (rest : List UInt8) : parse (r.text ++ rest) = some (r, rest) := by
  cases r <;> simp [Record.text, Record.tag, Record.body, parse, parseBody, parseSample]

/-- A sample that was parsed is the bytes of its five fields. -/
theorem of_parseSample
    {make : BitVec 32 → BitVec 32 → BitVec 32 → BitVec 64 → BitVec 64 → Record}
    {bs rest : List UInt8} {r : Record} (h : parseSample make bs = some (r, rest)) :
    ∃ line name file x y, r = make line name file x y ∧
      bs = encode line ++ (encode name ++ (encode file ++ (encode x ++ (encode y ++ rest)))) := by
  simp only [parseSample, Option.bind_eq_some_iff, Option.some.injEq, Prod.mk.injEq,
    Prod.exists] at h
  obtain ⟨line, bs1, hf1, name, bs2, hf2, file, bs3, hf3, x, bs4, hf4, y, bs5, hf5, hr, hrest⟩ := h
  subst hrest
  refine ⟨line, name, file, x, y, hr.symm, ?_⟩
  have h32 : 8 ∣ 32 := by decide
  have h64 : 8 ∣ 64 := by decide
  rw [of_field h32 hf1, of_field h32 hf2, of_field h32 hf3, of_field h64 hf4, of_field h64 hf5]

/-- The only body a record is parsed from is its own, one case for each type byte.
-/
theorem text_of_parseBody {tag : UInt8} {bs rest : List UInt8} {r : Record}
    (h : parseBody tag bs = some (r, rest)) : tag = r.tag ∧ bs = r.body ++ rest := by
  unfold parseBody at h
  split at h
  · -- Header
    simp only [Option.bind_eq_some_iff, Option.some.injEq, Prod.mk.injEq, Prod.exists] at h
    rcases h with ⟨frequency, bs1, hf1, start, bs2, hf2, rfl, rfl⟩
    rw [of_field (by decide) hf1, of_field (by decide) hf2]
    simpa [Record.tag, Record.body] using ‹tag = 1›
  split at h
  · -- Tick
    simp only [Option.bind_eq_some_iff, Option.some.injEq, Prod.mk.injEq, Prod.exists] at h
    rcases h with ⟨time, bs1, hf1, rfl, rfl⟩
    rw [of_field (by decide) hf1]
    simpa [Record.tag, Record.body] using ‹tag = 2›
  split at h
  · -- Region
    rcases of_parseSample h with ⟨line, name, file, x, y, rfl, hbs⟩
    rw [hbs]
    simpa [Record.tag, Record.body] using ‹tag = 3›
  split at h
  · -- CounterSet
    rcases of_parseSample h with ⟨line, name, file, x, y, rfl, hbs⟩
    rw [hbs]
    simpa [Record.tag, Record.body] using ‹tag = 4›
  split at h
  · -- String: the size read is the length of the payload taken
    simp only [Option.bind_eq_some_iff, Option.some.injEq, Prod.mk.injEq] at h
    rcases h with ⟨⟨id, bs1⟩, hf1, ⟨size, bs2⟩, hf2, ⟨text, bs3⟩, hf3, rfl, rfl⟩
    dsimp only at hf2 hf3
    rcases of_payload hf3 with ⟨hbs, hsize⟩
    have hround : BitVec.ofNat 16 text.val.length = size := by
      apply BitVec.eq_of_toNat_eq
      rw [payload_length_toNat, hsize]
    rw [of_field (by decide) hf1, of_field (by decide) hf2, hbs]
    simpa [Record.tag, Record.body, hround] using ‹tag = 5›
  split at h
  · -- CounterAdd
    simp only [Option.bind_eq_some_iff, Option.some.injEq, Prod.mk.injEq, Prod.exists] at h
    rcases h with ⟨name, bs1, hf1, amount, bs2, hf2, rfl, rfl⟩
    rw [of_field (by decide) hf1, of_field (by decide) hf2]
    simpa [Record.tag, Record.body] using ‹tag = 6›
  · cases h

theorem text_of_parse (bs rest : List UInt8) (r : Record) (h : parse bs = some (r, rest)) :
    bs = r.text ++ rest := by
  cases bs with
  | nil => cases h
  | cons tag bs =>
    rcases text_of_parseBody h with ⟨rfl, rfl⟩
    simp [Record.text]

/-- The record format of the stream. -/
def format : Format UInt8 Record where
  text := Record.text
  parse := parse
  text_ne_nil := by simp [Record.text]
  parse_text := parse_text
  text_of_parse := fun bs r rest => text_of_parse bs rest r

/-! ## The encoder writes this format -/

variable {p : PtrSize}

/-- The payload `EncodeEvent` copies for a `String` event. -/
def stringPayload (data : StringData) : Payload :=
  ⟨data.str.take data.size.toNat, by have := data.size.isLt; simp; omega⟩

/-- The record of an event: strings are replaced by their handles. `None` has
a type byte but is no record. -/
def ofEvent : EventData p → Option Record
  | .none => none
  | .header frequency start => some (.header frequency start)
  | .tick time => some (.tick time)
  | .region line name file begin end' =>
    some (.region line name.handle file.handle begin end')
  | .counterSet line name file time value =>
    some (.counterSet line name.handle file.handle time value)
  | .string data => some (.string data.id (stringPayload data))
  | .counterAdd name amount => some (.counterAdd name.handle amount)

@[simp] theorem stringPayload_length (data : StringData) :
    (stringPayload data).val.length = data.size.toNat := by
  have hle := data.size_le
  simpa [stringPayload] using hle

/-- `encodeSize` is the length of what is written. -/
theorem encodeSize_record {ev : EventData p} {r : Record} (h : ofEvent ev = some r) :
    encodeSize ev = r.text.length := by
  cases ev with
  | none => cases h
  | string data =>
    cases h
    simp [encodeSize, Record.text, Record.body]
    omega
  | _ =>
    cases h
    simp [encodeSize, Record.text, Record.body]

/-- With room for `EncodeSize` bytes, `EncodeEvent` succeeds and writes the
bytes of the event's record. -/
theorem encodeEvent_record {ev : EventData p} {r : Record} (h : ofEvent ev = some r)
    {available : ℕ} (hroom : encodeSize ev ≤ available) :
    encodeEvent false available ev = (.success, r.text) := by
  cases ev with
  | none => cases h
  | string data =>
    cases h
    have hfit : tryWrites available [[5], encode data.id, encode data.size] [] =
        (.success, [] ++ [[5], encode data.id, encode data.size].flatten) := by
      apply tryWrites_fit
      simp [encodeSize] at hroom ⊢
      omega
    simp [encodeEvent, EventData.type, hfit, Record.text, Record.tag, Record.body]
    rfl
  | _ =>
    cases h
    simp only [encodeEvent, EventData.type, Bool.false_eq_true, if_false]
    rw [tryWrites_fit]
    · simp [Record.text, Record.tag, Record.body]
    · simp [encodeSize] at hroom ⊢
      omega

end Yardstick.Wire
