import Yardstick.Wire

/-!
# EventReader — YsEventReader

The decoder of the viewer, over the bytes of one message. A `DataView` getter
throws a `RangeError` when the value does not lie within the message; the
reader catches nothing.

A 64-bit integer is read as `hi * Math.pow(2, 32) + lo`, a sum of two numbers
that a double holds exactly. The reader is modelled for any way `num` of taking
that exact sum to a number: `num = id` keeps it, `num = roundToDouble` is what
JavaScript computes, and changes nothing below 2^53 (`ofRecord_roundToDouble`).

* `read_record`, `read_end`, `read_unknown`, `read_truncated`: what one `read()`
  does, by what lies at the read position;
* `readAll_cases`: what reading a whole message does, for every byte array.
-/

namespace Yardstick.EventReader

open LittleEndian Wire Framing

/-! ## DataView -/

/-- What a getter throws when it is asked for bytes outside of the view. -/
inductive JsError where
  | rangeError
deriving DecidableEq, Repr

/-- The bytes of a message. -/
abbrev DataView := List UInt8

/-- The getters of unsigned integers of `w` bytes; `endian` asks for the
little-endian reading. -/
def getUint (data : DataView) (w pos : ℕ) (endian : Bool) : Except JsError ℕ :=
  if pos + w ≤ data.length then
    let bytes := (data.drop pos).take w
    .ok (ofBytes (if endian then bytes else bytes.reverse))
  else .error .rangeError

def getUint8 (data : DataView) (pos : ℕ) : Except JsError ℕ := getUint data 1 pos true

def getUint16 (data : DataView) (pos : ℕ) (endian : Bool) : Except JsError ℕ :=
  getUint data 2 pos endian

def getUint32 (data : DataView) (pos : ℕ) (endian : Bool) : Except JsError ℕ :=
  getUint data 4 pos endian

/-- A double, as its 64-bit pattern. -/
def getFloat64 (data : DataView) (pos : ℕ) (endian : Bool) : Except JsError (BitVec 64) :=
  (getUint data 8 pos endian).map (BitVec.ofNat 64)

variable {N M : Type} (num : ℕ → N)

/-- `DataView.prototype.getUint64`. -/
def getUint64 (data : DataView) (pos : ℕ) (endian : Bool) : Except JsError N :=
  if endian then do
    let lo ← getUint32 data pos endian
    let hi ← getUint32 data (pos + 4) endian
    return num (hi * 2 ^ 32 + lo)
  else do
    let hi ← getUint32 data pos endian
    let lo ← getUint32 data (pos + 4) endian
    return num (hi * 2 ^ 32 + lo)

/-! ## Events -/

/-- A JavaScript string, as its code units. -/
abbrev JsString := List UInt16

/-- `String.fromCharCode` of a byte. -/
def fromCharCode (b : UInt8) : UInt16 := b.toUInt16

/-- The objects `read` returns: `N` for times, `F` for doubles. -/
inductive YsEvent (N F : Type) where
  | header (frequency start : N)
  | tick (when : N)
  | region (line name file : ℕ) (start end' : N)
  | counterSet (line name file : ℕ) (when : N) (value : F)
  | string (id size : ℕ) (string : JsString)
  | counterAdd (name : ℕ) (amount : F)
deriving DecidableEq

/-- Change the numbers of an event. -/
def YsEvent.map {F G : Type} (f : N → M) (g : F → G) : YsEvent N F → YsEvent M G
  | .header frequency start => .header (f frequency) (f start)
  | .tick time => .tick (f time)
  | .region line name file start end' => .region line name file (f start) (f end')
  | .counterSet line name file time value => .counterSet line name file (f time) (g value)
  | .string id size str => .string id size str
  | .counterAdd name amount => .counterAdd name (g amount)

/-- A `'string'` event. -/
def YsEvent.isString {F : Type} : YsEvent N F → Bool
  | .string .. => true
  | _ => false

/-- The event a record is read as. -/
def ofRecord : Record → YsEvent N (BitVec 64)
  | .header frequency start => .header (num frequency.toNat) (num start.toNat)
  | .tick time => .tick (num time.toNat)
  | .region line name file begin end' =>
    .region line.toNat name.toNat file.toNat (num begin.toNat) (num end'.toNat)
  | .counterSet line name file time value =>
    .counterSet line.toNat name.toNat file.toNat (num time.toNat) value
  | .string id payload =>
    .string id.toNat payload.val.length (payload.val.map fromCharCode)
  | .counterAdd name amount => .counterAdd name.toNat amount

@[simp] theorem isString_ofRecord (r : Record) : (ofRecord num r).isString = r.isString := by
  cases r <;> simp [ofRecord, YsEvent.isString, Record.isString]

/-! ## The reader -/

/-- The fields of a `YsEventReader`. -/
structure Reader where
  data : DataView
  pos : ℕ
  error : Option String
deriving DecidableEq, Repr

/-- The loop of the `STRING` case: `len` characters from `pos` on. -/
def readChars (data : DataView) (pos : ℕ) : ℕ → Except JsError JsString
  | 0 => .ok []
  | len + 1 => do
    let c ← getUint8 data pos
    let str ← readChars data (pos + 1) len
    return fromCharCode (UInt8.ofNat c) :: str

/-- The fields of a string: its id, its length and its text. -/
def readString (data : DataView) (pos : ℕ) : Except JsError (ℕ × ℕ × JsString) := do
  let id ← getUint32 data (pos + 1) true
  let len ← getUint16 data (pos + 5) true
  let str ← readChars data (pos + 7) len
  return (id, len, str)

/-- The text of the parse error. -/
def parseError (pos type : ℕ) : String :=
  "protocol parse error: pos " ++ toString pos ++ " byte=" ++ toString type

/-- `YsEventReader.read`: what it returns or throws, and the reader after it.
Except for strings, `_pos` moves before the fields are read. -/
def read (r : Reader) : Except JsError (Option (YsEvent N (BitVec 64))) × Reader :=
  let pos := r.pos
  let data := r.data
  if pos ≥ data.length then (.ok none, r) else
  match getUint8 data pos with
  | .error e => (.error e, r)
  | .ok type =>
    match type with
    | 1 =>
      (do
        let frequency ← getUint64 num data (pos + 1) true
        let start ← getUint64 num data (pos + 9) true
        return some (.header frequency start), { r with pos := pos + 17 })
    | 2 =>
      (do
        let time ← getUint64 num data (pos + 1) true
        return some (.tick time), { r with pos := pos + 9 })
    | 3 =>
      (do
        let line ← getUint32 data (pos + 1) true
        let name ← getUint32 data (pos + 5) true
        let file ← getUint32 data (pos + 9) true
        let start ← getUint64 num data (pos + 13) true
        let end' ← getUint64 num data (pos + 21) true
        return some (.region line name file start end'), { r with pos := pos + 29 })
    | 4 =>
      (do
        let line ← getUint32 data (pos + 1) true
        let name ← getUint32 data (pos + 5) true
        let file ← getUint32 data (pos + 9) true
        let time ← getUint64 num data (pos + 13) true
        let value ← getFloat64 data (pos + 21) true
        return some (.counterSet line name file time value), { r with pos := pos + 29 })
    | 5 =>
      match readString data pos with
      | .error e => (.error e, r)
      | .ok (id, len, str) => (.ok (some (.string id len str)), { r with pos := pos + (7 + len) })
    | 6 =>
      (do
        let name ← getUint32 data (pos + 1) true
        let amount ← getFloat64 data (pos + 5) true
        return some (.counterAdd name amount), { r with pos := pos + 13 })
    | _ =>
      -- NONE or unknown
      (.ok none, { r with error := some (parseError pos type), pos := pos + data.length })

/-- What a `for (var ev of reader)` loop has done when it is left. -/
structure Iteration (N : Type) where
  events : List (YsEvent N (BitVec 64))
  reader : Reader
  thrown : Option JsError
deriving DecidableEq

/-- The loop, with at most `fuel` calls of `read`; `none` if it has not been
left by then. -/
def iterate : ℕ → Reader → Option (Iteration N)
  | 0, _ => none
  | fuel + 1, r =>
    match read num r with
    | (.error e, r') => some ⟨[], r', some e⟩
    | (.ok none, r') => some ⟨[], r', none⟩
    | (.ok (some ev), r') =>
      (iterate fuel r').map fun it => { it with events := ev :: it.events }

/-- Read a whole message. Every event moves the position on, so a message is
left after at most one read per byte and one more (`readAll_cases`). -/
def readAll (data : DataView) : Option (Iteration N) :=
  iterate num (data.length + 1) ⟨data, 0, none⟩

/-! ## The getters on fields -/

/-- `getUint` reads the bytes at its place as a number. -/
theorem getUint_of_drop {data bs rest : List UInt8} {pos w : ℕ} (hw : bs.length = w) (hpos : 0 < w)
    (h : data.drop pos = bs ++ rest) : getUint data w pos true = .ok (ofBytes bs) := by
  have hlen := congrArg List.length h
  rw [List.length_drop, List.length_append] at hlen
  have hin : pos + w ≤ data.length := by omega
  have htake : (data.drop pos).take w = bs := by
    rw [h, List.take_left' hw]
  simp only [getUint, if_pos hin, htake, if_true]

theorem getUint_short {data : DataView} {pos w : ℕ} {endian : Bool}
    (h : data.length < pos + w) : getUint data w pos endian = .error .rangeError := by
  unfold getUint
  rw [if_neg (by omega)]

theorem drop_append {data bs rest : List UInt8} {pos w : ℕ} (hw : bs.length = w)
    (h : data.drop pos = bs ++ rest) : data.drop (pos + w) = rest := by
  rw [← List.drop_drop, h, List.drop_left' hw]

theorem drop_cons {data rest : List UInt8} {pos : ℕ} {b : UInt8} (h : data.drop pos = b :: rest) :
    data.drop (pos + 1) = rest :=
  drop_append (show [b].length = 1 from rfl) h

theorem getUint8_cons {data rest : List UInt8} {pos : ℕ} {b : UInt8}
    (h : data.drop pos = b :: rest) : getUint8 data pos = .ok b.toNat := by
  have hb : ofBytes [b] = b.toNat := by
    rw [ofBytes_cons, ofBytes_nil]
    omega
  unfold getUint8
  rw [getUint_of_drop (show [b].length = 1 from rfl) (by omega) h, hb]

theorem getUint16_encode {data rest : List UInt8} {pos : ℕ} {x : BitVec 16}
    (h : data.drop pos = encode x ++ rest) : getUint16 data pos true = .ok x.toNat := by
  unfold getUint16
  rw [getUint_of_drop (encode_length x) (by omega) h, ofBytes_encode (by decide)]

theorem getUint32_encode {data rest : List UInt8} {pos : ℕ} {x : BitVec 32}
    (h : data.drop pos = encode x ++ rest) : getUint32 data pos true = .ok x.toNat := by
  unfold getUint32
  rw [getUint_of_drop (encode_length x) (by omega) h, ofBytes_encode (by decide)]

theorem getFloat64_encode {data rest : List UInt8} {pos : ℕ} {x : BitVec 64}
    (h : data.drop pos = encode x ++ rest) : getFloat64 data pos true = .ok x := by
  unfold getFloat64
  rw [getUint_of_drop (encode_length x) (by omega) h, ofBytes_encode (by decide), Except.map,
    BitVec.ofNat_toNat, BitVec.setWidth_eq]

/-- The two halves of a 64-bit field add up to it. -/
theorem getUint64_encode {data rest : List UInt8} {pos : ℕ} {x : BitVec 64}
    (h : data.drop pos = encode x ++ rest) : getUint64 num data pos true = .ok (num x.toNat) := by
  have hsplit : encode x = toBytes 4 x.toNat ++ toBytes 4 (x.toNat / 256 ^ 4) := toBytes_add 4 4 _
  rw [hsplit, List.append_assoc] at h
  have hlo : getUint32 data pos true = .ok (x.toNat % 256 ^ 4) := by
    unfold getUint32
    rw [getUint_of_drop (toBytes_length 4 _) (by omega) h, ofBytes_toBytes]
  have hhi : getUint32 data (pos + 4) true = .ok (x.toNat / 256 ^ 4 % 256 ^ 4) := by
    unfold getUint32
    rw [getUint_of_drop (toBytes_length 4 _) (by omega) (drop_append (toBytes_length 4 _) h),
      ofBytes_toBytes]
  have hsum : x.toNat / 256 ^ 4 % 256 ^ 4 * 2 ^ 32 + x.toNat % 256 ^ 4 = x.toNat := by
    have hlt := x.isLt
    omega
  unfold getUint64
  rw [if_pos rfl, hlo, hhi]
  show Except.ok (num (_ * 2 ^ 32 + _)) = _
  rw [hsum]

/-- `readChars` reads the bytes at its place as characters. -/
theorem readChars_append {data bs rest : List UInt8} {pos : ℕ} (h : data.drop pos = bs ++ rest) :
    readChars data pos bs.length = .ok (bs.map fromCharCode) := by
  induction bs generalizing pos with
  | nil => rfl
  | cons b bs ih =>
    have hrest : data.drop (pos + 1) = bs ++ rest := drop_cons h
    rw [List.length_cons, readChars, getUint8_cons h, ih hrest]
    show Except.ok (fromCharCode (UInt8.ofNat b.toNat) :: _) = _
    rw [UInt8.ofNat_toNat, List.map_cons]

/-! ## One read -/

theorem pos_lt_of_drop {data rest : List UInt8} {pos : ℕ} {b : UInt8}
    (h : data.drop pos = b :: rest) : pos < data.length := by
  by_contra hge
  rw [List.drop_eq_nil_of_le (by omega)] at h
  cases h

/-- At a record, `read` returns its event and moves behind it. -/
theorem read_record {data rest : List UInt8} {pos : ℕ} {error : Option String} (r : Record)
    (h : data.drop pos = r.text ++ rest) :
    read num ⟨data, pos, error⟩ =
      (.ok (some (ofRecord num r)), ⟨data, pos + r.text.length, error⟩) := by
  have htag : data.drop pos = r.tag :: (r.body ++ rest) := h
  have hin : ¬ pos ≥ data.length := by
    have := pos_lt_of_drop htag
    omega
  have hbody : data.drop (pos + 1) = r.body ++ rest := drop_cons htag
  -- each field is read where the widths of those before it say
  cases r with
  | header frequency start =>
    simp only [Record.body, List.append_assoc] at hbody
    have hstart : data.drop (pos + 9) = encode start ++ rest :=
      drop_append (w := 8) (encode_length _) hbody
    simp [read, hin, getUint8_cons htag, Record.tag, getUint64_encode num hbody,
      getUint64_encode num hstart, ofRecord, Record.text, Record.body]
    rfl
  | tick time =>
    simp only [Record.body] at hbody
    simp [read, hin, getUint8_cons htag, Record.tag, getUint64_encode num hbody, ofRecord,
      Record.text, Record.body]
  | region line name file begin end' =>
    simp only [Record.body, List.append_assoc] at hbody
    have hname : data.drop (pos + 5) = _ := drop_append (w := 4) (encode_length _) hbody
    have hfile : data.drop (pos + 9) = _ := drop_append (w := 4) (encode_length _) hname
    have hbegin : data.drop (pos + 13) = _ := drop_append (w := 4) (encode_length _) hfile
    have hend : data.drop (pos + 21) = _ := drop_append (w := 8) (encode_length _) hbegin
    simp [read, hin, getUint8_cons htag, Record.tag, getUint32_encode hbody,
      getUint32_encode hname, getUint32_encode hfile, getUint64_encode num hbegin,
      getUint64_encode num hend, ofRecord, Record.text, Record.body]
    rfl
  | counterSet line name file time value =>
    simp only [Record.body, List.append_assoc] at hbody
    have hname : data.drop (pos + 5) = _ := drop_append (w := 4) (encode_length _) hbody
    have hfile : data.drop (pos + 9) = _ := drop_append (w := 4) (encode_length _) hname
    have htime : data.drop (pos + 13) = _ := drop_append (w := 4) (encode_length _) hfile
    have hvalue : data.drop (pos + 21) = _ := drop_append (w := 8) (encode_length _) htime
    simp [read, hin, getUint8_cons htag, Record.tag, getUint32_encode hbody,
      getUint32_encode hname, getUint32_encode hfile, getUint64_encode num htime,
      getFloat64_encode hvalue, ofRecord, Record.text, Record.body]
    rfl
  | string id payload =>
    simp only [Record.body, List.append_assoc] at hbody
    have hsize : data.drop (pos + 5) = _ := drop_append (w := 4) (encode_length _) hbody
    have htext : data.drop (pos + 7) = _ := drop_append (w := 2) (encode_length _) hsize
    -- the length read is that of the payload
    have hlen := getUint16_encode hsize
    rw [payload_length_toNat] at hlen
    have hfields : readString data pos =
        .ok (id.toNat, payload.val.length, payload.val.map fromCharCode) := by
      unfold readString
      rw [getUint32_encode hbody, hlen]
      show (readChars data (pos + 7) payload.val.length).bind _ = _
      rw [readChars_append htext]
      rfl
    simp [read, hin, getUint8_cons htag, Record.tag, hfields, ofRecord, Record.text, Record.body]
    omega
  | counterAdd name amount =>
    simp only [Record.body, List.append_assoc] at hbody
    have hamount : data.drop (pos + 5) = _ := drop_append (w := 4) (encode_length _) hbody
    simp [read, hin, getUint8_cons htag, Record.tag, getUint32_encode hbody,
      getFloat64_encode hamount, ofRecord, Record.text, Record.body]
    rfl

/-! ## Where no record is -/

/-- The type bytes `read` has a case for. -/
def KnownType (b : UInt8) : Prop := b = 1 ∨ b = 2 ∨ b = 3 ∨ b = 4 ∨ b = 5 ∨ b = 6

instance (b : UInt8) : Decidable (KnownType b) := by
  unfold KnownType
  infer_instance

theorem throws_bind {α β : Type} {x : Except JsError α} {f : α → Except JsError β}
    (h : ∀ a, f a = .error .rangeError) : (x >>= f) = .error .rangeError := by
  cases x with
  | error e =>
    cases e
    rfl
  | ok a => exact h a

/-- A number that does not lie in the data in full cannot be read. -/
theorem getUint64_short {data : DataView} {pos : ℕ} (h : data.length < pos + 8) :
    getUint64 num data pos true = .error .rangeError := by
  unfold getUint64
  rw [if_pos rfl]
  refine throws_bind fun lo => ?_
  unfold getUint32
  rw [getUint_short (by omega)]
  rfl

theorem getFloat64_short {data : DataView} {pos : ℕ} (h : data.length < pos + 8) :
    getFloat64 data pos true = .error .rangeError := by
  unfold getFloat64
  rw [getUint_short h]
  rfl

/-- Reading characters past the end throws, if there is one to read. -/
theorem readChars_short {data : DataView} {pos len : ℕ} (hlen : 0 < len)
    (h : data.length < pos + len) : readChars data pos len = .error .rangeError := by
  induction len generalizing pos with
  | zero => omega
  | succ len ih =>
    unfold readChars
    by_cases hone : data.length < pos + 1
    · -- not even the first character is there
      unfold getUint8
      rw [getUint_short hone]
      rfl
    · refine throws_bind fun c => ?_
      rw [ih (by omega) (by omega)]
      rfl

theorem field_of_le (n : ℕ) (bs : List UInt8) (h : n / 8 ≤ bs.length) :
    ∃ x rest, field n bs = some (x, rest) ∧ rest.length = bs.length - n / 8 := by
  refine ⟨_, _, if_pos h, ?_⟩
  rw [List.length_drop]

/-- The string at the read position is cut short. -/
theorem readString_short {data bs : List UInt8} {pos : ℕ} (h : data.drop (pos + 1) = bs)
    (hp : parseBody 5 bs = none) : readString data pos = .error .rangeError := by
  have hlen : bs.length = data.length - (pos + 1) := by
    rw [← h, List.length_drop]
  unfold readString
  by_cases hshort : bs.length < 6
  · -- the length of the string cannot be read
    refine throws_bind fun id => ?_
    unfold getUint16
    rw [getUint_short (by omega)]
    rfl
  · -- the length is there, the characters are not
    rcases field_of_le 32 bs (by omega) with ⟨id, bs1, hid, hlen1⟩
    rcases field_of_le 16 bs1 (by omega) with ⟨size, bs2, hsize, hlen2⟩
    have hbs1 := of_field (by decide) hid
    have hbs2 := of_field (by decide) hsize
    have hpos5 : data.drop (pos + 5) = encode size ++ bs2 := by
      rw [← hbs2]
      exact drop_append (w := 4) (encode_length id) (h.trans hbs1)
    have htext : bs2.length < size.toNat := by
      by_contra hge
      simp [parseBody, hid, hsize, payload, Nat.le_of_not_lt hge] at hp
    rw [getUint32_encode (h.trans hbs1), getUint16_encode hpos5]
    show (readChars data (pos + 7) size.toNat).bind _ = _
    rw [readChars_short (by omega) (by omega)]
    rfl

/-- A sample of 28 bytes or more can be read whatever is in it. -/
theorem parseSample_ne_none
    (make : BitVec 32 → BitVec 32 → BitVec 32 → BitVec 64 → BitVec 64 → Record)
    {bs : List UInt8} (h : 28 ≤ bs.length) : parseSample make bs ≠ none := by
  rcases field_of_le 32 bs (by omega) with ⟨line, bs1, h1, hlen1⟩
  rcases field_of_le 32 bs1 (by omega) with ⟨name, bs2, h2, hlen2⟩
  rcases field_of_le 32 bs2 (by omega) with ⟨file, bs3, h3, hlen3⟩
  rcases field_of_le 64 bs3 (by omega) with ⟨x, bs4, h4, hlen4⟩
  rcases field_of_le 64 bs4 (by omega) with ⟨y, bs5, h5, hlen5⟩
  simp [parseSample, h1, h2, h3, h4, h5]

/-- Behind the last record of a message: `read` returns null. -/
theorem read_end {data : DataView} {pos : ℕ} {error : Option String} (h : data.length ≤ pos) :
    read num ⟨data, pos, error⟩ = (.ok none, ⟨data, pos, error⟩) := by
  unfold read
  rw [if_pos h]

/-- At a byte that is no type: `read` notes the error and leaves the message. -/
theorem read_unknown {data rest : List UInt8} {pos : ℕ} (error : Option String) {b : UInt8}
    (h : data.drop pos = b :: rest) (hb : ¬ KnownType b) :
    read num ⟨data, pos, error⟩ =
      (.ok none, ⟨data, pos + data.length, some (parseError pos b.toNat)⟩) := by
  have hin : ¬ pos ≥ data.length := by
    have := pos_lt_of_drop h
    omega
  have hne : ∀ c : UInt8, KnownType c → b.toNat ≠ c.toNat := by
    intro c hc hbc
    rw [UInt8.toNat_inj] at hbc
    exact hb (hbc ▸ hc)
  simp only [read, if_neg hin, getUint8_cons h]
  -- none of the six cases is taken
  split
  · exact absurd ‹b.toNat = 1› (hne 1 (by decide))
  · exact absurd ‹b.toNat = 2› (hne 2 (by decide))
  · exact absurd ‹b.toNat = 3› (hne 3 (by decide))
  · exact absurd ‹b.toNat = 4› (hne 4 (by decide))
  · exact absurd ‹b.toNat = 5› (hne 5 (by decide))
  · exact absurd ‹b.toNat = 6› (hne 6 (by decide))
  · rfl

/-- At a record cut short: some getter reads past the end and `read` throws. -/
theorem read_truncated {data rest : List UInt8} {pos : ℕ} (error : Option String) {b : UInt8}
    (h : data.drop pos = b :: rest) (hb : KnownType b) (hp : parse (b :: rest) = none) :
    (read num ⟨data, pos, error⟩).1 = .error .rangeError := by
  have hpos := pos_lt_of_drop h
  have hin : ¬ pos ≥ data.length := by omega
  have hrest : data.drop (pos + 1) = rest := drop_cons h
  have hlen : rest.length = data.length - (pos + 1) := by
    rw [← hrest, List.length_drop]
  have hget := getUint8_cons h
  have hparse : parseBody b rest = none := hp
  rcases hb with hb | hb | hb | hb | hb | hb <;> subst hb
  · -- Header
    have hshort : rest.length < 16 := by
      by_contra hge
      rcases field_of_le 64 rest (by omega) with ⟨x, bs1, h1, hlen1⟩
      rcases field_of_le 64 bs1 (by omega) with ⟨y, bs2, h2, hlen2⟩
      simp [parseBody, h1, h2] at hparse
    simp only [read, if_neg hin, hget]
    refine throws_bind fun _ => ?_
    rw [getUint64_short num (by omega)]
    rfl
  · -- Tick
    have hshort : rest.length < 8 := by
      by_contra hge
      rcases field_of_le 64 rest (by omega) with ⟨x, bs1, h1, -⟩
      simp [parseBody, h1] at hparse
    simp only [read, if_neg hin, hget]
    rw [getUint64_short num (by omega)]
    rfl
  · -- Region
    have hshort : rest.length < 28 := by
      by_contra hge
      exact parseSample_ne_none .region (by omega) hparse
    simp only [read, if_neg hin, hget]
    refine throws_bind fun _ => throws_bind fun _ => throws_bind fun _ => throws_bind fun _ => ?_
    rw [getUint64_short num (by omega)]
    rfl
  · -- CounterSet
    have hshort : rest.length < 28 := by
      by_contra hge
      exact parseSample_ne_none .counterSet (by omega) hparse
    simp only [read, if_neg hin, hget]
    refine throws_bind fun _ => throws_bind fun _ => throws_bind fun _ => throws_bind fun _ => ?_
    rw [getFloat64_short (by omega)]
    rfl
  · -- String
    have hstring := readString_short hrest hparse
    simp only [read, if_neg hin, hget]
    show (match readString data pos with
      | .error e => (.error e, _)
      | .ok (id, len, str) => (.ok (some (.string id len str)), _) :
        Except JsError (Option (YsEvent N (BitVec 64))) × Reader).1 = _
    rw [hstring]
  · -- CounterAdd
    have hshort : rest.length < 12 := by
      by_contra hge
      rcases field_of_le 32 rest (by omega) with ⟨x, bs1, h1, hlen1⟩
      rcases field_of_le 64 bs1 (by omega) with ⟨y, bs2, h2, hlen2⟩
      simp [parseBody, h1, h2] at hparse
    simp only [read, if_neg hin, hget]
    refine throws_bind fun _ => ?_
    rw [getFloat64_short (by omega)]
    rfl

/-! ## The loop over a message -/

/-- The records at the read position are returned one by one. -/
theorem iterate_records (rs : List Record) (rest : List UInt8) {data : List UInt8} {pos fuel : ℕ}
    {error : Option String} (h : data.drop pos = format.join rs ++ rest) :
    iterate num (rs.length + fuel) ⟨data, pos, error⟩ =
      (iterate num fuel ⟨data, pos + (format.join rs).length, error⟩).map fun it =>
        { it with events := rs.map (ofRecord num) ++ it.events } := by
  induction rs generalizing pos with
  | nil => simp
  | cons r rs ih =>
    rw [Format.join_cons, List.append_assoc] at h
    have hrest : data.drop (pos + r.text.length) = format.join rs ++ rest := drop_append rfl h
    have hlen : pos + (format.join (r :: rs)).length =
        pos + r.text.length + (format.join rs).length := by
      rw [Format.join_cons, List.length_append, Nat.add_assoc]
      rfl
    rw [List.length_cons, Nat.add_right_comm, iterate, read_record num r h, hlen]
    simp only [ih hrest, Option.map_map]
    rfl

/-- A message that is a concatenation of records: one event per record, and
the loop ends at its last byte with no error. -/
theorem readAll_join (rs : List Record) :
    readAll num (format.join rs) =
      some ⟨rs.map (ofRecord num), ⟨format.join rs, (format.join rs).length, none⟩, none⟩ := by
  have hlen := format.length_le_join rs
  have hfuel : (format.join rs).length + 1 =
      rs.length + ((format.join rs).length - rs.length + 1) := by omega
  unfold readAll
  rw [hfuel, iterate_records num rs [] (by simp), iterate, read_end num (by simp)]
  simp

/-- A message that goes on with something else behind its records: the loop
returns them and then does what the next `read` does. -/
theorem readAll_stop (rs : List Record) {rest : List UInt8} {out : Except JsError
    (Option (YsEvent N (BitVec 64))) × Reader}
    (hread : read num ⟨format.join rs ++ rest, (format.join rs).length, none⟩ = out)
    (hout : ∀ ev, out.1 ≠ .ok (some ev)) :
    readAll num (format.join rs ++ rest) =
      some ⟨rs.map (ofRecord num), out.2, match out.1 with
        | .error e => some e
        | .ok _ => none⟩ := by
  have hlen := format.length_le_join rs
  have hfuel : (format.join rs ++ rest).length + 1 =
      rs.length + ((format.join rs).length - rs.length + rest.length + 1) := by
    rw [List.length_append]
    omega
  unfold readAll
  rw [hfuel, iterate_records num rs rest (by simp), Nat.zero_add, iterate, hread]
  rcases out with ⟨result, r'⟩
  rcases result with e | ev
  · simp
  · cases ev with
    | none => simp
    | some ev => exact absurd rfl (hout ev)

/-- Every message is left. The events are the records of its longest prefix
made of whole records; what the loop ends with depends on what follows them. -/
theorem readAll_cases (data : DataView) :
    let rs := (format.split data).1
    let rest := (format.split data).2
    (rest = [] ∧
      readAll num data = some ⟨rs.map (ofRecord num), ⟨data, data.length, none⟩, none⟩) ∨
    (∃ b tl, rest = b :: tl ∧ ¬ KnownType b ∧
      readAll num data = some ⟨rs.map (ofRecord num),
        ⟨data, (format.join rs).length + data.length,
          some (parseError (format.join rs).length b.toNat)⟩, none⟩) ∨
    (∃ b tl, rest = b :: tl ∧ KnownType b ∧ ∃ r',
      readAll num data = some ⟨rs.map (ofRecord num), r', some .rangeError⟩) := by
  rcases format.exists_split data with ⟨rs, rest, rfl, hrest⟩
  rw [format.split_unique rs rest hrest]
  cases rest with
  | nil =>
    -- the records are all there is
    left
    simpa using readAll_join num rs
  | cons b tl =>
    have hdrop : (format.join rs ++ b :: tl).drop (format.join rs).length = b :: tl := by simp
    right
    by_cases hb : KnownType b
    · -- a record cut short
      right
      have hthrow := read_truncated num none hdrop hb hrest
      refine ⟨b, tl, rfl, hb,
        (read num ⟨format.join rs ++ b :: tl, (format.join rs).length, none⟩).2, ?_⟩
      rw [readAll_stop num rs rfl (by rw [hthrow]; simp), hthrow]
    · -- a byte that is no type
      left
      have hunknown := read_unknown num none hdrop hb
      refine ⟨b, tl, rfl, hb, ?_⟩
      rw [readAll_stop num rs rfl (by rw [hunknown]; simp), hunknown]

/-! ## What JavaScript computes -/

/-- The double nearest to a natural number, ties to even: 53 bits are kept. -/
def roundToDouble (n : ℕ) : ℕ :=
  let e := Nat.log2 n - 52
  let q := n / 2 ^ e
  let r := n % 2 ^ e
  if 2 * r < 2 ^ e ∨ (2 * r = 2 ^ e ∧ q % 2 = 0) then q * 2 ^ e else (q + 1) * 2 ^ e

/-- Below `2 ^ 53` every number is a double. -/
theorem roundToDouble_of_lt {n : ℕ} (h : n < 2 ^ 53) : roundToDouble n = n := by
  have hlog : Nat.log2 n - 52 = 0 := by
    by_cases hn : n = 0
    · subst hn
      decide
    · have := (Nat.log2_lt hn).mpr h
      omega
  simp [roundToDouble, hlog, Nat.mod_one]

/-- The 64-bit times of a record. -/
def times : Record → List (BitVec 64)
  | .header frequency start => [frequency, start]
  | .tick time => [time]
  | .region _ _ _ begin end' => [begin, end']
  | .counterSet _ _ _ time _ => [time]
  | _ => []

/-- Below 2^53 the rounding changes nothing, so the viewer holds the exact
times. -/
theorem ofRecord_roundToDouble {r : Record} (h : ∀ t ∈ times r, t.toNat < 2 ^ 53) :
    ofRecord roundToDouble r = ofRecord id r := by
  cases r with
  | header frequency start =>
    simp [times] at h
    simp [ofRecord, roundToDouble_of_lt h.1, roundToDouble_of_lt h.2]
  | tick time =>
    simp [times] at h
    simp [ofRecord, roundToDouble_of_lt h]
  | region line name file begin end' =>
    simp [times] at h
    simp [ofRecord, roundToDouble_of_lt h.1, roundToDouble_of_lt h.2]
  | counterSet line name file time value =>
    simp [times] at h
    simp [ofRecord, roundToDouble_of_lt h]
  | string id payload => rfl
  | counterAdd name amount => rfl

end Yardstick.EventReader
