import Yardstick.Base.Spool
import Yardstick.RoundTrip

/-!
# SinkSession — the stream of one WebSocket session

A session of `WebsocketSink` collects encoded events in a buffer and sends the
buffer as one WebSocket message when the next event does not fit, or on
`FlushSession`. The first event that uses a string is preceded by a `String`
record; a bit table remembers which strings have been sent. A string too long
for the buffer is sent as a message of its own.

* `writeSessionEvent_appends`: what one event adds to the stream;
* `session_stream`: every message is a concatenation of whole records, and the
  stream without its `String` records is the header and the events written.
-/

namespace Yardstick.SinkSession

open LittleEndian PointerHash Protocol Wire EventReader RoundTrip
open Spool (Carries)

/-! ## The connection -/

/-- The sending end of a WebSocket: the payload of the frame that has begun,
and the binary messages that have gone out. The writes between
`WebbyBeginSocketFrame` and `WebbyEndSocketFrame` make up one message. -/
structure Socket where
  frame : Option (List UInt8)
  messages : List (List UInt8)

def webbyBeginSocketFrame (c : Socket) : Socket := { c with frame := some [] }

def webbyWrite (c : Socket) (data : List UInt8) : Socket :=
  { c with frame := c.frame.map fun payload => payload ++ data }

def webbyEndSocketFrame (c : Socket) : Socket :=
  match c.frame with
  | some payload => ⟨none, c.messages ++ [payload]⟩
  | none => c

/-! ## The session -/

def kBufSize : ℕ := 4096

def kTableSize : ℕ := 4096

def kTableBitMask : BitVec 32 := BitVec.ofNat 32 (kTableSize * 8 - 1)

abbrev Table := Vector (BitVec 8) kTableSize

/-- The table after the `memset`. -/
def emptyTable : Table := Vector.replicate kTableSize 0

/-- A `Session`, with its connection in place of the pointer to it. -/
structure Session where
  connection : Socket
  bufpos : ℕ
  buffer : List UInt8
  table : Table

/-- The part of `CreateSession` that fills the session in: `memory` is what the
allocator returned for the buffer. -/
def createSession (memory : Vector UInt8 kBufSize) : Session :=
  { connection := ⟨none, []⟩
    bufpos := 0
    buffer := memory.toList
    table := emptyTable }

/-- `YS_TRY`: go on only after a success. -/
def ysTry (r : YsResult × Session) (next : Session → YsResult × Session) : YsResult × Session :=
  if r.1 = .success then next r.2 else r

def flushSession (s : Session) : YsResult × Session :=
  if s.bufpos ≠ 0 then
    let c := webbyBeginSocketFrame s.connection
    let c := webbyWrite c (s.buffer.take s.bufpos)
    let c := webbyEndSocketFrame c
    (.success, { s with connection := c, bufpos := 0 })
  else (.success, s)

/-- `if (size > kBufSize - _bufpos) YS_TRY(FlushSession(session))`. -/
def makeRoom (s : Session) (size : ℕ) : YsResult × Session :=
  if size > kBufSize - s.bufpos then flushSession s else (.success, s)

variable {p : PtrSize}

/-- Encode an event behind the buffered bytes and move `_bufpos` behind it. -/
def encodeIntoBuffer (s : Session) (ev : EventData p) : YsResult × Session :=
  let out := encodeEvent false (kBufSize - s.bufpos) ev
  let buffer := s.buffer.take s.bufpos ++ out.2 ++ s.buffer.drop (s.bufpos + out.2.length)
  ysTry (out.1, { s with buffer := buffer }) fun s =>
    (.success, { s with bufpos := s.bufpos + out.2.length })

/-! ## The table of sent strings -/

def tableIndex (handle : BitVec 32) : BitVec 32 := handle &&& kTableBitMask

theorem byteIndex_lt (handle : BitVec 32) : (tableIndex handle >>> 3).toNat < kTableSize := by
  have hle : (tableIndex handle).toNat ≤ kTableSize * 8 - 1 := by
    rw [tableIndex, BitVec.toNat_and]
    exact Nat.and_le_right
  rw [BitVec.toNat_ushiftRight, Nat.shiftRight_eq_div_pow]
  unfold kTableSize at hle ⊢
  omega

def byteIndex (handle : BitVec 32) : Fin kTableSize :=
  ⟨(tableIndex handle >>> 3).toNat, byteIndex_lt handle⟩

def bitMask (handle : BitVec 32) : BitVec 32 := (1 : BitVec 32) <<< (tableIndex handle &&& 5)

/-- `(byte & bitMask) != 0`. -/
def marked (table : Table) (handle : BitVec 32) : Bool :=
  table[byteIndex handle].setWidth 32 &&& bitMask handle != 0#32

/-- `byte |= bitMask`. -/
def mark (table : Table) (handle : BitVec 32) : Table :=
  let byte := table[byteIndex handle]
  table.set (byteIndex handle) ((byte.setWidth 32 ||| bitMask handle).setWidth 8)
    (byteIndex handle).isLt

/-! ## Writing -/

/-- The `String` event for `str`: its length is cast to 16 bits. -/
def stringEvent (str : CString p) : EventData p :=
  .string
    { id := str.handle
      size := BitVec.ofNat 16 str.text.length
      str := str.text
      size_le := by
        rw [BitVec.toNat_ofNat]
        exact Nat.mod_le _ _ }

/-- The message a string goes out as when it does not fit into the buffer. -/
def sendString (s : Session) (str : CString p) : Session :=
  let size := BitVec.ofNat 16 str.text.length
  let c := webbyBeginSocketFrame s.connection
  let c := webbyWrite c [0x05]
  let c := webbyWrite c (encode str.handle)
  let c := webbyWrite c (encode size)
  let c := webbyWrite c (str.text.take size.toNat)
  let c := webbyEndSocketFrame c
  { s with connection := c }

/-- Write the `String` event into the buffer if it fits there, else send it. -/
def storeString (s : Session) (str : CString p) : YsResult × Session :=
  if encodeSize (stringEvent str) ≤ kBufSize - s.bufpos then
    encodeIntoBuffer s (stringEvent str)
  else (.success, sendString s str)

def writeSessionString (s : Session) (str : CString p) : YsResult × Session :=
  if marked s.table str.handle = false then
    ysTry (makeRoom s (encodeSize (stringEvent str))) fun s =>
    ysTry (storeString s str) fun s =>
    (.success, { s with table := mark s.table str.handle })
  else (.success, s)

/-- The strings of an event that are sent ahead of it. -/
def writeSessionStrings (s : Session) : EventData p → YsResult × Session
  | .region _ name file _ _ =>
    ysTry (writeSessionString s name) fun s => writeSessionString s file
  | .counterSet _ name file _ _ =>
    ysTry (writeSessionString s name) fun s => writeSessionString s file
  | .counterAdd name _ => writeSessionString s name
  | _ => (.success, s)

def writeSessionEvent (s : Session) (ev : EventData p) : YsResult × Session :=
  ysTry (writeSessionStrings s ev) fun s =>
  ysTry (makeRoom s (encodeSize ev)) fun s =>
  encodeIntoBuffer s ev

/-- The events the library emits into sessions after their header. -/
def isEmitted : EventData p → Bool
  | .tick .. | .region .. | .counterSet .. | .counterAdd .. => true
  | _ => false

abbrev Emitted (p : PtrSize) := { ev : EventData p // isEmitted ev = true }

/-- What happens to a session once it has its header. -/
inductive Op (p : PtrSize) where
  | write (ev : Emitted p)
  | flush

def applyOp (s : Session) : Op p → YsResult × Session
  | .write ev => writeSessionEvent s ev.val
  | .flush => flushSession s

def runOps (s : Session) (ops : List (Op p)) : Session :=
  ops.foldl (fun s op => (applyOp s op).2) s

/-- `webby_connected`: a new session and its header event. -/
def openSession (p : PtrSize) (memory : Vector UInt8 kBufSize) (frequency start : BitVec 64) :
    Session :=
  (writeSessionEvent (createSession memory) (.header frequency start : EventData p)).2

/-! ## What a call adds to the stream -/

/-- The session is in good order and carries the given spool. -/
structure Valid (s : Session) (sp : Spool Record) : Prop where
  frame_eq : s.connection.frame = none
  bufpos_le : s.bufpos ≤ kBufSize
  buffer_length : s.buffer.length = kBufSize
  carries : Carries format s.connection.messages (s.buffer.take s.bufpos) sp

/-- A call made in `s` succeeds, adds the records `rs` to the stream and leaves
the given table. -/
def Appends (s : Session) (out : YsResult × Session) (rs : List Record) (table : Table) : Prop :=
  ∀ sp, Valid s sp → out.1 = .success ∧ out.2.table = table ∧
    ∃ sp', Valid out.2 sp' ∧ sp'.stream = sp.stream ++ rs

theorem Appends.refl (s : Session) : Appends s (.success, s) [] s.table := by
  intro sp h
  exact ⟨rfl, rfl, sp, h, (List.append_nil _).symm⟩

/-- Two steps that append one after the other append both. -/
theorem Appends.ysTry {s : Session} {out : YsResult × Session} {rs rs' : List Record}
    {table table' : Table} {next : Session → YsResult × Session} (h : Appends s out rs table)
    (hnext : out.2.table = table → Appends out.2 (next out.2) rs' table') :
    Appends s (ysTry out next) (rs ++ rs') table' := by
  intro sp hsp
  rcases h sp hsp with ⟨hresult, htable, sp1, hsp1, hstream1⟩
  unfold SinkSession.ysTry
  rw [if_pos hresult]
  rcases hnext htable sp1 hsp1 with ⟨hresult', htable', sp2, hsp2, hstream2⟩
  refine ⟨hresult', htable', sp2, hsp2, ?_⟩
  rw [hstream2, hstream1, List.append_assoc]

theorem flushSession_bufpos (s : Session) : (flushSession s).2.bufpos = 0 := by
  unfold flushSession
  split
  · rfl
  · rename_i h
    exact not_not.mp h

/-- A flush moves the buffer into a message and appends nothing. -/
theorem flushSession_appends (s : Session) : Appends s (flushSession s) [] s.table := by
  unfold flushSession
  split
  · -- the buffered bytes become one message
    intro sp h
    refine ⟨rfl, rfl, sp.flush, ?_, by simp⟩
    constructor
    · rfl
    · exact Nat.zero_le _
    · exact h.buffer_length
    · simpa [webbyBeginSocketFrame, webbyWrite, webbyEndSocketFrame] using h.carries.flush
  · exact Appends.refl s

theorem makeRoom_appends (s : Session) (size : ℕ) : Appends s (makeRoom s size) [] s.table := by
  unfold makeRoom
  split
  · exact flushSession_appends s
  · exact Appends.refl s

/-- There is room now, or the buffer is empty. -/
theorem makeRoom_room (s : Session) (size : ℕ) :
    size ≤ kBufSize - (makeRoom s size).2.bufpos ∨ (makeRoom s size).2.bufpos = 0 := by
  unfold makeRoom
  split
  · right
    exact flushSession_bufpos s
  · left
    show size ≤ kBufSize - s.bufpos
    omega

/-- An event there is room for is written behind the buffered bytes. -/
theorem encodeIntoBuffer_eq {s : Session} {ev : EventData p} {r : Record}
    (hr : ofEvent ev = some r) (hroom : encodeSize ev ≤ kBufSize - s.bufpos) :
    encodeIntoBuffer s ev = (.success, { s with
      bufpos := s.bufpos + r.text.length
      buffer :=
        s.buffer.take s.bufpos ++ r.text ++ s.buffer.drop (s.bufpos + r.text.length) }) := by
  unfold encodeIntoBuffer
  rw [encodeEvent_record hr hroom]
  rfl

/-- An event that fits is appended to the buffer. -/
theorem encodeIntoBuffer_appends {s : Session} {ev : EventData p} {r : Record}
    (hr : ofEvent ev = some r) (hroom : encodeSize ev ≤ kBufSize - s.bufpos) :
    Appends s (encodeIntoBuffer s ev) [r] s.table := by
  intro sp h
  have hlen := encodeSize_record hr
  have hpos := h.bufpos_le
  have hsize := h.buffer_length
  have htake : (s.buffer.take s.bufpos).length = s.bufpos := by
    rw [List.length_take]
    omega
  rw [encodeIntoBuffer_eq hr hroom]
  -- the record joins the batch that waits in the buffer
  refine ⟨rfl, rfl, sp.put r, ?_, by simp⟩
  constructor
  · exact h.frame_eq
  · show s.bufpos + r.text.length ≤ kBufSize
    omega
  · show (s.buffer.take s.bufpos ++ r.text ++ s.buffer.drop (s.bufpos + r.text.length)).length = _
    rw [List.length_append, List.length_append, List.length_drop, htake]
    omega
  · show Carries format _ ((s.buffer.take s.bufpos ++ r.text ++ _).take _) _
    rw [List.take_left' (by rw [List.length_append, htake])]
    exact h.carries.put r

/-- The record that announces a string. -/
def stringRecord (str : CString p) : Record :=
  .string str.handle
    ⟨str.text.take (BitVec.ofNat 16 str.text.length).toNat, by
      have := (BitVec.ofNat 16 str.text.length).isLt
      rw [List.length_take]
      omega⟩

theorem ofEvent_stringEvent (str : CString p) :
    ofEvent (stringEvent str) = some (stringRecord str) := rfl

/-- The string sent on its own is the same record. -/
theorem sendString_messages (s : Session) (str : CString p) :
    (sendString s str).connection.messages =
      s.connection.messages ++ [(stringRecord str).text] := by
  have hlen : (str.text.take (BitVec.ofNat 16 str.text.length).toNat).length =
      (BitVec.ofNat 16 str.text.length).toNat := by
    rw [List.length_take, BitVec.toNat_ofNat]
    exact Nat.min_eq_left (Nat.mod_le _ _)
  have hsize : BitVec.ofNat 16
      (str.text.take (BitVec.ofNat 16 str.text.length).toNat).length =
      BitVec.ofNat 16 str.text.length := by
    rw [hlen, BitVec.ofNat_toNat, BitVec.setWidth_eq]
  simp only [sendString, webbyBeginSocketFrame, webbyWrite, webbyEndSocketFrame, Option.map_some,
    stringRecord, Record.text, Record.tag, Record.body, hsize]
  simp

/-- A string that is sent past the buffer, which is empty then. -/
theorem sendString_appends {s : Session} (str : CString p) (hempty : s.bufpos = 0) :
    Appends s (.success, sendString s str) [stringRecord str] s.table := by
  intro sp h
  -- nothing waits in the buffer, so a message of its own keeps the order
  have hpending : sp.pending = [] := by
    have hcarries := h.carries
    rw [hempty] at hcarries
    exact hcarries.pending_eq_nil
  refine ⟨rfl, rfl, sp.send (stringRecord str), ?_, Spool.stream_send hpending _⟩
  constructor
  · rfl
  · exact h.bufpos_le
  · exact h.buffer_length
  · rw [sendString_messages]
    exact h.carries.send _

/-- A string is stored where there is room, or in an empty buffer. -/
theorem storeString_appends {s : Session} (str : CString p)
    (hroom : encodeSize (stringEvent str) ≤ kBufSize - s.bufpos ∨ s.bufpos = 0) :
    Appends s (storeString s str) [stringRecord str] s.table := by
  unfold storeString
  split
  · exact encodeIntoBuffer_appends (ofEvent_stringEvent str) ‹_›
  · -- the string is longer than the buffer
    rename_i hfull
    rcases hroom with hfits | hempty
    · exact absurd hfits hfull
    · exact sendString_appends str hempty

theorem setTable_appends (s : Session) (table : Table) :
    Appends s (.success, { s with table := table }) [] table := by
  intro sp h
  exact ⟨rfl, rfl, sp, ⟨h.frame_eq, h.bufpos_le, h.buffer_length, h.carries⟩,
    (List.append_nil _).symm⟩

/-! ### Strings -/

/-- The records a string causes: none if its mark is set. -/
def announce (table : Table) (str : CString p) : List Record :=
  if marked table str.handle then [] else [stringRecord str]

/-- The table once a string has been announced. -/
def remember (table : Table) (str : CString p) : Table :=
  if marked table str.handle then table else mark table str.handle

/-- A string goes out unless its place in the table is taken. -/
theorem writeSessionString_appends (s : Session) (str : CString p) :
    Appends s (writeSessionString s str) (announce s.table str) (remember s.table str) := by
  unfold writeSessionString announce remember
  cases hmark : marked s.table str.handle with
  | true => simpa using Appends.refl s
  | false =>
    simp only [if_true, Bool.false_eq_true, if_false]
    -- make room, write the record either way, set the mark
    apply (makeRoom_appends s _).ysTry
    intro htable
    have hstore := storeString_appends str (makeRoom_room s (encodeSize (stringEvent str)))
    apply hstore.ysTry
    intro hstored
    rw [hstored, htable]
    exact setTable_appends _ _

/-- The records that announce strings one after another. -/
def announceAll (table : Table) : List (CString p) → List Record
  | [] => []
  | str :: strs => announce table str ++ announceAll (remember table str) strs

def rememberAll (table : Table) (strs : List (CString p)) : Table := strs.foldl remember table

/-- The strings of an event. -/
def strings : EventData p → List (CString p)
  | .region _ name file _ _ => [name, file]
  | .counterSet _ name file _ _ => [name, file]
  | .counterAdd name _ => [name]
  | _ => []

/-- The two strings of a region or a counter are announced in order. -/
theorem writeTwoStrings_appends (s : Session) (name file : CString p) :
    Appends s (ysTry (writeSessionString s name) fun s => writeSessionString s file)
      (announceAll s.table [name, file]) (rememberAll s.table [name, file]) := by
  apply (writeSessionString_appends s name).ysTry
  intro htable
  have hfile := writeSessionString_appends (writeSessionString s name).2 file
  rw [htable] at hfile
  simpa [announceAll, rememberAll] using hfile

/-- The strings of an event are announced, whichever it has. -/
theorem writeSessionStrings_appends (s : Session) (ev : EventData p) :
    Appends s (writeSessionStrings s ev) (announceAll s.table (strings ev))
      (rememberAll s.table (strings ev)) := by
  cases ev with
  | region line name file begin end' => exact writeTwoStrings_appends s name file
  | counterSet line name file time value => exact writeTwoStrings_appends s name file
  | counterAdd name amount =>
    simpa [announceAll, rememberAll, strings, writeSessionStrings]
      using writeSessionString_appends s name
  | _ => exact Appends.refl s

/-- An event that fits into an empty buffer adds the records of its new strings
and then its own. -/
theorem writeSessionEvent_appends (s : Session) {ev : EventData p} {r : Record}
    (hr : ofEvent ev = some r) (hsize : encodeSize ev ≤ kBufSize) :
    Appends s (writeSessionEvent s ev) (announceAll s.table (strings ev) ++ [r])
      (rememberAll s.table (strings ev)) := by
  unfold writeSessionEvent
  apply (writeSessionStrings_appends s ev).ysTry
  intro htable
  rw [← htable]
  apply (makeRoom_appends _ (encodeSize ev)).ysTry
  intro hroomy
  rw [← hroomy]
  refine encodeIntoBuffer_appends hr ?_
  -- the event itself always fits into an empty buffer
  rcases makeRoom_room (writeSessionStrings s ev).2 (encodeSize ev) with hroom | hempty
  · exact hroom
  · rw [hempty]
    exact hsize

/-! ## Whole sessions -/

/-- Every event that is emitted is a record that fits the buffer. -/
theorem emitted_record (ev : Emitted p) :
    ∃ r, ofEvent ev.val = some r ∧ r.isString = false ∧ encodeSize ev.val ≤ kBufSize := by
  rcases ev with ⟨ev, hev⟩
  cases ev with
  | none => cases hev
  | header frequency start => cases hev
  | string data => cases hev
  | _ => exact ⟨_, rfl, rfl, by simp [encodeSize, kBufSize]⟩

/-- The events among the operations. -/
def written : List (Op p) → List (Emitted p)
  | [] => []
  | .write ev :: ops => ev :: written ops
  | .flush :: ops => written ops

/-- The records of events, each behind those of its new strings. -/
def output (table : Table) : List (Emitted p) → List Record
  | [] => []
  | ev :: evs =>
    announceAll table (strings ev.val) ++ (ofEvent ev.val).toList ++
      output (rememberAll table (strings ev.val)) evs

/-- After any operations the session is in good order and its stream has grown
by the output of the events written. -/
theorem runOps_valid (ops : List (Op p)) {s : Session} {sp : Spool Record} (h : Valid s sp) :
    ∃ sp', Valid (runOps s ops) sp' ∧
      sp'.stream = sp.stream ++ output s.table (written ops) := by
  induction ops generalizing s sp with
  | nil => exact ⟨sp, h, (List.append_nil _).symm⟩
  | cons op ops ih =>
    cases op with
    | write ev =>
      rcases emitted_record ev with ⟨r, hr, -, hsize⟩
      rcases writeSessionEvent_appends s hr hsize sp h with ⟨-, htable, sp1, hsp1, hstream1⟩
      rcases ih hsp1 with ⟨sp2, hsp2, hstream2⟩
      refine ⟨sp2, hsp2, ?_⟩
      rw [hstream2, hstream1, htable]
      simp [written, output, hr]
    | flush =>
      rcases flushSession_appends s sp h with ⟨-, htable, sp1, hsp1, hstream1⟩
      rcases ih hsp1 with ⟨sp2, hsp2, hstream2⟩
      refine ⟨sp2, hsp2, ?_⟩
      rw [hstream2, hstream1, htable, List.append_nil]
      rfl

theorem createSession_valid (memory : Vector UInt8 kBufSize) :
    Valid (createSession memory) ⟨[], []⟩ where
  frame_eq := rfl
  bufpos_le := Nat.zero_le _
  buffer_length := by simp [createSession]
  carries := ⟨rfl, rfl⟩

/-- The stream of a session: its header, then the output of its events. -/
theorem session_valid (memory : Vector UInt8 kBufSize) (frequency start : BitVec 64)
    (ops : List (Op p)) :
    ∃ sp, Valid (runOps (openSession p memory frequency start) ops) sp ∧
      sp.stream = .header frequency start ::
        output emptyTable (written ops) := by
  have hrecord : ofEvent (.header frequency start : EventData p) =
      some (.header frequency start) := rfl
  have hheader := writeSessionEvent_appends (createSession memory) hrecord
    (by simp [encodeSize, kBufSize])
  rcases hheader _ (createSession_valid memory) with ⟨-, htable, sp, hsp, hstream⟩
  rcases runOps_valid ops hsp with ⟨sp', hsp', hstream'⟩
  refine ⟨sp', hsp', ?_⟩
  rw [hstream', hstream, htable]
  rfl

/-- Only strings of the list are announced. -/
theorem mem_announceAll {strs : List (CString p)} {table : Table} {r : Record}
    (h : r ∈ announceAll table strs) : ∃ str ∈ strs, stringRecord str = r := by
  induction strs generalizing table with
  | nil => cases h
  | cons str strs ih =>
    rcases List.mem_append.mp h with hmem | hmem
    · unfold announce at hmem
      split at hmem
      · cases hmem
      · exact ⟨str, List.mem_cons_self, (List.mem_singleton.mp hmem).symm⟩
    · rcases ih hmem with ⟨str', hstr', hrecord⟩
      exact ⟨str', List.mem_cons_of_mem _ hstr', hrecord⟩

theorem isString_announceAll (table : Table) (strs : List (CString p)) :
    ∀ r ∈ announceAll table strs, r.isString = true := by
  intro r hr
  rcases mem_announceAll hr with ⟨str, -, rfl⟩
  rfl

/-- Without the `String` records the output is one record per event. -/
theorem output_filter (table : Table) (evs : List (Emitted p)) :
    ((output table evs).filter fun r => !r.isString).map some =
      evs.map fun ev => ofEvent ev.val := by
  induction evs generalizing table with
  | nil => rfl
  | cons ev evs ih =>
    rcases emitted_record ev with ⟨r, hr, hstring, -⟩
    have hnone : (announceAll table (strings ev.val)).filter (fun r => !r.isString) = [] := by
      rw [List.filter_eq_nil_iff]
      intro r' hr'
      simp [isString_announceAll table _ r' hr']
    simp only [output, List.filter_append, hnone, hr, List.nil_append, Option.toList_some,
      List.map_append, ih, List.map_cons]
    simp [hstring]

/-- The messages of a session and, behind them, what its buffer still holds. -/
def chunks (s : Session) : List (List UInt8) := s.connection.messages ++ [s.buffer.take s.bufpos]

/-- The events the viewer reads in a message. -/
def decode (bytes : List UInt8) : List (YsEvent ℕ (BitVec 64)) :=
  match readAll id bytes with
  | some it => it.events
  | none => []

/-- The reader takes the whole message and meets no error. -/
def Readable (bytes : List UInt8) : Prop :=
  ∃ it, readAll id bytes = some it ∧ it.thrown = none ∧ it.reader.error = none ∧
    it.reader.pos = bytes.length

theorem decode_join (rs : List Record) : decode (format.join rs) = rs.map (ofRecord id) := by
  unfold decode
  rw [readAll_join]

theorem readable_join (rs : List Record) : Readable (format.join rs) :=
  ⟨_, readAll_join id rs, rfl, rfl, rfl⟩

/-- The messages and the buffer of a session are the texts of its batches. -/
theorem Valid.chunks_eq {s : Session} {sp : Spool Record} (h : Valid s sp) :
    chunks s = (sp.sent ++ [sp.pending]).map format.join := by
  unfold chunks
  rw [h.carries.messages_eq, h.carries.held_eq]
  simp

/-- Decoding them in order gives the stream. -/
theorem Valid.decode_eq {s : Session} {sp : Spool Record} (h : Valid s sp) :
    (chunks s).flatMap decode = sp.stream.map (ofRecord id) := by
  rw [h.chunks_eq, List.flatMap_map]
  simp only [decode_join]
  simp [Spool.stream, List.flatMap_def, List.map_flatten]

/-- A session that starts with its header and then writes events and flushes,
in any order: `_bufpos` stays within the buffer; every message, and the bytes
in the buffer, are whole records that the reader takes to the last byte; and
what is decoded is, up to `String` records, the header and the events written,
in order. -/
theorem session_stream (memory : Vector UInt8 kBufSize) (frequency start : BitVec 64)
    (ops : List (Op p)) :
    let s := runOps (openSession p memory frequency start) ops
    s.bufpos ≤ kBufSize ∧
    (∀ bytes ∈ chunks s, (∃ rs, bytes = format.join rs) ∧ Readable bytes) ∧
    (((chunks s).flatMap decode).filter fun ev => !ev.isString).map some =
      viewOf (.header frequency start : EventData p) ::
        (written ops).map fun ev => viewOf ev.val := by
  intro s
  rcases session_valid memory frequency start ops with ⟨sp, hvalid, hstream⟩
  refine ⟨hvalid.bufpos_le, ?_, ?_⟩
  · -- a chunk is the text of one batch
    intro bytes hbytes
    rw [hvalid.chunks_eq] at hbytes
    rcases List.mem_map.mp hbytes with ⟨rs, -, rfl⟩
    exact ⟨⟨rs, rfl⟩, readable_join rs⟩
  · -- the chunks decode to the stream, which without strings is the events
    have hout := output_filter emptyTable (written ops)
    have hfilter : (fun ev : YsEvent ℕ (BitVec 64) => !ev.isString) ∘ ofRecord id =
        fun r => !r.isString := by
      funext r
      simp
    rw [hvalid.decode_eq, hstream, List.filter_map, hfilter, List.filter_cons_of_pos (by rfl)]
    generalize (output _ (written ops)).filter _ = rs at hout ⊢
    calc ((Record.header frequency start :: rs).map (ofRecord id)).map some
        = viewOf (.header frequency start : EventData p) ::
            (rs.map some).map (Option.map (ofRecord id)) := by
          simp [ofRecord, viewOf]
      _ = _ := by
          rw [hout, List.map_map]
          congr 1
          exact List.map_congr_left fun ev _ => (viewOf_eq ev.val).symm

end Yardstick.SinkSession
