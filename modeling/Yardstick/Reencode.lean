import Yardstick.RoundTrip

/-!
# Reencode — from YsEventReader back to the bytes

The events read from a message are written again in the layout of
`EncodeEvent`. The reader accepts exactly the concatenations of records, and
then nothing of the message is lost (`accepts_iff`).

* `read_event`: a `read()` that returns an event has read a record and stands
  behind it, so a loop over a reader always ends;
* `reencode_viewOf`: `reencode` is `EncodeEvent` on the view of an event.
-/

namespace Yardstick.Reencode

open LittleEndian PointerHash Protocol Wire EventReader RoundTrip

/-! ## Every event moves the position on -/

variable {N : Type} (num : ℕ → N)

/-- Where an event is returned there is a record, and the position moves
behind it. -/
theorem read_event {r : Reader} {ev : YsEvent N (BitVec 64)}
    (h : (EventReader.read num r).1 = .ok (some ev)) :
    ∃ record rest, r.data.drop r.pos = record.text ++ rest ∧ ev = ofRecord num record ∧
      (EventReader.read num r).2 = { r with pos := r.pos + record.text.length } := by
  rcases r with ⟨data, pos, error⟩
  cases hdrop : data.drop pos with
  | nil =>
    -- behind the last record
    rw [read_end num (List.drop_eq_nil_iff.mp hdrop)] at h
    cases h
  | cons b tl =>
    cases hparse : parse (b :: tl) with
    | some p =>
      have htext := text_of_parse _ p.2 p.1 hparse
      have hread : EventReader.read num ⟨data, pos, error⟩ = _ :=
        read_record num p.1 (hdrop.trans htext)
      rw [hread] at h
      refine ⟨p.1, p.2, htext, ?_, by rw [hread]⟩
      exact (Option.some.inj (Except.ok.inj h)).symm
    | none =>
      by_cases hb : KnownType b
      · -- a record cut short
        rw [read_truncated num error hdrop hb hparse] at h
        cases h
      · -- a byte that is no type
        rw [read_unknown num error hdrop hb] at h
        cases h

theorem read_pos_lt {r : Reader} {ev : YsEvent N (BitVec 64)}
    (h : (EventReader.read num r).1 = .ok (some ev)) :
    r.pos < (EventReader.read num r).2.pos := by
  rcases read_event num h with ⟨record, rest, -, -, hread⟩
  rw [hread]
  exact Nat.lt_add_of_pos_right (format.text_length_pos record)

/-- A loop over a reader ends, after at most one read per byte that is left and
one more. -/
theorem iterate_ends (n : ℕ) (r : Reader) (hn : r.data.length - r.pos ≤ n) :
    ∃ it, iterate num (n + 1) r = some it := by
  induction n generalizing r with
  | zero =>
    have hend : r.data.length ≤ r.pos := by omega
    have hread : EventReader.read num r = (.ok none, r) := read_end num hend
    exact ⟨⟨[], r, none⟩, by rw [iterate, hread]⟩
  | succ n ih =>
    rw [iterate]
    rcases hread : EventReader.read num r with ⟨result, r'⟩
    rcases result with e | _ | ev
    · exact ⟨_, rfl⟩
    · exact ⟨_, rfl⟩
    · -- the record read is not empty
      rcases read_event num (by rw [hread]) with ⟨record, rest, hdrop, -, hr'⟩
      have hpos : 0 < record.text.length := format.text_length_pos record
      have hlen := congrArg List.length hdrop
      rw [List.length_drop, List.length_append] at hlen
      rw [hread] at hr'
      have hleft : r'.data.length - r'.pos ≤ n := by
        rw [show r' = _ from hr']
        show r.data.length - (r.pos + record.text.length) ≤ n
        omega
      rcases ih r' hleft with ⟨it, hit⟩
      simp [hit]

/-! ## Writing the events back -/

/-- An event in the layout of `EncodeEvent`, with the handles it holds written
where the encoder hashes a pointer. -/
def reencode : YsEvent ℕ (BitVec 64) → List UInt8
  | .header frequency start =>
    1 :: (encode (BitVec.ofNat 64 frequency) ++ encode (BitVec.ofNat 64 start))
  | .tick time => 2 :: encode (BitVec.ofNat 64 time)
  | .region line name file start end' =>
    3 :: (encode (BitVec.ofNat 32 line) ++ (encode (BitVec.ofNat 32 name) ++
      (encode (BitVec.ofNat 32 file) ++ (encode (BitVec.ofNat 64 start) ++
        encode (BitVec.ofNat 64 end')))))
  | .counterSet line name file time value =>
    4 :: (encode (BitVec.ofNat 32 line) ++ (encode (BitVec.ofNat 32 name) ++
      (encode (BitVec.ofNat 32 file) ++ (encode (BitVec.ofNat 64 time) ++ encode value))))
  | .string id size str =>
    5 :: (encode (BitVec.ofNat 32 id) ++ (encode (BitVec.ofNat 16 size) ++
      (str.map UInt16.toUInt8).take size))
  | .counterAdd name amount => 6 :: (encode (BitVec.ofNat 32 name) ++ encode amount)

/-- Encoding what a record was read as gives its bytes again. -/
theorem reencode_ofRecord (r : Record) : reencode (ofRecord id r) = r.text := by
  cases r with
  | string handle payload =>
    have hchars : UInt16.toUInt8 ∘ fromCharCode = id := by
      funext b
      exact UInt8.toUInt8_toUInt16 b
    simp [reencode, ofRecord, Record.text, Record.tag, Record.body, hchars]
  | _ => simp [reencode, ofRecord, Record.text, Record.tag, Record.body]

/-- The bytes `EncodeEvent` writes for an event are those of its view. -/
theorem reencode_viewOf {p : PtrSize} {ev : EventData p} {v : YsEvent ℕ (BitVec 64)}
    (hv : viewOf ev = some v) {available : ℕ} (hroom : encodeSize ev ≤ available) :
    (encodeEvent false available ev).2 = reencode v := by
  rw [viewOf_eq] at hv
  rcases Option.map_eq_some_iff.mp hv with ⟨r, hr, rfl⟩
  rw [encodeEvent_record hr hroom, reencode_ofRecord]

/-! ## What the reader accepts -/

/-- The loop over a message returns `events` and is left with no error and no
exception. -/
def Accepts (data : DataView) (events : List (YsEvent ℕ (BitVec 64))) : Prop :=
  ∃ it, readAll id data = some it ∧ it.thrown = none ∧ it.reader.error = none ∧
    it.events = events

/-- The inputs the reader accepts are the records that can be written, one after
the other. -/
theorem accepts_iff_records {data : DataView} {events : List (YsEvent ℕ (BitVec 64))} :
    Accepts data events ↔ ∃ rs, data = format.join rs ∧ events = rs.map (ofRecord id) := by
  constructor
  · rintro ⟨it, hit, hthrown, herror, rfl⟩
    rcases readAll_cases id data with ⟨hrest, hread⟩ | ⟨b, tl, -, -, hread⟩ |
      ⟨b, tl, -, -, r', hread⟩
    · -- nothing follows the records
      rw [hit] at hread
      cases hread
      have hsplit := (format.split_spec data).1
      rw [hrest, List.append_nil] at hsplit
      exact ⟨_, hsplit, rfl⟩
    · -- an unknown type is noted as an error
      rw [hit] at hread
      cases hread
      cases herror
    · -- a record cut short is thrown
      rw [hit] at hread
      cases hread
      cases hthrown
  · rintro ⟨rs, rfl, rfl⟩
    exact ⟨_, readAll_join id rs, rfl, rfl, rfl⟩

theorem reencode_records (rs : List Record) :
    (rs.map (ofRecord id)).flatMap reencode = format.join rs := by
  rw [List.flatMap_map]
  simp only [reencode_ofRecord]
  rfl

/-- The events of an accepted message are its bytes in other words. -/
theorem reencode_of_accepts {data : DataView} {events : List (YsEvent ℕ (BitVec 64))}
    (h : Accepts data events) : events.flatMap reencode = data := by
  rcases accepts_iff_records.mp h with ⟨rs, rfl, rfl⟩
  exact reencode_records rs

/-- The reader accepts a message exactly if it is a concatenation of records;
the events returned then give back the message, so that two messages with the
same events are the same; every event returned moves the position on, and the
loop over a reader ends wherever it starts. -/
theorem accepts_iff (data : DataView) :
    ((∃ events, Accepts data events) ↔ ∃ rs, data = format.join rs) ∧
    (∀ events, Accepts data events → events.flatMap reencode = data) ∧
    (∀ data' events, Accepts data events → Accepts data' events → data = data') ∧
    (∀ r ev, (EventReader.read id r).1 = .ok (some ev) → r.pos < (EventReader.read id r).2.pos) ∧
    (∀ r, ∃ fuel it, iterate id fuel r = some it) := by
  refine ⟨?_, fun events => reencode_of_accepts, ?_, fun r ev => read_pos_lt id, ?_⟩
  · constructor
    · rintro ⟨events, h⟩
      rcases accepts_iff_records.mp h with ⟨rs, hrs, -⟩
      exact ⟨rs, hrs⟩
    · rintro ⟨rs, hrs⟩
      exact ⟨_, accepts_iff_records.mpr ⟨rs, hrs, rfl⟩⟩
  · intro data' events h h'
    rw [← reencode_of_accepts h, ← reencode_of_accepts h']
  · intro r
    exact ⟨_, iterate_ends id _ r (Nat.le_refl _)⟩

end Yardstick.Reencode
