import Yardstick.EventReader

/-!
# RoundTrip — from EncodeEvent to YsEventReader

The library encodes in C++ and the viewer decodes in JavaScript. Both are
compared with the format of `Wire`, and here with each other: what is encoded
event after event is read back event after event (`readAll_encodeAll`).
-/

namespace Yardstick.RoundTrip

open PointerHash Protocol Wire EventReader

variable {p : PtrSize}

/-- The object the viewer should get for an event: strings as their handles,
64-bit integers as numbers, doubles as their bit patterns. -/
def viewOf : EventData p → Option (YsEvent ℕ (BitVec 64))
  | .none => none
  | .header frequency start => some (.header frequency.toNat start.toNat)
  | .tick time => some (.tick time.toNat)
  | .region line name file begin end' =>
    some (.region line.toNat (hashPointer p name.addr).toNat (hashPointer p file.addr).toNat
      begin.toNat end'.toNat)
  | .counterSet line name file time value =>
    some (.counterSet line.toNat (hashPointer p name.addr).toNat (hashPointer p file.addr).toNat
      time.toNat value)
  | .string data =>
    some (.string data.id.toNat data.size.toNat
      ((data.str.take data.size.toNat).map fromCharCode))
  | .counterAdd name amount => some (.counterAdd (hashPointer p name.addr).toNat amount)

/-- The bytes of events encoded one after another, each into a buffer of the
size given with it. -/
def encodeAll (evs : List (EventData p × ℕ)) : List UInt8 :=
  evs.flatMap fun e => (encodeEvent false e.2 e.1).2

/-- The record of an event is read as the view of the event. -/
theorem viewOf_eq (ev : EventData p) : viewOf ev = (ofEvent ev).map (ofRecord id) := by
  cases ev with
  | string data =>
    have hlen : (data.str.take data.size.toNat).length = data.size.toNat :=
      stringPayload_length data
    simp only [viewOf, ofEvent, ofRecord, Option.map_some, stringPayload, hlen]
  | _ => rfl

theorem exists_record {ev : EventData p} (h : ev ≠ .none) : ∃ r, ofEvent ev = some r := by
  cases ev with
  | none => exact absurd rfl h
  | _ => exact ⟨_, rfl⟩

/-- Encoding events, each with enough room, makes a concatenation of their
records. -/
theorem encodeAll_records (evs : List (EventData p × ℕ))
    (hroom : ∀ e ∈ evs, e.1 ≠ .none ∧ encodeSize e.1 ≤ e.2) :
    ∃ rs, rs.map some = evs.map (fun e => ofEvent e.1) ∧ encodeAll evs = format.join rs := by
  induction evs with
  | nil => exact ⟨[], rfl, rfl⟩
  | cons e evs ih =>
    rcases hroom e List.mem_cons_self with ⟨hne, hsize⟩
    rcases exists_record hne with ⟨r, hr⟩
    rcases ih fun e' he' => hroom e' (List.mem_cons_of_mem e he') with ⟨rs, hrs, hjoin⟩
    refine ⟨r :: rs, ?_, ?_⟩
    · rw [List.map_cons, List.map_cons, hrs, hr]
    · have htext : (encodeEvent false e.2 e.1).2 = r.text := by
        rw [encodeEvent_record hr hsize]
      rw [Framing.Format.join_cons, ← hjoin]
      unfold encodeAll
      rw [List.flatMap_cons, htext]
      rfl

/-- Events of the six types, encoded one after another into buffers that are
large enough, are read back one by one with equal fields, and the reader stops
behind the last byte without an error. -/
theorem readAll_encodeAll (evs : List (EventData p × ℕ))
    (hroom : ∀ e ∈ evs, e.1 ≠ .none ∧ encodeSize e.1 ≤ e.2) :
    (∀ e ∈ evs, (encodeEvent false e.2 e.1).1 = .success) ∧
    ∃ it, readAll id (encodeAll evs) = some it ∧
      it.events.map some = evs.map (fun e => viewOf e.1) ∧
      it.thrown = none ∧ it.reader.error = none ∧ it.reader.pos = (encodeAll evs).length := by
  constructor
  · intro e he
    rcases hroom e he with ⟨hne, hsize⟩
    rcases exists_record hne with ⟨r, hr⟩
    rw [encodeEvent_record hr hsize]
  · rcases encodeAll_records evs hroom with ⟨rs, hrs, hjoin⟩
    rw [hjoin]
    refine ⟨_, readAll_join id rs, ?_, rfl, rfl, rfl⟩
    calc (rs.map (ofRecord id)).map some
        = (rs.map some).map (Option.map (ofRecord id)) := by simp
      _ = evs.map (fun e => viewOf e.1) := by
        rw [hrs, List.map_map]
        exact List.map_congr_left fun e _ => (viewOf_eq e.1).symm

/-- A counter and a tick, in buffers with no byte to spare. -/
theorem readAll_two_events :
    ∃ it, readAll id (encodeAll (p := .four)
        [(.counterAdd ⟨0x1000, [65], by decide⟩ 0x3ff0000000000000, 13), (.tick 7, 9)]) = some it ∧
      it.events.map some =
        [viewOf (p := .four) (.counterAdd ⟨0x1000, [65], by decide⟩ 0x3ff0000000000000),
          some (.tick 7)] := by
  obtain ⟨it, hit, hevents, -⟩ := (readAll_encodeAll (p := .four)
    [(.counterAdd ⟨0x1000, [65], by decide⟩ 0x3ff0000000000000, 13), (.tick 7, 9)]
    (by simp [encodeSize])).2
  exact ⟨it, hit, hevents⟩

end Yardstick.RoundTrip
