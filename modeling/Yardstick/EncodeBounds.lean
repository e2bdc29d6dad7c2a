import Yardstick.Wire

/-!
# EncodeBounds — EncodeEvent and the end of the buffer

Every field goes through a test against what is left of the buffer, except the
text of a `String` event. So `EncodeEvent` agrees with `EncodeSize` and stays
inside of the buffer for all events but the strings whose first seven bytes fit
and whose text does not (`encodeEvent_bounded_iff`).
-/

namespace Yardstick.EncodeBounds

open LittleEndian PointerHash Protocol Wire

variable {p : PtrSize}

/-- What `EncodeEvent` should do with `available` bytes of buffer: succeed
exactly if `EncodeSize` bytes fit, then write that many, and never write at an
offset from `available` on. -/
structure Bounded (available : ℕ) (ev : EventData p) : Prop where
  result : (encodeEvent false available ev).1 =
    if encodeSize ev ≤ available then .success else .noMemory
  length : (encodeEvent false available ev).1 = .success →
    (encodeEvent false available ev).2.length = encodeSize ev
  written : (encodeEvent false available ev).2.length ≤ available

/-- Fields that do not all fit: the write stops with an error, inside of the
buffer. -/
theorem tryWrites_overrun {available : ℕ} {values : List (List UInt8)} {written : List UInt8}
    (hwritten : written.length ≤ available)
    (hover : available < written.length + values.flatten.length) :
    (tryWrites available values written).1 = .noMemory ∧
    (tryWrites available values written).2.length ≤ available := by
  induction values generalizing written with
  | nil =>
    rw [List.flatten_nil, List.length_nil] at hover
    omega
  | cons value values ih =>
    rw [List.flatten_cons, List.length_append] at hover
    unfold tryWrites
    split
    · -- this field is the one that does not fit
      exact ⟨rfl, hwritten⟩
    · rename_i hspace
      have hlen : (written ++ value).length = written.length + value.length :=
        List.length_append
      apply ih
      · omega
      · omega

/-- The fields that `EncodeEvent` writes with a test. -/
def fields : EventData p → List (List UInt8)
  | .none => [[0]]
  | .header frequency start => [[1], encode frequency, encode start]
  | .tick time => [[2], encode time]
  | .region line name file begin end' =>
    [[3], encode line, encode name.handle, encode file.handle, encode begin, encode end']
  | .counterSet line name file time value =>
    [[4], encode line, encode name.handle, encode file.handle, encode time, encode value]
  | .string data => [[5], encode data.id, encode data.size]
  | .counterAdd name amount => [[6], encode name.handle, encode amount]

/-- The bytes it copies without one. -/
def rawText : EventData p → List UInt8
  | .string data => data.str.take data.size.toNat
  | _ => []

/-- The size that is computed is that of the fields and of the text behind them. -/
theorem encodeSize_fields (ev : EventData p) :
    encodeSize ev = (fields ev).flatten.length + (rawText ev).length := by
  cases ev with
  | string data =>
    have hle := data.size_le
    simp [encodeSize, fields, rawText]
    omega
  | _ => simp [encodeSize, fields, rawText]

/-- `EncodeEvent` is the tested fields and then the text. -/
theorem encodeEvent_fields (available : ℕ) (ev : EventData p) :
    encodeEvent false available ev =
      match tryWrites available (fields ev) [] with
      | (.success, written) => (.success, written ++ rawText ev)
      | failed => failed := by
  cases ev with
  | string data => rfl
  | _ =>
    simp only [encodeEvent, EventData.type, fields, rawText, Bool.false_eq_true, if_false,
      List.append_nil]
    generalize tryWrites available _ [] = out
    rcases out with ⟨result, written⟩
    cases result <;> rfl

/-- The tested fields fit: the event is written, whether its text fits or not. -/
theorem encodeEvent_fit {ev : EventData p} {available : ℕ}
    (hfit : (fields ev).flatten.length ≤ available) :
    encodeEvent false available ev = (.success, (fields ev).flatten ++ rawText ev) := by
  rw [encodeEvent_fields, tryWrites_fit (by simpa using hfit), List.nil_append]

/-- They do not fit: the error of the first one that does not. -/
theorem encodeEvent_overrun {ev : EventData p} {available : ℕ}
    (hover : available < (fields ev).flatten.length) :
    (encodeEvent false available ev).1 = .noMemory ∧
    (encodeEvent false available ev).2.length ≤ available := by
  have hwrites : (tryWrites available (fields ev) []).1 = .noMemory ∧
      (tryWrites available (fields ev) []).2.length ≤ available :=
    tryWrites_overrun (Nat.zero_le _) (by simpa using hover)
  rw [encodeEvent_fields]
  split
  · -- the fields in front of the text were refused
    rename_i hsuccess
    rw [hsuccess] at hwrites
    cases hwrites.1
  · exact hwrites

/-- `EncodeEvent` respects the buffer unless it is given a string whose text
alone runs over the end. -/
theorem encodeEvent_bounded_iff (available : ℕ) (ev : EventData p) :
    Bounded available ev ↔
      ∀ data, ev = .string data →
        available < 1 + 4 + 2 ∨ 1 + 4 + 2 + data.size.toNat ≤ available := by
  have hsize := encodeSize_fields ev
  constructor
  · rintro hbounded data rfl
    by_contra hcut
    push Not at hcut
    have hfit : (fields (.string data : EventData p)).flatten.length ≤ available := by
      simpa [fields] using hcut.1
    have hwritten := hbounded.written
    rw [encodeEvent_fit hfit, List.length_append, ← hsize] at hwritten
    exact absurd hwritten (Nat.not_le.mpr hcut.2)
  · intro hstring
    by_cases hfit : (fields ev).flatten.length ≤ available
    · -- the fields fit, and so does the text
      have hroom : encodeSize ev ≤ available := by
        cases ev with
        | string data =>
          have hfit' : 1 + 4 + 2 ≤ available := by simpa [fields] using hfit
          exact (hstring data rfl).resolve_left (Nat.not_lt.mpr hfit')
        | _ => simpa [hsize, rawText] using hfit
      have hlength : (encodeEvent false available ev).2.length = encodeSize ev := by
        rw [encodeEvent_fit hfit, List.length_append, hsize]
      constructor
      · rw [if_pos hroom, encodeEvent_fit hfit]
      · exact fun _ => hlength
      · exact hlength.trans_le hroom
    · -- some field does not fit
      have hover := encodeEvent_overrun (Nat.lt_of_not_le hfit)
      have hnoroom : ¬ encodeSize ev ≤ available := by omega
      constructor
      · rw [if_neg hnoroom, hover.1]
      · intro hsuccess
        rw [hover.1] at hsuccess
        cases hsuccess
      · exact hover.2

/-- One character of text, and seven bytes of buffer. -/
def oneChar : StringData := ⟨0, 1, [65], by decide⟩

/-- The text is copied behind the end of the buffer, and the call succeeds. -/
theorem encodeEvent_overflow :
    encodeEvent (p := .eight) false 7 (.string oneChar) = (.success, [5, 0, 0, 0, 0, 1, 0, 65]) ∧
    ¬ Bounded (p := .eight) 7 (.string oneChar) := by
  constructor
  · decide
  · intro hbounded
    exact absurd hbounded.written (by decide)

end Yardstick.EncodeBounds
