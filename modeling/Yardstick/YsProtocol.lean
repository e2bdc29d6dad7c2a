import Yardstick.EventReader

/-!
# YsProtocol — the socket handlers of the viewer

`onmessage` reads a message with a fresh `YsEventReader` and reports what it
finds to the callbacks. There is no `try` around the loop, so a getter that
throws ends the handler:

* `onmessage_reports_iff`: the handler reports a message as it should exactly
  when the message is not cut short inside a record.
-/

namespace Yardstick.YsProtocol

open Wire EventReader Framing

/-- The `_stats` of the protocol object. -/
structure Stats where
  events : ℕ
  frames : ℕ
  bytes : ℕ
deriving DecidableEq, Repr

/-- One `emit` of the handler. -/
inductive Emission (N : Type) where
  | event (ev : YsEvent N (BitVec 64))
  | error (message : String)
deriving DecidableEq

/-- An `'error'` emission. -/
def Emission.isError {N : Type} : Emission N → Bool
  | .event _ => false
  | .error _ => true

/-- What the handler has done when it is left: its emissions in order, the
statistics, and the exception that escapes from it, if any. -/
structure Handled (N : Type) where
  emitted : List (Emission N)
  stats : Stats
  thrown : Option JsError
deriving DecidableEq

variable {N : Type} (num : ℕ → N)

/-- `ws.onmessage`. The callbacks do not throw. -/
def onmessage (stats : Stats) (data : DataView) : Option (Handled N) :=
  let stats := { stats with frames := stats.frames + 1, bytes := stats.bytes + data.length }
  (readAll num data).map fun it =>
    let emitted := it.events.map .event
    let stats := { stats with events := stats.events + it.events.length }
    match it.thrown with
    | some e => ⟨emitted, stats, some e⟩
    | none =>
      match it.reader.error with
      | some message => ⟨emitted ++ [.error message], stats, none⟩
      | none => ⟨emitted, stats, none⟩

/-- The split of a message has the longest prefix that consists of whole
records. -/
theorem split_longest (data : DataView) :
    data = format.join (format.split data).1 ++ (format.split data).2 ∧
      ∀ rs rest, data = format.join rs ++ rest → rs <+: (format.split data).1 := by
  refine ⟨(format.split_spec data).1, ?_⟩
  rintro rs rest rfl
  exact format.prefix_of_split rs rest

/-- What the handler should do: one event for each record of the longest
prefix that consists of whole records, in order, then one error if bytes are
left over and none otherwise, and no exception. -/
def Reports (stats : Stats) (data : DataView) : Prop :=
  ∃ h errors, onmessage num stats data = some h ∧ h.thrown = none ∧
    h.emitted = (format.split data).1.map (fun r => .event (ofRecord num r)) ++ errors ∧
    (∀ e ∈ errors, e.isError = true) ∧
    errors.length = if (format.split data).2 = [] then 0 else 1

/-- What is left behind the whole records starts like a record of one of the
six types: a record cut short. -/
def CutShort (data : DataView) : Prop :=
  ∃ b tl, (format.split data).2 = b :: tl ∧ KnownType b

/-- If the loop ends by itself, the events are reported and then the reader's
error, if it has one. -/
theorem onmessage_returns (stats : Stats) {data : DataView} {it : Iteration N}
    (hread : readAll num data = some it) (hthrown : it.thrown = none) :
    ∃ h, onmessage num stats data = some h ∧ h.thrown = none ∧
      h.emitted = it.events.map .event ++ it.reader.error.toList.map .error := by
  unfold onmessage
  rw [hread, Option.map_some, hthrown]
  cases it.reader.error with
  | none => exact ⟨_, rfl, rfl, by simp⟩
  | some message => exact ⟨_, rfl, rfl, by simp⟩

/-- If a read throws, so does the handler. -/
theorem onmessage_throws (stats : Stats) {data : DataView} {it : Iteration N} {e : JsError}
    (hread : readAll num data = some it) (hthrown : it.thrown = some e) :
    ∃ h, onmessage num stats data = some h ∧ h.thrown = some e := by
  unfold onmessage
  rw [hread, Option.map_some, hthrown]
  exact ⟨_, rfl, rfl⟩

/-- The handler reports a message as it should exactly when the message does
not end inside a record. -/
theorem onmessage_reports_iff (stats : Stats) (data : DataView) :
    Reports num stats data ↔ ¬ CutShort data := by
  rcases readAll_cases num data with ⟨hrest, hread⟩ | ⟨b, tl, hrest, hb, hread⟩ |
    ⟨b, tl, hrest, hb, r', hread⟩
  · -- nothing is left over
    constructor
    · rintro - ⟨b, tl, hcut, -⟩
      rw [hrest] at hcut
      cases hcut
    · intro _
      rcases onmessage_returns num stats hread rfl with ⟨h, hmsg, hthrown, hemitted⟩
      refine ⟨h, [], hmsg, hthrown, ?_, by simp, by simp [hrest]⟩
      rw [hemitted]
      simp
  · -- an unknown type: the reader's error is reported
    constructor
    · rintro - ⟨b', tl', hcut, hb'⟩
      rw [hrest] at hcut
      rcases List.cons.inj hcut with ⟨hbb, -⟩
      subst hbb
      exact hb hb'
    · intro _
      rcases onmessage_returns num stats hread rfl with ⟨h, hmsg, hthrown, hemitted⟩
      refine ⟨h, [.error (parseError (format.join (format.split data).1).length b.toNat)],
        hmsg, hthrown, ?_, by simp [Emission.isError], by simp [hrest]⟩
      rw [hemitted]
      simp
  · -- a record cut short: the exception escapes
    rcases onmessage_throws num stats hread rfl with ⟨h, hmsg, hthrown⟩
    constructor
    · rintro ⟨h', errors, hmsg', hthrown', -⟩
      rw [hmsg] at hmsg'
      cases hmsg'
      rw [hthrown] at hthrown'
      cases hthrown'
    · intro hcut
      exact absurd ⟨b, tl, hrest, hb⟩ hcut

/-- A tick cut short after two bytes: no event, no error, an exception. -/
theorem onmessage_cut_tick :
    onmessage id ⟨0, 0, 0⟩ [2, 7] = some ⟨[], ⟨0, 1, 2⟩, some .rangeError⟩ ∧
      ¬ Reports id ⟨0, 0, 0⟩ [2, 7] := by
  have hmsg : onmessage id ⟨0, 0, 0⟩ [2, 7] = some ⟨[], ⟨0, 1, 2⟩, some .rangeError⟩ := by
    decide
  refine ⟨hmsg, ?_⟩
  rintro ⟨h, errors, hh, hthrown, -⟩
  rw [hmsg] at hh
  cases hh
  cases hthrown

end Yardstick.YsProtocol
