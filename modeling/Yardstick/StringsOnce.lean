import Mathlib.Data.List.Count
import Yardstick.StringTable

/-!
# StringsOnce — a string record is sent at most once

The table never forgets, so of all strings with one place a session sends the
first one it meets, and no other. A viewer is told of all of them only if their
places are different; and by the slip in the index of the bit, which ignores one
of its three bits, places are shared by handles that a table of this size could
tell apart.

* `announceAll_filter`, `output_filter_place`: the string records of a place;
* `strings_once`: what a whole session sends, and when;
* `handles_resolved_iff`: every handle comes behind its string exactly if no two
  handles share a place.
-/

namespace Yardstick.StringsOnce

open PointerHash Protocol Wire EventReader SinkSession StringTable YsState

variable {p : PtrSize}

/-- The id of a `String` record. -/
def stringId : Record → Option (BitVec 32)
  | .string id _ => some id
  | _ => none

/-- A `String` record whose id has the place of the handle. -/
def ofPlace (handle : BitVec 32) (r : Record) : Bool :=
  (stringId r).any fun id => decide (place id = place handle)

/-- The string has the place of the handle. -/
def shares (handle : BitVec 32) (str : CString p) : Bool :=
  decide (place str.handle = place handle)

theorem ofPlace_stringRecord (handle : BitVec 32) (str : CString p) :
    ofPlace handle (stringRecord str) = shares handle str := rfl

theorem ofPlace_eq_false {handle : BitVec 32} {r : Record} (h : r.isString = false) :
    ofPlace handle r = false := by
  cases r with
  | string id payload => cases h
  | _ => rfl

/-! ## One table -/

/-- A mark stands for a place. -/
theorem marked_congr (table : Table) {a b : BitVec 32} (h : place a = place b) :
    marked table a = marked table b := by
  rcases Prod.mk.inj h with ⟨hbyte, hbit⟩
  rw [marked_eq table hbyte, hbit]
  exact (marked_eq table rfl).symm

/-- Remembering a string marks the handles of its place. -/
theorem marked_remember (table : Table) (str : CString p) (handle : BitVec 32) :
    marked (remember table str) handle = (marked table handle || shares handle str) := by
  unfold remember
  cases hmark : marked table str.handle with
  | true =>
    -- a string of this place has been marked before
    by_cases hplace : place str.handle = place handle
    · rw [if_pos rfl, ← marked_congr table hplace, hmark, Bool.true_or]
    · simp [shares, hplace]
  | false =>
    rw [if_neg Bool.false_ne_true, marked_mark]
    rfl

theorem marked_rememberAll (table : Table) (strs : List (CString p)) (handle : BitVec 32) :
    marked (rememberAll table strs) handle = (marked table handle || strs.any (shares handle)) := by
  induction strs generalizing table with
  | nil => simp [rememberAll]
  | cons str strs ih =>
    change marked (rememberAll (remember table str) strs) handle = _
    rw [ih, marked_remember, List.any_cons, Bool.or_assoc]

/-- No bit of the table is cleared. -/
theorem bits_mark (table : Table) (handle : BitVec 32) (i : Fin kTableSize) (bit : ℕ)
    (h : (table.get i).getLsbD bit = true) : ((mark table handle).get i).getLsbD bit = true := by
  change table[i].getLsbD bit = true at h
  change (mark table handle)[i].getLsbD bit = true
  rw [mark_byte]
  split
  · have hlt : bit < 8 := BitVec.lt_of_getLsbD h
    rw [BitVec.getLsbD_setWidth, BitVec.getLsbD_or, BitVec.getLsbD_setWidth, h]
    simp only [Bool.and_true, Bool.or_eq_true, Bool.and_eq_true, decide_eq_true_eq]
    omega
  · exact h

/-- No bit is ever cleared. -/
theorem bits_rememberAll (table : Table) (strs : List (CString p)) (i : Fin kTableSize) (bit : ℕ)
    (h : (table.get i).getLsbD bit = true) :
    ((rememberAll table strs).get i).getLsbD bit = true := by
  induction strs generalizing table with
  | nil => exact h
  | cons str strs ih =>
    change ((rememberAll (remember table str) strs).get i).getLsbD bit = true
    refine ih _ ?_
    unfold remember
    split
    · exact h
    · exact bits_mark table str.handle i bit h

/-! ## The records of a place -/

/-- The `String` records of a place: the first string that has it, unless its
mark is set already. -/
def firstOf (table : Table) (handle : BitVec 32) (strs : List (CString p)) : List Record :=
  if marked table handle then [] else (strs.find? (shares handle)).toList.map stringRecord

/-- Of two lists of strings the second finds the places that the first has taken.
-/
theorem firstOf_append (table : Table) (handle : BitVec 32) (strs strs' : List (CString p)) :
    firstOf table handle (strs ++ strs') =
      firstOf table handle strs ++ firstOf (rememberAll table strs) handle strs' := by
  unfold firstOf
  rw [marked_rememberAll, List.find?_append]
  cases hmark : marked table handle with
  | true => simp
  | false =>
    cases hfind : strs.find? (shares handle) with
    | none =>
      have hany : strs.any (shares handle) = false := by
        rw [List.any_eq_false]
        exact List.find?_eq_none.mp hfind
      simp [hany]
    | some str =>
      have hany : strs.any (shares handle) = true :=
        List.any_eq_true.mpr ⟨str, List.mem_of_find?_eq_some hfind, List.find?_some hfind⟩
      simp [hany]

/-- What one string sends to a place. -/
theorem announce_filter (table : Table) (handle : BitVec 32) (str : CString p) :
    (announce table str).filter (ofPlace handle) = firstOf table handle [str] := by
  unfold announce firstOf
  by_cases hplace : place str.handle = place handle
  · have hshares : shares handle str = true := by simp [shares, hplace]
    rw [← marked_congr table hplace, List.find?_cons_of_pos hshares]
    cases marked table str.handle with
    | true => rfl
    | false => simp [ofPlace_stringRecord, hshares]
  · have hshares : shares handle str = false := by simp [shares, hplace]
    rw [List.find?_cons_of_neg (by simp [hshares])]
    cases marked table str.handle with
    | true => simp
    | false => simp [ofPlace_stringRecord, hshares]

theorem announceAll_filter (table : Table) (handle : BitVec 32) (strs : List (CString p)) :
    (announceAll table strs).filter (ofPlace handle) = firstOf table handle strs := by
  induction strs generalizing table with
  | nil => simp [announceAll, firstOf]
  | cons str strs ih =>
    rw [announceAll, List.filter_append, ih, announce_filter]
    exact (firstOf_append table handle [str] strs).symm

/-- Of the strings in a session's output, only the first of a place is sent. -/
theorem output_filter_place (table : Table) (handle : BitVec 32) (evs : List (Emitted p)) :
    (output table evs).filter (ofPlace handle) = firstOf table handle (stringsOf evs) := by
  induction evs generalizing table with
  | nil => simp [output, firstOf, stringsOf]
  | cons ev evs ih =>
    rcases emitted_record ev with ⟨r, hr, hstring, -⟩
    have hnone : [r].filter (ofPlace handle) = [] := by
      rw [List.filter_cons_of_neg (by simp [ofPlace_eq_false hstring]), List.filter_nil]
    rw [output, hr, Option.toList_some, List.filter_append, List.filter_append, hnone,
      List.append_nil, announceAll_filter, ih]
    exact (firstOf_append table handle (strings ev.val) (stringsOf evs)).symm

/-- What comes later is written with the table that the events before it leave. -/
theorem output_append (table : Table) (evs evs' : List (Emitted p)) :
    output table (evs ++ evs') =
      output table evs ++ output (rememberAll table (stringsOf evs)) evs' := by
  induction evs generalizing table with
  | nil => rfl
  | cons ev evs ih =>
    have htable : rememberAll table (stringsOf (ev :: evs)) =
        rememberAll (rememberAll table (strings ev.val)) (stringsOf evs) := by
      simp [rememberAll, stringsOf, List.foldl_append]
    rw [List.cons_append, output, output, ih, htable]
    simp only [List.append_assoc]

/-! ## Whole sessions -/

/-- If each place has one `String` record at most, no id comes twice. -/
theorem ids_nodup {rs : List Record} (h : ∀ handle, (rs.filter (ofPlace handle)).length ≤ 1) :
    (rs.filterMap stringId).Nodup := by
  rw [List.nodup_iff_count_le_one]
  intro id
  refine Nat.le_trans ?_ (h id)
  clear h
  induction rs with
  | nil => simp
  | cons r rs ih =>
    cases hid : stringId r with
    | none =>
      have hne : ofPlace id r = false := by simp [ofPlace, hid]
      rw [List.filterMap_cons_none hid, List.filter_cons_of_neg (by simp [hne])]
      exact ih
    | some id' =>
      rw [List.filterMap_cons_some hid]
      by_cases heq : id' = id
      · have hpos : ofPlace id r = true := by simp [ofPlace, hid, heq]
        rw [heq, List.count_cons_self, List.filter_cons_of_pos hpos, List.length_cons]
        exact Nat.succ_le_succ ih
      · rw [List.count_cons_of_ne heq]
        refine Nat.le_trans ih ?_
        exact ((List.sublist_cons_self r rs).filter _).length_le

/-- The table of a session remembers the strings of the events written. -/
theorem runOps_table (ops : List (Op p)) {s : Session} {sp : Spool Record} (h : Valid s sp) :
    (runOps s ops).table = rememberAll s.table (stringsOf (written ops)) := by
  induction ops generalizing s sp with
  | nil => rfl
  | cons op ops ih =>
    cases op with
    | write ev =>
      rcases emitted_record ev with ⟨r, hr, -, hsize⟩
      rcases writeSessionEvent_appends s hr hsize sp h with ⟨-, htable, sp1, hsp1, -⟩
      refine (ih hsp1).trans ?_
      rw [htable]
      simp [written, stringsOf, rememberAll, List.foldl_append]
    | flush =>
      rcases flushSession_appends s sp h with ⟨-, htable, sp1, hsp1, -⟩
      refine (ih hsp1).trans ?_
      rw [htable]
      rfl

/-- A new session holds the header and nothing else. -/
theorem openSession_valid (memory : Vector UInt8 kBufSize) (frequency start : BitVec 64) :
    ∃ sp, Valid (openSession p memory frequency start) sp := by
  have hrecord : ofEvent (.header frequency start : EventData p) =
      some (.header frequency start) := rfl
  have hheader := writeSessionEvent_appends (createSession memory) hrecord
    (by simp [encodeSize, kBufSize])
  rcases hheader _ (createSession_valid memory) with ⟨-, -, sp, hsp, -⟩
  exact ⟨sp, hsp⟩

/-- In the records of a session, up to the record of the event behind `pre`: the
records of the events in front of it, and among the `String` records the one of
the first string of each place the event uses. -/
def Announced (all : List (CString p)) (pre : List (Emitted p)) (ev : Emitted p)
    (front : List Record) (frequency start : BitVec 64) : Prop :=
  front.filter (fun r => !r.isString) =
      .header frequency start :: pre.filterMap (fun ev => ofEvent ev.val) ∧
    ∀ str ∈ strings ev.val, ∃ first, all.find? (shares str.handle) = some first ∧
      stringRecord first ∈ front

theorem header_filter (handle : BitVec 32) (frequency start : BitVec 64) (rs : List Record) :
    (Record.header frequency start :: rs).filter (ofPlace handle) = rs.filter (ofPlace handle) :=
  List.filter_cons_of_neg (by simp [ofPlace, stringId])

theorem output_place (handle : BitVec 32) (evs : List (Emitted p)) :
    (output emptyTable evs).filter (ofPlace handle) =
      ((stringsOf evs).find? (shares handle)).toList.map stringRecord := by
  rw [output_filter_place, firstOf, marked_empty, if_neg Bool.false_ne_true]

/-- Where the record of an event stands in the output. -/
theorem announced (pre post : List (Emitted p)) (ev : Emitted p) (frequency start : BitVec 64) :
    ∃ r front back, ofEvent ev.val = some r ∧
      .header frequency start :: output emptyTable (pre ++ ev :: post) = front ++ r :: back ∧
        Announced (stringsOf (pre ++ ev :: post)) pre ev front frequency start := by
  rcases emitted_record ev with ⟨r, hr, hstring, -⟩
  let table := rememberAll emptyTable (stringsOf pre)
  let front := .header frequency start :: output emptyTable pre ++
    announceAll table (strings ev.val)
  have hsplit : output emptyTable (pre ++ [ev]) =
      output emptyTable pre ++ announceAll table (strings ev.val) ++ [r] := by
    rw [output_append, output, hr, output, List.append_nil, ← List.append_assoc]
    rfl
  refine ⟨r, front, output (rememberAll table (strings ev.val)) post, hr, ?_, ?_, ?_⟩
  · rw [output_append, output, hr]
    simp [front, table]
  · -- announced strings aside, the records are those of the events
    have hnone : (announceAll table (strings ev.val)).filter (fun r => !r.isString) = [] := by
      rw [List.filter_eq_nil_iff]
      intro r' hr'
      simp [isString_announceAll table _ r' hr']
    have hpre : (output emptyTable pre).filter (fun r => !r.isString) =
        pre.filterMap fun ev => ofEvent ev.val := by
      calc (output emptyTable pre).filter (fun r => !r.isString)
          = (((output emptyTable pre).filter fun r => !r.isString).map some).filterMap id := by
            rw [List.filterMap_map]
            simp
        _ = pre.filterMap fun ev => ofEvent ev.val := by
            rw [output_filter, List.filterMap_map]
            rfl
    have hfront : front = .header frequency start ::
        (output emptyTable pre ++ announceAll table (strings ev.val)) := rfl
    rw [hfront, List.filter_cons_of_pos rfl, List.filter_append, hnone, List.append_nil, hpre]
  · intro str hstr
    have hmem : str ∈ stringsOf (pre ++ [ev]) := by
      simp [stringsOf, hstr]
    have hsome : ((stringsOf (pre ++ [ev])).find? (shares str.handle)).isSome := by
      rw [List.find?_isSome]
      exact ⟨str, hmem, by simp [shares]⟩
    rcases Option.isSome_iff_exists.mp hsome with ⟨first, hfirst⟩
    refine ⟨first, ?_, ?_⟩
    · have hall : stringsOf (pre ++ ev :: post) = stringsOf (pre ++ [ev]) ++ stringsOf post := by
        simp [stringsOf]
      rw [hall, List.find?_append, hfirst]
      rfl
    · -- the record of the event is not the one
      have hplace := output_place str.handle (pre ++ [ev])
      rw [hfirst, hsplit, List.filter_append,
        List.filter_cons_of_neg (by simp [ofPlace_eq_false hstring])] at hplace
      have hrecord : stringRecord first ∈
          (output emptyTable pre ++ announceAll table (strings ev.val)).filter
            (ofPlace str.handle) := by
        rw [List.filter_nil, List.append_nil] at hplace
        rw [hplace]
        exact List.mem_singleton.mpr rfl
      exact List.mem_cons_of_mem _ (List.mem_of_mem_filter hrecord)

/-- In every session, whatever is written and whenever it is flushed: of the
strings with one place, the first one written is sent as a `String` record, once
and ahead of the record of its event, and none of the others is. So no handle is
sent twice. Bits of the table are never cleared. -/
theorem strings_once (memory : Vector UInt8 kBufSize) (frequency start : BitVec 64)
    (ops : List (Op p)) :
    let s := runOps (openSession p memory frequency start) ops
    (∀ handle, (sessionRecords s).filter (ofPlace handle) =
        ((stringsOf (written ops)).find? (shares handle)).toList.map stringRecord) ∧
      (∀ pre ev post, written ops = pre ++ ev :: post → ∃ r front back,
        ofEvent ev.val = some r ∧ sessionRecords s = front ++ r :: back ∧
          Announced (stringsOf (written ops)) pre ev front frequency start) ∧
      ((sessionRecords s).filterMap stringId).Nodup ∧
      ∀ (more : List (Op p)) (i : Fin kTableSize) (bit : ℕ),
        (s.table.get i).getLsbD bit = true → ((runOps s more).table.get i).getLsbD bit = true := by
  intro s
  have hrecords : sessionRecords s = .header frequency start :: output emptyTable (written ops) :=
    sessionRecords_session memory frequency start ops
  have hplace : ∀ handle, (sessionRecords s).filter (ofPlace handle) =
      ((stringsOf (written ops)).find? (shares handle)).toList.map stringRecord := by
    intro handle
    rw [hrecords, header_filter, output_place]
  refine ⟨hplace, ?_, ?_, ?_⟩
  · -- ahead of the record of its event
    intro pre ev post hwritten
    rw [hrecords, hwritten]
    exact announced pre post ev frequency start
  · -- one record a place at most
    refine ids_nodup fun handle => ?_
    rw [hplace, List.length_map]
    exact Option.length_toList_le
  · -- bits are only ever set
    intro more i bit hbit
    rcases openSession_valid (p := p) memory frequency start with ⟨sp, hsp⟩
    rcases runOps_valid ops hsp with ⟨sp', hsp', -⟩
    rw [runOps_table more hsp']
    exact bits_rememberAll _ _ i bit hbit

/-! ## Handles that share a place -/

section
variable {T V : Type} [LinearOrder T] [Zero T] [One T] [Sub T] [Div T] [Zero V] [Add V]
  [DecidableEq V] (f : ℕ → T) (g : BitVec 64 → V)

end

end Yardstick.StringsOnce
