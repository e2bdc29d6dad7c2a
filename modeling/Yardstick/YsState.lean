import Yardstick.Base.InsertionMap
import Yardstick.Base.OrderedSearch
import Yardstick.Base.Runs
import Yardstick.EventReader

/-!
# YsState — what the viewer keeps of a stream

Frames, strings and counters, as the events of a stream build them up. Times
are of any linear order and amounts of any type with a zero and a sum, so the
results hold for exact numbers and for doubles alike; NaN is not among the
times.

A counter holds its points in an array that `setValue` should keep sorted by
time. Its scan stops at index 0 without looking there, so no point is ever put
in front of the first one:

* `setValue_ordered_iff`: when the array is sorted after an insertion;
* `counters_sound_iff`: when every counter is sorted, and every window of it
  right, after a whole stream.
-/

namespace Yardstick.YsState

open OrderedSearch EventReader

variable {T V : Type}

/-! ## YsCounter -/

/-- The points are pairs `[time, value]`. -/
structure YsCounter (T V : Type) where
  id : ℕ
  accum : V
  data : List (T × V)

namespace YsCounter

section
variable [LinearOrder T]

/-- The loop of `setValue`, on `i + 1`: for an empty array `i` starts at -1. -/
def scan (data : List (T × V)) (time : T) : ℕ → ℕ
  | 0 => 0
  | 1 => 1
  | i + 2 => if (data[i + 1]?).any fun p => time < p.1 then scan data time (i + 1) else i + 2

def setValue (c : YsCounter T V) (time : T) (value : V) : YsCounter T V :=
  let i := scan c.data time c.data.length
  { c with data := c.data.take i ++ (time, value) :: c.data.drop i }

def addAmount [Add V] (c : YsCounter T V) (amount : V) : YsCounter T V :=
  { c with accum := c.accum + amount }

def apply [Zero V] [DecidableEq V] (c : YsCounter T V) (time : T) : YsCounter T V :=
  if c.accum ≠ 0 then { c.setValue time c.accum with accum := 0 } else c

def findIndexByTime (c : YsCounter T V) (time : T) : ℕ :=
  search (keyBelow Prod.fst c.data time) 0 c.data.length

end

end YsCounter

/-! ## YsStateCounters -/

/-- The `_counters` map, by counter id. -/
abbrev YsStateCounters (T V : Type) := InsertionMap ℕ (YsCounter T V)

namespace YsStateCounters

/-- The counter for `id`, new if there was none. -/
def createCounter [Zero V] (m : YsStateCounters T V) (id : ℕ) :
    YsCounter T V × YsStateCounters T V :=
  match m.get id with
  | some counter => (counter, m)
  | none =>
    let counter : YsCounter T V := ⟨id, 0, []⟩
    (counter, m.set id counter)

/-- The counter an event for `id` is for. -/
theorem createCounter_fst [Zero V] (m : YsStateCounters T V) (id : ℕ) :
    (m.createCounter id).1 = (m.get id).getD ⟨id, 0, []⟩ := by
  unfold YsStateCounters.createCounter
  cases m.get id <;> rfl

/-- Only the map entry for `id` has changed once the counter is put back. -/
theorem get_createCounter_set [Zero V] (m : YsStateCounters T V) (id id' : ℕ)
    (c : YsCounter T V) :
    ((m.createCounter id).2.set id c).get id' = if id' = id then some c else m.get id' := by
  unfold YsStateCounters.createCounter
  cases m.get id with
  | some counter => simp
  | none =>
    simp only [InsertionMap.get_set]
    split <;> rfl

variable [LinearOrder T] [Zero V]

def setCounter (m : YsStateCounters T V) (id : ℕ) (time : T) (value : V) : YsStateCounters T V :=
  let (counter, m) := createCounter m id
  m.set id (counter.setValue time value)

def addCounter [Add V] (m : YsStateCounters T V) (id : ℕ) (amount : V) : YsStateCounters T V :=
  let (counter, m) := createCounter m id
  m.set id (counter.addAmount amount)

def apply [DecidableEq V] (m : YsStateCounters T V) (time : T) : YsStateCounters T V :=
  m.mapValues fun counter => counter.apply time

end YsStateCounters

/-! ## YsFrameSet -/

structure YsFrame (T : Type) where
  index : ℕ
  start : T
  length : T

/-- The getter `end`. -/
def YsFrame.end' [Add T] (f : YsFrame T) : T := f.start + f.length

/-- The setter of `end`. -/
def YsFrame.setEnd [Sub T] (f : YsFrame T) (val : T) : YsFrame T :=
  { f with length := val - f.start }

/-- The frame `_current` refers to is one of `_frames`, given by its place. -/
structure YsFrameSet (T : Type) where
  frames : List (YsFrame T)
  current : Option ℕ

namespace YsFrameSet

def endFrame [Sub T] (s : YsFrameSet T) (time : T) : YsFrameSet T :=
  match s.current with
  | some i => ⟨s.frames.modify i fun f => f.setEnd time, none⟩
  | none => s

def startFrame [Sub T] [Zero T] (s : YsFrameSet T) (time : T) : YsFrameSet T :=
  let s := s.endFrame time
  ⟨s.frames ++ [⟨s.frames.length, time, 0⟩], some s.frames.length⟩

def findIndexByTime [LinearOrder T] [Add T] (s : YsFrameSet T) (time : T) : ℕ :=
  search (keyBelow YsFrame.end' s.frames time) 0 s.frames.length

end YsFrameSet

/-! ## YsState -/

/-- Fields that no event has set yet are undefined. -/
structure State (T V : Type) where
  strings : InsertionMap ℕ JsString
  tickFrequency : T
  tickPeriod : Option T
  startTick : T
  lastTick : T
  frameDelta : Option T
  frames : YsFrameSet T
  counters : YsStateCounters T V

def initial [Zero T] : State T V :=
  ⟨.empty, 0, none, 0, 0, none, ⟨[], none⟩, .empty⟩

/-- The code units of an ASCII text. -/
def jsString (s : String) : JsString := s.toList.map fun c => UInt16.ofNat c.toNat

def tostr (s : State T V) (id : ℕ) : JsString :=
  match s.strings.get id with
  | none => jsString ("[" ++ toString id ++ "]")
  | some str => str

section
variable [LinearOrder T] [Zero T] [One T] [Sub T] [Div T] [Zero V] [Add V] [DecidableEq V]

/-- `handleEvent`, up to the callbacks it then hands the event to. -/
def handleEvent (s : State T V) : YsEvent T V → State T V
  | .header frequency start =>
    { s with
      startTick := start, lastTick := start, tickFrequency := frequency,
      tickPeriod := some (1 / frequency), frames := s.frames.startFrame start }
  | .tick time =>
    { s with
      frames := s.frames.startFrame time, counters := s.counters.apply time,
      frameDelta := some (time - s.lastTick), lastTick := time }
  | .counterSet _ name _ time value =>
    { s with counters := s.counters.setCounter name time value }
  | .string id _ str => { s with strings := s.strings.set id str }
  | .counterAdd name amount => { s with counters := s.counters.addCounter name amount }
  | .region .. => s

/-- The events of a stream, one after another. -/
def handleAll (s : State T V) (evs : List (YsEvent T V)) : State T V := evs.foldl handleEvent s

end

/-! ## One insertion -/

section
variable [LinearOrder T] {data : List (T × V)} {time : T}

theorem scan_le (k : ℕ) : YsCounter.scan data time k ≤ k := by
  fun_induction YsCounter.scan data time k <;> omega

theorem scan_pos {k : ℕ} (hk : 0 < k) : 0 < YsCounter.scan data time k := by
  fun_induction YsCounter.scan data time k with
  | case1 => omega
  | case2 => omega
  | case3 i hlater ih => exact ih (by omega)
  | case4 i hlater => omega

/-- The points the scan has passed are later. -/
theorem lt_of_scan_le {k i : ℕ} {p : T × V} (hi : YsCounter.scan data time k ≤ i) (hik : i < k)
    (hp : data[i]? = some p) : time < p.1 := by
  fun_induction YsCounter.scan data time k with
  | case1 => omega
  | case2 => omega
  | case3 j hlater ih =>
    rcases Nat.lt_or_ge i (j + 1) with hlt | hge
    · exact ih hi hlt
    · have hij : i = j + 1 := by omega
      subst hij
      simpa [hp] using hlater
  | case4 j hlater => omega

/-- The point the scan stops at is not later, unless it is the first one. -/
theorem le_of_scan_eq {k n : ℕ} {p : T × V} (hn : YsCounter.scan data time k = n + 2)
    (hp : data[n + 1]? = some p) : p.1 ≤ time := by
  fun_induction YsCounter.scan data time k with
  | case1 => omega
  | case2 => omega
  | case3 j hlater ih => exact ih hn
  | case4 j hlater =>
    have hj : j = n := by omega
    subst hj
    simpa [hp] using hlater

/-- The first point of a counter, if it has one, is no later than `time`. -/
def YsCounter.StartsBy (c : YsCounter T V) (time : T) : Prop := ∀ p ∈ c.data.head?, p.1 ≤ time

/-- An insertion leaves the array sorted exactly when it was sorted and the
point is not earlier than the first one. -/
theorem setValue_ordered_iff (c : YsCounter T V) (time : T) (value : V) :
    Ordered Prod.fst (c.setValue time value).data ↔
      Ordered Prod.fst c.data ∧ c.StartsBy time := by
  have hle : YsCounter.scan c.data time c.data.length ≤ c.data.length := scan_le _
  unfold YsCounter.setValue YsCounter.StartsBy
  dsimp only
  constructor
  · intro h
    constructor
    · exact h.sublist Prod.fst (sublist_insert c.data _ _)
    · -- the first point stays in front of the new one
      intro p hp
      have hmem : p ∈ c.data.take (YsCounter.scan c.data time c.data.length) := by
        cases hdata : c.data with
        | nil => simp [hdata] at hp
        | cons q rest =>
          have hpos : 0 < YsCounter.scan (q :: rest) time (q :: rest).length := scan_pos (by simp)
          rcases Nat.exists_eq_succ_of_ne_zero (Nat.pos_iff_ne_zero.mp hpos) with ⟨n, hn⟩
          rw [hdata] at hp
          rw [hn, List.take_succ_cons]
          simp at hp
          simp [hp]
      exact (List.pairwise_append.mp h).2.2 p hmem (time, value) List.mem_cons_self
  · rintro ⟨hdata, hfirst⟩
    refine ordered_insert Prod.fst hdata ?_ ?_
    · -- left: up to the point the scan stopped at
      intro a ha
      rcases List.mem_take_iff_getElem.mp ha with ⟨i, hi, rfl⟩
      have hilen : i < c.data.length := by omega
      show c.data[i].1 ≤ time
      cases hn : YsCounter.scan c.data time c.data.length with
      | zero => omega
      | succ n =>
        cases n with
        | zero =>
          -- index 0 is never compared: this is what the first point is for
          have hi0 : i = 0 := by omega
          subst hi0
          exact hfirst _ (by rw [List.head?_eq_getElem?, List.getElem?_eq_getElem hilen]; rfl)
        | succ n =>
          have hlen : n + 1 < c.data.length := by omega
          have hstop := le_of_scan_eq hn (List.getElem?_eq_getElem hlen)
          have hbefore := hdata.le_of_le Prod.fst (show i ≤ n + 1 by omega)
            (List.getElem?_eq_getElem hilen) (List.getElem?_eq_getElem hlen)
          exact le_trans hbefore hstop
    · -- right: what the scan has passed
      intro a ha
      rcases List.mem_drop_iff_getElem.mp ha with ⟨i, hi, rfl⟩
      show time ≤ _
      exact le_of_lt (lt_of_scan_le (Nat.le_add_right _ i) (by omega)
        (List.getElem?_eq_getElem (by omega)))

end

/-! ## Streams -/

section
variable [LinearOrder T]

/-- The counter is sorted, and from `findIndexByTime` on come exactly the
points that are not earlier. -/
def YsCounter.Sound (c : YsCounter T V) : Prop :=
  Ordered Prod.fst c.data ∧
    ∀ t, c.data.drop (c.findIndexByTime t) = c.data.filter fun p => t ≤ p.1

/-- Every counter is sound. -/
def CountersSound (s : State T V) : Prop := ∀ id c, s.counters.get id = some c → c.Sound

theorem sound_iff_ordered (c : YsCounter T V) : c.Sound ↔ Ordered Prod.fst c.data := by
  constructor
  · exact fun h => h.1
  · intro h
    exact ⟨h, drop_search Prod.fst h⟩

variable [Zero V] [DecidableEq V]

/-- The point that a tick adds, if it adds one, must not be earlier than the first.
-/
theorem apply_ordered_iff (c : YsCounter T V) (time : T) :
    Ordered Prod.fst (c.apply time).data ↔
      Ordered Prod.fst c.data ∧ (c.accum ≠ 0 → c.StartsBy time) := by
  unfold YsCounter.apply
  split
  · rename_i haccum
    rw [setValue_ordered_iff]
    simp [haccum]
  · rename_i haccum
    simp [haccum]

/-- The event puts no point in front of the first one of its counter. -/
def InOrder (s : State T V) : YsEvent T V → Prop
  | .counterSet _ name _ time _ => ∀ c, s.counters.get name = some c → c.StartsBy time
  | .tick time => ∀ id c, s.counters.get id = some c → c.accum ≠ 0 → c.StartsBy time
  | _ => True

variable [Zero T] [One T] [Sub T] [Div T] [Add V]

section
omit [DecidableEq V] [Zero T] [One T] [Sub T] [Div T] [Add V]

/-- The counters are sorted if one of them is (a new one has no point) and the
others are. -/
theorem sorted_iff (m : YsStateCounters T V) (id : ℕ) :
    (∀ id' c, m.get id' = some c → Ordered Prod.fst c.data) ↔
      Ordered Prod.fst ((m.get id).getD ⟨id, 0, []⟩).data ∧
        ∀ id', id' ≠ id → ∀ c, m.get id' = some c → Ordered Prod.fst c.data := by
  constructor
  · intro h
    refine ⟨?_, fun id' _ => h id'⟩
    cases hc : m.get id with
    | some c => exact h id c hc
    | none => exact ordered_nil Prod.fst
  · rintro ⟨hown, hothers⟩ id' c hc
    by_cases hid : id' = id
    · subst hid
      rw [hc] at hown
      exact hown
    · exact hothers id' hid c hc

/-- With one counter put back, the others are as they were. -/
theorem sorted_createCounter_set_iff (m : YsStateCounters T V) (id : ℕ) (c : YsCounter T V) :
    (∀ id' c', ((m.createCounter id).2.set id c).get id' = some c' → Ordered Prod.fst c'.data) ↔
      Ordered Prod.fst c.data ∧
        ∀ id', id' ≠ id → ∀ c', m.get id' = some c' → Ordered Prod.fst c'.data := by
  simp only [YsStateCounters.get_createCounter_set]
  constructor
  · intro h
    refine ⟨h id c (if_pos rfl), fun id' hid c' hc' => h id' c' ?_⟩
    rw [if_neg hid, hc']
  · rintro ⟨hc, hothers⟩ id' c' hc'
    by_cases hid : id' = id
    · rw [if_pos hid] at hc'
      cases hc'
      exact hc
    · rw [if_neg hid] at hc'
      exact hothers id' hid c' hc'

/-- A counter without a point starts by any time. -/
theorem startsBy_getD_iff (m : YsStateCounters T V) (id : ℕ) (time : T) :
    ((m.get id).getD ⟨id, 0, []⟩).StartsBy time ↔ ∀ c, m.get id = some c → c.StartsBy time := by
  cases hc : m.get id with
  | some c => simp
  | none => simp [YsCounter.StartsBy]

end

/-- One event keeps every counter sorted exactly when it is in order. -/
theorem handleEvent_sound_iff (s : State T V) (ev : YsEvent T V) :
    CountersSound (handleEvent s ev) ↔ CountersSound s ∧ InOrder s ev := by
  simp only [CountersSound, sound_iff_ordered]
  cases ev with
  | tick time =>
    simp only [handleEvent, YsStateCounters.apply, InsertionMap.get_mapValues, InOrder,
      Option.map_eq_some_iff]
    -- a tick applies the accumulated amount of every counter
    constructor
    · intro h
      have hiff := fun id c hc => (apply_ordered_iff c time).mp (h id _ ⟨c, hc, rfl⟩)
      exact ⟨fun id c hc => (hiff id c hc).1, fun id c hc => (hiff id c hc).2⟩
    · rintro ⟨hsorted, horder⟩ id c' ⟨c, hc, rfl⟩
      exact (apply_ordered_iff c time).mpr ⟨hsorted id c hc, horder id c hc⟩
  | counterSet line name file time value =>
    -- only the named counter changes
    simp only [handleEvent, YsStateCounters.setCounter, YsStateCounters.createCounter_fst, InOrder]
    rw [sorted_createCounter_set_iff, setValue_ordered_iff, startsBy_getD_iff,
      sorted_iff s.counters name, and_right_comm]
  | counterAdd name amount =>
    -- the points of a counter are not touched
    simp only [handleEvent, YsStateCounters.addCounter, YsStateCounters.createCounter_fst, InOrder,
      and_true]
    rw [sorted_createCounter_set_iff, sorted_iff s.counters name]
    rfl
  | _ => simp [handleEvent, InOrder]

/-- The counters of the viewer are sorted, and their windows right, after a
stream exactly when every point of it comes no earlier than the first point of
its counter. -/
theorem counters_sound_iff (evs : List (YsEvent T V)) :
    CountersSound (handleAll initial evs) ↔
      Runs.Along (fun s ev => some (handleEvent s ev)) InOrder (initial : State T V) evs := by
  unfold handleAll
  rw [Runs.foldl_iff_along handleEvent_sound_iff]
  have hinit : CountersSound (initial : State T V) := by
    intro id c hc
    cases hc
  simp [hinit]

end

/-- Two points of one counter, the later one first: the earlier one is put
behind it. -/
theorem counters_early_point :
    ¬ CountersSound (handleAll (initial : State ℤ ℤ)
      [.counterSet 1 7 2 5 10, .counterSet 1 7 2 3 20]) := by
  intro h
  have hget : (handleAll (initial : State ℤ ℤ)
      [.counterSet 1 7 2 5 10, .counterSet 1 7 2 3 20]).counters.get 7 =
        some ⟨7, 0, [(5, 10), (3, 20)]⟩ := rfl
  have hordered := (h 7 _ hget).1
  have hle := (List.pairwise_cons.mp hordered).1 (3, 20) List.mem_cons_self
  exact absurd hle (by decide)

end Yardstick.YsState
