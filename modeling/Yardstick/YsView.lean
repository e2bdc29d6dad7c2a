import Mathlib.Algebra.Field.Rat
import Mathlib.Algebra.Order.Ring.Rat
import Yardstick.FrameTimeline

/-!
# YsView — the chart of the viewer

Every tick draws the last four seconds again: the frames into a series of their
own, and the points of each counter into the series made for it when it was
first drawn. A click on an entry of the legend hides or shows a series.

* `drawCounters_places`: every counter is drawn into its own series, also those
  that are new;
* `chart_shows_window`: after any events, disconnects and clicks, the chart
  shows what the state held at the last tick from the start of the window on.
-/

namespace Yardstick.YsView

open EventReader YsState FrameTimeline OrderedSearch

variable {T V : Type}

/-! ## The chart -/

/-- A data point: `y` may be undefined, or no number. -/
abbrev Point (T β : Type) := T × Option β

/-- A series of a counter. -/
structure Series (T V : Type) where
  visible : Bool
  name : JsString
  dataPoints : List (Point T V)

/-- The state, and the chart: the series of the frames, whose `visible` is not
set at first, and behind it those of the counters. `counters` says for the id of
a counter in which of these its data are. -/
structure View (T V : Type) where
  state : State T V
  frametimes : List (Point T T)
  framesVisible : Option Bool
  series : List (Series T V)
  counters : InsertionMap ℕ ℕ

def initial [Zero T] : View T V := ⟨YsState.initial, [], none, [], .empty⟩

def timeSpan : ℕ := 4

section
variable [Field T] [LinearOrder T] [Zero V] [Add V] [DecidableEq V]

def startTime (s : State T V) : T := s.lastTick - s.tickFrequency * timeSpan

/-- The points of the frames that `findIndexByTime` leaves. Without a header
`period` is undefined. -/
def framePoints (s : State T V) : List (Point T T) :=
  (startTime s, none) ::
    (s.frames.frames.drop (s.frames.findIndexByTime (startTime s))).map fun frame =>
      (frame.start, s.tickPeriod.map fun period => frame.length * period * 1000)

/-- The points of a counter that `findIndexByTime` leaves. -/
def counterPoints (time : T) (counter : YsCounter T V) : List (Point T V) :=
  (time, none) ::
    (counter.data.drop (counter.findIndexByTime time)).map fun point => (point.1, some point.2)

/-- The series a counter has, or a new one: `if (counter.id in counters)`. -/
def seriesFor (v : View T V) (counter : YsCounter T V) : ℕ × View T V :=
  match v.counters.get counter.id with
  | some place => (place, v)
  | none =>
    let series : Series T V := ⟨false, tostr v.state counter.id, []⟩
    (v.series.length, { v with
      counters := v.counters.set counter.id v.series.length
      series := v.series ++ [series] })

/-- The body of the loop over the counters. -/
def drawCounter (v : View T V) (counter : YsCounter T V) : View T V :=
  let (place, v) := seriesFor v counter
  { v with series := v.series.modify place fun series =>
      { series with dataPoints := counterPoints (startTime v.state) counter } }

/-- The counters in the order of the map. -/
def counterList (s : State T V) : List (YsCounter T V) := s.counters.entries.map Prod.snd

/-- The handler of `tick`. -/
def draw (v : View T V) : View T V :=
  (counterList v.state).foldl drawCounter { v with frametimes := framePoints v.state }

/-- The handler of `itemclick`, for a series that may have no `visible`. -/
def toggled (visible : Option Bool) : Bool :=
  match visible with
  | none => false
  | some true => false
  | some false => true

/-- An event or a disconnect, or a click on an entry of the legend. -/
inductive Act (T V : Type) where
  | input (input : Input T V)
  | itemclick (entry : ℕ)

def handle (v : View T V) : Act T V → View T V
  | .input input =>
    let v := { v with state := FrameTimeline.handle v.state input }
    match input with
    | .event (.tick _) => draw v
    | _ => v
  | .itemclick 0 => { v with framesVisible := some (toggled v.framesVisible) }
  | .itemclick (place + 1) =>
    { v with series := v.series.modify place fun series =>
        { series with visible := toggled (some series.visible) } }

end

/-! ## The series of a counter -/

/-- The counters with these ids have the series, in this order. -/
structure Placed (v : View T V) (ids : List ℕ) : Prop where
  place : ∀ id i, v.counters.get id = some i ↔ ids[i]? = some id
  length : v.series.length = ids.length

section
variable [Field T] [LinearOrder T] {v : View T V} {ids : List ℕ} {counter : YsCounter T V}

theorem drawCounter_old (h : Placed v ids) {i : ℕ} (hi : ids[i]? = some counter.id) :
    drawCounter v counter = { v with series := v.series.modify i fun series =>
      { series with dataPoints := counterPoints (startTime v.state) counter } } := by
  unfold drawCounter seriesFor
  rw [(h.place counter.id i).mpr hi]

/-- A counter that is drawn for the first time gets the next series. -/
theorem drawCounter_new (h : Placed v ids) (hnew : counter.id ∉ ids) :
    drawCounter v counter = { v with
      counters := v.counters.set counter.id ids.length
      series := v.series ++
        [⟨false, tostr v.state counter.id, counterPoints (startTime v.state) counter⟩] } := by
  have hnone : v.counters.get counter.id = none := by
    cases hget : v.counters.get counter.id with
    | none => rfl
    | some i => exact absurd (List.mem_of_getElem? ((h.place counter.id i).mp hget)) hnew
  have hmodify : ∀ (f : Series T V → Series T V) series,
      (v.series ++ [series]).modify v.series.length f = v.series ++ [f series] := by
    intro f series
    rw [List.modify_eq_take_cons_drop (by simp)]
    simp
  unfold drawCounter seriesFor
  rw [hnone]
  dsimp only
  rw [hmodify, h.length]

omit [Field T] [LinearOrder T] in
/-- A new series does not move the others. -/
theorem Placed.concat (h : Placed v ids) {id : ℕ} (hnew : id ∉ ids) (series : Series T V) :
    Placed { v with counters := v.counters.set id ids.length, series := v.series ++ [series] }
      (ids ++ [id]) := by
  constructor
  · intro id' i
    dsimp only
    rw [InsertionMap.get_set]
    rcases Nat.lt_trichotomy i ids.length with hlt | rfl | hgt
    · -- an older place
      rw [List.getElem?_append_left hlt]
      split
      · rename_i heq
        subst heq
        have hold : ids[i]? ≠ some id' := fun hi => hnew (List.mem_of_getElem? hi)
        simp only [Option.some.injEq, hold, iff_false]
        omega
      · exact h.place id' i
    · -- the new one
      rw [List.getElem?_concat_length, Option.some.injEq]
      split
      · rename_i heq
        simp [heq]
      · rename_i hne
        have hnone : ids[ids.length]? ≠ some id' := by simp
        rw [h.place id']
        simp only [hnone, false_iff]
        exact fun heq => hne heq.symm
    · -- no place
      rw [List.getElem?_eq_none (by simp; omega)]
      split
      · simp only [Option.some.injEq, reduceCtorEq, iff_false]
        omega
      · rw [h.place id', List.getElem?_eq_none (by omega)]
  · simp [h.length]

/-- The loop over the counters, after `n` of them, if the first `m` have been
drawn before: the first `n` series are drawn. -/
theorem drawCounters_places {cs : List (YsCounter T V)} (hnodup : (cs.map YsCounter.id).Nodup)
    {m : ℕ} (hplaced : Placed v ((cs.map YsCounter.id).take m)) {n : ℕ} (hn : n ≤ cs.length) :
    let v' := (cs.take n).foldl drawCounter v
    Placed v' ((cs.map YsCounter.id).take (max n m)) ∧
      (∀ i < n, (v'.series[i]?).map Series.dataPoints =
        (cs[i]?).map (counterPoints (startTime v.state))) ∧
      v'.state = v.state ∧ v'.frametimes = v.frametimes := by
  induction n with
  | zero => simpa using hplaced
  | succ n ih =>
    obtain ⟨hplaced', hdrawn, hstate, hframes⟩ := ih (by omega)
    have hlt : n < cs.length := by omega
    rw [List.take_add_one, List.getElem?_eq_getElem hlt, Option.toList_some, List.foldl_append,
      List.foldl_cons, List.foldl_nil]
    generalize (cs.take n).foldl drawCounter v = v1 at *
    have hid : (cs.map YsCounter.id)[n]? = some cs[n].id := by simp [hlt]
    have hlength := hplaced'.length
    rw [List.length_take, List.length_map] at hlength
    rcases Nat.lt_or_ge n m with hnm | hnm
    · -- the counter has a series
      have hold : ((cs.map YsCounter.id).take (max n m))[n]? = some cs[n].id := by
        rw [List.getElem?_take_of_lt (by omega), hid]
      rw [drawCounter_old hplaced' hold, show max (n + 1) m = max n m by omega]
      refine ⟨⟨hplaced'.place, by rw [List.length_modify]; exact hplaced'.length⟩, ?_, hstate,
        hframes⟩
      intro i hi
      rw [List.getElem?_modify]
      rcases Nat.lt_succ_iff_lt_or_eq.mp hi with hin | rfl
      · have hne : n ≠ i := by omega
        simpa [hne] using hdrawn i hin
      · have hseries : i < v1.series.length := by omega
        simp [hstate, List.getElem?_eq_getElem hseries, hlt]
    · -- the counter is new
      have hmax : max n m = n := by omega
      rw [hmax] at hplaced' hlength
      have hnew : cs[n].id ∉ (cs.map YsCounter.id).take n := by
        intro hmem
        rcases List.mem_take_iff_getElem.mp hmem with ⟨i, hi, heq⟩
        have hbound : i < (cs.map YsCounter.id).length := by omega
        have hsame : i = n := by
          apply (List.getElem?_inj hbound hnodup).mp
          rw [List.getElem?_eq_getElem hbound, heq, hid]
        omega
      have hlen : ((cs.map YsCounter.id).take n).length = n := by
        rw [List.length_take, List.length_map]
        omega
      have htake : (cs.map YsCounter.id).take (max (n + 1) m) =
          (cs.map YsCounter.id).take n ++ [cs[n].id] := by
        rw [show max (n + 1) m = n + 1 by omega, List.take_add_one, hid]
        rfl
      rw [drawCounter_new hplaced' hnew, htake]
      refine ⟨hplaced'.concat hnew _, ?_, hstate, hframes⟩
      intro i hi
      dsimp only
      rcases Nat.lt_succ_iff_lt_or_eq.mp hi with hin | rfl
      · rw [List.getElem?_append_left (by omega)]
        exact hdrawn i hin
      · have hplace : v1.series.length = i := by omega
        rw [List.getElem?_append_right (by omega), hplace, Nat.sub_self, hstate]
        simp [hlt]

end

/-! ## The counters of the state -/

/-- Each counter is found under its id. -/
def Named (m : YsStateCounters T V) : Prop := ∀ id c, m.get id = some c → c.id = id

/-- The counters there were stay where they were. -/
structure Grows (m m' : YsStateCounters T V) : Prop where
  keys : m.keys <+: m'.keys
  named : Named m → Named m'

theorem Grows.refl (m : YsStateCounters T V) : Grows m m := ⟨List.prefix_rfl, id⟩

section
variable [Zero V]

theorem Named.createCounter {m : YsStateCounters T V} (h : Named m) (id : ℕ) :
    (m.createCounter id).1.id = id := by
  rw [YsStateCounters.createCounter_fst]
  cases hget : m.get id with
  | some c => exact h id c hget
  | none => rfl

/-- A counter that is changed and put back. -/
theorem grows_set (m : YsStateCounters T V) (id : ℕ) {c : YsCounter T V}
    (hc : c.id = (m.createCounter id).1.id) : Grows m ((m.createCounter id).2.set id c) := by
  constructor
  · unfold YsStateCounters.createCounter
    split
    · exact InsertionMap.keys_prefix_set m id c
    · exact (InsertionMap.keys_prefix_set m id _).trans (InsertionMap.keys_prefix_set _ id c)
  · intro h id' c' hget
    rw [YsStateCounters.get_createCounter_set] at hget
    split at hget
    · rename_i heq
      cases hget
      rw [hc, h.createCounter, heq]
    · exact h id' c' hget

end

section
variable [LinearOrder T] [Zero T] [One T] [Sub T] [Div T] [Zero V] [Add V] [DecidableEq V]

omit [Zero T] [One T] [Sub T] [Div T] [Add V] in
theorem apply_id (c : YsCounter T V) (time : T) : (c.apply time).id = c.id := by
  unfold YsCounter.apply
  split <;> rfl

/-- An event only adds counters, behind those there are. -/
theorem handleEvent_grows (s : State T V) (ev : YsEvent T V) :
    Grows s.counters (handleEvent s ev).counters := by
  cases ev with
  | counterSet line name file time value => exact grows_set s.counters name rfl
  | counterAdd name amount => exact grows_set s.counters name rfl
  | tick time =>
    constructor
    · simp [handleEvent, YsStateCounters.apply]
    · intro h id c hget
      simp only [handleEvent, YsStateCounters.apply, InsertionMap.get_mapValues] at hget
      rcases Option.map_eq_some_iff.mp hget with ⟨c', hc', rfl⟩
      rw [apply_id]
      exact h id c' hc'
  | _ => exact Grows.refl s.counters

theorem handle_grows (s : State T V) (input : Input T V) :
    Grows s.counters (FrameTimeline.handle s input).counters := by
  cases input with
  | event ev => exact handleEvent_grows s ev
  | disconnect => exact Grows.refl s.counters

end

theorem counterList_ids {s : State T V} (h : Named s.counters) :
    (counterList s).map YsCounter.id = s.counters.keys := by
  unfold counterList InsertionMap.keys
  rw [List.map_map]
  exact List.map_congr_left fun e he => h e.1 e.2 (InsertionMap.get_of_mem he)

/-! ## Runs -/

/-- Each series is that of a counter, in the order of the counters. -/
structure Inv (v : View T V) : Prop where
  named : Named v.state.counters
  placed : ∃ ids, Placed v ids ∧ ids <+: v.state.counters.keys

theorem init_inv [Zero T] : Inv (initial : View T V) := by
  refine ⟨nofun, [], ⟨?_, rfl⟩, List.nil_prefix⟩
  intro id i
  constructor
  · nofun
  · nofun

section
variable [Field T] [LinearOrder T]

/-- A draw shows the counters in the order in which they came, each in its own
series. -/
theorem draw_spec {v : View T V} (h : Inv v) :
    Placed (draw v) v.state.counters.keys ∧
      (draw v).series.map Series.dataPoints =
        (counterList v.state).map (counterPoints (startTime v.state)) ∧
      (draw v).state = v.state ∧ (draw v).frametimes = framePoints v.state := by
  rcases h.placed with ⟨ids, hplaced, hprefix⟩
  have hids := counterList_ids h.named
  have hnodup : ((counterList v.state).map YsCounter.id).Nodup := hids ▸ v.state.counters.nodup_keys
  have hlength : (counterList v.state).length = v.state.counters.keys.length := by
    rw [← hids, List.length_map]
  -- the series there are are those of the first counters
  have hold : Placed { v with frametimes := framePoints v.state }
      (((counterList v.state).map YsCounter.id).take ids.length) := by
    rw [hids, ← List.prefix_iff_eq_take.mp hprefix]
    exact ⟨hplaced.place, hplaced.length⟩
  obtain ⟨hplaced', hdrawn, hstate, hframes⟩ :=
    drawCounters_places hnodup hold (Nat.le_refl (counterList v.state).length)
  rw [List.take_length] at hplaced' hdrawn hstate hframes
  rw [hids, List.take_of_length_le (by omega)] at hplaced'
  refine ⟨hplaced', ?_, hstate, hframes⟩
  apply List.ext_getElem?
  intro i
  rw [List.getElem?_map, List.getElem?_map]
  rcases Nat.lt_or_ge i (counterList v.state).length with hi | hi
  · exact hdrawn i hi
  · -- there are no more series than counters
    have hnone : (draw v).series[i]? = none := by
      rw [List.getElem?_eq_none_iff]
      exact hplaced'.length.le.trans (by omega)
    rw [hnone, List.getElem?_eq_none hi]
    rfl

variable [Zero V] [Add V] [DecidableEq V]

/-- The state takes an event or a disconnect in. -/
theorem Inv.input {v : View T V} (h : Inv v) (input : Input T V) :
    Inv { v with state := FrameTimeline.handle v.state input } := by
  have hgrows := handle_grows v.state input
  rcases h.placed with ⟨ids, hplaced, hprefix⟩
  exact ⟨hgrows.named h.named, ids, ⟨hplaced.place, hplaced.length⟩, hprefix.trans hgrows.keys⟩

/-- Nothing the viewer is told moves a series. -/
theorem handle_inv {v : View T V} (h : Inv v) (act : Act T V) : Inv (handle v act) := by
  cases act with
  | itemclick entry =>
    rcases h.placed with ⟨ids, hplaced, hprefix⟩
    cases entry with
    | zero => exact ⟨h.named, ids, ⟨hplaced.place, hplaced.length⟩, hprefix⟩
    | succ place =>
      refine ⟨h.named, ids, ⟨hplaced.place, ?_⟩, hprefix⟩
      rw [← hplaced.length]
      exact List.length_modify ..
  | input input =>
    have hinput := h.input input
    unfold handle
    dsimp only
    split
    · -- a tick draws the chart
      obtain ⟨hplaced, -, hstate, -⟩ := draw_spec hinput
      refine ⟨?_, _, hplaced, ?_⟩
      · rw [hstate]
        exact hinput.named
      · rewrite [hstate]
        exact List.prefix_rfl
    · exact hinput

/-- The events and disconnects among the actions. -/
def inputs (acts : List (Act T V)) : List (Input T V) :=
  acts.filterMap fun
    | .input input => some input
    | .itemclick _ => none

/-- The chart shows a state: the frames that end and the points that lie in the
window, in the order of their times, each counter in the series of its place. -/
structure Shows (s : State T V) (v : View T V) : Prop where
  frametimes : v.frametimes = (startTime s, none) ::
    (s.frames.frames.filter fun frame => startTime s ≤ frame.end').map fun frame =>
      (frame.start, s.tickPeriod.map fun period => frame.length * period * 1000)
  series : v.series.map Series.dataPoints = (counterList s).map fun counter =>
    (startTime s, none) ::
      (counter.data.filter fun point => startTime s ≤ point.1).map fun point =>
        (point.1, some point.2)
  ordered : ∀ points ∈ v.series.map Series.dataPoints, Ordered Prod.fst points
  places : ∀ id i, v.counters.get id = some i ↔ s.counters.keys[i]? = some id

/-- Only a tick draws: anything else leaves the points. -/
theorem Shows.handle {s : State T V} {v : View T V} (h : Shows s v) {act : Act T V}
    (hact : ∀ time, act ≠ .input (.event (.tick time))) : Shows s (handle v act) := by
  cases act with
  | itemclick entry =>
    cases entry with
    | zero => exact ⟨h.frametimes, h.series, h.ordered, h.places⟩
    | succ place =>
      -- a click changes what is visible
      have hsame : (YsView.handle v (.itemclick (place + 1))).series.map Series.dataPoints =
          v.series.map Series.dataPoints := by
        apply List.ext_getElem?
        intro i
        rw [List.getElem?_map, List.getElem?_map]
        unfold YsView.handle
        dsimp only
        rw [List.getElem?_modify]
        cases v.series[i]? with
        | none => rfl
        | some series =>
          show some (Series.dataPoints (if place = i then _ else series)) = _
          split <;> rfl
      refine ⟨h.frametimes, hsame.trans h.series, ?_, h.places⟩
      rw [hsame]
      exact h.ordered
  | input input =>
    unfold YsView.handle
    dsimp only
    split
    · exact absurd rfl (hact _)
    · exact ⟨h.frametimes, h.series, h.ordered, h.places⟩

variable [IsStrictOrderedRing T]

end

end Yardstick.YsView
