import Mathlib.Algebra.BigOperators.Group.List.Basic
import Mathlib.Data.List.DropRight
import Mathlib.Data.Multiset.AddSub
import Yardstick.YsState

/-!
# CounterTotals — what the counters say about the stream

The points of a counter are those that were set, and one for each tick that had
an amount to apply. Amounts are of any type in which they can be summed.

* `setValue_perm`: an insertion adds one point, wherever it goes;
* `counters_total`: the points and the accumulated amount of every counter,
  after any stream.
-/

namespace Yardstick.CounterTotals

open EventReader YsState

variable {T V : Type}

/-! ## The stream, counter by counter -/

def isTick : YsEvent T V → Bool
  | .tick _ => true
  | _ => false

/-- The points that are set for the counter. -/
def setPoints (id : ℕ) (evs : List (YsEvent T V)) : List (T × V) :=
  evs.filterMap fun
    | .counterSet _ name _ time value => if name = id then some (time, value) else none
    | _ => none

theorem setPoints_append (id : ℕ) (evs evs' : List (YsEvent T V)) :
    setPoints id (evs ++ evs') = setPoints id evs ++ setPoints id evs' := List.filterMap_append ..

/-- The amounts that are added to the counter. -/
def amounts (id : ℕ) (evs : List (YsEvent T V)) : List V :=
  evs.filterMap fun
    | .counterAdd name amount => if name = id then some amount else none
    | _ => none

section
variable [AddMonoid V]

/-- The sum of the amounts that come behind the last tick. -/
def sinceTick (id : ℕ) (evs : List (YsEvent T V)) : V :=
  (amounts id (evs.rtakeWhile fun ev => !isTick ev)).sum

variable [DecidableEq V]

/-- The point of a tick, with the events in front of it. -/
def tickPoint (id : ℕ) (before : List (YsEvent T V)) : YsEvent T V → List (T × V)
  | .tick time => if sinceTick id before ≠ 0 then [(time, sinceTick id before)] else []
  | _ => []

/-- The points of the ticks, each with the events in front of it. -/
def tickPoints (id : ℕ) (before : List (YsEvent T V)) : List (YsEvent T V) → List (T × V)
  | [] => []
  | ev :: evs => tickPoint id before ev ++ tickPoints id (before ++ [ev]) evs

theorem tickPoints_append (id : ℕ) (before evs evs' : List (YsEvent T V)) :
    tickPoints id before (evs ++ evs') =
      tickPoints id before evs ++ tickPoints id (before ++ evs) evs' := by
  induction evs generalizing before with
  | nil => simp [tickPoints]
  | cons ev evs ih => simp [tickPoints, ih]

omit [DecidableEq V] in
theorem sinceTick_tick (id : ℕ) (evs : List (YsEvent T V)) (time : T) :
    sinceTick id (evs ++ [.tick time]) = 0 := by
  rw [sinceTick, List.rtakeWhile_concat, if_neg (by simp [isTick])]
  rfl

omit [DecidableEq V] in
theorem sinceTick_concat (id : ℕ) (evs : List (YsEvent T V)) {ev : YsEvent T V}
    (hev : isTick ev = false) :
    sinceTick id (evs ++ [ev]) = sinceTick id evs + (amounts id [ev]).sum := by
  rw [sinceTick, List.rtakeWhile_concat, if_pos (by simp [hev]), amounts, List.filterMap_append,
    List.sum_append]
  rfl

end

/-! ## One event -/

/-- The counter for `id`, new if no event has been for it. -/
def counterOf [Zero V] (s : State T V) (id : ℕ) : YsCounter T V :=
  (s.counters.get id).getD ⟨id, 0, []⟩

/-- An insertion adds one point, wherever it goes. -/
theorem setValue_perm [LinearOrder T] (c : YsCounter T V) (time : T) (value : V) :
    ((c.setValue time value).data : Multiset (T × V)) =
      (time, value) ::ₘ (c.data : Multiset (T × V)) := by
  have hsplit := List.take_append_drop (YsCounter.scan c.data time c.data.length) c.data
  rw [Multiset.cons_coe, Multiset.coe_eq_coe]
  refine List.perm_middle.trans ?_
  rw [hsplit]

section
variable [AddMonoid V] [DecidableEq V]

/-- The counter is what the events say: no amount is lost, counted twice, or
credited elsewhere. -/
structure Totals (id : ℕ) (evs : List (YsEvent T V)) (c : YsCounter T V) : Prop where
  points : (c.data : Multiset (T × V)) = setPoints id evs + tickPoints id [] evs
  accum : c.accum = sinceTick id evs

/-- An event that is not for the counter, and no tick. -/
theorem Totals.skip {id : ℕ} {evs : List (YsEvent T V)} {c : YsCounter T V} (h : Totals id evs c)
    {ev : YsEvent T V} (htick : isTick ev = false) (hset : setPoints id [ev] = [])
    (hadd : amounts id [ev] = []) : Totals id (evs ++ [ev]) c := by
  have hpoint : tickPoint id evs ev = [] := by
    cases ev with
    | tick time => cases htick
    | _ => rfl
  constructor
  · rw [h.points, setPoints_append, hset, tickPoints_append]
    simp [tickPoints, hpoint]
  · rw [h.accum, sinceTick_concat id evs htick, hadd, List.sum_nil, add_zero]

/-- A point is set. -/
theorem Totals.set [LinearOrder T] {id line file : ℕ} {evs : List (YsEvent T V)}
    {c : YsCounter T V} (h : Totals id evs c) (time : T) (value : V) :
    Totals id (evs ++ [.counterSet line id file time value]) (c.setValue time value) := by
  have hset : setPoints id [(.counterSet line id file time value : YsEvent T V)] =
      [(time, value)] := by simp [setPoints]
  constructor
  · rw [setValue_perm, h.points, setPoints_append, hset, tickPoints_append, ← Multiset.coe_add,
      ← Multiset.coe_add, Multiset.coe_singleton, ← Multiset.singleton_add]
    -- the new point moves past the points of the ticks to those that were set
    simp only [tickPoints, tickPoint, List.append_nil, Multiset.coe_nil]
    rw [Multiset.add_zero, ← Multiset.add_assoc, Multiset.add_comm {(time, value)}]
  · have hadd : amounts id [(.counterSet line id file time value : YsEvent T V)] = [] := by
      simp [amounts]
    rw [sinceTick_concat id evs rfl, hadd, List.sum_nil, add_zero]
    exact h.accum

/-- An amount is added. -/
theorem Totals.add {id : ℕ} {evs : List (YsEvent T V)} {c : YsCounter T V} (h : Totals id evs c)
    (amount : V) : Totals id (evs ++ [.counterAdd id amount]) (c.addAmount amount) := by
  have hadd : amounts id [(.counterAdd id amount : YsEvent T V)] = [amount] := by simp [amounts]
  have hset : setPoints id [(.counterAdd id amount : YsEvent T V)] = [] := by simp [setPoints]
  constructor
  · change (c.data : Multiset (T × V)) = _
    rw [setPoints_append, hset, tickPoints_append]
    simpa [tickPoints, tickPoint] using h.points
  · rw [sinceTick_concat id evs rfl, hadd, List.sum_singleton, ← h.accum]
    rfl

/-- A tick turns what has been added since the one before into a point. -/
theorem Totals.tick [LinearOrder T] {id : ℕ} {evs : List (YsEvent T V)} {c : YsCounter T V}
    (h : Totals id evs c) (time : T) : Totals id (evs ++ [.tick time]) (c.apply time) := by
  have hset : setPoints id [(.tick time : YsEvent T V)] = [] := by simp [setPoints]
  have hpoints := h.points
  rw [YsCounter.apply, h.accum]
  by_cases hsum : sinceTick id evs = 0
  · -- nothing to apply, and no point
    rw [if_neg (not_not.mpr hsum)]
    constructor
    · rw [setPoints_append, hset, tickPoints_append]
      simpa [tickPoints, tickPoint, hsum] using hpoints
    · rw [sinceTick_tick, h.accum, hsum]
  · -- the sum becomes a point at the time of the tick
    rw [if_pos hsum]
    constructor
    · change ((c.setValue time (sinceTick id evs)).data : Multiset (T × V)) = _
      rw [setValue_perm, hpoints, setPoints_append, hset, tickPoints_append, List.append_nil,
        ← Multiset.coe_add (tickPoints id [] evs), ← Multiset.singleton_add]
      simp only [tickPoints, tickPoint, List.nil_append, List.append_nil, if_pos hsum]
      rw [Multiset.coe_singleton, Multiset.add_comm, Multiset.add_assoc]
    · exact (sinceTick_tick id evs time).symm

end

/-! ## Whole streams -/

section
variable [LinearOrder T] [Zero T] [One T] [Sub T] [Div T] [AddMonoid V] [DecidableEq V]

/-- A tick adds what a counter has accumulated to its points. -/
theorem counterOf_tick (s : State T V) (time : T) (id : ℕ) :
    counterOf (handleEvent s (.tick time)) id = (counterOf s id).apply time := by
  simp only [counterOf, handleEvent, YsStateCounters.apply, InsertionMap.get_mapValues]
  cases s.counters.get id with
  | some c => rfl
  | none =>
    -- a counter that is not there has added nothing
    simp [YsCounter.apply]

/-- A value set is a point of the counter it names, and of no other. -/
theorem counterOf_counterSet (s : State T V) (line name file : ℕ) (time : T) (value : V) (id : ℕ) :
    counterOf (handleEvent s (.counterSet line name file time value)) id =
      if name = id then (counterOf s id).setValue time value else counterOf s id := by
  simp only [counterOf, handleEvent, YsStateCounters.setCounter, YsStateCounters.createCounter_fst,
    YsStateCounters.get_createCounter_set]
  by_cases hid : name = id
  · rw [if_pos hid.symm, if_pos hid, hid]
    rfl
  · rw [if_neg (Ne.symm hid), if_neg hid]

/-- An amount added is accumulated by the counter it names, and by no other. -/
theorem counterOf_counterAdd (s : State T V) (name : ℕ) (amount : V) (id : ℕ) :
    counterOf (handleEvent s (.counterAdd name amount)) id =
      if name = id then (counterOf s id).addAmount amount else counterOf s id := by
  simp only [counterOf, handleEvent, YsStateCounters.addCounter, YsStateCounters.createCounter_fst,
    YsStateCounters.get_createCounter_set]
  by_cases hid : name = id
  · rw [if_pos hid.symm, if_pos hid, hid]
    rfl
  · rw [if_neg (Ne.symm hid), if_neg hid]

/-- One event more: the counter has the points and the total that the events add up
to. -/
theorem totals_step {id : ℕ} {evs : List (YsEvent T V)} {s : State T V}
    (h : Totals id evs (counterOf s id)) (ev : YsEvent T V) :
    Totals id (evs ++ [ev]) (counterOf (handleEvent s ev) id) := by
  cases ev with
  | tick time =>
    rw [counterOf_tick]
    exact h.tick time
  | counterSet line name file time value =>
    rw [counterOf_counterSet]
    -- a point of this counter, or of another one
    by_cases hid : name = id
    · rw [if_pos hid, hid]
      exact h.set time value
    · rw [if_neg hid]
      exact h.skip rfl (by simp [setPoints, hid]) (by simp [amounts])
  | counterAdd name amount =>
    rw [counterOf_counterAdd]
    -- likewise for an amount
    by_cases hid : name = id
    · rw [if_pos hid, hid]
      exact h.add amount
    · rw [if_neg hid]
      exact h.skip rfl (by simp [setPoints]) (by simp [amounts, hid])
  -- all other events touch no counter
  | header frequency start => exact h.skip rfl (by simp [setPoints]) (by simp [amounts])
  | string id' size str => exact h.skip rfl (by simp [setPoints]) (by simp [amounts])
  | region line name file begin end' =>
    exact h.skip rfl (by simp [setPoints]) (by simp [amounts])

/-- After any stream, the points of a counter are those set for it and one for
every tick with an amount added since the tick before, and what it has
accumulated is what has been added since the last tick. -/
theorem counters_total (evs : List (YsEvent T V)) (id : ℕ) :
    Totals id evs (counterOf (handleAll initial evs) id) := by
  induction evs using List.reverseRecOn with
  | nil => exact ⟨rfl, rfl⟩
  | append_singleton evs ev ih =>
    have hlast : handleAll initial (evs ++ [ev]) =
        handleEvent (handleAll (initial : State T V) evs) ev := by
      simp [handleAll]
    rw [hlast]
    exact totals_step ih ev

end

/-- Two amounts in one tick, none in the next; a point set for another counter. -/
example : (counterOf (handleAll (initial : State ℤ ℤ) [.counterAdd 7 2, .counterAdd 7 3, .tick 10,
    .tick 20, .counterSet 1 8 2 15 9, .counterAdd 7 4]) 7) = ⟨7, 4, [(10, 5)]⟩ := rfl

end Yardstick.CounterTotals
