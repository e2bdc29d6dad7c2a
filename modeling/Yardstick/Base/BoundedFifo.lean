import Yardstick.Base.Runs

/-!
# BoundedFifo — a first-in first-out queue of bounded size

What a bounded queue is for, with nothing of how it is stored: values leave in
the order in which they came (`run_items`). They come and go one by one (`push`,
`pop`) or in blocks (`pushAll`, `popMany`).
-/

namespace BoundedFifo

open Runs

variable {T : Type*} {cap : ℕ}

structure Fifo (T : Type*) (cap : ℕ) where
  items : List T
  bounded : items.length ≤ cap

namespace Fifo

def empty : Fifo T cap := ⟨[], Nat.zero_le _⟩

/-- Fails when the queue is full. -/
def push (q : Fifo T cap) (v : T) : Option (Fifo T cap) :=
  if h : q.items.length < cap then
    some ⟨q.items ++ [v], by rw [List.length_append]; exact h⟩
  else none

/-- Fails when the queue is empty. -/
def pop : Fifo T cap → Option (T × Fifo T cap)
  | ⟨[], _⟩ => none
  | ⟨v :: rest, h⟩ => some (v, ⟨rest, Nat.le_of_succ_le h⟩)

/-- Fails when there is no room for all of the block. -/
def pushAll (q : Fifo T cap) (vs : List T) : Option (Fifo T cap) :=
  if h : q.items.length + vs.length ≤ cap then
    some ⟨q.items ++ vs, by rw [List.length_append]; exact h⟩
  else none

/-- As many values as are wanted and there are. -/
def popMany (q : Fifo T cap) (n : ℕ) : List T × Fifo T cap :=
  (q.items.take n, ⟨q.items.drop n, by
    rw [List.length_drop]
    exact Nat.le_trans (Nat.sub_le _ _) q.bounded⟩)

theorem ext_items {q q' : Fifo T cap} (h : q.items = q'.items) : q = q' := by
  cases q
  cases q'
  cases h
  rfl

/-- A push succeeds exactly when there is room, and then puts its value behind the
others. -/
theorem push_eq_some {q q' : Fifo T cap} {v : T} :
    q.push v = some q' ↔ q.items.length < cap ∧ q'.items = q.items ++ [v] := by
  rw [push]
  by_cases hlen : q.items.length < cap
  · rw [dif_pos hlen, Option.some.injEq]
    constructor
    · rintro rfl
      exact ⟨hlen, rfl⟩
    · intro h
      exact ext_items h.2.symm
  · rw [dif_neg hlen]
    constructor
    · intro h
      cases h
    · intro h
      exact absurd h.1 hlen

/-- A value comes out exactly if it was the oldest one held. -/
theorem pop_eq_some {q q' : Fifo T cap} {v : T} :
    q.pop = some (v, q') ↔ q.items = v :: q'.items := by
  rcases q with ⟨_ | ⟨w, rest⟩, hq⟩
  · simp [pop]
  · rw [pop, Option.some.injEq, Prod.mk.injEq, List.cons.injEq]
    refine and_congr_right fun _ => ⟨?_, fun h => ext_items h⟩
    rintro rfl
    rfl

end Fifo

/-! ## Runs -/

inductive Move (T : Type*) where
  | push (v : T)
  | pop
deriving DecidableEq, Repr

def step (q : Fifo T cap) : Move T → Option (Fifo T cap)
  | .push v => q.push v
  | .pop => q.pop.map Prod.snd

theorem step_push {q : Fifo T cap} (hlen : q.items.length < cap) (v : T) :
    ∃ q', step q (.push v) = some q' := by
  rw [step, Fifo.push, dif_pos hlen]
  exact ⟨_, rfl⟩

theorem step_pop {q : Fifo T cap} (hlen : 0 < q.items.length) : ∃ q', step q .pop = some q' := by
  rcases q with ⟨_ | ⟨v, rest⟩, hq⟩
  · cases hlen
  · exact ⟨_, rfl⟩

/-- The values that came, in order. -/
def pushed : List (Move T) → List T
  | [] => []
  | .push v :: ms => v :: pushed ms
  | .pop :: ms => pushed ms

/-- How many values have left. -/
def pops : List (Move T) → ℕ
  | [] => 0
  | .push _ :: ms => pops ms
  | .pop :: ms => pops ms + 1

/-- Behind a run the queue holds what it had and what was pushed, without as many
in front as were popped. -/
theorem run_items_from {q q' : Fifo T cap} {ms : List (Move T)} (h : run step q ms = some q') :
    pops ms ≤ (q.items ++ pushed ms).length ∧
      q'.items = (q.items ++ pushed ms).drop (pops ms) := by
  induction ms generalizing q with
  | nil =>
    cases h
    simp [pushed, pops]
  | cons m ms ih =>
    rcases Option.bind_eq_some_iff.mp h with ⟨t, ht, hrest⟩
    have hih := ih hrest
    cases m with
    | push v =>
      have hpush := (Fifo.push_eq_some.mp ht).2
      rw [hpush, List.append_assoc] at hih
      exact hih
    | pop =>
      rcases Option.map_eq_some_iff.mp ht with ⟨⟨v, t'⟩, hpop, rfl⟩
      have hitems := Fifo.pop_eq_some.mp hpop
      rw [pushed, pops, hitems]
      exact ⟨Nat.succ_le_succ hih.1, hih.2⟩

/-- What is left is what came, less as many of the first as have left. -/
theorem run_items {q : Fifo T cap} {ms : List (Move T)}
    (h : run step (Fifo.empty : Fifo T cap) ms = some q) :
    q.items = (pushed ms).drop (pops ms) := (run_items_from h).2

theorem pushed_append (ms ms' : List (Move T)) : pushed (ms ++ ms') = pushed ms ++ pushed ms' := by
  induction ms with
  | nil => rfl
  | cons m ms ih => cases m <;> simp [pushed, ih]

theorem pops_append (ms ms' : List (Move T)) : pops (ms ++ ms') = pops ms + pops ms' := by
  induction ms with
  | nil => simp [pops]
  | cons m ms ih =>
    cases m with
    | push v => exact ih
    | pop =>
      rw [List.cons_append, pops, pops, ih]
      omega

end BoundedFifo
