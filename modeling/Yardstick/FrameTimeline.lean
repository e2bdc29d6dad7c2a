import Mathlib.Algebra.Order.Group.Defs
import Mathlib.Data.List.Induction
import Yardstick.YsConnection

/-!
# FrameTimeline — the frames tile the stream

Every header and every tick starts a frame and ends the one before; a
disconnect ends the current frame at `_lastTick`, where it started. Times are of
any ordered group.

* `FramesInv`: what the frames are after any events and disconnects;
* `frames_timeline`: with times that never decrease, they tile the stream;
* `findIndexByTime_first`: the search of the counters and of the frames.
-/

namespace Yardstick.FrameTimeline

open EventReader YsState YsConnection OrderedSearch

variable {T V : Type}

/-! ## Events and disconnects -/

inductive Input (T V : Type) where
  | event (ev : YsEvent T V)
  | disconnect

/-- The time at which the input starts a frame. -/
def startTime : Input T V → Option T
  | .event (.header _ start) => some start
  | .event (.tick time) => some time
  | _ => none

def times (inputs : List (Input T V)) : List T := inputs.filterMap startTime

/-- A disconnect comes behind the start of frame `k` and before the next. -/
def Cut (inputs : List (Input T V)) (k : ℕ) : Prop :=
  ∃ pre post, inputs = pre ++ .disconnect :: post ∧ (times pre).length = k + 1

theorem times_concat (inputs : List (Input T V)) (input : Input T V) :
    times (inputs ++ [input]) = times inputs ++ (startTime input).toList := by
  rw [times, List.filterMap_append]
  cases h : startTime input <;> simp [h, times]

/-- A disconnect cuts the timeline behind the frame that had begun last. -/
theorem cut_concat {inputs : List (Input T V)} {input : Input T V} {k : ℕ} :
    Cut (inputs ++ [input]) k ↔
      Cut inputs k ∨ (input = .disconnect ∧ (times inputs).length = k + 1) := by
  constructor
  · rintro ⟨pre, post, hsplit, hlength⟩
    rcases List.eq_nil_or_concat post with rfl | ⟨post', last, rfl⟩
    · rcases List.append_inj' hsplit rfl with ⟨rfl, hlast⟩
      exact Or.inr ⟨List.head_eq_of_cons_eq hlast, hlength⟩
    · rw [List.concat_eq_append, ← List.cons_append, ← List.append_assoc] at hsplit
      rcases List.append_inj' hsplit rfl with ⟨rfl, -⟩
      exact Or.inl ⟨pre, post', rfl, hlength⟩
  · rintro (⟨pre, post, rfl, hlength⟩ | ⟨rfl, hlength⟩)
    · exact ⟨pre, post ++ [input], by simp, hlength⟩
    · exact ⟨inputs, [], rfl, hlength⟩

theorem Cut.lt {inputs : List (Input T V)} {k : ℕ} (h : Cut inputs k) :
    k < (times inputs).length := by
  rcases h with ⟨pre, post, rfl, hlength⟩
  have happ : times (pre ++ .disconnect :: post) = times pre ++ times (.disconnect :: post) :=
    List.filterMap_append ..
  rw [happ, List.length_append]
  omega

section
variable [LinearOrder T] [Zero T] [One T] [Sub T] [Div T] [Zero V] [Add V] [DecidableEq V]

def handle (s : State T V) : Input T V → State T V
  | .event ev => handleEvent s ev
  | .disconnect => endCurrentFrame s

def handleInputs (s : State T V) (inputs : List (Input T V)) : State T V := inputs.foldl handle s

end

/-! ## The frames after any inputs -/

/-- Frame `k` starts at the `k`-th time and ends where the next one starts, or
where it started if a disconnect came in between; the last one is empty. The
current frame is the last one, unless a disconnect has ended it. -/
structure FramesInv [Zero T] [Add T] (inputs : List (Input T V)) (s : State T V) : Prop where
  count : s.frames.frames.length = (times inputs).length
  numbered : ∀ (k : ℕ) f, s.frames.frames[k]? = some f →
    f.index = k ∧ (times inputs)[k]? = some f.start
  tiles : ∀ (k : ℕ) f f', s.frames.frames[k]? = some f → s.frames.frames[k + 1]? = some f' →
    (Cut inputs k → f.end' = f.start) ∧ (¬ Cut inputs k → f.end' = f'.start)
  last : ∀ (k : ℕ) f, k + 1 = (times inputs).length → s.frames.frames[k]? = some f →
    f.start = s.lastTick ∧ f.length = 0
  current : ∀ i, s.frames.current = some i → i + 1 = (times inputs).length ∧ ¬ Cut inputs i
  ended : s.frames.current = none → ∀ k, k + 1 = (times inputs).length → Cut inputs k

section
variable [AddCommGroup T] {inputs : List (Input T V)} {s : State T V}

/-- Before any input there is no frame. -/
theorem initial_inv : FramesInv ([] : List (Input T V)) initial := by
  constructor
  · rfl
  · intro k f hf
    cases hf
  · intro k f f' hf
    cases hf
  · intro k f hk
    cases hk
  · intro i hi
    cases hi
  · intro _ k hk
    cases hk

omit [AddCommGroup T] in
/-- Only the end of the current frame is set. -/
theorem endFrame_getElem? [Sub T] (s : YsFrameSet T) (time : T) (k : ℕ) :
    (s.endFrame time).frames[k]? =
      (s.frames[k]?).map fun f => if s.current = some k then f.setEnd time else f := by
  unfold YsFrameSet.endFrame
  cases s.current with
  | some i =>
    rw [List.getElem?_modify]
    congr 1
    funext f
    simp only [Option.some.injEq]
  | none => simp

/-- A disconnect finds the current frame empty, and leaves it so. -/
theorem FramesInv.endFrame_lastTick (h : FramesInv inputs s) :
    (s.frames.endFrame s.lastTick).frames = s.frames.frames := by
  apply List.ext_getElem?
  intro k
  rw [endFrame_getElem?]
  cases hf : s.frames.frames[k]? with
  | none => rfl
  | some f =>
    rw [Option.map_some]
    split
    · next hcur =>
      rcases h.last k f (h.current k hcur).1 hf with ⟨hstart, hlength⟩
      have hsame : s.lastTick - f.start = f.length := by rw [hstart, sub_self, hlength]
      rw [YsFrame.setEnd, hsame]
    · rfl

/-- A disconnect. -/
theorem FramesInv.disconnect (h : FramesInv inputs s) :
    FramesInv (inputs ++ [.disconnect]) (endCurrentFrame s) := by
  have hframes : (endCurrentFrame s).frames.frames = s.frames.frames := h.endFrame_lastTick
  have htimes : times (inputs ++ [.disconnect]) = times inputs := by
    rw [times_concat]
    exact List.append_nil _
  constructor
  · rw [hframes, htimes]
    exact h.count
  · rw [hframes, htimes]
    exact h.numbered
  · -- a cut behind the last frame is none between two frames there are
    rw [hframes]
    intro k f f' hf hf'
    have hlt := (List.getElem?_eq_some_iff.mp hf').1
    have hcount := h.count
    have hcut : Cut (inputs ++ [.disconnect]) k ↔ Cut inputs k := by
      rw [cut_concat, or_iff_left]
      rintro ⟨-, hk⟩
      omega
    rw [hcut]
    exact h.tiles k f f' hf hf'
  · rw [hframes, htimes]
    exact h.last
  · -- behind the disconnect no frame is open
    intro i hi
    rw [show (endCurrentFrame s).frames.current = none from endFrame_current _ _] at hi
    cases hi
  · intro _ k hk
    rw [htimes] at hk
    exact cut_concat.mpr (Or.inr ⟨rfl, hk.symm⟩)

/-! ### The start of a frame -/

section
omit [AddCommGroup T]
variable [Zero T] [Sub T] (frames : YsFrameSet T) (time : T)

/-- The frames there were, with the current one ended. -/
theorem startFrame_old {k : ℕ} (hk : k < frames.frames.length) :
    (frames.startFrame time).frames[k]? =
      (frames.frames[k]?).map fun f => if frames.current = some k then f.setEnd time else f := by
  rw [YsFrameSet.startFrame, List.getElem?_append_left (by rwa [endFrame_length]),
    endFrame_getElem?]

theorem startFrame_new :
    (frames.startFrame time).frames[frames.frames.length]? =
      some ⟨frames.frames.length, time, 0⟩ := by
  rw [YsFrameSet.startFrame, List.getElem?_append_right (by rw [endFrame_length]),
    endFrame_length, Nat.sub_self]
  rfl

end

/-- A frame that begins takes the next number and the time it is given. -/
theorem FramesInv.numbered_start (h : FramesInv inputs s) {time : T} {k : ℕ} {f : YsFrame T}
    (hf : (s.frames.startFrame time).frames[k]? = some f) :
    f.index = k ∧ (times inputs ++ [time])[k]? = some f.start := by
  rcases Nat.lt_or_ge k s.frames.frames.length with hk | hk
  · rw [startFrame_old _ _ hk, Option.map_eq_some_iff] at hf
    rcases hf with ⟨f₀, hf₀, rfl⟩
    have hnumbered := h.numbered k f₀ hf₀
    rw [List.getElem?_append_left (by rwa [← h.count])]
    split
    · exact hnumbered
    · exact hnumbered
  · have hlt := (List.getElem?_eq_some_iff.mp hf).1
    rw [(startFrame_current _ _).2] at hlt
    have hkl : k = s.frames.frames.length := by omega
    rw [hkl, startFrame_new] at hf
    cases hf
    rw [hkl, h.count]
    simp

/-- The current frame ends at the time. If there is none, a disconnect has ended
the last frame. -/
theorem FramesInv.tiles_start (h : FramesInv inputs s) {time : T} {k : ℕ} {f f' : YsFrame T}
    (hf : (s.frames.startFrame time).frames[k]? = some f)
    (hf' : (s.frames.startFrame time).frames[k + 1]? = some f') :
    (Cut inputs k → f.end' = f.start) ∧ (¬ Cut inputs k → f.end' = f'.start) := by
  have hcount := h.count
  have hlt := (List.getElem?_eq_some_iff.mp hf').1
  rw [(startFrame_current _ _).2] at hlt
  rw [startFrame_old _ _ (by omega), Option.map_eq_some_iff] at hf
  rcases hf with ⟨f₀, hf₀, rfl⟩
  rcases Nat.lt_or_ge (k + 1) s.frames.frames.length with hk' | hk'
  · -- an older frame is not the current one
    have hne : s.frames.current ≠ some k := by
      intro hcur
      have hlast := (h.current k hcur).1
      omega
    rw [startFrame_old _ _ hk', Option.map_eq_some_iff] at hf'
    rcases hf' with ⟨f₁, hf₁, rfl⟩
    have htiles := h.tiles k f₀ f₁ hf₀ hf₁
    rw [if_neg hne]
    split
    · exact htiles
    · exact htiles
  · -- the last frame ends here, or has been ended
    have hkl : k + 1 = s.frames.frames.length := by omega
    rw [hkl, startFrame_new] at hf'
    cases hf'
    cases hcur : s.frames.current with
    | some i =>
      have hik : i = k := by
        have hi := (h.current i hcur).1
        omega
      subst hik
      rw [if_pos rfl]
      refine ⟨fun hc => absurd hc (h.current i hcur).2, fun _ => ?_⟩
      exact add_sub_cancel f₀.start time
    | none =>
      have hc := h.ended hcur k (by omega)
      rw [if_neg (by simp)]
      refine ⟨fun _ => ?_, fun hnc => absurd hc hnc⟩
      rw [YsFrame.end', (h.last k f₀ (by omega) hf₀).2, add_zero]

/-- The start of a frame ends the current one there. -/
theorem FramesInv.start {s' : State T V} {input : Input T V} {time : T} (h : FramesInv inputs s)
    (hinput : startTime input = some time) (hframes : s'.frames = s.frames.startFrame time)
    (hlast : s'.lastTick = time) : FramesInv (inputs ++ [input]) s' := by
  have hcount := h.count
  have htimes : times (inputs ++ [input]) = times inputs ++ [time] := by
    rw [times_concat, hinput]
    rfl
  have hcut : ∀ k, Cut (inputs ++ [input]) k ↔ Cut inputs k := by
    intro k
    rw [cut_concat, or_iff_left]
    rintro ⟨rfl, -⟩
    cases hinput
  have hcurrent : s'.frames.current = some (times inputs).length := by
    rw [hframes, (startFrame_current s.frames time).1, hcount]
  constructor
  · rw [hframes, (startFrame_current s.frames time).2, htimes, List.length_append,
      List.length_singleton, hcount]
  · rw [hframes, htimes]
    exact fun k f hf => h.numbered_start hf
  · simp only [hframes, hcut]
    exact fun k f f' hf hf' => h.tiles_start hf hf'
  · intro k f hk hf
    rw [htimes, List.length_append, List.length_singleton] at hk
    -- the last frame is the new one, which starts at the last tick
    have hkl : k = s.frames.frames.length := by omega
    rw [hframes, hkl, startFrame_new] at hf
    cases hf
    exact ⟨hlast.symm, rfl⟩
  · intro i hi
    rw [hcurrent] at hi
    cases hi
    rw [hcut, htimes, List.length_append, List.length_singleton]
    exact ⟨rfl, fun hc => Nat.lt_irrefl _ hc.lt⟩
  · intro hnone
    rw [hcurrent] at hnone
    cases hnone

/-- An event that starts no frame leaves the frames alone. -/
theorem FramesInv.skip {s' : State T V} {ev : YsEvent T V} (h : FramesInv inputs s)
    (hev : startTime (.event ev) = none) (hframes : s'.frames = s.frames)
    (hlast : s'.lastTick = s.lastTick) : FramesInv (inputs ++ [.event ev]) s' := by
  have htimes : times (inputs ++ [.event ev]) = times inputs := by
    rw [times_concat, hev]
    exact List.append_nil _
  have hcut : ∀ k, Cut (inputs ++ [.event ev]) k ↔ Cut inputs k := by
    intro k
    rw [cut_concat, or_iff_left]
    rintro ⟨heq, -⟩
    cases heq
  constructor
  · rw [hframes, htimes]
    exact h.count
  · rw [hframes, htimes]
    exact h.numbered
  · simp only [hframes, hcut]
    exact h.tiles
  · rw [hframes, htimes, hlast]
    exact h.last
  · simp only [hframes, htimes, hcut]
    exact h.current
  · simp only [hframes, htimes, hcut]
    exact h.ended

variable [LinearOrder T] [One T] [Div T] [Zero V] [Add V] [DecidableEq V]

theorem handle_inv (h : FramesInv inputs s) (input : Input T V) :
    FramesInv (inputs ++ [input]) (handle s input) := by
  cases input with
  | disconnect => exact h.disconnect
  | event ev =>
    cases ev with
    | header frequency start => exact h.start rfl rfl rfl
    | tick time => exact h.start rfl rfl rfl
    | _ => exact h.skip rfl rfl rfl

/-- The frames are right after any events and disconnects. -/
theorem handleInputs_inv (inputs : List (Input T V)) :
    FramesInv inputs (handleInputs initial inputs) := by
  induction inputs using List.reverseRecOn with
  | nil => exact initial_inv
  | append_singleton inputs input ih =>
    have hlast : handleInputs initial (inputs ++ [input]) =
        handle (handleInputs (initial : State T V) inputs) input := by
      simp [handleInputs]
    rw [hlast]
    exact handle_inv ih input

end

/-! ## Times that never decrease -/

/-- One frame for every header and tick, in their order; each ends where the
next one starts, or where it started if a disconnect came in between, and the
last one is empty. The ends are in the order `findIndexByTime` needs. -/
structure Timeline [LinearOrder T] [Zero T] [Add T] (inputs : List (Input T V)) (s : State T V) :
    Prop where
  count : s.frames.frames.length = (times inputs).length
  numbered : ∀ (k : ℕ) f, s.frames.frames[k]? = some f →
    f.index = k ∧ (times inputs)[k]? = some f.start
  tiles : ∀ (k : ℕ) f f', s.frames.frames[k]? = some f → s.frames.frames[k + 1]? = some f' →
    (Cut inputs k → f.end' = f.start) ∧ (¬ Cut inputs k → f.end' = f'.start)
  last : ∀ f ∈ s.frames.frames.getLast?, f.start = s.lastTick ∧ f.length = 0
  nonneg : ∀ f ∈ s.frames.frames, 0 ≤ f.length
  ordered : Ordered YsFrame.end' s.frames.frames

section
variable [AddCommGroup T] [LinearOrder T] {inputs : List (Input T V)} {s : State T V}

theorem FramesInv.start_le (h : FramesInv inputs s) (hmono : (times inputs).Pairwise (· ≤ ·))
    {i j : ℕ} {f f' : YsFrame T} (hij : i ≤ j) (hf : s.frames.frames[i]? = some f)
    (hf' : s.frames.frames[j]? = some f') : f.start ≤ f'.start :=
  Ordered.le_of_le id hmono hij (h.numbered i f hf).2 (h.numbered j f' hf').2

theorem FramesInv.end_le_start (h : FramesInv inputs s) (hmono : (times inputs).Pairwise (· ≤ ·))
    {k : ℕ} {f f' : YsFrame T} (hf : s.frames.frames[k]? = some f)
    (hf' : s.frames.frames[k + 1]? = some f') : f.end' ≤ f'.start := by
  by_cases hcut : Cut inputs k
  · rw [(h.tiles k f f' hf hf').1 hcut]
    exact h.start_le hmono (Nat.le_succ k) hf hf'
  · exact le_of_eq ((h.tiles k f f' hf hf').2 hcut)

/-- With times that never decrease no frame ends before it starts. -/
theorem FramesInv.start_le_end (h : FramesInv inputs s)
    (hmono : (times inputs).Pairwise (· ≤ ·)) {k : ℕ} {f : YsFrame T}
    (hf : s.frames.frames[k]? = some f) : f.start ≤ f.end' := by
  have hlt := (List.getElem?_eq_some_iff.mp hf).1
  have hcount := h.count
  rcases Nat.lt_or_ge (k + 1) s.frames.frames.length with hk | hk
  · have hf' := List.getElem?_eq_getElem hk
    by_cases hcut : Cut inputs k
    · exact le_of_eq ((h.tiles k f _ hf hf').1 hcut).symm
    · rw [(h.tiles k f _ hf hf').2 hcut]
      exact h.start_le hmono (Nat.le_succ k) hf hf'
  · rw [YsFrame.end', (h.last k f (by omega) hf).2, add_zero]

variable [IsOrderedAddMonoid T]

/-- With times that do not decrease, the invariant gives the timeline. -/
theorem FramesInv.timeline (h : FramesInv inputs s) (hmono : (times inputs).Pairwise (· ≤ ·)) :
    Timeline inputs s := by
  have hcount := h.count
  refine ⟨h.count, h.numbered, h.tiles, ?_, ?_, ?_⟩
  · intro f hf
    rw [List.getLast?_eq_getElem?, Option.mem_def] at hf
    have hlt := (List.getElem?_eq_some_iff.mp hf).1
    exact h.last _ f (by omega) hf
  · intro f hf
    rcases List.mem_iff_getElem?.mp hf with ⟨k, hk⟩
    exact (le_add_iff_nonneg_right f.start).mp (h.start_le_end hmono hk)
  · refine List.pairwise_iff_getElem.mpr fun i j hi hj hij => ?_
    have hfi := List.getElem?_eq_getElem hi
    have hfj := List.getElem?_eq_getElem hj
    have hnext := List.getElem?_eq_getElem (show i + 1 < s.frames.frames.length by omega)
    calc s.frames.frames[i].end' ≤ _ := h.end_le_start hmono hfi hnext
      _ ≤ s.frames.frames[j].start := h.start_le hmono hij hnext hfj
      _ ≤ s.frames.frames[j].end' := h.start_le_end hmono hfj

variable [One T] [Div T] [Zero V] [Add V] [DecidableEq V]

/-- After any events and disconnects in which the times of headers and ticks
never decrease, the frames tile the stream. -/
theorem frames_timeline (inputs : List (Input T V)) (hmono : (times inputs).Pairwise (· ≤ ·)) :
    Timeline inputs (handleInputs initial inputs) :=
  (handleInputs_inv inputs).timeline hmono

end

/-- Two connections, with a tick in each, and a disconnect too many. -/
def twoConnections : List (Input ℤ ℤ) :=
  [.event (.header 1 0), .event (.tick 4), .disconnect, .disconnect, .event (.header 1 9),
    .event (.tick 12)]

theorem frames_timeline_twoConnections :
    (handleInputs (initial : State ℤ ℤ) twoConnections).frames.frames =
        [⟨0, 0, 4⟩, ⟨1, 4, 0⟩, ⟨2, 9, 3⟩, ⟨3, 12, 0⟩] ∧
      Timeline twoConnections (handleInputs initial twoConnections) :=
  ⟨rfl, frames_timeline twoConnections (by decide)⟩

/-! ## Search by time -/

/-- On an array with nondecreasing keys, the times of the points of a counter or
the ends of frames, the search reads only places of the array and returns the
first one whose key is not below the time, or the length. -/
theorem findIndexByTime_first [LinearOrder T] [Add T] (time : T) :
    (∀ c : YsCounter T V, Ordered Prod.fst c.data →
      searchRead (fun i => (c.data[i]?).map fun p => decide (p.1 < time)) 0 c.data.length =
          some (c.findIndexByTime time) ∧
        FirstFrom Prod.fst c.data time (c.findIndexByTime time)) ∧
      ∀ s : YsFrameSet T, Ordered YsFrame.end' s.frames →
        searchRead (fun i => (s.frames[i]?).map fun f => decide (f.end' < time)) 0
            s.frames.length = some (s.findIndexByTime time) ∧
          FirstFrom YsFrame.end' s.frames time (s.findIndexByTime time) := by
  constructor
  · intro c hc
    exact ⟨searchRead_list Prod.fst c.data time, search_firstFrom Prod.fst hc time⟩
  · intro s hs
    exact ⟨searchRead_list YsFrame.end' s.frames time, search_firstFrom YsFrame.end' hs time⟩

end Yardstick.FrameTimeline
