import Yardstick.Base.Runs
import Yardstick.YsState

/-!
# YsConnection — sockets that outlive their connection

`connect` installs a new socket in `_ws` and leaves the handlers of the old one
where they are. They set `_ws` to null and end the current frame, whoever's
these are by then.

* `right_iff_own`: what a single step does right, in a state that is right;
* `connection_right_iff`: all steps of a run are right exactly when the old
  sockets are heard only where there is nothing left to spoil.
-/

namespace Yardstick.YsConnection

open EventReader YsState Runs

variable {T V : Type}

/-! ## The sockets -/

/-- What a socket has delivered: nothing, `open`, `error`, `close`. -/
inductive Phase where
  | connecting
  | open'
  | errored
  | closed
deriving DecidableEq, Repr

/-- `_ws`, the sockets created so far by their numbers, and the state that
listens to the protocol. `dropped` and `owner` are not in the code: the sockets
`disconnect` has dropped, and the one whose message started the last frame. -/
structure St (T V : Type) where
  ws : Option ℕ
  created : ℕ
  phase : ℕ → Phase
  dropped : ℕ → Bool
  state : State T V
  owner : Option ℕ

/-- The getter `connected`. -/
def St.connected (st : St T V) : Bool := st.ws.isSome

def init [Zero T] : St T V :=
  { ws := none, created := 0, phase := fun _ => .connecting, dropped := fun _ => false
    state := initial, owner := none }

/-- The events that start a frame. -/
def startsFrame : YsEvent T V → Bool
  | .header .. => true
  | .tick .. => true
  | _ => false

/-- A call of `connect` or `disconnect`, or a callback of a socket; a message is
given by the events `onmessage` emits for it. -/
inductive Act (T V : Type) where
  | connect
  | disconnect
  | onopen (socket : ℕ)
  | onmessage (socket : ℕ) (evs : List (YsEvent T V))
  | onerror (socket : ℕ)
  | onclose (socket : ℕ)

/-- The socket a callback is from. -/
def Act.socket : Act T V → Option ℕ
  | .connect => none
  | .disconnect => none
  | .onopen i => some i
  | .onmessage i _ => some i
  | .onerror i => some i
  | .onclose i => some i

/-- What `YsState` does on `'disconnect'`. -/
def endCurrentFrame [Sub T] (s : State T V) : State T V :=
  { s with frames := s.frames.endFrame s.lastTick }

section
variable [LinearOrder T] [Zero T] [One T] [Sub T] [Div T] [Zero V] [Add V] [DecidableEq V]

/-- A socket delivers `open`, then messages, then at most one `error`, then one
`close`, which may come at any time. -/
def step (st : St T V) : Act T V → Option (St T V)
  | .connect =>
    some { st with
      ws := some st.created, created := st.created + 1
      phase := Function.update st.phase st.created .connecting
      dropped := Function.update st.dropped st.created false }
  | .disconnect =>
    match st.ws with
    | some i =>
      some { st with
        ws := none, dropped := Function.update st.dropped i true
        state := endCurrentFrame st.state }
    | none => some st
  | .onopen i =>
    if i < st.created ∧ st.phase i = .connecting then
      some { st with phase := Function.update st.phase i .open' }
    else none
  | .onmessage i evs =>
    if i < st.created ∧ st.phase i = .open' then
      some { st with
        state := handleAll st.state evs
        owner := if evs.any startsFrame then some i else st.owner }
    else none
  | .onerror i =>
    if i < st.created ∧ (st.phase i = .connecting ∨ st.phase i = .open') then
      some { st with ws := none, phase := Function.update st.phase i .errored }
    else none
  | .onclose i =>
    if i < st.created ∧ st.phase i ≠ .closed then
      some { st with
        ws := none, phase := Function.update st.phase i .closed
        state := endCurrentFrame st.state }
    else none

end

/-! ## What should hold -/

/-- The socket of the latest `connect` has not been dropped, and has delivered
neither `error` nor `close`. -/
def Live (st : St T V) : Prop :=
  ∃ i, i + 1 = st.created ∧ st.dropped i = false ∧ st.phase i ≠ .errored ∧ st.phase i ≠ .closed

/-- There is a current frame, and it is one of the latest connection. -/
def OwnFrame (st : St T V) : Prop :=
  st.state.frames.current ≠ none ∧ ∃ i, st.owner = some i ∧ i + 1 = st.created

/-- The current frame goes on. -/
def FrameKept (st st' : St T V) : Prop :=
  ∀ f, st.state.frames.current = some f → st'.state.frames.current = some f ∧
    st'.state.frames.frames[f]? = st.state.frames.frames[f]?

section
variable [LinearOrder T] [Zero T] [One T] [Sub T] [Div T] [Zero V] [Add V] [DecidableEq V]

/-- What a step should do: leave `connected` true exactly if the latest socket
lives; and if it is a callback of an earlier socket, neither change it nor end a
frame of the latest connection. -/
def Right (st : St T V) (act : Act T V) : Prop :=
  ∀ st', step st act = some st' →
    (st'.connected = true ↔ Live st') ∧
    ∀ i, act.socket = some i → i + 1 < st.created →
      st'.connected = st.connected ∧ (OwnFrame st → FrameKept st st')

end

/-- The condition on a step: an earlier socket delivers an error or a close only
while there is no `_ws`, and a close or the start of a frame only while there is
no frame of the latest connection. -/
def Own (st : St T V) : Act T V → Prop
  | .onmessage i evs => i + 1 < st.created → OwnFrame st → evs.any startsFrame = false
  | .onerror i => i + 1 < st.created → st.ws = none
  | .onclose i => i + 1 < st.created → st.ws = none ∧ ¬ OwnFrame st
  | _ => True

/-- `_ws` is null or the latest socket, and the latter exactly while that lives;
the current frame is one of the frames. -/
structure Inv (st : St T V) : Prop where
  latest : ∀ i, st.ws = some i → i + 1 = st.created
  live : st.connected = true ↔ Live st
  current : ∀ f, st.state.frames.current = some f → f < st.state.frames.frames.length

/-! ## Frames -/

section
variable [Sub T]

theorem endFrame_length (s : YsFrameSet T) (time : T) :
    (s.endFrame time).frames.length = s.frames.length := by
  unfold YsFrameSet.endFrame
  split
  · simp
  · rfl

theorem endFrame_current (s : YsFrameSet T) (time : T) : (s.endFrame time).current = none := by
  unfold YsFrameSet.endFrame
  split
  · rfl
  · assumption

variable [LinearOrder T] [Zero T] [One T] [Div T] [Zero V] [Add V] [DecidableEq V]

omit [LinearOrder T] [One T] [Div T] in
theorem startFrame_current (s : YsFrameSet T) (time : T) :
    (s.startFrame time).current = some s.frames.length ∧
    (s.startFrame time).frames.length = s.frames.length + 1 := by
  unfold YsFrameSet.startFrame
  simp [endFrame_length]

/-- What one event does to the frames. -/
theorem handleEvent_frames (s : State T V) (ev : YsEvent T V) :
    (startsFrame ev = false ∧ (handleEvent s ev).frames = s.frames) ∨
    (startsFrame ev = true ∧ ∃ time, (handleEvent s ev).frames = s.frames.startFrame time) := by
  cases ev with
  | header frequency start => exact Or.inr ⟨rfl, start, rfl⟩
  | tick time => exact Or.inr ⟨rfl, time, rfl⟩
  | region line name file start end' => exact Or.inl ⟨rfl, rfl⟩
  | counterSet line name file time value => exact Or.inl ⟨rfl, rfl⟩
  | string id size str => exact Or.inl ⟨rfl, rfl⟩
  | counterAdd name amount => exact Or.inl ⟨rfl, rfl⟩

/-- Without an event that starts a frame a message leaves the frames alone; with
one, the frame it ends with is new. -/
theorem handleAll_frames (s : State T V) (evs : List (YsEvent T V)) :
    (evs.any startsFrame = false → (handleAll s evs).frames = s.frames) ∧
    (evs.any startsFrame = true → ∃ n, (handleAll s evs).frames.current = some n ∧
      s.frames.frames.length ≤ n ∧ n < (handleAll s evs).frames.frames.length) ∧
    s.frames.frames.length ≤ (handleAll s evs).frames.frames.length := by
  induction evs generalizing s with
  | nil => exact ⟨fun _ => rfl, fun h => by simp at h, le_rfl⟩
  | cons ev evs ih =>
    obtain ⟨hnone, hsome, hlen⟩ := ih (handleEvent s ev)
    have hcons : handleAll s (ev :: evs) = handleAll (handleEvent s ev) evs := rfl
    rw [hcons, List.any_cons]
    rcases handleEvent_frames s ev with ⟨hev, hframes⟩ | ⟨hev, time, hframes⟩
    · rw [hframes] at hnone hsome hlen
      simp only [hev, Bool.false_or]
      exact ⟨hnone, hsome, hlen⟩
    · have hnew := startFrame_current s.frames time
      rw [← hframes] at hnew
      refine ⟨fun h => by simp [hev] at h, fun _ => ?_, by omega⟩
      cases hrest : evs.any startsFrame with
      | false =>
        -- the frame this event has started is the last one
        rw [hnone hrest]
        exact ⟨_, hnew.1, le_rfl, by omega⟩
      | true =>
        obtain ⟨n, hn, hle, hlt⟩ := hsome hrest
        exact ⟨n, hn, by omega, hlt⟩

end

/-! ## One step -/

/-- Whether the latest socket lives. -/
theorem live_iff {st : St T V} {n : ℕ} (hn : n + 1 = st.created) :
    Live st ↔ st.dropped n = false ∧ st.phase n ≠ .errored ∧ st.phase n ≠ .closed := by
  constructor
  · rintro ⟨i, hi, hlive⟩
    have hin : i = n := by omega
    rwa [hin] at hlive
  · exact fun h => ⟨n, hn, h⟩

theorem init_inv [Zero T] : Inv (init : St T V) where
  latest := fun i hi => nomatch hi
  live := by simp [St.connected, init, Live]
  current := fun f hf => nomatch hf

/-- A delivery of an earlier socket says nothing about whether the latest one lives. -/
theorem live_update_phase {st st' : St T V} {i : ℕ} {phase : Phase} (hi : i + 1 < st.created)
    (hcreated : st'.created = st.created) (hdropped : st'.dropped = st.dropped)
    (hphase : st'.phase = Function.update st.phase i phase) : Live st' ↔ Live st := by
  obtain ⟨n, hn⟩ : ∃ n, n + 1 = st.created := ⟨st.created - 1, by omega⟩
  rw [live_iff hn, live_iff (hn.trans hcreated.symm), hdropped, hphase,
    Function.update_of_ne (by omega)]

/-- No frame goes on where there is none any more. -/
theorem not_frameKept {st st' : St T V} (hcurrent : st.state.frames.current ≠ none)
    (hend : ∀ f, st.state.frames.current = some f → st'.state.frames.current ≠ some f) :
    ¬ FrameKept st st' := by
  obtain ⟨f, hf⟩ := Option.ne_none_iff_exists'.mp hcurrent
  exact fun hkept => hend f hf (hkept f hf).1

theorem frameKept_of_eq {st st' : St T V} (h : st'.state.frames = st.state.frames) :
    FrameKept st st' := by
  intro f hf
  rw [h]
  exact ⟨hf, rfl⟩

section
variable [LinearOrder T] [Zero T] [One T] [Sub T] [Div T] [Zero V] [Add V] [DecidableEq V]
variable {st st' : St T V} {act : Act T V}

/-- What each call and each event of a socket does. -/
theorem step_cases (h : step st act = some st') :
    (act = .connect ∧ st' = { st with
      ws := some st.created, created := st.created + 1
      phase := Function.update st.phase st.created .connecting
      dropped := Function.update st.dropped st.created false }) ∨
    (∃ i, act = .disconnect ∧ st.ws = some i ∧ st' = { st with
      ws := none, dropped := Function.update st.dropped i true
      state := endCurrentFrame st.state }) ∨
    (act = .disconnect ∧ st.ws = none ∧ st' = st) ∨
    (∃ i, act = .onopen i ∧ i < st.created ∧ st.phase i = .connecting ∧
      st' = { st with phase := Function.update st.phase i .open' }) ∨
    (∃ i evs, act = .onmessage i evs ∧ i < st.created ∧ st.phase i = .open' ∧ st' = { st with
      state := handleAll st.state evs
      owner := if evs.any startsFrame then some i else st.owner }) ∨
    (∃ i, act = .onerror i ∧ i < st.created ∧ (st.phase i = .connecting ∨ st.phase i = .open') ∧
      st' = { st with ws := none, phase := Function.update st.phase i .errored }) ∨
    (∃ i, act = .onclose i ∧ i < st.created ∧ st.phase i ≠ .closed ∧ st' = { st with
      ws := none, phase := Function.update st.phase i .closed
      state := endCurrentFrame st.state }) := by
  cases act with
  | connect => exact Or.inl ⟨rfl, (Option.some.inj h).symm⟩
  | disconnect =>
    -- without a socket it does nothing
    cases hws : st.ws with
    | some i =>
      simp only [step, hws, Option.some.injEq] at h
      exact Or.inr (Or.inl ⟨i, rfl, rfl, h.symm⟩)
    | none =>
      simp only [step, hws, Option.some.injEq] at h
      exact Or.inr (Or.inr (Or.inl ⟨rfl, rfl, h.symm⟩))
  | onopen i =>
    -- an event happens to a socket that can still have it
    obtain ⟨⟨hi, hphase⟩, hst'⟩ := Option.ite_none_right_eq_some.mp h
    cases hst'
    exact Or.inr (Or.inr (Or.inr (Or.inl ⟨i, rfl, hi, hphase, rfl⟩)))
  | onmessage i evs =>
    obtain ⟨⟨hi, hphase⟩, hst'⟩ := Option.ite_none_right_eq_some.mp h
    cases hst'
    exact Or.inr (Or.inr (Or.inr (Or.inr (Or.inl ⟨i, evs, rfl, hi, hphase, rfl⟩))))
  | onerror i =>
    obtain ⟨⟨hi, hphase⟩, hst'⟩ := Option.ite_none_right_eq_some.mp h
    cases hst'
    exact Or.inr (Or.inr (Or.inr (Or.inr (Or.inr (Or.inl ⟨i, rfl, hi, hphase, rfl⟩)))))
  | onclose i =>
    obtain ⟨⟨hi, hphase⟩, hst'⟩ := Option.ite_none_right_eq_some.mp h
    cases hst'
    exact Or.inr (Or.inr (Or.inr (Or.inr (Or.inr (Or.inr ⟨i, rfl, hi, hphase, rfl⟩)))))

/-- `connected` is right after a step that meets the condition. -/
theorem step_live (hinv : Inv st) (hown : Own st act) (h : step st act = some st') :
    st'.connected = true ↔ Live st' := by
  rcases step_cases h with ⟨rfl, rfl⟩ | ⟨i, rfl, hws, rfl⟩ | ⟨rfl, hws, rfl⟩ |
    ⟨i, rfl, hi, hphase, rfl⟩ | ⟨i, evs, rfl, hi, hphase, rfl⟩ | ⟨i, rfl, hi, hphase, rfl⟩ |
    ⟨i, rfl, hi, hphase, rfl⟩
  · -- the new socket has delivered nothing
    refine Iff.trans ?_ (Iff.symm (live_iff (n := st.created) rfl))
    simp [St.connected]
  · -- what is dropped is the latest socket
    refine Iff.trans ?_ (Iff.symm (live_iff (hinv.latest i hws)))
    simp [St.connected]
  · -- disconnect without a socket
    exact hinv.live
  · -- onopen
    have hlive : Live { st with phase := Function.update st.phase i .open' } ↔ Live st := by
      obtain ⟨n, hn⟩ : ∃ n, n + 1 = st.created := ⟨st.created - 1, by omega⟩
      refine Iff.trans (live_iff hn) (Iff.trans ?_ (Iff.symm (live_iff hn)))
      by_cases hin : n = i
      · subst hin
        simp [hphase]
      · simp [Function.update_of_ne hin]
    exact hinv.live.trans hlive.symm
  · -- onmessage
    exact hinv.live
  · -- onerror, which drops `_ws`
    rcases Nat.lt_or_ge (i + 1) st.created with hlt | hge
    · -- an earlier socket: there was no `_ws` before either
      refine Iff.trans ?_ (Iff.symm (live_update_phase hlt rfl rfl rfl))
      rw [← hinv.live]
      simp [St.connected, hown hlt]
    · have hlatest : i + 1 = st.created := by omega
      refine Iff.trans ?_ (Iff.symm (live_iff hlatest))
      simp [St.connected]
  · -- onclose
    rcases Nat.lt_or_ge (i + 1) st.created with hlt | hge
    · refine Iff.trans ?_ (Iff.symm (live_update_phase hlt rfl rfl rfl))
      rw [← hinv.live]
      simp [St.connected, (hown hlt).1]
    · have hlatest : i + 1 = st.created := by omega
      refine Iff.trans ?_ (Iff.symm (live_iff hlatest))
      simp [St.connected]

/-- What a callback of an earlier socket leaves alone if it meets the condition. -/
theorem step_earlier {i : ℕ} (hown : Own st act) (h : step st act = some st')
    (hsocket : act.socket = some i) (hi : i + 1 < st.created) :
    st'.connected = st.connected ∧ (OwnFrame st → FrameKept st st') := by
  cases act with
  | connect => cases hsocket
  | disconnect => cases hsocket
  | onopen j =>
    obtain ⟨_, hst'⟩ := Option.ite_none_right_eq_some.mp h
    cases hst'
    exact ⟨rfl, fun _ => frameKept_of_eq rfl⟩
  | onmessage j evs =>
    cases hsocket
    obtain ⟨_, hst'⟩ := Option.ite_none_right_eq_some.mp h
    cases hst'
    -- no frame of its own, so the events start none
    exact ⟨rfl, fun hframe =>
      frameKept_of_eq ((handleAll_frames st.state evs).1 (hown hi hframe))⟩
  | onerror j =>
    cases hsocket
    obtain ⟨_, hst'⟩ := Option.ite_none_right_eq_some.mp h
    cases hst'
    exact ⟨by simp [St.connected, hown hi], fun _ => frameKept_of_eq rfl⟩
  | onclose j =>
    cases hsocket
    obtain ⟨_, hst'⟩ := Option.ite_none_right_eq_some.mp h
    cases hst'
    exact ⟨by simp [St.connected, (hown hi).1], fun hframe => absurd hframe (hown hi).2⟩

/-- A step that does not meet the condition is an earlier socket's callback that
does harm. -/
theorem own_of_earlier (hinv : Inv st) (h : step st act = some st')
    (hright : ∀ i, act.socket = some i → i + 1 < st.created →
      st'.connected = st.connected ∧ (OwnFrame st → FrameKept st st')) : Own st act := by
  cases act with
  | connect => trivial
  | disconnect => trivial
  | onopen j => trivial
  | onmessage j evs =>
    intro hj hframe
    obtain ⟨_, hst'⟩ := Option.ite_none_right_eq_some.mp h
    cases hst'
    by_contra hstarts
    refine not_frameKept hframe.1 (fun f hf hnew => ?_) ((hright j rfl hj).2 hframe)
    -- the frame the message leaves behind is a new one
    obtain ⟨n, hn, hle, _⟩ :=
      (handleAll_frames st.state evs).2.1 (Bool.eq_true_of_not_eq_false hstarts)
    have hfn : n = f := Option.some.inj (hn.symm.trans hnew)
    have hlt := hinv.current f hf
    omega
  | onerror j =>
    intro hj
    obtain ⟨_, hst'⟩ := Option.ite_none_right_eq_some.mp h
    cases hst'
    have hsame := (hright j rfl hj).1
    simpa [St.connected] using hsame.symm
  | onclose j =>
    intro hj
    obtain ⟨_, hst'⟩ := Option.ite_none_right_eq_some.mp h
    cases hst'
    have hsame := (hright j rfl hj).1
    refine ⟨by simpa [St.connected] using hsame.symm, fun hframe => ?_⟩
    refine not_frameKept hframe.1 (fun f _ hnew => ?_) ((hright j rfl hj).2 hframe)
    rw [show (endCurrentFrame st.state).frames.current = none from endFrame_current _ _] at hnew
    cases hnew

/-- A step is right exactly when it meets the condition. -/
theorem right_iff_own (hinv : Inv st) (h : step st act = some st') :
    Right st act ↔ Own st act := by
  constructor
  · intro hright
    exact own_of_earlier hinv h (hright st' h).2
  · intro hown u hu
    exact ⟨step_live hinv hown hu, fun i hsocket hi => step_earlier hown hu hsocket hi⟩

/-- Steps of the current socket keep the invariant. -/
theorem step_inv (hown : Own st act) (h : step st act = some st') (hinv : Inv st) : Inv st' := by
  refine ⟨?_, step_live hinv hown h, ?_⟩
  · rcases step_cases h with ⟨rfl, rfl⟩ | ⟨i, rfl, hws, rfl⟩ | ⟨rfl, hws, rfl⟩ |
      ⟨i, rfl, hi, hphase, rfl⟩ | ⟨i, evs, rfl, hi, hphase, rfl⟩ | ⟨i, rfl, hi, hphase, rfl⟩ |
      ⟨i, rfl, hi, hphase, rfl⟩
    · -- connect: the latest socket is the new one
      intro j hj
      cases hj
      rfl
    · -- disconnect
      exact fun j hj => nomatch hj
    · -- disconnect without a socket
      exact hinv.latest
    · -- onopen
      exact hinv.latest
    · -- onmessage
      exact hinv.latest
    · -- onerror
      exact fun j hj => nomatch hj
    · -- onclose
      exact fun j hj => nomatch hj
  · have hend : ∀ f, (endCurrentFrame st.state).frames.current = some f →
        f < (endCurrentFrame st.state).frames.frames.length := by
      intro f hf
      rw [show (endCurrentFrame st.state).frames.current = none from endFrame_current _ _] at hf
      cases hf
    rcases step_cases h with ⟨rfl, rfl⟩ | ⟨i, rfl, hws, rfl⟩ | ⟨rfl, hws, rfl⟩ |
      ⟨i, rfl, hi, hphase, rfl⟩ | ⟨i, evs, rfl, hi, hphase, rfl⟩ | ⟨i, rfl, hi, hphase, rfl⟩ |
      ⟨i, rfl, hi, hphase, rfl⟩
    · -- connect
      exact hinv.current
    · -- disconnect
      exact hend
    · -- disconnect without a socket
      exact hinv.current
    · -- onopen
      exact hinv.current
    · -- onmessage
      intro f hf
      change (handleAll st.state evs).frames.current = some f at hf
      have hframes := handleAll_frames st.state evs
      cases hstarts : evs.any startsFrame with
      | false =>
        rw [hframes.1 hstarts] at hf
        exact lt_of_lt_of_le (hinv.current f hf) hframes.2.2
      | true =>
        obtain ⟨n, hn, _, hlt⟩ := hframes.2.1 hstarts
        have hnf : n = f := Option.some.inj (hn.symm.trans hf)
        rwa [hnf] at hlt
    · -- onerror
      exact hinv.current
    · -- onclose
      exact hend

/-! ## Runs -/

/-- All steps of a run are right exactly when all of them meet the condition. -/
theorem connection_right_iff (acts : List (Act T V)) (hrun : run step init acts = some st) :
    Along step Right init acts ↔ Along step Own init acts :=
  along_congr step (fun _ _ _ hown h hinv => step_inv hown h hinv)
    (fun _ _ _ h hinv => right_iff_own hinv h) init_inv hrun

end

/-- A connection, dropped and replaced; the old socket closes in between. -/
def reconnect : List (Act ℤ ℤ) :=
  [.connect, .onopen 0, .onmessage 0 [.tick 5], .disconnect, .onclose 0, .connect, .onopen 1]

theorem connection_right_reconnect : Along step Right init reconnect := by
  refine (connection_right_iff reconnect rfl).mpr ?_
  iterate 7
    refine (along_cons _).mpr ⟨by simp [Own, init], fun s hs => ?_⟩
    cases hs
  exact along_nil step Own _

/-- The old socket closes once the new one is there. -/
def lateClose : List (Act ℤ ℤ) := [.connect, .onopen 0, .disconnect, .connect, .onclose 0]

/-- A close that comes late, when the next socket is open, disconnects that one. -/
theorem connection_lateClose :
    (∃ st, run step init lateClose = some st ∧ st.connected = false ∧ Live st) ∧
    ¬ Along step Right init lateClose := by
  have hlive : Live (T := ℤ) (V := ℤ) ⟨none, 2,
      Function.update (Function.update (Function.update (Function.update (fun _ => .connecting)
        0 .connecting) 0 .open') 1 .connecting) 0 .closed,
      Function.update (Function.update (Function.update (fun _ => false) 0 false) 0 true) 1 false,
      endCurrentFrame (endCurrentFrame initial), none⟩ := (live_iff (n := 1) rfl).mpr (by simp)
  refine ⟨⟨_, rfl, rfl, hlive⟩, fun halong => ?_⟩
  have hlast : Along step Right init
      (([.connect, .onopen 0, .disconnect, .connect] : List (Act ℤ ℤ)) ++ [.onclose 0]) := halong
  have hright := hlast.at step rfl
  exact absurd ((hright _ rfl).1.mpr hlive) (by simp [St.connected])

end Yardstick.YsConnection
