import Yardstick.Base.Ledger
import Yardstick.Protocol
import Yardstick.SinkSessions

/-!
# SinkListen — Listen, Close and the allocator

The sink with everything it owns: the memory of the server, the sessions, and
the ledger of what it has asked of the allocators it was given. `Close` gives
the memory of the server back without forgetting its address, and `Listen`
begins with a `Close`.

* `close_sessionless`: what `Close` does where there are no sessions;
* `listen_close_iff`: over any run of `Listen` and `Close`, the memory is
  accounted for exactly if nothing is called behind a `Close` that has closed a
  server.
-/

namespace Yardstick.SinkListen

open Ledger Protocol Runs
open SinkSessions (Session Sink)

variable {A α κ : Type*} [DecidableEq α]

/-- The fields of a `WebsocketSink`, over the memory its sessions live in.
`calls` is what its allocators have been asked for. -/
structure WebsocketSink (A α κ : Type*) extends Sink α κ where
  allocator : Option A
  port : BitVec 16
  server : Option α
  memory : Option α
  calls : List (Call A α)

namespace WebsocketSink

/-- `_allocator(nullptr, size)`, which has returned `m`. -/
def allocated (w : WebsocketSink A α κ) (m : Option α) : WebsocketSink A α κ :=
  match w.allocator, m with
  | some a, some b => { w with toSink := w.toSink.allocated m, calls := w.calls ++ [.alloc a b] }
  | _, _ => w

/-- `_allocator(m, 0)`. -/
def release (w : WebsocketSink A α κ) (m : Option α) : WebsocketSink A α κ :=
  match w.allocator, m with
  | some a, some b => { w with toSink := w.toSink.release m, calls := w.calls ++ [.free a b] }
  | _, _ => w

@[simp] theorem release_session (w : WebsocketSink A α κ) (m : Option α) :
    (w.release m).session = w.session := by
  unfold release
  split <;> simp

@[simp] theorem release_sessions (w : WebsocketSink A α κ) (m : Option α) :
    (w.release m).sessions = w.sessions := by
  unfold release
  split <;> simp

@[simp] theorem release_allocator (w : WebsocketSink A α κ) (m : Option α) :
    (w.release m).allocator = w.allocator := by
  unfold release
  split <;> rfl

@[simp] theorem release_memory (w : WebsocketSink A α κ) (m : Option α) :
    (w.release m).memory = w.memory := by
  unfold release
  split <;> rfl

@[simp] theorem release_server (w : WebsocketSink A α κ) (m : Option α) :
    (w.release m).server = w.server := by
  unfold release
  split <;> rfl

omit [DecidableEq α] in
@[simp] theorem allocated_session (w : WebsocketSink A α κ) (m : Option α) :
    (w.allocated m).session = w.session := by
  unfold allocated
  split <;> rfl

omit [DecidableEq α] in
@[simp] theorem allocated_sessions (w : WebsocketSink A α κ) (m : Option α) :
    (w.allocated m).sessions = w.sessions := by
  unfold allocated
  split <;> rfl

omit [DecidableEq α] in
@[simp] theorem allocated_allocator (w : WebsocketSink A α κ) (m : Option α) :
    (w.allocated m).allocator = w.allocator := by
  unfold allocated
  split <;> rfl

omit [DecidableEq α] in
@[simp] theorem allocated_memory (w : WebsocketSink A α κ) (m : Option α) :
    (w.allocated m).memory = w.memory := by
  unfold allocated
  split <;> rfl

omit [DecidableEq α] in
@[simp] theorem allocated_server (w : WebsocketSink A α κ) (m : Option α) :
    (w.allocated m).server = w.server := by
  unfold allocated
  split <;> rfl

theorem release_calls {w : WebsocketSink A α κ} {a : A} (ha : w.allocator = some a)
    (m : Option α) : (w.release m).calls = w.calls ++ m.toList.map (Call.free a) := by
  unfold release
  cases m with
  | none => simp [ha]
  | some b => simp [ha]

omit [DecidableEq α] in
theorem allocated_calls {w : WebsocketSink A α κ} {a : A} (ha : w.allocator = some a)
    (m : Option α) : (w.allocated m).calls = w.calls ++ m.toList.map (Call.alloc a) := by
  unfold allocated
  cases m with
  | none => simp [ha]
  | some b => simp [ha]

end WebsocketSink

/-! ## The operations -/

/-- `DestroySession`. -/
def destroySession (w : WebsocketSink A α κ) (s : α) : WebsocketSink A α κ :=
  let w := { w with toSink := SinkSessions.unlinkSession w.toSink s }
  (w.release (w.session s).buffer).release (some s)

/-- The loop of `Close`, at most `fuel` rounds of it; `none` if it has not ended
by then. -/
def destroySessions : ℕ → WebsocketSink A α κ → Option (WebsocketSink A α κ)
  | 0, w => if w.sessions = none then some w else none
  | fuel + 1, w =>
    match w.sessions with
    | none => some w
    | some s => destroySessions fuel (destroySession w s)

def close (fuel : ℕ) (w : WebsocketSink A α κ) : Option (YsResult × WebsocketSink A α κ) :=
  -- WebbyServerShutdown(_server); _server = nullptr
  let w := { w with server := none }
  -- if (_allocator != nullptr) _allocator(_memory, 0)
  let w := w.release w.memory
  (destroySessions fuel w).map fun w => (.success, w)

/-- `Listen`, with what the allocator returns for the memory of the server, and
whether `WebbyServerInit` succeeds; the server lies at the start of its memory. -/
def listen (fuel : ℕ) (w : WebsocketSink A α κ) (port : BitVec 16) (allocator : A)
    (memory : Option α) (init : Bool) : Option (YsResult × WebsocketSink A α κ) :=
  (close fuel w).map fun (_, w) =>
    let w := { w with allocator := some allocator, port := port }
    let w := { w.allocated memory with memory := memory }
    match memory with
    | none => (.noMemory, w)
    | some m =>
      if init then (.success, { w with server := some m })
      else (.unknown, { { w with server := none }.release memory with memory := none })

/-- `destroySession` is `SinkSessions.destroySession`, with the ledger kept. -/
theorem destroySession_toSink (w : WebsocketSink A α κ) (s : α) (h : w.allocator ≠ none) :
    (destroySession w s).toSink = SinkSessions.destroySession w.toSink s := by
  rcases Option.ne_none_iff_exists'.mp h with ⟨a, ha⟩
  unfold destroySession SinkSessions.destroySession WebsocketSink.release
  cases hb : ((SinkSessions.unlinkSession w.toSink s).session s).buffer with
  | none => simp [ha, hb, Sink.release]
  | some b => simp [ha, hb]

/-! ## Without sessions -/

/-- What `Close` leaves of a sink without sessions. -/
def closed (w : WebsocketSink A α κ) : WebsocketSink A α κ :=
  { w with server := none }.release w.memory

@[simp] theorem closed_allocator (w : WebsocketSink A α κ) :
    (closed w).allocator = w.allocator := WebsocketSink.release_allocator _ _

@[simp] theorem closed_memory (w : WebsocketSink A α κ) : (closed w).memory = w.memory :=
  WebsocketSink.release_memory _ _

@[simp] theorem closed_server (w : WebsocketSink A α κ) : (closed w).server = none :=
  WebsocketSink.release_server _ _

@[simp] theorem closed_sessions (w : WebsocketSink A α κ) :
    (closed w).sessions = w.sessions := WebsocketSink.release_sessions _ _

theorem closed_calls {w : WebsocketSink A α κ} {a : A} (ha : w.allocator = some a) :
    (closed w).calls = w.calls ++ w.memory.toList.map (Call.free a) :=
  WebsocketSink.release_calls (w := { w with server := none }) ha w.memory

/-- Without sessions `Close` has only the server to close. -/
theorem close_sessionless {w : WebsocketSink A α κ} (fuel : ℕ) (h : w.sessions = none) :
    close fuel w = some (.success, closed w) := by
  have hsessions : (closed w).sessions = none := by rw [closed_sessions, h]
  show (destroySessions fuel (closed w)).map _ = _
  cases fuel with
  | zero => rw [destroySessions, if_pos hsessions, Option.map_some]
  | succ fuel =>
    rw [destroySessions]
    split
    · rfl
    · rename_i s hs
      rw [hsessions] at hs
      cases hs

theorem closed_calls_none {w : WebsocketSink A α κ} (ha : w.allocator = none) :
    (closed w).calls = w.calls := by
  simp [closed, WebsocketSink.release, ha]

/-- The three ways out of `Listen`. -/
theorem listen_cases {w : WebsocketSink A α κ} (fuel : ℕ) (port : BitVec 16) (a : A)
    (memory : Option α) (init : Bool) (h : w.sessions = none) :
    ∃ r w', listen fuel w port a memory init = some (r, w') ∧ w'.sessions = none ∧
      w'.allocator = some a ∧
      ((memory = none ∧ r = .noMemory ∧ w'.server = none ∧ w'.memory = none ∧
        w'.calls = (closed w).calls) ∨
      (∃ m, memory = some m ∧ init = false ∧ r = .unknown ∧ w'.server = none ∧ w'.memory = none ∧
        w'.calls = (closed w).calls ++ [.alloc a m] ++ [.free a m]) ∨
      (∃ m, memory = some m ∧ init = true ∧ r = .success ∧ w'.server = some m ∧
        w'.memory = some m ∧ w'.calls = (closed w).calls ++ [.alloc a m])) := by
  have hsessions : (closed w).sessions = none := by rw [closed_sessions, h]
  unfold listen
  rw [close_sessionless fuel h, Option.map_some]
  cases memory with
  | none =>
    -- the allocation has failed
    refine ⟨_, _, rfl, hsessions, rfl, Or.inl ⟨rfl, rfl, closed_server w, rfl, rfl⟩⟩
  | some m =>
    cases init with
    | false =>
      -- WebbyServerInit has failed
      refine ⟨_, _, rfl, ?_, rfl, Or.inr (Or.inl ⟨m, rfl, rfl, rfl, rfl, rfl, rfl⟩)⟩
      show (Sink.release _ (some m)).sessions = none
      rw [Sink.release_sessions]
      exact hsessions
    | true => exact ⟨_, _, rfl, hsessions, rfl, Or.inr (Or.inr ⟨m, rfl, rfl, rfl, rfl, rfl, rfl⟩)⟩

/-! ## Runs of Listen and Close -/

/-- The sink, and whether the last call was a `Listen` that succeeded. -/
structure St (A α κ : Type*) where
  sink : WebsocketSink A α κ
  listening : Bool

/-- A sink nothing has been called on, in a memory of any contents. -/
def init (session : α → Session α κ) (bytes : α → List UInt8) : St A α κ :=
  { sink := { sessions := none, session := session, bytes := bytes, blocks := [], allocator := none,
              port := 0, server := none, memory := none, calls := [] }
    listening := false }

/-- A `Listen`, with its outcome as in `listen`, or a `Close`. -/
inductive Act (A α : Type*) where
  | listen (port : BitVec 16) (allocator : A) (memory : Option α) (init : Bool)
  | close

/-- An allocator hands out new blocks. -/
def step (fuel : ℕ) (st : St A α κ) : Act A α → Option (St A α κ)
  | .listen port a memory init =>
    if ∀ m ∈ memory, Fresh st.sink.calls m then
      (listen fuel st.sink port a memory init).map fun (r, w) => ⟨w, r = .success⟩
    else none
  | .close => (close fuel st.sink).map fun (_, w) => ⟨w, false⟩

/-- The memory of the server is accounted for: it is released at most once,
through the allocator it came from; a block is held exactly while the sink
listens, and exactly then `_server` is set. -/
structure Kept (st : St A α κ) : Prop where
  sound : Sound st.sink.calls
  held : (∃ a m, Held st.sink.calls a m) ↔ st.listening = true
  server : st.sink.server ≠ none ↔ st.listening = true

/-- The condition on a step: without a server there is no address of its memory
either. -/
def NotStale (st : St A α κ) (_ : Act A α) : Prop :=
  st.sink.server = none → st.sink.memory = none

/-- What holds in any case: nothing but `_memory` is held, through `_allocator`,
and without a server `_memory` has been released. -/
structure Aux (st : St A α κ) : Prop where
  sessions : st.sink.sessions = none
  held_eq : ∀ a m, Held st.sink.calls a m →
    st.sink.allocator = some a ∧ st.sink.memory = some m
  obtained : ∀ m, st.sink.memory = some m →
    ∃ a, st.sink.allocator = some a ∧ .alloc a m ∈ st.sink.calls
  released : st.sink.server = none → ∀ m, st.sink.memory = some m →
    0 < releases st.sink.calls m

/-! ## What Close does to the ledger -/

/-- `Close` releases what `_memory` points to, whether it has been released before
or not. -/
theorem closed_calls_eq {st : St A α κ} (haux : Aux st) :
    (st.sink.memory = none ∧ (closed st.sink).calls = st.sink.calls) ∨
    (∃ a m, st.sink.allocator = some a ∧ st.sink.memory = some m ∧ .alloc a m ∈ st.sink.calls ∧
      (closed st.sink).calls = st.sink.calls ++ [.free a m]) := by
  cases hm : st.sink.memory with
  | none =>
    left
    refine ⟨rfl, ?_⟩
    cases ha : st.sink.allocator with
    | none => exact closed_calls_none ha
    | some a => rw [closed_calls ha, hm, Option.toList_none, List.map_nil, List.append_nil]
  | some m =>
    right
    rcases haux.obtained m hm with ⟨a, ha, hmem⟩
    exact ⟨a, m, ha, rfl, hmem, by rw [closed_calls ha, hm]; rfl⟩

theorem closed_fresh {st : St A α κ} (haux : Aux st) {m : α} (h : Fresh st.sink.calls m) :
    Fresh (closed st.sink).calls m := by
  rcases closed_calls_eq haux with ⟨-, hcalls⟩ | ⟨a, m', -, -, hmem, hcalls⟩
  · rw [hcalls]
    exact h
  · rw [hcalls]
    exact fresh_free h hmem

/-- Nothing is held after a `Close`. -/
theorem closed_not_held {st : St A α κ} (haux : Aux st) (a : A) (m : α) :
    ¬ Held (closed st.sink).calls a m := by
  intro hheld
  rcases closed_calls_eq haux with ⟨hnone, hcalls⟩ | ⟨a', m', -, hm', -, hcalls⟩
  · rw [hcalls] at hheld
    rw [(haux.held_eq a m hheld).2] at hnone
    cases hnone
  · rw [hcalls, held_free] at hheld
    have hm := (haux.held_eq a m hheld.1).2
    rw [hm'] at hm
    exact hheld.2 (Option.some.inj hm)

/-- That is sound if the memory without a server is null. -/
theorem closed_sound {st : St A α κ} {act : Act A α} (haux : Aux st) (hkept : Kept st)
    (hP : NotStale st act) : Sound (closed st.sink).calls := by
  rcases closed_calls_eq haux with ⟨-, hcalls⟩ | ⟨a, m, ha, hm, -, hcalls⟩
  · rw [hcalls]
    exact hkept.sound
  · -- there is a server, so its memory is held
    have hserver : st.sink.server ≠ none := by
      intro hserver
      rw [hP hserver] at hm
      cases hm
    rcases hkept.held.mpr (hkept.server.mp hserver) with ⟨a', m', hheld⟩
    have heq := haux.held_eq a' m' hheld
    rw [ha, hm] at heq
    cases heq.1
    cases heq.2
    rw [hcalls]
    exact (sound_free hkept.sound).mpr hheld

/-- A stale address is released again. -/
theorem closed_twice {st : St A α κ} {act : Act A α} (haux : Aux st) (hP : ¬ NotStale st act) :
    ∃ m, 1 < releases (closed st.sink).calls m := by
  unfold NotStale at hP
  rw [Classical.not_imp] at hP
  rcases closed_calls_eq haux with ⟨hnone, -⟩ | ⟨a, m, -, hm, -, hcalls⟩
  · exact absurd hnone hP.2
  · refine ⟨m, ?_⟩
    have hreleased := haux.released hP.1 m hm
    rw [hcalls, releases_append, releases_free, if_pos rfl]
    omega

theorem not_sound_of_twice {calls : List (Call A α)} {m : α} (h : 1 < releases calls m)
    (calls' : List (Call A α)) : ¬ Sound (calls ++ calls') := by
  intro hsound
  have honce := hsound.once m
  rw [releases_append] at honce
  omega

/-! ## Steps -/

/-- A step ends closed, closed with an allocator, or listening: in the second case
the new server has failed, and its memory has been given back if there was any. -/
theorem step_cases {fuel : ℕ} {st st' : St A α κ} {act : Act A α} (haux : Aux st)
    (h : step fuel st act = some st') :
    st'.sink.sessions = none ∧
    ((act = .close ∧ st' = ⟨closed st.sink, false⟩) ∨
    (∃ a, st'.sink.allocator = some a ∧ st'.listening = false ∧ st'.sink.server = none ∧
      st'.sink.memory = none ∧ (st'.sink.calls = (closed st.sink).calls ∨
      ∃ m, Fresh (closed st.sink).calls m ∧
        st'.sink.calls = (closed st.sink).calls ++ [.alloc a m] ++ [.free a m])) ∨
    (∃ a m, st'.sink.allocator = some a ∧ st'.listening = true ∧ st'.sink.server = some m ∧
      st'.sink.memory = some m ∧ Fresh (closed st.sink).calls m ∧
      st'.sink.calls = (closed st.sink).calls ++ [.alloc a m])) := by
  cases act with
  | close =>
    simp only [step, close_sessionless fuel haux.sessions, Option.map_some] at h
    cases h
    refine ⟨?_, Or.inl ⟨rfl, rfl⟩⟩
    rw [closed_sessions]
    exact haux.sessions
  | listen port a memory init =>
    simp only [step] at h
    split at h
    · rename_i hfresh
      rcases listen_cases fuel port a memory init haux.sessions with
        ⟨r, w', hlisten, hsessions, ha, hcases⟩
      rw [hlisten] at h
      cases h
      refine ⟨hsessions, Or.inr ?_⟩
      rcases hcases with ⟨-, rfl, hserver, hmemory, hcalls⟩ |
        ⟨m, rfl, -, rfl, hserver, hmemory, hcalls⟩ | ⟨m, rfl, -, rfl, hserver, hmemory, hcalls⟩
      · -- the allocation failed
        exact Or.inl ⟨a, ha, rfl, hserver, hmemory, Or.inl hcalls⟩
      · -- WebbyServerInit failed
        exact Or.inl ⟨a, ha, rfl, hserver, hmemory,
          Or.inr ⟨m, closed_fresh haux (hfresh m rfl), hcalls⟩⟩
      · -- the sink listens
        exact Or.inr ⟨a, m, ha, rfl, hserver, hmemory, closed_fresh haux (hfresh m rfl), hcalls⟩
    · cases h

theorem not_held_alloc_free {calls : List (Call A α)} {a : A} {m : α} (hfresh : Fresh calls m)
    (h : ∀ a m, ¬ Held calls a m) (a' : A) (m' : α) :
    ¬ Held (calls ++ [.alloc a m] ++ [.free a m]) a' m' := by
  rw [held_free, held_alloc hfresh]
  rintro ⟨⟨-, rfl⟩ | hheld, hne⟩
  · exact hne rfl
  · exact h a' m' hheld

/-- What holds in any case is kept by `Listen` and by `Close`. -/
theorem step_aux {fuel : ℕ} {st st' : St A α κ} {act : Act A α} (haux : Aux st)
    (h : step fuel st act = some st') : Aux st' := by
  have hnot := closed_not_held haux
  rcases step_cases haux h with ⟨hsessions, ⟨-, rfl⟩ |
    ⟨a, ha, -, hserver, hmemory, hcalls⟩ | ⟨a, m, ha, -, hserver, hmemory, hfresh, hcalls⟩⟩
  · -- Close: the address stays behind
    refine ⟨hsessions, fun a m hheld => absurd hheld (hnot a m), ?_, ?_⟩
    · intro m hm
      rw [closed_memory] at hm
      rcases haux.obtained m hm with ⟨a, ha, hmem⟩
      refine ⟨a, by rw [closed_allocator]; exact ha, ?_⟩
      rw [closed_calls ha]
      exact List.mem_append_left _ hmem
    · intro _ m hm
      rw [closed_memory] at hm
      rcases haux.obtained m hm with ⟨a, ha, -⟩
      rw [closed_calls ha, hm, Option.toList_some, List.map_singleton, releases_append,
        releases_free, if_pos rfl]
      omega
  · -- a Listen that failed
    have hnone : ∀ m, st'.sink.memory ≠ some m := by simp [hmemory]
    refine ⟨hsessions, ?_, fun m hm => absurd hm (hnone m), fun _ m hm => absurd hm (hnone m)⟩
    intro a' m' hheld
    rcases hcalls with hcalls | ⟨m, hfresh, hcalls⟩
    · rw [hcalls] at hheld
      exact absurd hheld (hnot a' m')
    · rw [hcalls] at hheld
      exact absurd hheld (not_held_alloc_free hfresh hnot a' m')
  · -- a Listen that succeeded
    refine ⟨hsessions, ?_, ?_, ?_⟩
    · intro a' m' hheld
      rw [hcalls, held_alloc hfresh] at hheld
      rcases hheld with ⟨rfl, rfl⟩ | hold
      · exact ⟨ha, hmemory⟩
      · exact absurd hold (hnot a' m')
    · intro m' hm'
      rw [hmemory] at hm'
      cases hm'
      exact ⟨a, ha, by simp [hcalls]⟩
    · intro hnone
      rw [hserver] at hnone
      cases hnone

/-- Which steps keep the memory accounted for. -/
theorem step_kept_iff {fuel : ℕ} {st st' : St A α κ} {act : Act A α} (haux : Aux st)
    (hkept : Kept st) (h : step fuel st act = some st') : Kept st' ↔ NotStale st act := by
  constructor
  · intro hkept'
    by_contra hP
    -- `Close` has released memory a second time, whatever comes after it
    rcases closed_twice haux hP with ⟨m, htwice⟩
    rcases step_cases haux h with ⟨-, ⟨-, rfl⟩ | ⟨a, -, -, -, -, hcalls | ⟨m', -, hcalls⟩⟩ |
      ⟨a, m', -, -, -, -, -, hcalls⟩⟩
    · exact not_sound_of_twice htwice [] (by simpa using hkept'.sound)
    · exact not_sound_of_twice htwice [] (by simpa [hcalls] using hkept'.sound)
    · exact not_sound_of_twice htwice _ (by simpa [hcalls] using hkept'.sound)
    · exact not_sound_of_twice htwice _ (hcalls ▸ hkept'.sound)
  · intro hP
    have hsound := closed_sound haux hkept hP
    have hnot := closed_not_held haux
    rcases step_cases haux h with ⟨-, ⟨-, rfl⟩ | ⟨a, -, hl, hserver, -, hcalls⟩ |
      ⟨a, m, -, hl, hserver, -, hfresh, hcalls⟩⟩
    · -- `Close`
      refine ⟨hsound, ?_, by simp⟩
      simp [hnot]
    · -- `Listen` fails, and has released what it obtained
      rcases hcalls with hcalls | ⟨m, hfresh, hcalls⟩
      · refine ⟨hcalls ▸ hsound, ?_, by simp [hl, hserver]⟩
        simp [hcalls, hnot, hl]
      · have hheld : Held ((closed st.sink).calls ++ [.alloc a m]) a m :=
          (held_alloc hfresh).mpr (Or.inl ⟨rfl, rfl⟩)
        refine ⟨?_, ?_, by simp [hl, hserver]⟩
        · rw [hcalls]
          exact (sound_free (sound_alloc hsound)).mpr hheld
        · rw [hcalls]
          simp only [not_held_alloc_free hfresh hnot, exists_false, hl, Bool.false_eq_true]
    · -- `Listen` succeeds, and keeps the memory
      have hheld : Held ((closed st.sink).calls ++ [.alloc a m]) a m :=
        (held_alloc hfresh).mpr (Or.inl ⟨rfl, rfl⟩)
      refine ⟨?_, ?_, by simp [hl, hserver]⟩
      · rw [hcalls]
        exact sound_alloc hsound
      · rw [hcalls]
        exact iff_of_true ⟨a, m, hheld⟩ hl

/-! ## Runs -/

theorem init_aux (session : α → Session α κ) (bytes : α → List UInt8) :
    Aux (init session bytes : St A α κ) := by
  refine ⟨rfl, fun a m hheld => absurd hheld (not_held_nil a m), ?_, ?_⟩
  · intro m hm
    cases hm
  · intro _ m hm
    cases hm

theorem init_kept (session : α → Session α κ) (bytes : α → List UInt8) :
    Kept (init session bytes : St A α κ) := by
  refine ⟨sound_nil, ?_, by simp [init]⟩
  simp [init, not_held_nil]

/-- Over any run of `Listen` and `Close`: the memory of the server is accounted
for in all states exactly if no call meets the address of memory given back,
that is, if nothing is called behind a `Close` that has closed a server. -/
theorem listen_close_iff (fuel : ℕ) (session : α → Session α κ) (bytes : α → List UInt8)
    (acts : List (Act A α)) (st : St A α κ)
    (hrun : run (step fuel) (init session bytes) acts = some st) :
    (∀ pre t, pre <+: acts → run (step fuel) (init session bytes) pre = some t → Kept t) ↔
      Along (step fuel) NotStale (init session bytes) acts :=
  always_iff_along (step fuel) (fun _ _ _ h haux _ => step_aux haux h)
    (fun _ _ _ h haux hkept => step_kept_iff haux hkept h) (init_aux session bytes)
    (init_kept session bytes) hrun

/-- Memory before anything has been written to it. -/
def blank : ℕ → Session ℕ ℕ := fun _ => ⟨none, none, 0, 0, none, none⟩

/-- A server replaced by another one that does not come up, a third one, and a
`Close` at the end. -/
theorem listen_close_replaced :
    ∃ st : St ℕ ℕ ℕ, run (step 0) (init blank fun _ => [])
      [.listen 80 1 (some 0) true, .listen 81 2 none true, .listen 82 1 (some 4) true, .close] =
        some st ∧ Kept st := by
  have hrun : ∃ st : St ℕ ℕ ℕ, run (step 0) (init blank fun _ => [])
      [.listen 80 1 (some 0) true, .listen 81 2 none true, .listen 82 1 (some 4) true, .close] =
        some st := ⟨_, rfl⟩
  rcases hrun with ⟨st, hst⟩
  refine ⟨st, hst, (listen_close_iff 0 blank (fun _ => []) _ st hst).mpr ?_ _ st
    List.prefix_rfl hst⟩
  refine (along_cons _).mpr ⟨fun _ => rfl, fun s hs => ?_⟩
  cases hs
  refine (along_cons _).mpr ⟨(fun hnone => nomatch hnone), fun s hs => ?_⟩
  cases hs
  refine (along_cons _).mpr ⟨fun _ => rfl, fun s hs => ?_⟩
  cases hs
  exact (along_cons _).mpr ⟨(fun hnone => nomatch hnone), fun s _ => along_nil _ _ s⟩

/-- Two calls of `Close`: the memory is given back twice. -/
theorem listen_close_close :
    ∃ st : St ℕ ℕ ℕ, run (step 0) (init blank fun _ => [])
      [.listen 80 1 (some 0) true, .close, .close] = some st ∧
      st.sink.calls = [.alloc 1 0, .free 1 0, .free 1 0] ∧ ¬ Kept st := by
  refine ⟨_, rfl, rfl, ?_⟩
  intro hkept
  exact absurd (hkept.sound.once 0) (by decide)

end Yardstick.SinkListen
