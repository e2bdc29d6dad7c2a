import Yardstick.Base.Runs
import Yardstick.Base.TaggedLog
import Yardstick.SinkSessions
import Yardstick.SinkWire
import Yardstick.ThreadDrain

/-!
# Delivery — from the threads of the program to its viewers

`ThreadMain` takes the events of the threads out of their queues and gives each
to `WriteEvent`, which writes it into every session; between two passes it
flushes the sessions and lets the server open and close them. Here all of this
runs together: the threads and their queues (`ThreadDrain`), the list of
sessions (`SinkSessions`), what each session holds and has sent (`SinkSession`)
and the bytes of its WebSocket (`SinkWire`).

* `overSessions_live`: as long as the list of sessions can be walked, all
  sessions are reached;
* `step_inv`: what a session has been given is what `WriteEvent` has got since
  the session was opened;
* `viewer_follows_threads`: a viewer decodes an interleaving of what the threads
  emit, and of each thread misses only what was written before the viewer came
  and what is still on its way.
-/

namespace Yardstick.Delivery

open PointerHash Protocol Wire EventReader RoundTrip
open Chain (walk Path path_of_walk)
open Runs (run run_invariant)
open SinkSession (Emitted Session decode kBufSize openSession writeSessionEvent flushSession)
open SocketFrames (Message delivered)
open TaggedLog
open ThreadDrain (Life)
open WebbyConnection (Connection)
open WebbyFrames (WEBBY_WS_OP_BINARY_FRAME)

variable {τ α κ σ : Type*} {p : PtrSize} [DecidableEq τ] [DecidableEq α]

/-! ## The state -/

/-- When a session was opened: the values in its header, how many events
`WriteEvent` had got and how many threads had been created. -/
structure Opened where
  frequency : BitVec 64
  start : BitVec 64
  written : ℕ
  lives : ℕ

/-- The threads with their queues, the list of sessions, and what each session
holds. The rest is history: every event `WriteEvent` has got, with the number
of the thread it is from; threads are numbered as they are created, as a
`ThreadState` may reuse the memory of another. -/
structure St (τ α κ : Type*) (p : PtrSize) where
  drain : ThreadDrain.St τ (Emitted p)
  sessions : SinkSessions.St α κ
  content : α → Session
  opened : α → Opened
  written : List (ℕ × Emitted p)
  life : τ → ℕ
  lives : ℕ
  exits : List ℕ

/-- No thread and no session yet, in a memory of any contents. -/
def init (memory : τ → ℕ → Emitted p) (session : α → SinkSessions.Session α κ)
    (bytes : α → List UInt8) (content : α → Session) : St τ α κ p :=
  { drain := ThreadDrain.init memory
    sessions := SinkSessions.init session bytes
    content := content
    opened := fun _ => ⟨0, 0, 0, 0⟩
    written := []
    life := fun _ => 0
    lives := 0
    exits := [] }

/-! ## Steps -/

/-- The sessions that a loop from `_sessions` on visits. It must not come to a
session that has been destroyed. -/
def listed (st : SinkSessions.St α κ) : Option (List α) :=
  (walk st.sink.next st.live.length st.sink.sessions).bind fun l =>
    if ∀ a ∈ l, a ∈ st.live then some l else none

/-- `for (session = _sessions; session != nullptr; session = session->_next)`. -/
def overSessions (s : St τ α κ p) (f : Session → Session) : Option (St τ α κ p) :=
  (listed s.sessions).map fun l =>
    let content := l.foldl (fun content a => Function.update content a (f (content a))) s.content
    { s with content := content }

def writeEvent (s : St τ α κ p) (ev : Emitted p) : Option (St τ α κ p) :=
  overSessions s fun session => (writeSessionEvent session ev.val).2

def flush (s : St τ α κ p) : Option (St τ α κ p) :=
  overSessions s fun session => (flushSession session).2

/-- `webby_connected`, with the three blocks of `CreateSession`, the contents of
the buffer and the values of the header. -/
def webbyConnected (s : St τ α κ p) (connection : κ) (a buffer table : α)
    (memory : Vector UInt8 kBufSize) (frequency start : BitVec 64) : Option (St τ α κ p) :=
  (SinkSessions.step s.sessions (.create connection a buffer table)).map fun sessions =>
    { s with
      sessions := sessions
      content := Function.update s.content a (openSession p memory frequency start)
      opened := Function.update s.opened a ⟨frequency, start, s.written.length, s.lives⟩ }

/-- `webby_closed`, for the connection of the session at `a`. -/
def webbyClosed (s : St τ α κ p) (a : α) : Option (St τ α κ p) :=
  (SinkSessions.step s.sessions (.destroy a)).map fun sessions => { s with sessions := sessions }

/-- A step of a thread, of its creation or exit, or of `FlushThreads`. -/
def drainStep (s : St τ α κ p) (act : ThreadDrain.Act τ (Emitted p)) : Option (St τ α κ p) :=
  (ThreadDrain.step s.drain act).bind fun drain =>
    match act with
    | .create t => some { s with
        drain := drain, life := Function.update s.life t s.lives, lives := s.lives + 1 }
    | .exit t => some { s with drain := drain, exits := s.exits ++ [s.life t] }
    | .flush =>
      match s.drain.flush with
      | .write t _ ev => (writeEvent s ev).map fun s => { s with
          drain := drain, written := s.written ++ [(s.life t, ev)] }
      | _ => some { s with drain := drain }
    | _ => some { s with drain := drain }

inductive Act (τ α κ : Type*) (p : PtrSize) where
  | thread (act : ThreadDrain.Act τ (Emitted p))
  | flush
  | connected (connection : κ) (a buffer table : α) (memory : Vector UInt8 kBufSize)
      (frequency start : BitVec 64)
  | closed (a : α)

/-- `Flush` and `Update` are called by the thread that calls `FlushThreads`. -/
def step (s : St τ α κ p) : Act τ α κ p → Option (St τ α κ p)
  | .thread act => drainStep s act
  | .flush =>
    match s.drain.flush with
    | .away => flush s
    | _ => none
  | .connected connection a buffer table memory frequency start =>
    match s.drain.flush with
    | .away => webbyConnected s connection a buffer table memory frequency start
    | _ => none
  | .closed a =>
    match s.drain.flush with
    | .away => webbyClosed s a
    | _ => none

/-! ## Walks over the sessions -/

omit [DecidableEq τ] in
/-- A loop that comes to no destroyed session: the list is in order. -/
theorem clean_of_listed {st : SinkSessions.St α κ} {l : List α} (h : listed st = some l) :
    Path st.sink.next st.sink.sessions l ∧ ∀ a ∈ l, a ∈ st.live := by
  rcases Option.bind_eq_some_iff.mp h with ⟨l', hwalk, hl⟩
  rcases Option.ite_none_right_eq_some.mp hl with ⟨hlive, hl'⟩
  cases hl'
  exact ⟨path_of_walk hwalk, hlive⟩

/-- A loop over a list without repetitions changes each of its members once. -/
theorem foldl_update_nodup {β : Type*} (f : β → β) {l : List α} (hl : l.Nodup) (content : α → β) :
    l.foldl (fun content a => Function.update content a (f (content a))) content =
      fun a => if a ∈ l then f (content a) else content a := by
  induction l generalizing content with
  | nil => simp
  | cons b l ih =>
    rcases List.nodup_cons.mp hl with ⟨hb, hl⟩
    rw [List.foldl_cons, ih hl]
    funext a
    by_cases hab : a = b
    · subst hab
      simp [hb]
    · simp [hab]

/-- The list of sessions is in order, or can no longer be walked. -/
def Links (st : SinkSessions.St α κ) : Prop := SinkSessions.Inv st ∨ SinkSessions.Bad st

theorem links_step {st st' : SinkSessions.St α κ} {a : SinkSessions.Act α κ}
    (h : SinkSessions.step st a = some st') (hlinks : Links st) : Links st' := by
  rcases hlinks with hinv | hbad
  · by_cases hhead : SinkSessions.HeadFirst st a
    · exact Or.inl (SinkSessions.step_inv hhead h hinv)
    · exact Or.inr (SinkSessions.break_bad hhead h hinv)
  · exact Or.inr (SinkSessions.step_bad h hbad)

/-- As long as the sessions can be walked, the walk comes to all of them. -/
theorem listed_live {st : SinkSessions.St α κ} (hlinks : Links st) {l : List α}
    (h : listed st = some l) : l = st.live := by
  rcases clean_of_listed h with ⟨hpath, hlive⟩
  rcases hlinks with hinv | hbad
  · exact hpath.unique hinv.path
  · exact absurd ⟨l, hpath, hlive⟩ hbad.not_clean

omit [DecidableEq τ] in
theorem overSessions_live {s s' : St τ α κ p} {f : Session → Session} (hlinks : Links s.sessions)
    (h : overSessions s f = some s') :
    s' = { s with content := fun a =>
      if a ∈ s.sessions.live then f (s.content a) else s.content a } := by
  rcases Option.map_eq_some_iff.mp h with ⟨l, hl, rfl⟩
  have hnodup : l.Nodup := (clean_of_listed hl).1.nodup
  rw [foldl_update_nodup f hnodup, listed_live hlinks hl]

/-! ## What a step does -/

/-- A step of the threads or of `FlushThreads`, as far as it concerns what has
been written of whom. -/
theorem drain_cases {E : Type*} {s s' : ThreadDrain.St τ E} {act : ThreadDrain.Act τ E}
    (h : ThreadDrain.step s act = some s') :
    (∃ t, act = .create t ∧ t ∉ s.threads.registered ∧
      s'.threads.registered = t :: s.threads.registered ∧
      s'.sent = Function.update s.sent t [] ∧ s'.ended = s.ended) ∨
    (∃ t, act = .exit t ∧ t ∈ s.threads.registered ∧
      s'.threads.registered = s.threads.registered.erase t ∧ s'.sent = s.sent ∧
      s'.ended = s.ended ++ [⟨s.emitted t, s.sent t, ThreadDrain.queued s t⟩]) ∨
    (∃ t count ev, act = .flush ∧ s.flush = .write t count ev ∧ s'.threads = s.threads ∧
      s'.sent = Function.update s.sent t (s.sent t ++ [ev]) ∧ s'.ended = s.ended) ∨
    ((∀ t, act ≠ .create t) ∧ (∀ t, act ≠ .exit t) ∧
      (∀ t count ev, act = .flush → s.flush ≠ .write t count ev) ∧ s'.threads = s.threads ∧
      s'.sent = s.sent ∧ s'.ended = s.ended) := by
  cases act with
  | create t =>
    rcases ThreadDrain.create_cases h with ⟨-, ht, rfl⟩
    exact Or.inl ⟨t, rfl, ht, rfl, rfl, rfl⟩
  | exit t =>
    rcases ThreadDrain.exit_cases h with ⟨-, -, ht, rfl⟩
    exact Or.inr (Or.inl ⟨t, rfl, ht, rfl, rfl, rfl⟩)
  -- a call of `Enque` or `Deque` moves inside a queue
  | emit t ev =>
    rcases ThreadDrain.emit_cases h with ⟨-, -, rfl⟩
    exact Or.inr (Or.inr (Or.inr ⟨nofun, nofun, nofun, rfl, rfl, rfl⟩))
  | tryEnque t =>
    rcases ThreadDrain.tryEnque_cases (Option.ite_none_right_eq_some.mp h).2 with ⟨_, _, -, -, rfl⟩
    exact Or.inr (Or.inr (Or.inr ⟨nofun, nofun, nofun, rfl, rfl, rfl⟩))
  | enque t spurious =>
    rcases ThreadDrain.enque_cases (Option.ite_none_right_eq_some.mp h).2 with ⟨_, -, rfl⟩
    exact Or.inr (Or.inr (Or.inr ⟨nofun, nofun, nofun, rfl, rfl, rfl⟩))
  | deque spurious =>
    rcases ThreadDrain.deque_cases h with ⟨_, _, _, -, -, rfl⟩
    exact Or.inr (Or.inr (Or.inr ⟨nofun, nofun, nofun, rfl, rfl, rfl⟩))
  | flush =>
    -- of the steps between the calls only one writes
    rcases ThreadDrain.flushStep_cases h with ⟨hflush, rfl⟩ | ⟨hflush, rfl⟩ | ⟨_, hflush, -, rfl⟩ |
      ⟨_, _, hflush, -, rfl⟩ | ⟨_, _, _, hflush, -, -, rfl⟩ | ⟨t, count, ev, hflush, rfl⟩
    case inr.inr.inr.inr.inr =>
      exact Or.inr (Or.inr (Or.inl ⟨t, count, ev, rfl, hflush, rfl, rfl, rfl⟩))
    all_goals
      refine Or.inr (Or.inr (Or.inr ⟨nofun, nofun, fun _ _ _ _ hwrite => ?_, rfl, rfl, rfl⟩))
      rw [hflush] at hwrite
      cases hwrite

/-- A step of the threads or of `FlushThreads`, with what it does to the record of
lives: it begins one, ends one, writes an event of one, or leaves all of it alone.
-/
theorem drainStep_cases {s s' : St τ α κ p} {act : ThreadDrain.Act τ (Emitted p)}
    (hlinks : Links s.sessions) (h : drainStep s act = some s') :
    ∃ drain, ThreadDrain.step s.drain act = some drain ∧
      ((∃ t, t ∉ s.drain.threads.registered ∧
        drain.threads.registered = t :: s.drain.threads.registered ∧
        drain.sent = Function.update s.drain.sent t [] ∧ drain.ended = s.drain.ended ∧
        s' = { s with
          drain := drain, life := Function.update s.life t s.lives, lives := s.lives + 1 }) ∨
      (∃ t, t ∈ s.drain.threads.registered ∧
        drain.threads.registered = s.drain.threads.registered.erase t ∧
        drain.sent = s.drain.sent ∧
        drain.ended = s.drain.ended ++
          [⟨s.drain.emitted t, s.drain.sent t, ThreadDrain.queued s.drain t⟩] ∧
        s' = { s with drain := drain, exits := s.exits ++ [s.life t] }) ∨
      (∃ t count ev, s.drain.flush = .write t count ev ∧ drain.threads = s.drain.threads ∧
        drain.sent = Function.update s.drain.sent t (s.drain.sent t ++ [ev]) ∧
        drain.ended = s.drain.ended ∧
        s' = { s with
          drain := drain
          content := fun a =>
            if a ∈ s.sessions.live then (writeSessionEvent (s.content a) ev.val).2
            else s.content a
          written := s.written ++ [(s.life t, ev)] }) ∨
      (drain.threads = s.drain.threads ∧ drain.sent = s.drain.sent ∧
        drain.ended = s.drain.ended ∧ s' = { s with drain := drain })) := by
  rcases Option.bind_eq_some_iff.mp h with ⟨drain, hdrain, hs'⟩
  refine ⟨drain, hdrain, ?_⟩
  rcases drain_cases hdrain with ⟨t, rfl, ht, hreg, hsent, hended⟩ |
    ⟨t, rfl, ht, hreg, hsent, hended⟩ | ⟨t, count, ev, rfl, hflush, hthreads, hsent, hended⟩ |
    ⟨hcreate, hexit, hwrite, hthreads, hsent, hended⟩
  · -- a thread is created
    exact Or.inl ⟨t, ht, hreg, hsent, hended, (Option.some.inj hs').symm⟩
  · -- a thread exits
    exact Or.inr (Or.inl ⟨t, ht, hreg, hsent, hended, (Option.some.inj hs').symm⟩)
  · -- an event is written
    simp only [hflush] at hs'
    rcases Option.map_eq_some_iff.mp hs' with ⟨s1, hs1, rfl⟩
    rw [overSessions_live hlinks hs1]
    exact Or.inr (Or.inr (Or.inl ⟨t, count, ev, hflush, hthreads, hsent, hended, rfl⟩))
  · -- anything else
    refine Or.inr (Or.inr (Or.inr ⟨hthreads, hsent, hended, ?_⟩))
    cases act with
    | create t => exact absurd rfl (hcreate t)
    | exit t => exact absurd rfl (hexit t)
    | flush =>
      dsimp only at hs'
      split at hs'
      · rename_i t count ev hflush
        exact absurd hflush (hwrite t count ev rfl)
      · exact (Option.some.inj hs').symm
    | _ => exact (Option.some.inj hs').symm

/-- What each step does to the whole: threads, flushes, viewers that come and
viewers that go. -/
theorem step_cases {s s' : St τ α κ p} {act : Act τ α κ p} (hlinks : Links s.sessions)
    (h : step s act = some s') :
    (∃ a, act = .thread a ∧ drainStep s a = some s') ∨
    (act = .flush ∧ s' = { s with content := fun a =>
      if a ∈ s.sessions.live then (flushSession (s.content a)).2 else s.content a }) ∨
    (∃ connection a buffer table memory frequency start sessions,
      act = .connected connection a buffer table memory frequency start ∧
      SinkSessions.step s.sessions (.create connection a buffer table) = some sessions ∧
      s' = { s with
        sessions := sessions
        content := Function.update s.content a (openSession p memory frequency start)
        opened := Function.update s.opened a ⟨frequency, start, s.written.length, s.lives⟩ }) ∨
    (∃ a sessions, act = .closed a ∧ SinkSessions.step s.sessions (.destroy a) = some sessions ∧
      s' = { s with sessions := sessions }) := by
  cases act with
  | thread a => exact Or.inl ⟨a, rfl, h⟩
  | flush =>
    -- between two passes
    dsimp only [step] at h
    split at h
    · exact Or.inr (Or.inl ⟨rfl, overSessions_live hlinks h⟩)
    · cases h
  | connected connection a buffer table memory frequency start =>
    dsimp only [step] at h
    split at h
    · rcases Option.map_eq_some_iff.mp h with ⟨sessions, hsessions, rfl⟩
      exact Or.inr (Or.inr (Or.inl ⟨_, _, _, _, _, _, _, sessions, rfl, hsessions, rfl⟩))
    · cases h
  | closed a =>
    dsimp only [step] at h
    split at h
    · rcases Option.map_eq_some_iff.mp h with ⟨sessions, hsessions, rfl⟩
      exact Or.inr (Or.inr (Or.inr ⟨a, sessions, rfl, hsessions, rfl⟩))
    · cases h

/-! ## The threads in the log -/

/-- Each number stands for one thread, one that is there or one that has exited,
and `WriteEvent` has got from it what the log says. -/
structure Lives (s : St τ α κ p) : Prop where
  nodup : s.drain.threads.registered.Nodup
  apart : ∀ t ∈ s.drain.threads.registered, ∀ u ∈ s.drain.threads.registered,
    s.life t = s.life u → t = u
  fresh : ∀ t ∈ s.drain.threads.registered, s.life t < s.lives ∧ s.life t ∉ s.exits
  exited : ∀ n ∈ s.exits, n < s.lives
  sent : ∀ t ∈ s.drain.threads.registered, s.drain.sent t = entriesOf s.written (s.life t)
  ended : s.drain.ended.map Life.sent = s.exits.map (entriesOf s.written)
  known : ∀ e ∈ s.written, e.1 ∈ s.exits ∨ ∃ t ∈ s.drain.threads.registered, s.life t = e.1

section
variable {s : St τ α κ p} {drain : ThreadDrain.St τ (Emitted p)} {t : τ}

omit [DecidableEq τ] [DecidableEq α] in
theorem Lives.written_lt (h : Lives s) : ∀ e ∈ s.written, e.1 < s.lives := by
  intro e he
  rcases h.known e he with hexit | ⟨t, ht, heq⟩
  · exact h.exited _ hexit
  · rw [← heq]
    exact (h.fresh t ht).1

omit [DecidableEq α] in
/-- A thread that is created begins a life of its own, of which nothing has been
written. -/
theorem Lives.create (h : Lives s) (ht : t ∉ s.drain.threads.registered)
    (hreg : drain.threads.registered = t :: s.drain.threads.registered)
    (hsent : drain.sent = Function.update s.drain.sent t []) (hended : drain.ended = s.drain.ended) :
    Lives { s with
      drain := drain, life := Function.update s.life t s.lives, lives := s.lives + 1 } := by
  have hne : ∀ u ∈ s.drain.threads.registered, u ≠ t := by
    intro u hu hut
    rw [hut] at hu
    exact ht hu
  have hlife : ∀ u ∈ s.drain.threads.registered,
      Function.update s.life t s.lives u = s.life u :=
    fun u hu => Function.update_of_ne (hne u hu) ..
  have hnew : ∀ u ∈ s.drain.threads.registered, s.life u ≠ s.lives :=
    fun u hu => Nat.ne_of_lt (h.fresh u hu).1
  refine ⟨?_, ?_, ?_, ?_, ?_, ?_, ?_⟩
  · rw [hreg]
    exact List.nodup_cons.mpr ⟨ht, h.nodup⟩
  · intro u hu v hv heq
    dsimp only at hu hv heq
    rw [hreg] at hu hv
    rcases List.mem_cons.mp hu with hut | hold
    · rcases List.mem_cons.mp hv with hvt | hold'
      · exact hut.trans hvt.symm
      · rw [hut, Function.update_self, hlife v hold'] at heq
        exact absurd heq.symm (hnew v hold')
    · rw [hlife u hold] at heq
      rcases List.mem_cons.mp hv with hvt | hold'
      · rw [hvt, Function.update_self] at heq
        exact absurd heq (hnew u hold)
      · rw [hlife v hold'] at heq
        exact h.apart u hold v hold' heq
  · intro u hu
    dsimp only at hu ⊢
    rw [hreg] at hu
    rcases List.mem_cons.mp hu with rfl | hu
    · rw [Function.update_self]
      exact ⟨Nat.lt_succ_self _, fun hexit => absurd (h.exited _ hexit) (Nat.lt_irrefl _)⟩
    · rw [hlife u hu]
      exact ⟨Nat.lt_succ_of_lt (h.fresh u hu).1, (h.fresh u hu).2⟩
  · exact fun n hn => Nat.lt_succ_of_lt (h.exited n hn)
  · intro u hu
    dsimp only at hu ⊢
    rw [hreg] at hu
    rw [hsent]
    rcases List.mem_cons.mp hu with rfl | hu
    · -- nothing has been written of a number that has not been given out
      rw [Function.update_self, Function.update_self,
        entriesOf_eq_nil fun e he => Nat.ne_of_lt (h.written_lt e he)]
    · rw [hlife u hu, Function.update_of_ne (hne u hu)]
      exact h.sent u hu
  · dsimp only
    rw [hended]
    exact h.ended
  · intro e he
    rcases h.known e he with hexit | ⟨u, hu, heq⟩
    · exact Or.inl hexit
    · refine Or.inr ⟨u, ?_, (hlife u hu).trans heq⟩
      dsimp only
      rw [hreg]
      exact List.mem_cons_of_mem _ hu

omit [DecidableEq α] in
/-- A thread that exits leaves what has been written of it to the lives that are
over. -/
theorem Lives.exit (h : Lives s) (ht : t ∈ s.drain.threads.registered)
    (hreg : drain.threads.registered = s.drain.threads.registered.erase t)
    (hsent : drain.sent = s.drain.sent) {life : Life (Emitted p)}
    (hended : drain.ended = s.drain.ended ++ [life]) (hlife : life.sent = s.drain.sent t) :
    Lives { s with drain := drain, exits := s.exits ++ [s.life t] } := by
  -- the threads that are left are the others
  have hmem : ∀ u, u ∈ drain.threads.registered ↔ u ≠ t ∧ u ∈ s.drain.threads.registered := by
    intro u
    rw [hreg]
    exact h.nodup.mem_erase_iff
  refine ⟨?_, ?_, ?_, ?_, ?_, ?_, ?_⟩
  · rw [hreg]
    exact h.nodup.erase t
  · intro u hu v hv
    exact h.apart u ((hmem u).mp hu).2 v ((hmem v).mp hv).2
  · intro u hu
    rcases (hmem u).mp hu with ⟨hut, hu⟩
    refine ⟨(h.fresh u hu).1, fun hexit => ?_⟩
    -- no other thread has the life that ends
    rcases List.mem_append.mp hexit with hold | hnew
    · exact (h.fresh u hu).2 hold
    · exact hut (h.apart u hu t ht (List.mem_singleton.mp hnew))
  · intro n hn
    rcases List.mem_append.mp hn with hold | hnew
    · exact h.exited n hold
    · rw [List.mem_singleton.mp hnew]
      exact (h.fresh t ht).1
  · intro u hu
    dsimp only
    rw [hsent]
    exact h.sent u ((hmem u).mp hu).2
  · dsimp only
    rw [hended, List.map_append, List.map_append, h.ended, List.map_singleton, List.map_singleton,
      hlife, h.sent t ht]
  · intro e he
    rcases h.known e he with hexit | ⟨u, hu, heq⟩
    · exact Or.inl (List.mem_append_left _ hexit)
    · -- an event of the thread that left is one of a life that is over
      by_cases hut : u = t
      · rw [← heq, hut]
        exact Or.inl (List.mem_append_right _ (List.mem_singleton_self _))
      · exact Or.inr ⟨u, (hmem u).mpr ⟨hut, hu⟩, heq⟩

omit [DecidableEq α] in
/-- An event that is written is the next one of its life. -/
theorem Lives.write (h : Lives s) (ht : t ∈ s.drain.threads.registered) {ev : Emitted p}
    (hthreads : drain.threads = s.drain.threads)
    (hsent : drain.sent = Function.update s.drain.sent t (s.drain.sent t ++ [ev]))
    (hended : drain.ended = s.drain.ended) (content : α → Session) :
    Lives { s with
      drain := drain, content := content, written := s.written ++ [(s.life t, ev)] } := by
  have hreg : drain.threads.registered = s.drain.threads.registered :=
    congrArg ThreadRegistry.St.registered hthreads
  refine ⟨?_, ?_, ?_, h.exited, ?_, ?_, ?_⟩
  · rw [hreg]
    exact h.nodup
  · dsimp only
    rw [hreg]
    exact h.apart
  · dsimp only
    rw [hreg]
    exact h.fresh
  · -- only what was written of this thread has grown
    intro u hu
    dsimp only at hu ⊢
    rw [hreg] at hu
    rw [hsent]
    by_cases hut : u = t
    · subst hut
      rw [Function.update_self, entriesOf_concat_self, h.sent u hu]
    · rw [Function.update_of_ne hut, h.sent u hu,
        entriesOf_concat_ne _ _ fun heq => hut (h.apart t ht u hu heq).symm]
  · -- lives that are over stay as they are
    dsimp only
    rw [hended, h.ended]
    refine List.map_congr_left fun n hn => ?_
    have hne : s.life t ≠ n := by
      intro heq
      rw [← heq] at hn
      exact (h.fresh t ht).2 hn
    rw [entriesOf_concat_ne _ _ hne]
  · intro e he
    dsimp only
    rw [hreg]
    rcases List.mem_append.mp he with hold | hnew
    · exact h.known e hold
    · rw [List.mem_singleton.mp hnew]
      exact Or.inr ⟨t, ht, rfl⟩

omit [DecidableEq τ] [DecidableEq α] in
/-- Steps that write nothing, create nothing and end nothing. -/
theorem Lives.quiet (h : Lives s) (hthreads : drain.threads = s.drain.threads)
    (hsent : drain.sent = s.drain.sent) (hended : drain.ended = s.drain.ended) :
    Lives { s with drain := drain } := by
  have hreg : drain.threads.registered = s.drain.threads.registered :=
    congrArg ThreadRegistry.St.registered hthreads
  refine ⟨hreg ▸ h.nodup, ?_, ?_, h.exited, ?_, ?_, ?_⟩
  · dsimp only
    rw [hreg]
    exact h.apart
  · dsimp only
    rw [hreg]
    exact h.fresh
  · dsimp only
    rw [hreg, hsent]
    exact h.sent
  · dsimp only
    rw [hended]
    exact h.ended
  · dsimp only
    rw [hreg]
    exact h.known

end

/-! ## The sessions -/

omit [DecidableEq τ] [DecidableEq α] in
/-- The threads do not depend on the sessions. -/
theorem Lives.sessions {s : St τ α κ p} (h : Lives s) (sessions : SinkSessions.St α κ)
    (content : α → Session) (opened : α → Opened) :
    Lives { s with sessions := sessions, content := content, opened := opened } :=
  ⟨h.nodup, h.apart, h.fresh, h.exited, h.sent, h.ended, h.known⟩

/-- What `WriteEvent` has got since the session was opened. -/
def seen (s : St τ α κ p) (a : α) : List (ℕ × Emitted p) := s.written.drop (s.opened a).written

/-- The session has been given its header and what has been written since. -/
structure Followed (s : St τ α κ p) (a : α) : Prop where
  content : ∃ memory ops, s.content a = SinkSession.runOps
      (openSession p memory (s.opened a).frequency (s.opened a).start) ops ∧
    SinkSession.written ops = (seen s a).map Prod.snd
  written_le : (s.opened a).written ≤ s.written.length
  earlier : ∀ e ∈ s.written.take (s.opened a).written, e.1 < (s.opened a).lives

theorem runOps_concat (session : Session) (ops : List (SinkSession.Op p)) (op : SinkSession.Op p) :
    SinkSession.runOps session (ops ++ [op]) =
      (SinkSession.applyOp (SinkSession.runOps session ops) op).2 := by
  simp [SinkSession.runOps]

theorem written_append (ops ops' : List (SinkSession.Op p)) :
    SinkSession.written (ops ++ ops') = SinkSession.written ops ++ SinkSession.written ops' := by
  induction ops with
  | nil => rfl
  | cons op ops ih => cases op <;> simp [SinkSession.written, ih]

section
variable {s : St τ α κ p} {a : α}

omit [DecidableEq τ] [DecidableEq α] in
/-- A session that is given an event has followed one event more. -/
theorem Followed.write (h : Followed s a) (drain : ThreadDrain.St τ (Emitted p))
    (content : α → Session) {n : ℕ} {ev : Emitted p}
    (hcontent : content a = (writeSessionEvent (s.content a) ev.val).2) :
    Followed { s with drain := drain, content := content, written := s.written ++ [(n, ev)] } a := by
  rcases h.content with ⟨memory, ops, hops, hwritten⟩
  refine ⟨⟨memory, ops ++ [.write ev], ?_, ?_⟩, ?_, ?_⟩
  · rw [runOps_concat, ← hops]
    exact hcontent
  · rw [written_append, hwritten]
    unfold seen
    dsimp only
    rw [List.drop_append_of_le_length h.written_le, List.map_append]
    rfl
  · exact h.written_le.trans (by simp)
  · intro e he
    dsimp only at he
    rw [List.take_append_of_le_length h.written_le] at he
    exact h.earlier e he

omit [DecidableEq τ] [DecidableEq α] in
/-- Flushing a session sends what it holds and adds nothing. -/
theorem Followed.flush (h : Followed s a) (content : α → Session)
    (hcontent : content a = (flushSession (s.content a)).2) :
    Followed { s with content := content } a := by
  rcases h.content with ⟨memory, ops, hops, hwritten⟩
  refine ⟨⟨memory, ops ++ [.flush], ?_, ?_⟩, h.written_le, h.earlier⟩
  · rw [runOps_concat, ← hops]
    exact hcontent
  · rw [written_append, hwritten]
    exact List.append_nil _

omit [DecidableEq τ] [DecidableEq α] in
/-- A session is about what it holds and the log. -/
theorem Followed.congr {s' : St τ α κ p} (h : Followed s a) (hcontent : s'.content a = s.content a)
    (hopened : s'.opened a = s.opened a) (hwritten : s'.written = s.written) : Followed s' a := by
  have hseen : seen s' a = seen s a := by
    unfold seen
    rw [hopened, hwritten]
  refine ⟨?_, ?_, ?_⟩
  · rw [hcontent, hopened, hseen]
    exact h.content
  · rw [hopened, hwritten]
    exact h.written_le
  · rw [hopened, hwritten]
    exact h.earlier

end

/-! ## Runs -/

structure Inv (s : St τ α κ p) : Prop where
  drain : ThreadDrain.Inv s.drain
  links : Links s.sessions
  lives : Lives s
  followed : ∀ a ∈ s.sessions.live, Followed s a

omit [DecidableEq α] in
/-- Nothing has been written, and there is no session to follow it. -/
theorem init_inv (memory : τ → ℕ → Emitted p) (session : α → SinkSessions.Session α κ)
    (bytes : α → List UInt8) (content : α → Session) :
    Inv (init memory session bytes content) := by
  constructor
  · exact ThreadDrain.init_inv memory
  · exact Or.inl (SinkSessions.init_inv session bytes)
  · exact ⟨List.nodup_nil, nofun, nofun, nofun, nofun, rfl, nofun⟩
  · exact nofun

/-- The steps of the threads and of `FlushThreads` keep the invariant. -/
theorem drainStep_inv {s s' : St τ α κ p} {act : ThreadDrain.Act τ (Emitted p)} (hinv : Inv s)
    (h : drainStep s act = some s') : Inv s' := by
  rcases drainStep_cases hinv.links h with ⟨drain, hdrain, hcases⟩
  have hdrain' := ThreadDrain.step_inv _ _ _ hdrain hinv.drain
  rcases hcases with ⟨t, ht, hreg, hsent, hended, rfl⟩ | ⟨t, ht, hreg, hsent, hended, rfl⟩ |
    ⟨t, count, ev, hflush, hthreads, hsent, hended, rfl⟩ | ⟨hthreads, hsent, hended, rfl⟩
  · -- a thread is created
    exact ⟨hdrain', hinv.links, hinv.lives.create ht hreg hsent hended,
      fun a ha => (hinv.followed a ha).congr rfl rfl rfl⟩
  · -- a thread exits
    exact ⟨hdrain', hinv.links, hinv.lives.exit ht hreg hsent hended rfl,
      fun a ha => (hinv.followed a ha).congr rfl rfl rfl⟩
  · -- an event of a thread that is there is written into every session
    have ht : t ∈ s.drain.threads.registered := hinv.drain.visited t (by rw [hflush]; rfl)
    exact ⟨hdrain', hinv.links, hinv.lives.write ht hthreads hsent hended _,
      fun a ha => (hinv.followed a ha).write drain _ (if_pos ha)⟩
  · -- anything else
    exact ⟨hdrain', hinv.links, hinv.lives.quiet hthreads hsent hended,
      fun a ha => (hinv.followed a ha).congr rfl rfl rfl⟩

/-- Every step keeps the invariant. -/
theorem step_inv {s s' : St τ α κ p} {act : Act τ α κ p} (h : step s act = some s')
    (hinv : Inv s) : Inv s' := by
  rcases step_cases hinv.links h with ⟨a, rfl, hdrain⟩ | ⟨rfl, rfl⟩ |
    ⟨connection, a, buffer, table, memory, frequency, start, sessions, rfl, hsessions, rfl⟩ |
    ⟨a, sessions, rfl, hsessions, rfl⟩
  · -- the threads
    exact drainStep_inv hinv hdrain
  · -- Flush
    exact ⟨hinv.drain, hinv.links, hinv.lives.sessions _ _ _,
      fun a ha => (hinv.followed a ha).flush _ (if_pos ha)⟩
  · -- webby_connected
    refine ⟨hinv.drain, links_step hsessions hinv.links, hinv.lives.sessions _ _ _, ?_⟩
    rcases SinkSessions.step_cases hsessions with ⟨c, a', b, t, hact, -, rfl⟩ | ⟨a', hact, -⟩
    case inr => cases hact
    cases hact
    intro b hb
    by_cases hba : b = a
    · -- the new session has its header, and nothing has been written since
      subst hba
      refine ⟨⟨memory, [], ?_, ?_⟩, ?_, ?_⟩
      · dsimp only
        rw [Function.update_self, Function.update_self]
        rfl
      · unfold seen
        dsimp only
        rw [Function.update_self, List.drop_length]
        rfl
      · dsimp only
        rw [Function.update_self]
      · dsimp only
        rw [Function.update_self, List.take_length]
        exact hinv.lives.written_lt
    · have hold : b ∈ s.sessions.live := (List.mem_cons.mp hb).resolve_left hba
      exact (hinv.followed b hold).congr (Function.update_of_ne hba ..)
        (Function.update_of_ne hba ..) rfl
  · -- webby_closed
    refine ⟨hinv.drain, links_step hsessions hinv.links, hinv.lives.sessions _ _ _, ?_⟩
    rcases SinkSessions.step_cases hsessions with ⟨c, a', b, t, hact, -⟩ | ⟨a', hact, -, rfl⟩
    case inl => cases hact
    cases hact
    exact fun b hb => (hinv.followed b (List.mem_of_mem_erase hb)).congr rfl rfl rfl

/-! ## What a viewer sees of the threads -/

/-- Of a thread that is there, a session has been given a tail of what has been
written, and all of it if the thread was created after the session was opened;
what the thread has emitted beyond that is on its way. The same of a thread that
has exited, where the rest is lost. Nothing else has been given to the session. -/
structure Delivered (s : St τ α κ p) (a : α) : Prop where
  thread : ∀ t ∈ s.drain.threads.registered,
    entriesOf (seen s a) (s.life t) <:+ s.drain.sent t ∧
    ((s.opened a).lives ≤ s.life t → s.drain.emitted t = entriesOf (seen s a) (s.life t) ++
      ThreadQueue.held (s.drain.queue t) (ThreadDrain.writing s.drain.flush t) ++
      ThreadDrain.queued s.drain t ++
      ThreadQueue.pending (s.drain.queue t) (s.drain.emitting t))
  exited : ∀ e ∈ s.exits.zip s.drain.ended, entriesOf (seen s a) e.1 <:+ e.2.sent ∧
    ((s.opened a).lives ≤ e.1 → e.2.emitted = entriesOf (seen s a) e.1 ++ e.2.dropped)
  others : ∀ e ∈ seen s a, e.1 ∈ s.exits ∨ ∃ t ∈ s.drain.threads.registered, s.life t = e.1

omit [DecidableEq τ] [DecidableEq α] in
/-- A session has missed nothing of the threads created since it was opened. -/
theorem Followed.entriesOf_seen {s : St τ α κ p} {a : α} (h : Followed s a) {n : ℕ}
    (hn : (s.opened a).lives ≤ n) : entriesOf (seen s a) n = entriesOf s.written n :=
  entriesOf_drop_eq fun e he => Nat.ne_of_lt (Nat.lt_of_lt_of_le (h.earlier e he) hn)

omit [DecidableEq α] in
/-- What the invariant says of a session, in terms of what the threads emitted. -/
theorem delivered_of_inv {s : St τ α κ p} (hinv : Inv s) {a : α} (ha : a ∈ s.sessions.live) :
    Delivered s a := by
  have hfollowed := hinv.followed a ha
  have hlives := hinv.lives
  have haccounted := ThreadDrain.accounted_of_inv hinv.drain
  have hsuffix : ∀ n, entriesOf (seen s a) n <:+ entriesOf s.written n :=
    fun n => entriesOf_drop_suffix _ _ n
  refine ⟨fun t ht => ⟨?_, fun hn => ?_⟩, fun e he => ?_, fun e he => ?_⟩
  · rw [hlives.sent t ht]
    exact hsuffix _
  · rw [hfollowed.entriesOf_seen hn, ← hlives.sent t ht, haccounted.emitted t ht,
      haccounted.accepted t ht]
  · -- the number and the life of a thread that has exited
    have hsent : e.2.sent = entriesOf s.written e.1 := by
      rcases List.mem_iff_getElem.mp he with ⟨i, hi, rfl⟩
      rw [List.length_zip] at hi
      have hget := congrArg (fun l => l[i]?) hlives.ended
      simpa [List.getElem?_eq_getElem (show i < s.exits.length by omega),
        List.getElem?_eq_getElem (show i < s.drain.ended.length by omega)] using hget
    refine ⟨?_, fun hn => ?_⟩
    · rw [hsent]
      exact hsuffix _
    · rw [hfollowed.entriesOf_seen hn, ← hsent]
      exact haccounted.ended e.2 (List.of_mem_zip he).2
  · exact hlives.known e (List.mem_of_mem_drop he)

/-- In every run, the viewer of every session that is open: what it receives on
its connection and the session still holds decodes to the header and the events
seen, in order and up to strings, and these are an interleaving of what the
threads have emitted. A loop over a list that comes to something destroyed ends
the run; the connection is the one the session was opened on, and no ping has been
answered on it. -/
theorem viewer_follows_threads {memory : τ → ℕ → Emitted p}
    {session : α → SinkSessions.Session α κ} {bytes : α → List UInt8} {content : α → Session}
    {acts : List (Act τ α κ p)} {s : St τ α κ p}
    (hrun : run step (init memory session bytes content) acts = some s)
    {a : α} (ha : a ∈ s.sessions.live) {c : Connection σ} (h : WebbyMessages.Idle c [])
    {writes : List (List (List UInt8))}
    (hwrites : writes.map List.flatten = (s.content a).connection.messages)
    (halive : (WebbyMessages.runOps c
      (writes.map (.message WEBBY_WS_OP_BINARY_FRAME))).alive = true) :
    let received := delivered false
      (WebbyMessages.runOps c (writes.map (.message WEBBY_WS_OP_BINARY_FRAME))).socket.sent
    let held := (s.content a).buffer.take (s.content a).bufpos
    (∀ message ∈ received, message.opcode = WEBBY_WS_OP_BINARY_FRAME) ∧
    (((received.map Message.payload ++ [held]).flatMap decode).filter
        fun ev => !ev.isString).map some =
      viewOf (.header (s.opened a).frequency (s.opened a).start : EventData p) ::
        (seen s a).map (fun e => viewOf e.2.val) ∧
    Delivered s a := by
  intro received held
  have hinv : Inv s := run_invariant step (fun _ _ _ => step_inv) (init_inv ..) hrun
  rcases (hinv.followed a ha).content with ⟨buffer, ops, hcontent, hwritten⟩
  rcases SinkSession.session_valid buffer (s.opened a).frequency (s.opened a).start ops with
    ⟨sp, hvalid, hstream⟩
  have hsmall := SinkWire.session_small buffer (s.opened a).frequency (s.opened a).start ops
  rw [← hcontent] at hvalid hsmall
  obtain ⟨hbinary, hdecoded⟩ := SinkWire.received_stream hvalid hsmall h hwrites halive
  refine ⟨hbinary, ?_, delivered_of_inv hinv ha⟩
  rw [hdecoded, hstream, SinkWire.stream_events, hwritten, List.map_map]
  rfl

def tick : Emitted .four := ⟨.tick 7, rfl⟩

/-- A viewer connects, a thread emits a tick, the background thread makes a pass
over it and flushes. -/
def oneTick : List (Act ℕ ℕ ℕ .four) :=
  let queued : List (ThreadDrain.Act ℕ (Emitted .four)) :=
    [.create 0, .emit 0 tick, .tryEnque 0] ++ List.replicate 5 (.enque 0 false)
  let passed : List (ThreadDrain.Act ℕ (Emitted .four)) :=
    List.replicate 3 .flush ++ List.replicate 5 (.deque false) ++ List.replicate 2 .flush ++
      List.replicate 3 (.deque false) ++ [.flush]
  .connected 0 1 2 3 (Vector.replicate kBufSize 0) 1000 5 ::
    (queued ++ passed).map .thread ++ [.flush]

/-- What the viewer of this run receives is one header and one tick. -/
theorem viewer_follows_oneTick :
    ∃ s : St ℕ ℕ ℕ .four, run step (init (fun _ _ => tick) SinkSessions.blank (fun _ => [])
        fun _ => SinkSession.createSession (Vector.replicate kBufSize 0)) oneTick = some s ∧
      let c := WebbyMessages.upgraded ⟨2048, 8192⟩ () ⟨[], .silent, false, [], [some 3], []⟩
      let writes := (s.content 1).connection.messages.map fun message => [message]
      let received := delivered false
        (WebbyMessages.runOps c (writes.map (.message WEBBY_WS_OP_BINARY_FRAME))).socket.sent
      let held := (s.content 1).buffer.take (s.content 1).bufpos
      (∀ message ∈ received, message.opcode = WEBBY_WS_OP_BINARY_FRAME) ∧
      (((received.map Message.payload ++ [held]).flatMap decode).filter
          fun ev => !ev.isString).map some =
        viewOf (.header (s.opened 1).frequency (s.opened 1).start : EventData .four) ::
          (seen s 1).map (fun e => viewOf e.2.val) ∧
      Delivered s 1 := by
  obtain ⟨s, hrun, hlive⟩ : ∃ s : St ℕ ℕ ℕ .four, run step (init (fun _ _ => tick)
      SinkSessions.blank (fun _ => []) fun _ =>
        SinkSession.createSession (Vector.replicate kBufSize 0)) oneTick = some s ∧
      s.sessions.live = [1] := ⟨_, rfl, rfl⟩
  refine ⟨s, hrun, ?_⟩
  intro c writes
  refine viewer_follows_threads hrun (by rw [hlive]; exact List.mem_singleton_self 1)
    (WebbyMessages.upgraded_idle ⟨2048, 8192⟩ () rfl) ?_ ?_
  · rw [List.map_map]
    exact (List.map_congr_left fun message _ => List.flatten_singleton).trans (List.map_id _)
  · rw [WebbyMessages.runOps_healthy rfl]
    · rfl
    · exact ⟨by simp [WebbyMessages.upgraded, WebbyConnection.onIncoming],
        by simp [WebbyMessages.upgraded, WebbyConnection.onIncoming]⟩

end Yardstick.Delivery
