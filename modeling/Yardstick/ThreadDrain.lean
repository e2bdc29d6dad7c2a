import Yardstick.ThreadQueue
import Yardstick.ThreadRegistry

/-!
# ThreadDrain — the events of the threads, from emission to the sink

Threads are constructed, emit events through `ThreadState::Enque` and exit; the
background thread passes over the registered threads in `FlushThreads`, takes up
to 511 events from each in `ProcessThread` and gives them to
`WebsocketSink::WriteEvent`. Every access to a queue is a step of its own. The
library is active throughout.

`_threadsLock` is held for a whole pass, so threads register and deregister only
between two passes.

* `events_accounted`: what a living thread has emitted has been written, in
  order, but for the events on their way: one dequeued, those in its queue, one
  being enqueued. The events in the queue of a thread that exits are dropped;
* `exit_drops_event`: so an accepted event may never be written.
-/

namespace Yardstick.ThreadDrain

open Chain Runs ThreadRegistry ThreadQueue

variable {τ E : Type*} [DecidableEq τ]

/-! ## The threads and the background thread -/

/-- Where the background thread is: outside `FlushThreads`, with `_threadsLock`
free, or at the condition of the loop over the threads, at `--count`, in
`thread->Deque(ev)`, or at `WriteEvent(ev)`. -/
inductive Flush (τ E : Type*) where
  | away
  | visit (thread : Option τ)
  | count (thread : τ) (count : ℕ)
  | deque (thread : τ) (count : ℕ)
  | write (thread : τ) (count : ℕ) (ev : E)

/-- What a thread that has exited had emitted, what of that had been written,
and what was in its queue. -/
structure Life (E : Type*) where
  emitted : List E
  sent : List E
  dropped : List E
deriving DecidableEq, Repr

/-- The registered threads with their queues, the event each is emitting, and
the events each has emitted and `WriteEvent` has got from it. -/
structure St (τ E : Type*) where
  threads : ThreadRegistry.St τ
  queue : τ → Queue E
  emitting : τ → Option E
  flush : Flush τ E
  emitted : τ → List E
  sent : τ → List E
  ended : List (Life E)

/-- No thread has been created yet; the storage has any contents. -/
def init (memory : τ → ℕ → E) : St τ E :=
  { threads := ThreadRegistry.init, queue := fun t => ConcurrentQueue.init (memory t)
    emitting := fun _ => none, flush := .away, emitted := fun _ => [], sent := fun _ => []
    ended := [] }

/-! ## Steps -/

/-- `create` and `exit` construct and destroy a `ThreadState`; `emit` calls
`Enque`, `tryEnque` calls `TryEnque` in it, `enque` is an access of that call;
`flush` is a step of `FlushThreads` outside the queues, `deque` one in
`TryDeque`. -/
inductive Act (τ E : Type*) where
  | create (t : τ)
  | exit (t : τ)
  | emit (t : τ) (ev : E)
  | tryEnque (t : τ)
  | enque (t : τ) (spurious : Bool)
  | flush
  | deque (spurious : Bool)

/-- `ThreadState::ThreadState`, once `_threadsLock` is free. -/
def create (s : St τ E) (t : τ) : Option (St τ E) :=
  match s.flush with
  | .away => (ThreadRegistry.step s.threads (.register t)).map fun threads =>
    { s with
      threads := threads
      queue := Function.update s.queue t (ConcurrentQueue.init (s.queue t).buffer)
      emitting := Function.update s.emitting t none
      emitted := Function.update s.emitted t []
      sent := Function.update s.sent t [] }
  | _ => none

/-- `ThreadState::~ThreadState`, once `_threadsLock` is free. The queue goes with
all that is in it. -/
def exit (s : St τ E) (t : τ) : Option (St τ E) :=
  match s.flush, s.emitting t with
  | .away, none => (ThreadRegistry.step s.threads (.deregister t)).map fun threads =>
    { s with
      threads := threads
      ended := s.ended ++
        [⟨s.emitted t, s.sent t, (s.queue t).enqs.drop (s.queue t).deqs⟩] }
  | _, _ => none

/-- `ThreadState::Enque` is called by a thread that is not in it. -/
def emit (s : St τ E) (t : τ) (ev : E) : Option (St τ E) :=
  if t ∈ s.threads.registered then
    match s.emitting t with
    | none => some { s with
        emitting := Function.update s.emitting t (some ev)
        emitted := Function.update s.emitted t (s.emitted t ++ [ev]) }
    | some _ => none
  else none

/-- The next `TryEnque` of `Enque`. -/
def tryEnque (s : St τ E) (t : τ) : Option (St τ E) :=
  match s.emitting t with
  | none => none
  | some ev => (ConcurrentQueue.step logSize (s.queue t) (.call .owner (.enque ev))).map fun q =>
    { s with queue := Function.update s.queue t q }

/-- An access of `TryEnque`; if it returns true, so does `Enque`. -/
def enque (s : St τ E) (t : τ) (spurious : Bool) : Option (St τ E) :=
  (ConcurrentQueue.step logSize (s.queue t) (.go .owner spurious)).map fun q =>
    { s with
      queue := Function.update s.queue t q
      emitting := Function.update s.emitting t
        (if (returned ((s.queue t).pc .owner)).isSome then none else s.emitting t) }

/-- `FlushThreads` and `ProcessThread`, but for the accesses of `TryDeque`. -/
def flushStep (s : St τ E) : Option (St τ E) :=
  match s.flush with
  | .away => some { s with flush := .visit s.threads.reg.threads }
  | .visit none => some { s with flush := .away }
  | .visit (some t) =>
    -- a `ThreadState` that is no longer there cannot be read
    if t ∈ s.threads.registered then some { s with flush := .count t 512 } else none
  | .count t count =>
    if count - 1 = 0 then some { s with flush := .visit (s.threads.reg.next t) }
    else (ConcurrentQueue.step logSize (s.queue t) (.call .background .deque)).map fun q =>
      { s with queue := Function.update s.queue t q, flush := .deque t (count - 1) }
  | .deque _ _ => none
  | .write t count ev =>
    some { s with sent := Function.update s.sent t (s.sent t ++ [ev]), flush := .count t count }

/-- Where an access of `TryDeque` leads: when it returns, the loop goes on or
ends. -/
def afterDeque (t : τ) (count : ℕ) (next : Option τ) (pc pc' : ConcurrentQueue.Pc E) :
    Flush τ E :=
  match returned pc, pc' with
  | some ev, _ => .write t count ev
  | none, .idle => .visit next
  | none, _ => .deque t count

/-- An access of `TryDeque`. -/
def deque (s : St τ E) (spurious : Bool) : Option (St τ E) :=
  match s.flush with
  | .deque t count =>
    (ConcurrentQueue.step logSize (s.queue t) (.go .background spurious)).map fun q =>
      { s with
        queue := Function.update s.queue t q
        flush := afterDeque t count (s.threads.reg.next t) ((s.queue t).pc .background)
          (q.pc .background) }
  | _ => none

def step (s : St τ E) : Act τ E → Option (St τ E)
  | .create t => create s t
  | .exit t => exit s t
  | .emit t ev => emit s t ev
  | .tryEnque t => if t ∈ s.threads.registered then tryEnque s t else none
  | .enque t spurious => if t ∈ s.threads.registered then enque s t spurious else none
  | .flush => flushStep s
  | .deque spurious => deque s spurious

/-! ## The invariant -/

/-- The event taken from `t` that is at `WriteEvent`. -/
def writing : Flush τ E → τ → Option E
  | .write u _ ev, t => if u = t then some ev else none
  | _, _ => none

/-- The background thread is in `TryDeque` on the queue of `t`. -/
def Dequeing : Flush τ E → τ → Prop
  | .deque u _, t => u = t
  | _, _ => False

/-- The thread the background thread is at. -/
def visiting : Flush τ E → Option τ
  | .count t _ => some t
  | .deque t _ => some t
  | .write t _ _ => some t
  | _ => none

structure ThreadInv (s : St τ E) (t : τ) : Prop where
  queue : ConcurrentQueue.Inv logSize (s.queue t)
  owner : Owner (s.queue t) (s.emitting t) (s.emitted t)
  background : Background (s.queue t) (writing s.flush t) (s.sent t)
  quiet : ¬ Dequeing s.flush t → (s.queue t).pc .background = .idle

structure Inv (s : St τ E) : Prop where
  threads : ∀ t ∈ s.threads.registered, ThreadInv s t
  visited : ∀ t, visiting s.flush = some t → t ∈ s.threads.registered
  ended : ∀ life ∈ s.ended, life.emitted = life.sent ++ life.dropped

theorem init_inv (memory : τ → ℕ → E) : Inv (init memory) := by
  constructor
  · intro t ht
    cases ht
  · intro t ht
    cases ht
  · intro life hlife
    cases hlife

/-- The invariant of a thread is about its own part of the state. -/
theorem ThreadInv.congr {s s' : St τ E} {t : τ} (h : ThreadInv s t)
    (hqueue : s'.queue t = s.queue t) (hemitting : s'.emitting t = s.emitting t)
    (hemitted : s'.emitted t = s.emitted t) (hsent : s'.sent t = s.sent t)
    (hwriting : writing s'.flush t = writing s.flush t)
    (hdequeing : Dequeing s.flush t → Dequeing s'.flush t) : ThreadInv s' t := by
  constructor
  · rw [hqueue]
    exact h.queue
  · rw [hqueue, hemitting, hemitted]
    exact h.owner
  · rw [hqueue, hwriting, hsent]
    exact h.background
  · intro hnot
    rw [hqueue]
    exact h.quiet fun hd => hnot (hdequeing hd)

/-! ## Steps keep the invariant -/

section
variable {s s' : St τ E} {t : τ}

/-- A constructed thread has an empty queue and has emitted nothing. -/
def created (s : St τ E) (t : τ) : St τ E :=
  { s with
    threads := ⟨registerThread (construct s.threads.reg t) t, t :: s.threads.registered⟩
    queue := Function.update s.queue t (ConcurrentQueue.init (s.queue t).buffer)
    emitting := Function.update s.emitting t none
    emitted := Function.update s.emitted t []
    sent := Function.update s.sent t [] }

/-- A thread is created outside a pass of the background thread. -/
theorem create_cases (hstep : create s t = some s') :
    s.flush = .away ∧ t ∉ s.threads.registered ∧ s' = created s t := by
  unfold create at hstep
  split at hstep
  · rename_i haway
    rcases Option.map_eq_some_iff.mp hstep with ⟨threads, hthreads, rfl⟩
    rcases ThreadRegistry.step_cases hthreads with ⟨u, hu, ht, rfl⟩ | ⟨u, hu, -⟩
    · cases hu
      exact ⟨haway, ht, rfl⟩
    · cases hu
  · cases hstep

/-- A thread that is created finds its own queue empty. -/
theorem create_inv (h : Inv s) (hstep : create s t = some s') : Inv s' := by
  rcases create_cases hstep with ⟨haway, ht, rfl⟩
  constructor
  · intro u hu
    by_cases hut : u = t
    · -- nobody has used the new queue
      rw [hut]
      constructor
      · simp only [created, Function.update_self]
        exact ConcurrentQueue.init_inv logSize _
      · simp only [created, Function.update_self]
        exact owner_init _
      · simp only [created, Function.update_self, haway, writing]
        exact background_init _
      · intro _
        simp only [created, Function.update_self]
        rfl
    · have hreg : u ∈ s.threads.registered := (List.mem_cons.mp hu).resolve_left hut
      refine (h.threads u hreg).congr ?_ ?_ ?_ ?_ rfl id
      · exact Function.update_of_ne hut ..
      · exact Function.update_of_ne hut ..
      · exact Function.update_of_ne hut ..
      · exact Function.update_of_ne hut ..
  · intro u hu
    exact List.mem_cons_of_mem _ (h.visited u hu)
  · exact h.ended

/-- What the exit of a thread does: it leaves the list, and what is in its queue is
dropped. -/
theorem exit_cases (hstep : exit s t = some s') :
    s.flush = .away ∧ s.emitting t = none ∧ t ∈ s.threads.registered ∧
      s' = { s with
        threads := ⟨deregisterThread s.threads.reg t, s.threads.registered.erase t⟩
        ended := s.ended ++
          [⟨s.emitted t, s.sent t, (s.queue t).enqs.drop (s.queue t).deqs⟩] } := by
  unfold exit at hstep
  split at hstep
  · rename_i haway hemitting
    rcases Option.map_eq_some_iff.mp hstep with ⟨threads, hthreads, rfl⟩
    rcases ThreadRegistry.step_cases hthreads with ⟨u, hu, -⟩ | ⟨u, hu, ht, rfl⟩
    · cases hu
    · cases hu
      exact ⟨haway, hemitting, ht, rfl⟩
  · cases hstep

/-- A thread that exits takes its account with it. -/
theorem exit_inv (h : Inv s) (hstep : exit s t = some s') : Inv s' := by
  rcases exit_cases hstep with ⟨haway, hemitting, ht, rfl⟩
  constructor
  · intro u hu
    exact (h.threads u (List.mem_of_mem_erase hu)).congr rfl rfl rfl rfl rfl id
  · intro u hu
    rw [haway] at hu
    cases hu
  · intro life hlife
    rcases List.mem_append.mp hlife with hold | hnew
    · exact h.ended life hold
    · -- nothing is being emitted or written: what is not written is in the queue
      have hthread := h.threads t ht
      have haccepted := hthread.owner.accepted
      have htaken := hthread.background.taken
      have hidle : ((s.queue t).pc .background) = .idle := hthread.quiet (by rw [haway]; exact id)
      rw [hemitting, pending_none, List.append_nil] at haccepted
      rw [held_of_idle hidle, haway] at htaken
      rw [List.mem_singleton.mp hnew]
      calc s.emitted t = (s.queue t).enqs := haccepted
        _ = (s.queue t).enqs.take (s.queue t).deqs ++ (s.queue t).enqs.drop (s.queue t).deqs :=
          (List.take_append_drop ..).symm
        _ = s.sent t ++ (s.queue t).enqs.drop (s.queue t).deqs := by
          rw [← htaken]
          exact congrArg (fun l => l ++ _) (List.append_nil _)

/-- A step of one thread, or of the background thread at it. -/
theorem Inv.of_thread (h : Inv s) (hthreads : s'.threads = s.threads) (hended : s'.ended = s.ended)
    (hvisited : ∀ u, visiting s'.flush = some u → u ∈ s.threads.registered)
    (hself : t ∈ s.threads.registered → ThreadInv s' t)
    (hother : ∀ u, u ≠ t → ThreadInv s u → ThreadInv s' u) : Inv s' := by
  constructor
  · intro u hu
    rw [hthreads] at hu
    by_cases hut : u = t
    · rw [hut] at hu ⊢
      exact hself hu
    · exact hother u hut (h.threads u hu)
  · rw [hthreads]
    exact hvisited
  · rw [hended]
    exact h.ended

/-- A thread emits one event at a time. -/
theorem emit_cases {ev : E} (hstep : emit s t ev = some s') :
    t ∈ s.threads.registered ∧ s.emitting t = none ∧ s' = { s with
      emitting := Function.update s.emitting t (some ev)
      emitted := Function.update s.emitted t (s.emitted t ++ [ev]) } := by
  rcases Option.ite_none_right_eq_some.mp hstep with ⟨ht, hstep⟩
  split at hstep
  · rename_i hnone
    cases hstep
    exact ⟨ht, hnone, rfl⟩
  · cases hstep

/-- An event that is to be emitted is on its way. -/
theorem emit_inv {ev : E} (h : Inv s) (hstep : emit s t ev = some s') : Inv s' := by
  rcases emit_cases hstep with ⟨-, hnone, rfl⟩
  refine h.of_thread rfl rfl h.visited (t := t) ?_ ?_
  · intro ht
    have hthread := h.threads t ht
    have howner := hthread.owner
    rw [hnone] at howner
    refine ⟨hthread.queue, ?_, hthread.background, hthread.quiet⟩
    simp only [Function.update_self]
    exact howner.emit ev
  · intro u hut hu
    refine hu.congr rfl ?_ ?_ rfl rfl id
    · exact Function.update_of_ne hut ..
    · exact Function.update_of_ne hut ..

/-- The event that is being emitted is the one offered to the queue. -/
theorem tryEnque_cases (hstep : tryEnque s t = some s') : ∃ ev q, s.emitting t = some ev ∧
    ConcurrentQueue.step logSize (s.queue t) (.call .owner (.enque ev)) = some q ∧
      s' = { s with queue := Function.update s.queue t q } := by
  unfold tryEnque at hstep
  split at hstep
  · cases hstep
  · rename_i ev hemitting
    rcases Option.map_eq_some_iff.mp hstep with ⟨q, hq, rfl⟩
    exact ⟨ev, q, hemitting, hq, rfl⟩

theorem enque_cases {spurious : Bool} (hstep : enque s t spurious = some s') :
    ∃ q, ConcurrentQueue.step logSize (s.queue t) (.go .owner spurious) = some q ∧ s' = { s with
      queue := Function.update s.queue t q
      emitting := Function.update s.emitting t
        (if (returned ((s.queue t).pc .owner)).isSome then none else s.emitting t) } := by
  rcases Option.map_eq_some_iff.mp hstep with ⟨q, hq, rfl⟩
  exact ⟨q, hq, rfl⟩

/-- The owner has moved on in its queue. -/
theorem Inv.owner_step {q : Queue E} {a : ConcurrentQueue.Act Caller E} (emitting : Option E)
    (h : Inv s) (hq : ConcurrentQueue.step logSize (s.queue t) a = some q)
    (hmoved : t ∈ s.threads.registered → ConcurrentQueue.Timely (s.queue t) a ∧
      Owner q emitting (s.emitted t) ∧ q.pc .background = (s.queue t).pc .background ∧
      q.deqs = (s.queue t).deqs ∧ (s.queue t).enqs <+: q.enqs) :
    Inv { s with
      queue := Function.update s.queue t q
      emitting := Function.update s.emitting t emitting } := by
  refine h.of_thread rfl rfl h.visited (t := t) ?_ ?_
  · intro ht
    have hthread := h.threads t ht
    rcases hmoved ht with ⟨htimely, howner, hpc, hdeqs, henqs⟩
    constructor
    · simp only [Function.update_self]
      exact queue_inv hthread.queue hq htimely
    · simp only [Function.update_self]
      exact howner
    · simp only [Function.update_self]
      exact hthread.background.frame hthread.queue hpc hdeqs henqs
    · intro hnot
      simp only [Function.update_self]
      exact hpc.trans (hthread.quiet hnot)
  · intro u hut hu
    exact hu.congr (Function.update_of_ne hut ..) (Function.update_of_ne hut ..) rfl rfl rfl id

theorem tryEnque_inv (h : Inv s) (hstep : tryEnque s t = some s') : Inv s' := by
  rcases tryEnque_cases hstep with ⟨ev, q, hemitting, hq, rfl⟩
  have hmoved := h.owner_step (s.emitting t) hq fun ht => by
    have howner := (h.threads t ht).owner
    rw [hemitting] at howner ⊢
    exact ⟨trivial, owner_call howner hq⟩
  rwa [Function.update_eq_self] at hmoved

theorem enque_inv {spurious : Bool} (h : Inv s) (hstep : enque s t spurious = some s') :
    Inv s' := by
  rcases enque_cases hstep with ⟨q, hq, rfl⟩
  refine h.owner_step _ hq fun ht => ?_
  have howner := (h.threads t ht).owner
  exact ⟨owner_timely howner, owner_go howner hq⟩

/-- The background thread is in no queue and holds no event. -/
def EmptyHanded : Flush τ E → Prop
  | .away => True
  | .visit _ => True
  | .count _ _ => True
  | _ => False

theorem EmptyHanded.writing_eq {flush : Flush τ E} (h : EmptyHanded flush) (u : τ) :
    writing flush u = none := by
  cases flush with
  | write t count ev => cases h
  | _ => rfl

omit [DecidableEq τ] in
theorem EmptyHanded.not_dequeing {flush : Flush τ E} (h : EmptyHanded flush) (u : τ) :
    ¬ Dequeing flush u := by
  cases flush with
  | deque t count => cases h
  | _ => exact id

/-- The background thread moves on without touching a queue. -/
theorem Inv.of_flush (h : Inv s) {flush : Flush τ E} (hold : EmptyHanded s.flush)
    (hnew : EmptyHanded flush)
    (hvisited : ∀ u, visiting flush = some u → u ∈ s.threads.registered) :
    Inv { s with flush := flush } := by
  constructor
  · intro u hu
    refine (h.threads u hu).congr rfl rfl rfl rfl ?_ ?_
    · exact (hnew.writing_eq u).trans (hold.writing_eq u).symm
    · intro hd
      exact absurd hd (hold.not_dequeing u)
  · exact hvisited
  · exact h.ended

/-- `TryDeque` is called on the queue of the thread visited. -/
theorem Inv.callDeque {count count' : ℕ} {q : Queue E} (h : Inv s)
    (hcount : s.flush = .count t count)
    (hq : ConcurrentQueue.step logSize (s.queue t) (.call .background .deque) = some q) :
    Inv { s with queue := Function.update s.queue t q, flush := .deque t count' } := by
  have ht : t ∈ s.threads.registered := h.visited t (by rw [hcount]; rfl)
  refine h.of_thread rfl rfl ?_ (t := t) ?_ ?_
  · intro u hu
    cases hu
    exact ht
  · -- the thread visited
    intro _
    have hthread := h.threads t ht
    have hback := hthread.background
    rw [hcount] at hback
    rcases background_call hback hq with ⟨hback', hpc, henqs⟩
    constructor
    · simp only [Function.update_self]
      exact queue_inv hthread.queue hq trivial
    · simp only [Function.update_self]
      exact hthread.owner.frame hpc henqs
    · simp only [Function.update_self]
      exact hback'
    · intro hnot
      exact absurd rfl hnot
  · -- the other threads
    intro u hut hu
    refine hu.congr (Function.update_of_ne hut ..) rfl rfl rfl ?_ ?_
    · rw [hcount]
      rfl
    · rw [hcount]
      exact False.elim

/-- The event taken is written. -/
theorem Inv.writeEvent {count : ℕ} {ev : E} (h : Inv s) (hwrite : s.flush = .write t count ev) :
    Inv { s with
      sent := Function.update s.sent t (s.sent t ++ [ev]), flush := .count t count } := by
  have ht : t ∈ s.threads.registered := h.visited t (by rw [hwrite]; rfl)
  refine h.of_thread rfl rfl ?_ (t := t) ?_ ?_
  · intro u hu
    cases hu
    exact ht
  · intro _
    have hthread := h.threads t ht
    have hidle : (s.queue t).pc .background = .idle := hthread.quiet (by rw [hwrite]; exact id)
    refine ⟨hthread.queue, hthread.owner, ?_, fun _ => hidle⟩
    have hback := hthread.background
    simp only [Background, hidle, hwrite, writing, if_pos] at hback
    simp only [Background, hidle, Function.update_self]
    exact (List.append_nil _).trans hback
  · intro u hut hu
    refine hu.congr rfl rfl rfl (Function.update_of_ne hut ..) ?_ ?_
    · rw [hwrite]
      exact (if_neg hut.symm).symm
    · rw [hwrite]
      exact False.elim

/-- What a step of `FlushThreads` between two calls of `Deque` does: it takes the
lock, moves on to a thread or to the end, counts down, begins a call, or writes an
event. -/
theorem flushStep_cases (hstep : flushStep s = some s') :
    (s.flush = .away ∧ s' = { s with flush := .visit s.threads.reg.threads }) ∨
    (s.flush = .visit none ∧ s' = { s with flush := .away }) ∨
    (∃ t, s.flush = .visit (some t) ∧ t ∈ s.threads.registered ∧
      s' = { s with flush := .count t 512 }) ∨
    (∃ t count, s.flush = .count t count ∧ count - 1 = 0 ∧
      s' = { s with flush := .visit (s.threads.reg.next t) }) ∨
    (∃ t count q, s.flush = .count t count ∧ count - 1 ≠ 0 ∧
      ConcurrentQueue.step logSize (s.queue t) (.call .background .deque) = some q ∧
      s' = { s with queue := Function.update s.queue t q, flush := .deque t (count - 1) }) ∨
    (∃ t count ev, s.flush = .write t count ev ∧ s' = { s with
      sent := Function.update s.sent t (s.sent t ++ [ev]), flush := .count t count }) := by
  unfold flushStep at hstep
  split at hstep
  · rename_i haway
    cases hstep
    exact Or.inl ⟨haway, rfl⟩
  · -- the end of the list
    rename_i hvisit
    cases hstep
    exact Or.inr (Or.inl ⟨hvisit, rfl⟩)
  · rename_i t hvisit
    rcases Option.ite_none_right_eq_some.mp hstep with ⟨ht, hstep⟩
    cases hstep
    exact Or.inr (Or.inr (Or.inl ⟨t, hvisit, ht, rfl⟩))
  · rename_i t count hcount
    split at hstep
    · -- `--count` ends the loop before it calls `Deque`
      rename_i hlast
      cases hstep
      exact Or.inr (Or.inr (Or.inr (Or.inl ⟨t, count, hcount, hlast, rfl⟩)))
    · rename_i hmore
      rcases Option.map_eq_some_iff.mp hstep with ⟨q, hq, rfl⟩
      exact Or.inr (Or.inr (Or.inr (Or.inr (Or.inl ⟨t, count, q, hcount, hmore, hq, rfl⟩))))
  · cases hstep
  · -- what was taken is written
    rename_i t count ev hwrite
    cases hstep
    exact Or.inr (Or.inr (Or.inr (Or.inr (Or.inr ⟨t, count, ev, hwrite, rfl⟩))))

/-- Each of them keeps the account of every thread. -/
theorem flushStep_inv (h : Inv s) (hstep : flushStep s = some s') : Inv s' := by
  rcases flushStep_cases hstep with ⟨haway, rfl⟩ | ⟨hvisit, rfl⟩ | ⟨t, hvisit, ht, rfl⟩ |
    ⟨t, count, hcount, -, rfl⟩ | ⟨t, count, q, hcount, -, hq, rfl⟩ | ⟨t, count, ev, hwrite, rfl⟩
  · -- the pass begins
    refine h.of_flush (by rw [haway]; trivial) trivial ?_
    intro u hu
    cases hu
  · -- the pass ends
    refine h.of_flush (by rw [hvisit]; trivial) trivial ?_
    intro u hu
    cases hu
  · -- a thread is entered
    refine h.of_flush (by rw [hvisit]; trivial) trivial ?_
    intro u hu
    cases hu
    exact ht
  · -- the thread has had its share
    refine h.of_flush (by rw [hcount]; trivial) trivial ?_
    intro u hu
    cases hu
  · -- `TryDeque` is called
    exact h.callDeque hcount hq
  · -- the event is written
    exact h.writeEvent hwrite

/-- Behind a step of `Deque`, `FlushThreads` holds an event exactly if the call has
returned one, and of no other thread. -/
theorem afterDeque_cases (t : τ) (count : ℕ) (next : Option τ)
    (pc pc' : ConcurrentQueue.Pc E) (hidle : ∀ ev, returned pc = some ev → pc' = .idle) :
    writing (afterDeque t count next pc pc') t = returned pc ∧
      (¬ Dequeing (afterDeque t count next pc pc') t → pc' = .idle) ∧
      (∀ u, visiting (afterDeque t count next pc pc') = some u → u = t) ∧
      (∀ u, u ≠ t → writing (afterDeque t count next pc pc') u = none) := by
  unfold afterDeque
  split
  · -- an event has been taken
    rename_i ev hret
    refine ⟨?_, fun _ => hidle ev hret, ?_, ?_⟩
    · rw [hret]
      exact if_pos rfl
    · intro u hu
      cases hu
      rfl
    · intro u hut
      exact if_neg hut.symm
  · -- the queue was empty
    rename_i hret
    refine ⟨hret.symm, fun _ => rfl, ?_, fun u _ => rfl⟩
    intro u hu
    cases hu
  · -- the call goes on
    rename_i hret _
    refine ⟨hret.symm, fun hnot => absurd rfl hnot, ?_, fun u _ => rfl⟩
    intro u hu
    cases hu
    rfl

/-- What a step inside `Deque` does: one in the queue of the thread that is
visited. -/
theorem deque_cases {spurious : Bool} (hstep : deque s spurious = some s') :
    ∃ t count q, s.flush = .deque t count ∧
      ConcurrentQueue.step logSize (s.queue t) (.go .background spurious) = some q ∧
      s' = { s with
        queue := Function.update s.queue t q
        flush := afterDeque t count (s.threads.reg.next t) ((s.queue t).pc .background)
          (q.pc .background) } := by
  unfold deque at hstep
  split at hstep
  · rename_i t count hdeque
    rcases Option.map_eq_some_iff.mp hstep with ⟨q, hq, rfl⟩
    exact ⟨t, count, q, hdeque, hq, rfl⟩
  · cases hstep

/-- An event that is taken out of a queue is the next one to be written. -/
theorem deque_inv {spurious : Bool} (h : Inv s) (hstep : deque s spurious = some s') : Inv s' := by
  rcases deque_cases hstep with ⟨t, count, q, hdeque, hq, rfl⟩
  have ht : t ∈ s.threads.registered := h.visited t (by rw [hdeque]; rfl)
  have hthread := h.threads t ht
  have hback := hthread.background
  rw [hdeque] at hback
  rcases background_go hback hthread.queue hq with ⟨hback', hpc, henqs, hidle⟩
  rcases afterDeque_cases t count (s.threads.reg.next t) ((s.queue t).pc .background)
    (q.pc .background) hidle with ⟨hwriting, hquiet, hvisited, hother⟩
  refine h.of_thread rfl rfl ?_ (t := t) ?_ ?_
  · intro u hu
    rw [hvisited u hu]
    exact ht
  · -- the thread visited
    intro _
    constructor
    · simp only [Function.update_self]
      exact queue_inv hthread.queue hq (background_timely hback)
    · simp only [Function.update_self]
      exact hthread.owner.frame hpc henqs
    · simp only [Function.update_self, hwriting]
      exact hback'
    · intro hnot
      simp only [Function.update_self]
      exact hquiet hnot
  · -- the other threads
    intro u hut hu
    refine hu.congr (Function.update_of_ne hut ..) rfl rfl rfl ?_ ?_
    · rw [hdeque]
      exact hother u hut
    · rw [hdeque]
      exact fun htu => absurd htu.symm hut

theorem step_inv (s : St τ E) (a : Act τ E) (s' : St τ E) (hstep : step s a = some s')
    (h : Inv s) : Inv s' := by
  cases a with
  | create t => exact create_inv h hstep
  | exit t => exact exit_inv h hstep
  | emit t ev => exact emit_inv h hstep
  | tryEnque t => exact tryEnque_inv h (Option.ite_none_right_eq_some.mp hstep).2
  | enque t spurious => exact enque_inv h (Option.ite_none_right_eq_some.mp hstep).2
  | flush => exact flushStep_inv h hstep
  | deque spurious => exact deque_inv h hstep

end

/-! ## Where the events are -/

/-- The pointers from `_threads` lead to the thread. -/
def Reachable (s : St τ E) (t : τ) : Prop :=
  ∃ l, Path s.threads.reg.next s.threads.reg.threads l ∧ t ∈ l

/-- The events in the queue of a thread. -/
def queued (s : St τ E) (t : τ) : List E := (s.queue t).enqs.drop (s.queue t).deqs

/-- What has been accepted from a thread has been written, in order, but for the
event between the queue and `WriteEvent` and for those in the queue; what it has
emitted has been accepted, but for the event it is enqueueing. What a thread that
has exited had emitted was written, in order, but for what was in its queue. -/
structure Accounted (s : St τ E) : Prop where
  accepted : ∀ t ∈ s.threads.registered, (s.queue t).enqs =
    s.sent t ++ held (s.queue t) (writing s.flush t) ++ queued s t
  emitted : ∀ t ∈ s.threads.registered, s.emitted t =
    (s.queue t).enqs ++ pending (s.queue t) (s.emitting t)
  ended : ∀ life ∈ s.ended, life.emitted = life.sent ++ life.dropped

/-- The condition on a step: a thread is created only while no other is there. -/
def CreatedAlone (s : St τ E) : Act τ E → Prop
  | .create _ => s.threads.registered = []
  | _ => True

theorem accounted_of_inv {s : St τ E} (h : Inv s) : Accounted s := by
  refine ⟨?_, fun t ht => (h.threads t ht).owner.accepted, h.ended⟩
  intro t ht
  rw [(h.threads t ht).background.taken]
  exact (List.take_append_drop ..).symm

theorem flushStep_threads {s s' : St τ E} (h : flushStep s = some s') :
    s'.threads = s.threads := by
  rcases flushStep_cases h with ⟨-, rfl⟩ | ⟨-, rfl⟩ | ⟨_, -, -, rfl⟩ | ⟨_, _, -, -, rfl⟩ |
    ⟨_, _, _, -, -, -, rfl⟩ | ⟨_, _, _, -, rfl⟩ <;> rfl

/-- A step leaves the registered threads alone, or is one of the registry. -/
theorem step_threads {s s' : St τ E} {a : Act τ E} (h : step s a = some s') :
    s'.threads = s.threads ∨ ∃ b, ThreadRegistry.step s.threads b = some s'.threads ∧
      (CreatedAlone s a → Alone s.threads b) := by
  cases a with
  | create t =>
    rcases create_cases h with ⟨-, ht, rfl⟩
    exact Or.inr ⟨.register t, if_neg ht, id⟩
  | exit t =>
    rcases exit_cases h with ⟨-, -, ht, rfl⟩
    exact Or.inr ⟨.deregister t, if_pos ht, fun _ => trivial⟩
  | emit t ev =>
    rcases emit_cases h with ⟨-, -, rfl⟩
    exact Or.inl rfl
  | tryEnque t =>
    rcases tryEnque_cases (Option.ite_none_right_eq_some.mp h).2 with ⟨ev, q, -, -, rfl⟩
    exact Or.inl rfl
  | enque t spurious =>
    rcases enque_cases (Option.ite_none_right_eq_some.mp h).2 with ⟨q, -, rfl⟩
    exact Or.inl rfl
  | flush => exact Or.inl (flushStep_threads h)
  | deque spurious =>
    rcases deque_cases h with ⟨t, count, q, -, -, rfl⟩
    exact Or.inl rfl

theorem step_atMostOne {s s' : St τ E} {a : Act τ E} (ha : CreatedAlone s a)
    (h : step s a = some s') (hs : AtMostOne s.threads) : AtMostOne s'.threads := by
  rcases step_threads h with hsame | ⟨b, hb, halone⟩
  · rw [hsame]
    exact hs
  · exact ThreadRegistry.step_atMostOne (halone ha) hb hs

/-- In every run: all events are accounted for, and while threads are created
alone, all threads can be found from `_threads`. -/
theorem events_accounted {memory : τ → ℕ → E} {acts : List (Act τ E)} {s : St τ E}
    (hrun : run step (init memory) acts = some s) :
    Accounted s ∧ (Along step CreatedAlone (init memory) acts →
      ∀ t ∈ s.threads.registered, Reachable s t) := by
  constructor
  · exact accounted_of_inv (run_invariant step step_inv (init_inv memory) hrun)
  · intro halong t ht
    have hstep : ∀ (s : St τ E) a s', CreatedAlone s a → step s a = some s' →
        AtMostOne s.threads → AtMostOne s'.threads := fun _ _ _ => step_atMostOne
    have hone : AtMostOne s.threads := run_invariant_along step hstep halong init_atMostOne hrun
    rcases (sound_of_atMostOne hone).chain with ⟨l, hl, -, hmem, -⟩
    exact ⟨l, hl, (hmem t).mpr ht⟩

/-- A thread emits an event. -/
def oneEvent : List (Act ℕ ℕ) :=
  [.create 0, .emit 0 7, .tryEnque 0] ++ List.replicate 5 (.enque 0 false)

/-- The background thread takes the event of the only thread and writes it. -/
def onePass : List (Act ℕ ℕ) :=
  List.replicate 3 .flush ++ List.replicate 5 (.deque false) ++ [.flush]

/-- One event of one thread, and a whole pass. -/
theorem events_accounted_onePass :
    ∃ s, run step (init fun _ _ => 0) (oneEvent ++ onePass) = some s ∧ s.sent 0 = [7] ∧
      Accounted s ∧ ∀ t ∈ s.threads.registered, Reachable s t := by
  have hsent : (run step (init fun _ _ => 0) (oneEvent ++ onePass)).map (fun s => s.sent 0) =
      some [7] := rfl
  rcases Option.map_eq_some_iff.mp hsent with ⟨s, hrun, hs⟩
  have halong : Along step CreatedAlone (init fun _ _ => 0) (oneEvent ++ onePass) := by
    change Along step CreatedAlone _ (.create 0 :: .emit 0 7 :: .tryEnque 0 ::
      (List.replicate 5 (.enque 0 false) ++ onePass))
    refine ⟨rfl, fun s' _ => along_of_forall step ?_⟩
    intro s a ha
    simp only [onePass, List.mem_cons, List.mem_append, List.mem_replicate, List.not_mem_nil,
      or_false] at ha
    rcases ha with rfl | rfl | ⟨-, rfl⟩ | (⟨-, rfl⟩ | ⟨-, rfl⟩) | rfl <;> trivial
  exact ⟨s, hrun, hs, (events_accounted hrun).1, (events_accounted hrun).2 halong⟩

/-- What the threads have emitted is never lost: it has been written, or it is
in the queue of a thread that can be found from `_threads`. -/
def NoneLost (s : St τ E) : Prop :=
  (∀ t ∈ s.threads.registered, (s.queue t).enqs = s.sent t ++ queued s t ∧ Reachable s t) ∧
    ∀ life ∈ s.ended, life.emitted = life.sent

/-- The thread exits before the background thread has passed over it. -/
theorem exit_drops_event :
    ∃ s, run step (init fun _ _ => 0) (oneEvent ++ [.exit 0]) = some s ∧
      s.ended = [⟨[7], [], [7]⟩] ∧ ¬ NoneLost s := by
  have hended : (run step (init fun _ _ => 0) (oneEvent ++ [.exit 0])).map (fun s => s.ended) =
      some [⟨[7], [], [7]⟩] := rfl
  rcases Option.map_eq_some_iff.mp hended with ⟨s, hrun, hs⟩
  refine ⟨s, hrun, hs, ?_⟩
  intro hnone
  have hlife := hnone.2 ⟨[7], [], [7]⟩ (by rw [hs]; exact List.mem_singleton_self _)
  cases hlife

end Yardstick.ThreadDrain
