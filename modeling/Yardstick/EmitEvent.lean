import Yardstick.Lifecycle
import Yardstick.QueueAnswers
import Yardstick.ThreadDrain

/-!
# EmitEvent — the calls that emit events

`emit_record`, `emit_count`, `emit_region` and `tick` hand an event to
`EmitEvent`, and that to `ThreadState::Enque`, which tries to enqueue it as long
as it finds the library active. Here the calls run beside `Initialize`,
`Shutdown` and the background thread (`Lifecycle`), and over the queues
(`ThreadDrain`). Every load of `_active` is a step of its own.

`Enque` returns nothing, whether it has placed the event or not, and `EmitEvent`
returns `Success` in any case.

* `go_spec`: what a step of a call does to its event and what the call returns;
* `outcomes_placed`: a call places its event once or leaves the queue as it is;
* `outcomes_right_iff`: what the calls of a run return is right exactly if every
  load of `_active` in `Enque` finds the library active.
-/

namespace Yardstick.EmitEvent

open Protocol Runs ThreadQueue
open PointerHash (CString PtrSize)

variable {τ A : Type*} {p : PtrSize}

/-! ## The calls -/

/-- The calls, with their arguments; `tick` with what `ReadClock` returns. -/
inductive Call (p : PtrSize) where
  | emitRecord (when value : BitVec 64) (name file : CString p) (line : BitVec 32)
  | emitCount (amount : BitVec 64) (name : CString p)
  | emitRegion (startTime endTime : BitVec 64) (name file : CString p) (line : BitVec 32)
  | tick (clock : BitVec 64)

/-- The event a call fills in. -/
def Call.event : Call p → EventData p
  | .emitRecord time value name file line => .counterSet line name file time value
  | .emitCount amount name => .counterAdd name amount
  | .emitRegion startTime endTime name file line => .region line name file startTime endTime
  | .tick clock => .tick clock

/-- An event in `Enque`, and what the queue had accepted before. -/
structure Entry (p : PtrSize) where
  event : EventData p
  before : List (EventData p)

/-- Where a thread is in `EmitEvent`. -/
inductive Stage (p : PtrSize) where
  | idle
  /-- At `ThreadState::thread_instance()`. -/
  | threadInstance (ev : EventData p)
  /-- At `gs.IsActive()`, in the condition of the `if`, or again in that of the
  `while`. -/
  | isActive (again : Bool) (entry : Entry p)
  /-- In `_queue.TryEnque(ev)`, likewise. -/
  | tryEnque (again : Bool) (entry : Entry p)
  | signalPost (entry : Entry p)

/-- What a call has returned, and what the queue had accepted by then. -/
structure Outcome (τ : Type*) (p : PtrSize) extends Entry p where
  thread : τ
  result : YsResult
  after : List (EventData p)

/-- The library, the threads with their queues, the calls, and what they have
returned, newest first. -/
structure St (τ A : Type*) (p : PtrSize) where
  library : Lifecycle.St τ A
  drain : ThreadDrain.St τ (EventData p)
  stage : τ → Stage p
  outcomes : List (Outcome τ p)

def init (memory : τ → ℕ → EventData p) : St τ A p :=
  { library := Lifecycle.init, drain := ThreadDrain.init memory, stage := fun _ => .idle
    outcomes := [] }

/-! ## Steps -/

/-- An idle thread calls; a thread goes on in its call, where a compare-exchange
may fail for no reason; a thread exits; a background thread makes a step of
`FlushThreads`. -/
inductive Act (τ A : Type*) (p : PtrSize) where
  | library (a : Lifecycle.Act τ A)
  | call (t : τ) (c : Call p)
  | go (t : τ) (spurious : Bool)
  | exit (t : τ)
  | flush (i : ℕ)
  | deque (i : ℕ) (spurious : Bool)

/-- The thread is in no call. -/
def free (s : St τ A p) (t : τ) : Bool :=
  match s.library.pc t, s.stage t with
  | .idle, .idle => true
  | _, _ => false

/-- A thread is in one call at a time, and the background thread leaves the body
of its loop behind `FlushThreads`. -/
def admits (s : St τ A p) : Lifecycle.Act τ A → Bool
  | .callInitialize t _ => free s t
  | .callShutdown t => free s t
  | .background i =>
    match s.library.globals.threads i, s.drain.flush with
    | .body, .away => true
    | .body, _ => false
    | _, _ => true
  | _ => true

/-- `gs.SignalPost()`. -/
def signalPost (l : Lifecycle.St τ A) : Lifecycle.St τ A :=
  { l with globals := { l.globals with ready := true } }

section
variable [DecidableEq τ]

def goto (s : St τ A p) (t : τ) (d : ThreadDrain.St τ (EventData p)) (stage : Stage p) :
    St τ A p :=
  { s with drain := d, stage := Function.update s.stage t stage }

/-- `Enque` returns, and `EmitEvent` with it: `return ysResult::Success`. -/
def ret (s : St τ A p) (t : τ) (d : ThreadDrain.St τ (EventData p)) (entry : Entry p) :
    St τ A p :=
  { goto s t d .idle with
    outcomes := { entry with
      thread := t, result := .success, after := (d.queue t).enqs } :: s.outcomes }

/-- `Enque` returns without having placed the event. -/
def abandon (d : ThreadDrain.St τ (EventData p)) (t : τ) : ThreadDrain.St τ (EventData p) :=
  { d with
    emitting := Function.update d.emitting t none
    emitted := Function.update d.emitted t (d.emitted t).dropLast }

/-- The next step of a call. -/
def go (s : St τ A p) (t : τ) (spurious : Bool) : Option (St τ A p) :=
  match s.stage t with
  | .idle => none
  | .threadInstance ev =>
    -- the first call of a thread constructs its ThreadState
    if t ∈ s.drain.threads.registered then
      (ThreadDrain.step s.drain (.emit t ev)).map fun d =>
        goto s t d (.isActive false ⟨ev, (d.queue t).enqs⟩)
    else (ThreadDrain.step s.drain (.create t)).map fun d => { s with drain := d }
  | .isActive again entry =>
    if s.library.globals.active then
      (ThreadDrain.step s.drain (.tryEnque t)).map fun d => goto s t d (.tryEnque again entry)
    else some (ret s t (abandon s.drain t) entry)
  | .tryEnque again entry =>
    (ThreadDrain.step s.drain (.enque t spurious)).map fun d =>
      if (returned ((s.drain.queue t).pc .owner)).isSome then ret s t d entry
      else
        match (d.queue t).pc .owner with
        | .idle => goto s t d (if again then .isActive true entry else .signalPost entry)
        | _ => { s with drain := d }
  | .signalPost entry =>
    some { goto s t s.drain (.isActive true entry) with library := signalPost s.library }

def step (s : St τ A p) : Act τ A p → Option (St τ A p)
  | .library a =>
    if admits s a then (Lifecycle.step s.library a).map fun l => { s with library := l } else none
  | .call t c =>
    if free s t then
      some { s with stage := Function.update s.stage t (.threadInstance c.event) }
    else none
  | .go t spurious => go s t spurious
  | .exit t =>
    if free s t then (ThreadDrain.step s.drain (.exit t)).map fun d => { s with drain := d }
    else none
  | .flush i =>
    if s.library.globals.threads i = .body then
      (ThreadDrain.step s.drain .flush).map fun d => { s with drain := d }
    else none
  | .deque i spurious =>
    if s.library.globals.threads i = .body then
      (ThreadDrain.step s.drain (.deque spurious)).map fun d => { s with drain := d }
    else none

end

/-- The condition on a step: the load of `_active` in `Enque` finds it true. -/
def FindsActive (s : St τ A p) : Act τ A p → Prop
  | .go t _ =>
    match s.stage t with
    | .isActive _ _ => s.library.globals.active = true
    | _ => True
  | _ => True

instance (s : St τ A p) (a : Act τ A p) : Decidable (FindsActive s a) := by
  unfold FindsActive
  split
  · split
    · infer_instance
    · infer_instance
  · infer_instance

/-- The event has been placed in the queue of the thread. -/
def Outcome.Placed (o : Outcome τ p) : Prop := o.after = o.before ++ [o.event]

/-- Success is returned only for an event that has been placed, and otherwise an
error, with the queue as it was. -/
structure Outcome.Right (o : Outcome τ p) : Prop where
  success : o.result = .success → o.Placed
  error : ¬ o.Placed → o.result ≠ .success ∧ o.after = o.before

/-! ## What a call knows of its event -/

section
variable {d d' : ThreadDrain.St τ (EventData p)} {t : τ} {entry : Entry p}

/-- The event has been given to `Enque`, which has not placed it for good. -/
structure Enqueing (d : ThreadDrain.St τ (EventData p)) (t : τ) (entry : Entry p) : Prop where
  registered : t ∈ d.threads.registered
  emitting : d.emitting t = some entry.event
  emitted : d.emitted t = entry.before ++ [entry.event]

/-- Likewise, and the thread is in no `TryEnque`. -/
structure Between (d : ThreadDrain.St τ (EventData p)) (t : τ) (entry : Entry p) : Prop
    extends Enqueing d t entry where
  idle : (d.queue t).pc .owner = .idle

def StageInv (d : ThreadDrain.St τ (EventData p)) (t : τ) : Stage p → Prop
  | .idle => True
  | .threadInstance _ => True
  | .isActive _ entry => Between d t entry
  | .tryEnque _ entry => Enqueing d t entry
  | .signalPost entry => Between d t entry

/-- What the thread knows of its event is the same. -/
structure Untouched (d d' : ThreadDrain.St τ (EventData p)) (t : τ) : Prop where
  registered : t ∈ d.threads.registered → t ∈ d'.threads.registered
  emitting : d'.emitting t = d.emitting t
  emitted : d'.emitted t = d.emitted t
  pc : (d'.queue t).pc .owner = (d.queue t).pc .owner

theorem untouched_refl (d : ThreadDrain.St τ (EventData p)) (t : τ) : Untouched d d t :=
  ⟨id, rfl, rfl, rfl⟩

/-- What others do leaves a call of `Enque` where it was. -/
theorem Enqueing.frame (h : Enqueing d t entry) (hsame : Untouched d d' t) :
    Enqueing d' t entry := by
  constructor
  · exact hsame.registered h.registered
  · rw [hsame.emitting]
    exact h.emitting
  · rw [hsame.emitted]
    exact h.emitted

theorem Between.frame (h : Between d t entry) (hsame : Untouched d d' t) : Between d' t entry :=
  ⟨h.toEnqueing.frame hsame, hsame.pc.trans h.idle⟩

/-- The same for any stage of `EmitEvent`. -/
theorem StageInv.frame {stage : Stage p} (h : StageInv d t stage) (hsame : Untouched d d' t) :
    StageInv d' t stage := by
  cases stage with
  | idle => trivial
  | threadInstance ev => trivial
  | isActive again entry => exact Between.frame h hsame
  | tryEnque again entry => exact Enqueing.frame h hsame
  | signalPost entry => exact Between.frame h hsame

/-- The thread whose step it is; the background thread has none. -/
def caller : ThreadDrain.Act τ (EventData p) → Option τ
  | .create t => some t
  | .exit t => some t
  | .emit t _ => some t
  | .tryEnque t => some t
  | .enque t _ => some t
  | .flush => none
  | .deque _ => none

variable [DecidableEq τ]

theorem queue_untouched {q : Queue (EventData p)} {u : τ}
    (hq : t = u → q.pc .owner = (d.queue u).pc .owner) :
    (Function.update d.queue u q t).pc .owner = (d.queue t).pc .owner := by
  by_cases htu : t = u
  · rw [htu, Function.update_self, hq htu]
  · rw [Function.update_of_ne htu]

/-- A step of the background thread in a queue is none of the owner's. -/
theorem background_untouched {q : Queue (EventData p)} {u : τ}
    {a : ConcurrentQueue.Act ThreadQueue.Caller (EventData p)}
    (hq : ConcurrentQueue.step logSize (d.queue u) a = some q) (ha : Caller.owner ≠ a.thread) :
    (Function.update d.queue u q t).pc .owner = (d.queue t).pc .owner :=
  queue_untouched fun _ => ConcurrentQueue.step_pc_ne hq ha

/-- No step of `FlushThreads` touches a call of `Enque`. -/
theorem flushStep_untouched (h : ThreadDrain.flushStep d = some d') : Untouched d d' t := by
  rcases ThreadDrain.flushStep_cases h with ⟨-, rfl⟩ | ⟨-, rfl⟩ | ⟨_, -, -, rfl⟩ |
    ⟨_, _, -, -, rfl⟩ | ⟨_, _, q, -, -, hq, rfl⟩ | ⟨_, _, _, -, rfl⟩
  · -- the pass begins
    exact ⟨id, rfl, rfl, rfl⟩
  · -- the pass ends
    exact ⟨id, rfl, rfl, rfl⟩
  · -- a thread is entered
    exact ⟨id, rfl, rfl, rfl⟩
  · -- the thread has had its share
    exact ⟨id, rfl, rfl, rfl⟩
  · -- `TryDeque` is called
    exact ⟨id, rfl, rfl, background_untouched hq fun heq => nomatch heq⟩
  · -- the event is written
    exact ⟨id, rfl, rfl, rfl⟩

theorem deque_untouched {spurious : Bool} (h : ThreadDrain.deque d spurious = some d') :
    Untouched d d' t := by
  rcases ThreadDrain.deque_cases h with ⟨_, _, q, -, hq, rfl⟩
  exact ⟨id, rfl, rfl, background_untouched hq fun heq => nomatch heq⟩

/-- The steps of the others and of the background thread. -/
theorem step_untouched {a : ThreadDrain.Act τ (EventData p)}
    (h : ThreadDrain.step d a = some d') (ha : caller a ≠ some t) : Untouched d d' t := by
  cases a with
  -- another thread is created, and its queue is made
  | create u =>
    have htu : t ≠ u := fun heq => ha (congrArg some heq.symm)
    rcases ThreadDrain.create_cases h with ⟨-, -, rfl⟩
    refine ⟨List.mem_cons_of_mem u, ?_, ?_, ?_⟩
    · exact Function.update_of_ne htu ..
    · exact Function.update_of_ne htu ..
    · exact queue_untouched fun heq => absurd heq htu
  | exit u =>
    have htu : t ≠ u := fun heq => ha (congrArg some heq.symm)
    rcases ThreadDrain.exit_cases h with ⟨-, -, -, rfl⟩
    exact ⟨fun ht => (List.mem_erase_of_ne htu).mpr ht, rfl, rfl, rfl⟩
  | emit u ev =>
    have htu : t ≠ u := fun heq => ha (congrArg some heq.symm)
    rcases ThreadDrain.emit_cases h with ⟨-, -, rfl⟩
    exact ⟨id, Function.update_of_ne htu .., Function.update_of_ne htu .., rfl⟩
  | tryEnque u =>
    have htu : t ≠ u := fun heq => ha (congrArg some heq.symm)
    rcases ThreadDrain.tryEnque_cases (Option.ite_none_right_eq_some.mp h).2 with
      ⟨ev, q, -, -, rfl⟩
    exact ⟨id, rfl, rfl, queue_untouched fun heq => absurd heq htu⟩
  | enque u spurious =>
    have htu : t ≠ u := fun heq => ha (congrArg some heq.symm)
    rcases ThreadDrain.enque_cases (Option.ite_none_right_eq_some.mp h).2 with ⟨q, -, rfl⟩
    refine ⟨id, Function.update_of_ne htu .., rfl, ?_⟩
    exact queue_untouched fun heq => absurd heq htu
  | flush => exact flushStep_untouched h
  | deque spurious => exact deque_untouched h

/-! ### The steps of the thread itself -/

/-- A call that has been given its event has not tried to put it into the queue
yet. -/
theorem emit_between {ev : EventData p} (hinv : ThreadDrain.Inv d)
    (h : ThreadDrain.step d (.emit t ev) = some d') :
    Between d' t ⟨ev, (d'.queue t).enqs⟩ := by
  rcases ThreadDrain.emit_cases h with ⟨ht, hnone, rfl⟩
  -- nothing is pending, so the queue has accepted all that was emitted before
  have howner := (hinv.threads t ht).owner
  rw [hnone] at howner
  have haccepted := howner.accepted
  rw [pending_none, List.append_nil] at haccepted
  refine ⟨⟨ht, Function.update_self .., ?_⟩, howner.idle⟩
  show Function.update d.emitted t (d.emitted t ++ [ev]) t = (d.queue t).enqs ++ [ev]
  rw [Function.update_self, haccepted]

theorem tryEnque_enqueing (hentry : Enqueing d t entry)
    (h : ThreadDrain.step d (.tryEnque t) = some d') : Enqueing d' t entry := by
  rcases ThreadDrain.tryEnque_cases (Option.ite_none_right_eq_some.mp h).2 with ⟨ev, q, -, -, rfl⟩
  exact ⟨hentry.registered, hentry.emitting, hentry.emitted⟩

/-- What an access of `TryEnque` keeps, unless `TryEnque` returns true. -/
theorem enque_cases {spurious : Bool} (h : ThreadDrain.step d (.enque t spurious) = some d') :
    d'.threads = d.threads ∧ d'.emitted = d.emitted ∧
      d'.emitting t = if (returned ((d.queue t).pc .owner)).isSome then none
        else d.emitting t := by
  rcases ThreadDrain.enque_cases (Option.ite_none_right_eq_some.mp h).2 with ⟨q, -, rfl⟩
  exact ⟨rfl, rfl, Function.update_self ..⟩

/-- A step of the queue that does not return leaves the call inside. -/
theorem enque_enqueing {spurious : Bool} (hentry : Enqueing d t entry)
    (h : ThreadDrain.step d (.enque t spurious) = some d')
    (hnot : ¬ (returned ((d.queue t).pc .owner)).isSome = true) : Enqueing d' t entry := by
  obtain ⟨hthreads, hemitted, hemitting⟩ := enque_cases h
  constructor
  · rw [hthreads]
    exact hentry.registered
  · rw [hemitting, if_neg hnot]
    exact hentry.emitting
  · rw [hemitted]
    exact hentry.emitted

/-- When `TryEnque` returns true, the queue has accepted the event. -/
theorem enque_placed {spurious : Bool} (hinv : ThreadDrain.Inv d) (hentry : Enqueing d t entry)
    (h : ThreadDrain.step d (.enque t spurious) = some d')
    (hret : (returned ((d.queue t).pc .owner)).isSome = true) :
    (d'.queue t).enqs = entry.before ++ [entry.event] := by
  obtain ⟨hthreads, hemitted, hemitting⟩ := enque_cases h
  have ht : t ∈ d'.threads.registered := by
    rw [hthreads]
    exact hentry.registered
  -- with nothing pending any more, what was emitted is what has been accepted
  have haccepted := ((ThreadDrain.step_inv d _ d' h hinv).threads t ht).owner.accepted
  rw [hemitting, if_pos hret, pending_none, List.append_nil, hemitted] at haccepted
  exact haccepted.symm.trans hentry.emitted

/-- Between two `TryEnque`s the queue is as it was. -/
theorem Between.enqs (hinv : ThreadDrain.Inv d) (hentry : Between d t entry) :
    (d.queue t).enqs = entry.before := by
  have howner := (hinv.threads t hentry.registered).owner
  rw [Owner, hentry.idle, hentry.emitting, hentry.emitted] at howner
  exact (List.append_cancel_right howner).symm

/-- A call that is given up leaves the queues as they are. -/
theorem abandon_inv (hinv : ThreadDrain.Inv d) (hentry : Between d t entry) :
    ThreadDrain.Inv (abandon d t) := by
  refine hinv.of_thread rfl rfl hinv.visited (t := t) ?_ ?_
  · intro ht
    have hthread := hinv.threads t ht
    refine ⟨hthread.queue, ?_, hthread.background, hthread.quiet⟩
    -- without the event given up, all that was emitted has been accepted
    simp only [abandon, Function.update_self, hentry.emitted, List.dropLast_concat]
    rw [Owner, hentry.idle]
    exact (hentry.enqs hinv).symm.trans (List.append_nil _).symm
  · intro u hut hu
    refine hu.congr rfl ?_ ?_ rfl rfl id
    · exact Function.update_of_ne hut ..
    · exact Function.update_of_ne hut ..

theorem abandon_untouched {u : τ} (hut : u ≠ t) : Untouched d (abandon d t) u :=
  ⟨id, Function.update_of_ne hut .., Function.update_of_ne hut .., rfl⟩

end

/-! ## Steps of a call -/

section
variable {s s' : St τ A p} {t : τ} {spurious : Bool}

theorem stage_of_free (h : free s t = true) : s.stage t = .idle := by
  unfold free at h
  split at h
  · assumption
  · cases h

/-- What a step has returned, if anything. -/
def Answers (s s' : St τ A p) (active : Prop) : Prop :=
  (active ∧ s'.outcomes = s.outcomes) ∨
    ∃ o, s'.outcomes = o :: s.outcomes ∧ o.result = .success ∧
      (active ∧ o.Placed ∨ ¬ active ∧ o.after = o.before)

theorem right_iff {o : Outcome τ p} (hsuccess : o.result = .success) : o.Right ↔ o.Placed := by
  constructor
  · intro hright
    exact hright.success hsuccess
  · intro hplaced
    exact ⟨fun _ => hplaced, fun hnot => absurd hplaced hnot⟩

theorem not_placed {o : Outcome τ p} (h : o.after = o.before) : ¬ o.Placed := by
  intro hplaced
  have hlength := congrArg List.length (h.symm.trans hplaced)
  simp at hlength

/-- A call that finds the library inactive returns the wrong result; no other
does. -/
theorem answers_right {active : Prop} (h : Answers s s' active)
    (hright : ∀ o ∈ s.outcomes, o.Right) : (∀ o ∈ s'.outcomes, o.Right) ↔ active := by
  rcases h with ⟨hactive, hsame⟩ | ⟨o, hone, hsuccess, ⟨hactive, hplaced⟩ | ⟨hnot, hsame⟩⟩
  · rw [hsame]
    exact iff_of_true hright hactive
  · rw [hone]
    refine iff_of_true (List.forall_mem_cons.mpr ⟨?_, hright⟩) hactive
    exact (right_iff hsuccess).mpr hplaced
  · rw [hone]
    refine iff_of_false (fun hall => ?_) hnot
    exact not_placed hsame ((right_iff hsuccess).mp (List.forall_mem_cons.mp hall).1)

theorem answers_mono {active : Prop} (h : Answers s s' active) :
    ∀ o ∈ s.outcomes, o ∈ s'.outcomes := by
  rcases h with ⟨-, hsame⟩ | ⟨o, hone, -⟩
  · rw [hsame]
    exact fun o ho => ho
  · rw [hone]
    exact fun o' ho' => List.mem_cons_of_mem o ho'

theorem findsActive_iff {again : Bool} {entry : Entry p}
    (hstage : s.stage t = .isActive again entry) :
    FindsActive s (.go t spurious) ↔ s.library.globals.active = true := by
  rw [FindsActive, hstage]

variable [DecidableEq τ]

/-- What a step of a call keeps, and what it returns. -/
structure Goes (s s' : St τ A p) (t : τ) (active : Prop) : Prop where
  drain : ThreadDrain.Inv s'.drain
  stage : StageInv s'.drain t (s'.stage t)
  others : ∀ u, u ≠ t → s'.stage u = s.stage u ∧ Untouched s.drain s'.drain u
  answers : Answers s s' active

/-- A step of the call in the thread's own queue. -/
theorem goes_goto {a : ThreadDrain.Act τ (EventData p)} {d : ThreadDrain.St τ (EventData p)}
    {stage : Stage p} {active : Prop} (hinv : ThreadDrain.Inv s.drain)
    (hd : ThreadDrain.step s.drain a = some d) (ha : caller a = some t)
    (hstage : StageInv d t stage) (hactive : active) : Goes s (goto s t d stage) t active := by
  refine ⟨ThreadDrain.step_inv _ _ _ hd hinv, ?_, fun u hu => ⟨?_, ?_⟩, Or.inl ⟨hactive, rfl⟩⟩
  · show StageInv d t (Function.update s.stage t stage t)
    rw [Function.update_self]
    exact hstage
  · exact Function.update_of_ne hu ..
  · exact step_untouched hd fun heq => hu (Option.some.inj (heq.symm.trans ha))

/-- A call returns. -/
theorem goes_ret {d : ThreadDrain.St τ (EventData p)} {entry : Entry p} {active : Prop}
    (hinv : ThreadDrain.Inv d) (hothers : ∀ u, u ≠ t → Untouched s.drain d u)
    (hafter : active ∧ (d.queue t).enqs = entry.before ++ [entry.event] ∨
      ¬ active ∧ (d.queue t).enqs = entry.before) :
    Goes s (ret s t d entry) t active := by
  refine ⟨hinv, ?_, fun u hu => ⟨?_, hothers u hu⟩, Or.inr ⟨_, rfl, rfl, hafter⟩⟩
  · show StageInv d t (Function.update s.stage t .idle t)
    rw [Function.update_self]
    trivial
  · exact Function.update_of_ne hu ..

theorem goto_stay (d : ThreadDrain.St τ (EventData p)) :
    goto s t d (s.stage t) = { s with drain := d } := by
  rw [goto, Function.update_eq_self]

/-- What a step of `EmitEvent` does at each of its stages: it goes on with the
invariant of the next one, or it returns, and then the answer is right exactly if
`_active` was read as it is. -/
theorem go_spec (hinv : ThreadDrain.Inv s.drain) (hstage : StageInv s.drain t (s.stage t))
    (h : go s t spurious = some s') : Goes s s' t (FindsActive s (.go t spurious)) := by
  cases hat : s.stage t with
  | idle => simp [go, hat] at h
  | threadInstance ev =>
    have hactive : FindsActive s (.go t spurious) := by simp [FindsActive, hat]
    simp only [go, hat] at h
    split at h
    · -- Enque is entered
      rcases Option.map_eq_some_iff.mp h with ⟨d, hd, rfl⟩
      exact goes_goto hinv hd rfl (emit_between hinv hd) hactive
    · -- the ThreadState is constructed
      rcases Option.map_eq_some_iff.mp h with ⟨d, hd, rfl⟩
      rw [← goto_stay (t := t) d, hat]
      exact goes_goto hinv hd rfl trivial hactive
  | isActive again entry =>
    rw [hat] at hstage
    simp only [go, hat] at h
    split at h
    · rename_i hload
      rcases Option.map_eq_some_iff.mp h with ⟨d, hd, rfl⟩
      exact goes_goto hinv hd rfl (tryEnque_enqueing (Between.toEnqueing hstage) hd)
        ((findsActive_iff hat).mpr hload)
    · -- the library is not active: the event is given up
      rename_i hload
      cases h
      have henqs : (s.drain.queue t).enqs = entry.before := Between.enqs hinv hstage
      refine goes_ret (abandon_inv hinv hstage) (fun u hu => abandon_untouched hu) (Or.inr ?_)
      exact ⟨fun hactive => hload ((findsActive_iff hat).mp hactive), henqs⟩
  | tryEnque again entry =>
    have hactive : FindsActive s (.go t spurious) := by simp [FindsActive, hat]
    rw [hat] at hstage
    simp only [go, hat] at h
    rcases Option.map_eq_some_iff.mp h with ⟨d, hd, hs'⟩
    split at hs'
    · -- TryEnque returns true
      rename_i hret
      subst hs'
      refine goes_ret (ThreadDrain.step_inv _ _ _ hd hinv) ?_
        (Or.inl ⟨hactive, enque_placed hinv hstage hd hret⟩)
      intro u hu
      exact step_untouched hd fun heq => hu (Option.some.inj heq).symm
    · rename_i hret
      have hentry : Enqueing d t entry := enque_enqueing hstage hd hret
      split at hs'
      · -- TryEnque returns false
        rename_i hidle
        subst hs'
        refine goes_goto hinv hd rfl ?_ hactive
        cases again with
        | true => exact ⟨hentry, hidle⟩
        | false => exact ⟨hentry, hidle⟩
      · -- TryEnque goes on
        subst hs'
        rw [← goto_stay (t := t) d, hat]
        exact goes_goto hinv hd rfl hentry hactive
  | signalPost entry =>
    have hactive : FindsActive s (.go t spurious) := by simp [FindsActive, hat]
    rw [hat] at hstage
    simp only [go, hat] at h
    cases h
    refine ⟨hinv, ?_, fun u hu => ⟨?_, untouched_refl _ u⟩, Or.inl ⟨hactive, rfl⟩⟩
    · show StageInv s.drain t (Function.update s.stage t (.isActive true entry) t)
      rw [Function.update_self]
      exact hstage
    · exact Function.update_of_ne hu ..

end

/-! ## Runs -/

section
variable [DecidableEq τ] {s s' : St τ A p} {a : Act τ A p}

/-- Every call knows of its event what its stage says; what has returned has
placed its event or left the queue as it was. -/
structure Inv (s : St τ A p) : Prop where
  drain : ThreadDrain.Inv s.drain
  stage : ∀ t, StageInv s.drain t (s.stage t)
  outcomes : ∀ o ∈ s.outcomes, o.result = .success ∧ (o.Placed ∨ o.after = o.before)

theorem init_inv (memory : τ → ℕ → EventData p) : Inv (init memory : St τ A p) := by
  refine ⟨ThreadDrain.init_inv memory, fun t => trivial, ?_⟩
  intro o ho
  cases ho

/-- The invariant follows from what a step does to the queues, the stages and the
answers. -/
theorem Inv.of_answers (h : Inv s) {active : Prop} (hdrain : ThreadDrain.Inv s'.drain)
    (hstage : ∀ t, StageInv s'.drain t (s'.stage t)) (hanswers : Answers s s' active) :
    Inv s' := by
  refine ⟨hdrain, hstage, ?_⟩
  rcases hanswers with ⟨-, hsame⟩ | ⟨o, hone, hsuccess, hafter⟩
  · rw [hsame]
    exact h.outcomes
  · rw [hone]
    refine List.forall_mem_cons.mpr ⟨⟨hsuccess, ?_⟩, h.outcomes⟩
    rcases hafter with ⟨-, hplaced⟩ | ⟨-, hsame⟩
    · exact Or.inl hplaced
    · exact Or.inr hsame

/-- A step of the threads' queues outside the calls. -/
theorem Inv.of_drain (h : Inv s) {b : ThreadDrain.Act τ (EventData p)}
    {d : ThreadDrain.St τ (EventData p)} (hd : ThreadDrain.step s.drain b = some d)
    (hidle : ∀ t, caller b = some t → s.stage t = .idle) : Inv { s with drain := d } := by
  refine ⟨ThreadDrain.step_inv _ _ _ hd h.drain, fun t => ?_, h.outcomes⟩
  by_cases hb : caller b = some t
  · show StageInv d t (s.stage t)
    rw [hidle t hb]
    trivial
  · exact (h.stage t).frame (step_untouched hd hb)

/-- Every step keeps the invariant, and answers what `Answers` says. -/
theorem step_spec (h : Inv s) (hstep : step s a = some s') :
    Inv s' ∧ Answers s s' (FindsActive s a) := by
  cases a with
  | library b =>
    obtain ⟨-, hs'⟩ := Option.ite_none_right_eq_some.mp hstep
    rcases Option.map_eq_some_iff.mp hs' with ⟨l, -, rfl⟩
    exact ⟨⟨h.drain, h.stage, h.outcomes⟩, Or.inl ⟨trivial, rfl⟩⟩
  | call t c =>
    obtain ⟨-, hs'⟩ := Option.ite_none_right_eq_some.mp hstep
    cases hs'
    refine ⟨⟨h.drain, fun u => ?_, h.outcomes⟩, Or.inl ⟨trivial, rfl⟩⟩
    show StageInv s.drain u (Function.update s.stage t (.threadInstance c.event) u)
    by_cases hut : u = t
    · rw [hut, Function.update_self]
      trivial
    · rw [Function.update_of_ne hut]
      exact h.stage u
  | go t spurious =>
    -- the only step by which a call returns
    have hgoes := go_spec h.drain (h.stage t) hstep
    refine ⟨h.of_answers hgoes.drain (fun u => ?_) hgoes.answers, hgoes.answers⟩
    by_cases hut : u = t
    · rw [hut]
      exact hgoes.stage
    · obtain ⟨hstage, hsame⟩ := hgoes.others u hut
      rw [hstage]
      exact (h.stage u).frame hsame
  | exit t =>
    obtain ⟨hfree, hs'⟩ := Option.ite_none_right_eq_some.mp hstep
    rcases Option.map_eq_some_iff.mp hs' with ⟨d, hd, rfl⟩
    refine ⟨h.of_drain hd ?_, Or.inl ⟨trivial, rfl⟩⟩
    rintro u hu
    cases hu
    exact stage_of_free hfree
  | flush i =>
    obtain ⟨-, hs'⟩ := Option.ite_none_right_eq_some.mp hstep
    rcases Option.map_eq_some_iff.mp hs' with ⟨d, hd, rfl⟩
    refine ⟨h.of_drain hd ?_, Or.inl ⟨trivial, rfl⟩⟩
    intro t ht
    cases ht
  | deque i spurious =>
    obtain ⟨-, hs'⟩ := Option.ite_none_right_eq_some.mp hstep
    rcases Option.map_eq_some_iff.mp hs' with ⟨d, hd, rfl⟩
    refine ⟨h.of_drain hd ?_, Or.inl ⟨trivial, rfl⟩⟩
    intro t ht
    cases ht

/-- Every call returns Success, and it has placed its event once or left the
queue as it was. -/
theorem outcomes_placed {memory : τ → ℕ → EventData p} {acts : List (Act τ A p)}
    (hrun : run step (init memory) acts = some s) :
    ∀ o ∈ s.outcomes, o.result = .success ∧ (o.Placed ∨ o.after = o.before) :=
  (run_invariant step (fun _ _ _ hstep h => (step_spec h hstep).1) (init_inv memory) hrun).outcomes

/-- What the calls of a run return is right, Success for events that have been
placed and otherwise an error, exactly if every load of `_active` in `Enque`
finds the library active. -/
theorem outcomes_right_iff (memory : τ → ℕ → EventData p) (acts : List (Act τ A p))
    (s : St τ A p) (hrun : run step (init memory) acts = some s) :
    (∀ o ∈ s.outcomes, o.Right) ↔ Along step FindsActive (init memory) acts := by
  let Good := fun s : St τ A p => Inv s ∧ ∀ o ∈ s.outcomes, o.Right
  let Bad := fun s : St τ A p => Inv s ∧ ¬ ∀ o ∈ s.outcomes, o.Right
  have hgood : ∀ (s : St τ A p) a s', FindsActive s a → step s a = some s' → Good s →
      Good s' := by
    rintro s a s' hactive hstep ⟨h, hright⟩
    obtain ⟨h', hanswers⟩ := step_spec h hstep
    exact ⟨h', (answers_right hanswers hright).mpr hactive⟩
  have hbreak : ∀ (s : St τ A p) a s', ¬ FindsActive s a → step s a = some s' → Good s →
      Bad s' := by
    rintro s a s' hnot hstep ⟨h, hright⟩
    obtain ⟨h', hanswers⟩ := step_spec h hstep
    exact ⟨h', fun hall => hnot ((answers_right hanswers hright).mp hall)⟩
  -- a wrong result is never taken back
  have hstay : ∀ (s : St τ A p) a s', step s a = some s' → Bad s → Bad s' := by
    rintro s a s' hstep ⟨h, hwrong⟩
    obtain ⟨h', hanswers⟩ := step_spec h hstep
    exact ⟨h', fun hall => hwrong fun o ho => hall o (answers_mono hanswers o ho)⟩
  have hinit : Good (init memory) := by
    refine ⟨init_inv memory, ?_⟩
    intro o ho
    cases ho
  constructor
  · intro hright
    exact along_of_not_bad step Good Bad hgood hbreak hstay hinit hrun fun hbad => hbad.2 hright
  · intro halong
    exact (run_invariant_along step hgood halong hinit hrun).2

end

/-- The library is initialized, and then a thread calls `tick`. -/
theorem outcomes_right_initialized :
    ∃ (s : St ℕ ℕ .eight) (o : Outcome ℕ .eight), run step (init fun _ _ => .none)
      ([.library (.callInitialize 0 (some 1)), .library (.lock 0 false)] ++
        List.replicate 5 (.library (.go 0)) ++ [.call 0 (.tick 7)] ++
        List.replicate 8 (.go 0 false)) = some s ∧
      s.outcomes = [o] ∧ o.after = [.tick 7] ∧ o.Right := by
  let acts : List (Act ℕ ℕ .eight) :=
    [.library (.callInitialize 0 (some 1)), .library (.lock 0 false)] ++
      List.replicate 5 (.library (.go 0)) ++ [.call 0 (.tick 7)] ++ List.replicate 8 (.go 0 false)
  have houtcomes : (run step (init fun _ _ => .none) acts).map (fun s => s.outcomes) =
      some [⟨⟨.tick 7, []⟩, 0, .success, [.tick 7]⟩] := rfl
  rcases Option.map_eq_some_iff.mp houtcomes with ⟨s, hrun, hs⟩
  have halong : Along step FindsActive (init fun _ _ => .none) acts := by decide
  have hright := (outcomes_right_iff _ acts s hrun).mpr halong
  rw [hs] at hright
  exact ⟨s, _, hrun, hs, rfl, hright _ (List.mem_singleton.mpr rfl)⟩

/-- A thread calls `tick` before the library is initialized. -/
theorem outcomes_uninitialized :
    ∃ (s : St ℕ ℕ .eight) (o : Outcome ℕ .eight), run step (init fun _ _ => .none)
      [.call 0 (.tick 7), .go 0 false, .go 0 false, .go 0 false] = some s ∧
      s.outcomes = [o] ∧ o.result = .success ∧ o.after = [] ∧ ¬ o.Right := by
  have houtcomes : (run step (init fun _ _ => .none : St ℕ ℕ .eight)
      [.call 0 (.tick 7), .go 0 false, .go 0 false, .go 0 false]).map (fun s => s.outcomes) =
      some [⟨⟨.tick 7, []⟩, 0, .success, []⟩] := rfl
  rcases Option.map_eq_some_iff.mp houtcomes with ⟨s, hrun, hs⟩
  refine ⟨s, _, hrun, hs, rfl, rfl, fun hright => ?_⟩
  cases hright.success rfl

end Yardstick.EmitEvent
