import Yardstick.QueueInvariant

/-!
# ThreadQueue — the event queue of one ThreadState

A `ThreadState` holds a `ConcurrentQueue<EventData, 512>`. Only the thread itself
enqueues, in `ThreadState::Enque`, and only the background thread dequeues, in
`ProcessThread`; their steps interleave.

* `Owner` and `Background`: what each side knows of the queue, kept by its own
  steps (`owner_go`, `background_go`) and by those of the other
  (`Owner.frame`, `Background.frame`);
* `owner_timely`, `background_timely`: with one thread on each side every step
  is timely, so the queue keeps its invariant in every run.
-/

namespace Yardstick.ThreadQueue

open ConcurrentQueue

variable {E : Type*}

inductive Caller where
  | owner
  | background
deriving DecidableEq, Repr

/-- A queue with its two callers. It has `2 ^ logSize` slots. -/
abbrev Queue (E : Type*) := St Caller E

def logSize : ℕ := 9

/-- The next access is the last of the call, which then returns true. -/
def returned : Pc E → Option E
  | .store _ _ _ out => some out
  | _ => none

/-! ## The two sides -/

/-- What the owner has emitted has been accepted, in order, but for the event it
is emitting until that has its number. The owner only enqueues. -/
def Owner (q : Queue E) (emitting : Option E) (emitted : List E) : Prop :=
  match q.pc .owner with
  | .idle => emitted = q.enqs ++ emitting.toList
  | .load op => ∃ ev, op = .enque ev ∧ emitting = some ev ∧ emitted = q.enqs ++ [ev]
  | .sequence op _ n => ∃ ev, op = .enque ev ∧ emitting = some ev ∧ emitted = q.enqs ++ [ev] ∧
    n = q.enqs.length
  | .exchange op _ _ n => ∃ ev, op = .enque ev ∧ emitting = some ev ∧ emitted = q.enqs ++ [ev] ∧
    n = q.enqs.length
  | .copy op _ _ => ∃ ev, op = .enque ev ∧ emitting = some ev ∧ emitted = q.enqs
  | .store op _ _ _ => ∃ ev, op = .enque ev ∧ emitting = some ev ∧ emitted = q.enqs

/-- What has left the queue has been written, in order, but for the event that
is being dequeued or written. The background thread only dequeues. -/
def Background (q : Queue E) (writing : Option E) (sent : List E) : Prop :=
  match q.pc .background with
  | .idle => sent ++ writing.toList = q.enqs.take q.deqs
  | .load op => op = .deque ∧ sent = q.enqs.take q.deqs
  | .sequence op _ n => op = .deque ∧ sent = q.enqs.take q.deqs ∧ n = q.deqs
  | .exchange op _ _ n => op = .deque ∧ sent = q.enqs.take q.deqs ∧ n = q.deqs
  | .copy op _ n => op = .deque ∧ sent ++ q.enqs[n]?.toList = q.enqs.take q.deqs
  | .store op _ n _ => op = .deque ∧ sent ++ q.enqs[n]?.toList = q.enqs.take q.deqs

/-- The event that is being emitted and has no number yet. -/
def pending (q : Queue E) (emitting : Option E) : List E :=
  match q.pc .owner with
  | .copy _ _ _ => []
  | .store _ _ _ _ => []
  | _ => emitting.toList

/-- The event that has left the queue and is not yet written. -/
def held (q : Queue E) (writing : Option E) : List E :=
  match q.pc .background with
  | .idle => writing.toList
  | .copy _ _ n => q.enqs[n]?.toList
  | .store _ _ n _ => q.enqs[n]?.toList
  | _ => []

/-- What a thread has emitted is in its queue, in order, but for the event it is
still emitting. -/
theorem Owner.accepted {q : Queue E} {emitting : Option E} {emitted : List E}
    (h : Owner q emitting emitted) : emitted = q.enqs ++ pending q emitting := by
  rw [Owner] at h
  rw [pending]
  cases hp : q.pc .owner with
  | idle =>
    rw [hp] at h
    exact h
  -- the event is not in the queue before the claim
  | load op =>
    rw [hp] at h
    rcases h with ⟨ev, -, rfl, hemitted⟩
    exact hemitted
  | sequence op target n =>
    rw [hp] at h
    rcases h with ⟨ev, -, rfl, hemitted, -⟩
    exact hemitted
  | exchange op target id n =>
    rw [hp] at h
    rcases h with ⟨ev, -, rfl, hemitted, -⟩
    exact hemitted
  -- and is from the claim on
  | copy op target n =>
    rw [hp] at h
    rcases h with ⟨ev, -, -, hemitted⟩
    exact hemitted.trans (List.append_nil _).symm
  | store op target n out =>
    rw [hp] at h
    rcases h with ⟨ev, -, -, hemitted⟩
    exact hemitted.trans (List.append_nil _).symm

theorem pending_none (q : Queue E) : pending q none = [] := by
  rw [pending]
  cases q.pc .owner <;> rfl

/-- What has been written of a thread has come out of its queue, in order, but for
the event that is held. -/
theorem Background.taken {q : Queue E} {writing : Option E} {sent : List E}
    (h : Background q writing sent) : sent ++ held q writing = q.enqs.take q.deqs := by
  rw [Background] at h
  rw [held]
  cases hp : q.pc .background with
  | idle =>
    rw [hp] at h
    exact h
  | load op =>
    rw [hp] at h
    exact (List.append_nil _).trans h.2
  | sequence op target n =>
    rw [hp] at h
    exact (List.append_nil _).trans h.2.1
  | exchange op target id n =>
    rw [hp] at h
    exact (List.append_nil _).trans h.2.1
  | copy op target n =>
    rw [hp] at h
    exact h.2
  | store op target n out =>
    rw [hp] at h
    exact h.2

theorem held_of_idle {q : Queue E} (h : q.pc .background = .idle) (writing : Option E) :
    held q writing = writing.toList := by
  rw [held, h]

theorem owner_init (buffer : ℕ → E) : Owner (init buffer) none [] := rfl

theorem background_init (buffer : ℕ → E) : Background (init buffer) none [] := rfl

/-- The owner knows the same of a queue that has the same accepted events. -/
theorem Owner.frame {q q' : Queue E} {emitting : Option E} {emitted : List E}
    (h : Owner q emitting emitted) (hpc : q'.pc .owner = q.pc .owner) (henqs : q'.enqs = q.enqs) :
    Owner q' emitting emitted := by
  rw [Owner, hpc, henqs]
  exact h

/-- The background thread knows the same of a queue that has accepted more. -/
theorem Background.frame {q q' : Queue E} {writing : Option E} {sent : List E}
    (h : Background q writing sent) (hq : Inv logSize q)
    (hpc : q'.pc .background = q.pc .background) (hdeqs : q'.deqs = q.deqs)
    (henqs : q.enqs <+: q'.enqs) : Background q' writing sent := by
  have htakes : q.deqs ≤ q.enqs.length := hq.members.valid.takes_le
  rcases henqs with ⟨rest, hrest⟩
  have htake : q'.enqs.take q'.deqs = q.enqs.take q.deqs := by
    rw [hdeqs, ← hrest, List.take_append_of_le_length htakes]
  -- a value that has been claimed stays where it is
  have hheld : ∀ kind n, (q.pc .background).holding = some (kind, n) →
      q'.enqs[n]? = q.enqs[n]? := by
    intro kind n hn
    have hlt : n < q.enqs.length := (active_of_holding hq hn).1
    rw [← hrest, List.getElem?_append_left hlt]
  rw [Background, hpc, htake, hdeqs]
  rw [Background] at h
  cases hp : q.pc .background with
  -- only from the claim on does the call hold a value
  | copy op target n =>
    rw [hp] at h
    refine ⟨h.1, ?_⟩
    rw [hheld op.kind n (by rw [hp]; rfl)]
    exact h.2
  | store op target n out =>
    rw [hp] at h
    refine ⟨h.1, ?_⟩
    rw [hheld op.kind n (by rw [hp]; rfl)]
    exact h.2
  | _ =>
    rw [hp] at h
    exact h

/-- The slots number between 2 and `2 ^ 30`, and the steps are timely. -/
theorem queue_inv {q q' : Queue E} {a : ConcurrentQueue.Act Caller E} (hq : Inv logSize q)
    (hstep : step logSize q a = some q') (htimely : Timely q a) : Inv logSize q' :=
  step_inv (by decide) (by decide) q a q' htimely hstep hq

/-! ## Steps of the owner -/

section
variable {q q' : Queue E} {emitting : Option E} {emitted : List E} {spurious : Bool}

theorem owner_timely (h : Owner q emitting emitted) : Timely q (.go .owner spurious) := by
  intro op target id n hp _
  rw [Owner, hp] at h
  rcases h with ⟨ev, rfl, -, -, rfl⟩
  change q.enqs.length - q.enqs.length < 2 ^ 30
  omega

/-- A thread that is not emitting is in no call. -/
theorem Owner.idle (h : Owner q none emitted) : q.pc .owner = .idle := by
  rw [Owner] at h
  cases hp : q.pc .owner with
  | idle => rfl
  | _ =>
    rw [hp] at h
    rcases h with ⟨ev, -, hev, -⟩
    cases hev

/-- `Enque` is called with an event. -/
theorem Owner.emit (h : Owner q none emitted) (ev : E) :
    Owner q (some ev) (emitted ++ [ev]) := by
  have hidle := h.idle
  rw [Owner, hidle] at h ⊢
  rw [h]
  exact congrArg (fun l => l ++ [ev]) (List.append_nil _)

/-- `TryEnque` is called with the event. -/
theorem owner_call {ev : E} (h : Owner q (some ev) emitted)
    (hstep : step logSize q (.call .owner (.enque ev)) = some q') :
    Owner q' (some ev) emitted ∧ q'.pc .background = q.pc .background ∧ q'.deqs = q.deqs ∧
      q.enqs <+: q'.enqs := by
  rcases call_cases hstep with ⟨hp, rfl⟩
  rw [Owner, hp] at h
  exact ⟨⟨ev, rfl, rfl, h⟩, rfl, rfl, List.prefix_refl _⟩

/-- What an access of the owner keeps: its own view, and what the background
thread can see. When `TryEnque` returns true the event is emitted. -/
theorem owner_go (h : Owner q emitting emitted)
    (hstep : step logSize q (.go .owner spurious) = some q') :
    Owner q' (if (returned (q.pc .owner)).isSome then none else emitting) emitted ∧
      q'.pc .background = q.pc .background ∧ q'.deqs = q.deqs ∧ q.enqs <+: q'.enqs := by
  rw [Owner] at h
  rcases go_cases hstep with ⟨op, hp, rfl⟩ | ⟨op, target, n, hp, rfl⟩ |
    ⟨op, target, id, n, hp, rfl⟩ | ⟨op, target, n, hp, rfl⟩ | ⟨op, target, n, out, hp, rfl⟩
  · -- the load of the counter
    rw [hp] at h ⊢
    rcases h with ⟨ev, rfl, rfl, hemitted⟩
    exact ⟨⟨ev, rfl, rfl, hemitted, rfl⟩, rfl, rfl, List.prefix_refl _⟩
  · -- the load of the sequence number
    rw [hp] at h ⊢
    exact ⟨h, rfl, rfl, List.prefix_refl _⟩
  · -- the compare-exchange
    rw [hp] at h ⊢
    rcases h with ⟨ev, rfl, rfl, hemitted, rfl⟩
    rcases exchange_cases q .owner (.enque ev) target id spurious with
      ⟨_, _, _, heq⟩ | ⟨_, heq⟩ | ⟨_, heq, _⟩
    · -- the event has its number
      rw [heq]
      exact ⟨⟨ev, rfl, rfl, hemitted⟩, rfl, rfl, List.prefix_append ..⟩
    · -- `TryEnque` returns false
      rw [heq]
      exact ⟨hemitted, rfl, rfl, List.prefix_refl _⟩
    · -- it goes round its loop
      rw [heq]
      exact ⟨⟨ev, rfl, rfl, hemitted⟩, rfl, rfl, List.prefix_refl _⟩
  · -- the copy
    rw [hp] at h ⊢
    rcases h with ⟨ev, rfl, rfl, hemitted⟩
    exact ⟨⟨ev, rfl, rfl, hemitted⟩, rfl, rfl, List.prefix_refl _⟩
  · -- the store of the sequence number
    rw [hp] at h ⊢
    rcases h with ⟨ev, rfl, rfl, hemitted⟩
    exact ⟨hemitted.trans (List.append_nil _).symm, rfl, rfl, List.prefix_refl _⟩

end

/-! ## Steps of the background thread -/

section
variable {q q' : Queue E} {sent : List E} {spurious : Bool}

theorem background_timely {writing : Option E} (h : Background q writing sent) :
    Timely q (.go .background spurious) := by
  intro op target id n hp _
  rw [Background, hp] at h
  rcases h with ⟨rfl, -, rfl⟩
  change q.deqs - q.deqs < 2 ^ 30
  omega

/-- `TryDeque` is called. -/
theorem background_call (h : Background q none sent)
    (hstep : step logSize q (.call .background .deque) = some q') :
    Background q' none sent ∧ q'.pc .owner = q.pc .owner ∧ q'.enqs = q.enqs := by
  rcases call_cases hstep with ⟨hp, rfl⟩
  rw [Background, hp] at h
  exact ⟨⟨rfl, (List.append_nil _).symm.trans h⟩, rfl, rfl⟩

/-- What an access of the background thread keeps. When `TryDeque` returns true
the event is to be written. -/
theorem background_go (h : Background q none sent) (hq : Inv logSize q)
    (hstep : step logSize q (.go .background spurious) = some q') :
    Background q' (returned (q.pc .background)) sent ∧
      q'.pc .owner = q.pc .owner ∧ q'.enqs = q.enqs ∧
      (∀ ev, returned (q.pc .background) = some ev → q'.pc .background = .idle) := by
  have hpc := hq.threads.pcs .background
  have hnone : ∀ {q' : Queue E} (ev : E), none = some ev → q'.pc .background = .idle := by
    intro q' ev hev
    cases hev
  rw [Background] at h
  rcases go_cases hstep with ⟨op, hp, rfl⟩ | ⟨op, target, n, hp, rfl⟩ |
    ⟨op, target, id, n, hp, rfl⟩ | ⟨op, target, n, hp, rfl⟩ | ⟨op, target, n, out, hp, rfl⟩
  · -- the load of the counter
    rw [hp] at h ⊢
    rcases h with ⟨rfl, hsent⟩
    exact ⟨⟨rfl, hsent, rfl⟩, rfl, rfl, hnone⟩
  · -- the load of the sequence number
    rw [hp] at h ⊢
    exact ⟨h, rfl, rfl, hnone⟩
  · -- the compare-exchange
    rw [hp] at h ⊢
    rcases h with ⟨rfl, hsent, rfl⟩
    rcases exchange_cases q .background .deque target id spurious with
      ⟨_, _, _, heq⟩ | ⟨_, heq⟩ | ⟨_, heq, _⟩
    · -- the next event has left the queue
      rw [heq]
      refine ⟨⟨rfl, ?_⟩, rfl, rfl, hnone⟩
      change sent ++ q.enqs[q.deqs]?.toList = q.enqs.take (q.deqs + 1)
      rw [List.take_add_one, hsent]
    · -- `TryDeque` returns false
      rw [heq]
      exact ⟨(List.append_nil _).trans hsent, rfl, rfl, hnone⟩
    · -- it goes round its loop
      rw [heq]
      exact ⟨⟨rfl, hsent⟩, rfl, rfl, hnone⟩
  · -- the copy
    rw [hp] at h ⊢
    rcases h with ⟨rfl, hsent⟩
    exact ⟨⟨rfl, hsent⟩, rfl, rfl, hnone⟩
  · -- the store of the sequence number
    rw [hp] at h hpc ⊢
    rcases h with ⟨rfl, hsent⟩
    -- the value copied is the event with number `n`
    refine ⟨?_, rfl, rfl, fun _ _ => rfl⟩
    have hout : q.enqs[n]? = some out := hpc.2.2.1
    rw [hout] at hsent
    exact hsent

end

end Yardstick.ThreadQueue
