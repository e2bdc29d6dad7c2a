import Yardstick.Base.Guarded
import Yardstick.Base.Runs
import Yardstick.Protocol

/-!
# Lifecycle — Initialize, Shutdown and the background thread

Any number of threads call `Initialize` and `Shutdown`; every atomic access,
lock operation, start and join of theirs is a step of its own, and so is every
test of the loop of the background thread. Thread creation succeeds.

`Initialize` looks at `_active` before it takes `_stateLock` and not again
after; `Shutdown` looks at it under the lock.

* `critical_phase`: what the holder of the lock knows from step to step;
* `lifecycle_safe`: activation, background thread and allocator come and go
  together, and there is never a second background thread.
-/

namespace Yardstick.Lifecycle

open Protocol Runs

variable {τ A : Type*}

/-! ## The library -/

/-- Where a background thread is: at the test of its loop, in the body, behind
the loop; or it has been joined. -/
inductive Background where
  | notStarted
  | loop
  | body
  | left
  | joined
deriving DecidableEq, Repr

/-- Started and not joined. -/
def Background.Exists (b : Background) : Prop := b ≠ .notStarted ∧ b ≠ .joined

/-- Started and still in its loop. -/
def Background.Running (b : Background) : Prop := b = .loop ∨ b = .body

/-- The members of `GlobalState` but its locks, and the background threads in
the order in which they were started. `_backgroundThread` is joinable when it
has a thread; `ready` is the flag of `_signal`. -/
structure Globals (A : Type*) where
  active : Bool
  allocator : Option A
  backgroundThread : Option ℕ
  ready : Bool
  threads : ℕ → Background
  started : ℕ

/-- What a call has returned. -/
inductive Return where
  | initialized (result : YsResult)
  | shutDown (result : YsResult)
deriving DecidableEq, Repr

/-- Where a calling thread is: the next access it makes. -/
inductive Pc (A : Type*) where
  | idle
  /-- `Initialize` has found `_active` false and waits for the lock. -/
  | initializing (alloc : A)
  | setAllocator (alloc : A)
  | activate
  | testJoinable
  | start
  | started
  /-- `Shutdown` waits for the lock. -/
  | shuttingDown
  | testActive
  | uninitialized
  | deactivate
  | testJoinable'
  | post
  | join
  | clearAllocator
  | stopped

/-- Within the scope of the `LockGuard`. -/
def Pc.holds : Pc A → Bool
  | .idle => false
  | .initializing _ => false
  | .shuttingDown => false
  | _ => true

/-- The members, `_stateLock`, the calling threads, and what has been returned,
newest first. -/
structure St (τ A : Type*) where
  globals : Globals A
  stateLock : Bool
  pc : τ → Pc A
  returned : List Return

/-- The static instance, before any call. -/
def init : St τ A :=
  { globals :=
      { active := false, allocator := none, backgroundThread := none, ready := false
        threads := fun _ => .notStarted, started := 0 }
    stateLock := false, pc := fun _ => .idle, returned := [] }

/-! ## Steps -/

/-- `_backgroundThread = std::thread(...)`. -/
def Globals.startThread (g : Globals A) : Globals A :=
  { g with
    backgroundThread := some g.started, started := g.started + 1
    threads := Function.update g.threads g.started .loop }

/-- `_backgroundThread.join()`, which waits until the thread has ended. -/
def Globals.join (g : Globals A) : Option (Globals A) :=
  match g.backgroundThread with
  | some i =>
    if g.threads i = .left then
      some { g with backgroundThread := none, threads := Function.update g.threads i .joined }
    else none
  | none => none

/-- The next access under the lock: it leads on, or to a return. -/
def critical (g : Globals A) : Pc A → Option (Globals A × (Pc A ⊕ Return))
  -- Initialize
  | .setAllocator alloc => some ({ g with allocator := some alloc }, .inl .activate)
  | .activate => some ({ g with active := true }, .inl .testJoinable)
  | .testJoinable => some (g, .inl (if g.backgroundThread = none then .start else .started))
  | .start => some (g.startThread, .inl .started)
  | .started => some (g, .inr (.initialized .success))
  -- Shutdown
  | .testActive => some (g, .inl (if g.active then .deactivate else .uninitialized))
  | .uninitialized => some (g, .inr (.shutDown .uninitialized))
  | .deactivate => some ({ g with active := false }, .inl .testJoinable')
  | .testJoinable' => some (g, .inl (if g.backgroundThread = none then .clearAllocator else .post))
  | .post => some ({ g with ready := true }, .inl .join)
  | .join => g.join.map fun g => (g, .inl .clearAllocator)
  | .clearAllocator => some ({ g with allocator := none }, .inl .stopped)
  | .stopped => some (g, .inr (.shutDown .success))
  -- not under the lock
  | .idle => none
  | .initializing _ => none
  | .shuttingDown => none

/-- The next step of `ThreadMain`: the test of the loop, or its body. -/
def background (g : Globals A) (i : ℕ) : Option (Globals A) :=
  match g.threads i with
  | .loop =>
    some { g with threads := Function.update g.threads i (if g.active then .body else .left) }
  | .body => some { g with ready := false, threads := Function.update g.threads i .loop }
  | _ => none

/-- An idle thread calls; a waiting thread tries the compare-exchange of `Lock`,
which may fail for no reason; a thread goes on under the lock; a background
thread makes a step. -/
inductive Act (τ A : Type*) where
  | callInitialize (t : τ) (alloc : Option A)
  | callShutdown (t : τ)
  | lock (t : τ) (spurious : Bool)
  | go (t : τ)
  | background (i : ℕ)

section
variable [DecidableEq τ]

def goto (s : St τ A) (t : τ) (pc : Pc A) : St τ A :=
  { s with pc := Function.update s.pc t pc }

def ret (s : St τ A) (t : τ) (r : Return) : St τ A :=
  { goto s t .idle with returned := r :: s.returned }

/-- The thread goes on under the lock, or leaves the scope of the guard and
returns. -/
def resume (s : St τ A) (t : τ) (g : Globals A) : Pc A ⊕ Return → St τ A
  | .inl pc => { goto s t pc with globals := g }
  | .inr r => { ret s t r with globals := g, stateLock := false }

/-- `Initialize` up to the lock. -/
def testInactive (s : St τ A) (t : τ) (alloc : Option A) : St τ A :=
  if s.globals.active then ret s t (.initialized .alreadyInitialized)
  else
    match alloc with
    | none => ret s t (.initialized .invalidParameter)
    | some alloc => goto s t (.initializing alloc)

def step (s : St τ A) : Act τ A → Option (St τ A)
  | .callInitialize t alloc =>
    match s.pc t with
    | .idle => some (testInactive s t alloc)
    | _ => none
  | .callShutdown t =>
    match s.pc t with
    | .idle => some (goto s t .shuttingDown)
    | _ => none
  | .lock t spurious =>
    match s.pc t with
    | .initializing alloc =>
      some (if s.stateLock ∨ spurious then s
        else { goto s t (.setAllocator alloc) with stateLock := true })
    | .shuttingDown =>
      some (if s.stateLock ∨ spurious then s else { goto s t .testActive with stateLock := true })
    | _ => none
  | .go t => (critical s.globals (s.pc t)).map fun (g, next) => resume s t g next
  | .background i => (background s.globals i).map fun g => { s with globals := g }

end

/-! ## What is known where -/

/-- The library is active with everything it needs, or stopped with nothing. -/
structure Settled (g : Globals A) : Prop where
  joinable : g.active = true ↔ g.backgroundThread ≠ none
  allocator : g.active = true ↔ g.allocator ≠ none

/-- What the holder of the lock knows at each of its accesses. -/
def Phase : Pc A → Globals A → Prop
  | .setAllocator _, g => Settled g
  | .activate, g => g.allocator ≠ none ∧ (g.active = true ↔ g.backgroundThread ≠ none)
  | .testJoinable, g => g.allocator ≠ none ∧ g.active = true
  | .start, g => g.allocator ≠ none ∧ g.active = true ∧ g.backgroundThread = none
  | .started, g => g.allocator ≠ none ∧ g.active = true ∧ g.backgroundThread ≠ none
  | .testActive, g => Settled g
  | .uninitialized, g => Settled g
  | .deactivate, g => Settled g
  | .testJoinable', g => g.active = false
  | .post, g => g.active = false
  | .join, g => g.active = false
  | .clearAllocator, g => g.active = false ∧ g.backgroundThread = none
  | .stopped, g => g.active = false ∧ g.backgroundThread = none ∧ g.allocator = none
  | _, _ => True

/-- The background thread there is is the one `_backgroundThread` has, and it is
behind its loop only while the library is not active. -/
structure Threads (g : Globals A) : Prop where
  exists_iff : ∀ i, (g.threads i).Exists ↔ g.backgroundThread = some i
  left : ∀ i, g.threads i = .left → g.active = false
  notStarted : ∀ i, g.started ≤ i → g.threads i = .notStarted

/-- `_stateLock` as a discipline. -/
def activation : Guarded.Discipline (Pc A) (Globals A × List Return) where
  holds := Pc.holds
  Phase := fun pc view => Phase pc view.1
  Settled := fun view => Settled view.1

/-- What a discipline of `_stateLock` may speak of. -/
def St.view (s : St τ A) : Globals A × List Return := (s.globals, s.returned)

structure Inv (s : St τ A) : Prop where
  guarded : Guarded.Inv activation s.stateLock s.view s.pc
  threads : Threads s.globals

/-! ## The critical sections -/

/-- No thread has left its loop where an activation may come. -/
theorem Threads.not_left {g : Globals A} (h : Threads g)
    (hjoinable : g.active = true ↔ g.backgroundThread ≠ none) (i : ℕ) : g.threads i ≠ .left := by
  intro hleft
  have hhandle : g.backgroundThread = some i :=
    (h.exists_iff i).mp (by simp [hleft, Background.Exists])
  have hactive : g.active = true := hjoinable.mpr (by simp [hhandle])
  rw [h.left i hleft] at hactive
  cases hactive

/-- `startThread` keeps what is known of the threads, if none is held. -/
theorem startThread_threads {g : Globals A} (h : Threads g) (hnone : g.backgroundThread = none) :
    Threads g.startThread := by
  have hnew : ∀ i, i ≠ g.started → g.startThread.threads i = g.threads i := fun i hi =>
    Function.update_of_ne hi _ _
  have hstarted : g.startThread.threads g.started = .loop := Function.update_self ..
  refine ⟨fun i => ?_, fun i hi => ?_, fun i hi => ?_⟩
  · by_cases hi : i = g.started
    · subst hi
      simp [Background.Exists, Globals.startThread]
    · -- there was no thread before
      rw [hnew i hi, h.exists_iff, hnone]
      simp [Globals.startThread, Ne.symm hi]
  · by_cases his : i = g.started
    · subst his
      rw [hstarted] at hi
      cases hi
    · rw [hnew i his] at hi
      exact h.left i hi
  · have hi' : g.started + 1 ≤ i := hi
    rw [hnew i (by omega)]
    exact h.notStarted i (by omega)

/-- Joining the background thread leaves `_active` and the allocator alone. -/
theorem join_same {g g' : Globals A} (h : g.join = some g') :
    g'.active = g.active ∧ g'.allocator = g.allocator ∧ g'.backgroundThread = none := by
  unfold Globals.join at h
  split at h
  · split at h
    · cases h
      exact ⟨rfl, rfl, rfl⟩
    · cases h
  · cases h

/-- `join` waits for a thread that is over, and then none is held. -/
theorem join_threads {g g' : Globals A} (h : Threads g) (hjoin : g.join = some g') :
    Threads g' := by
  unfold Globals.join at hjoin
  split at hjoin
  · rename_i i hi
    split at hjoin
    · -- the thread joined is over, and the others there never were
      cases hjoin
      refine ⟨fun j => ?_, fun j hj => ?_, fun j hj => ?_⟩
      · by_cases hji : j = i
        · subst hji
          simp [Background.Exists]
        · have hne : some i ≠ some j := fun heq => hji (Option.some.inj heq).symm
          have hexists := h.exists_iff j
          rw [hi] at hexists
          simp [Function.update_of_ne hji, hexists, hne]
      · by_cases hji : j = i
        · subst hji
          simp at hj
        · simp only [Function.update_of_ne hji] at hj
          exact h.left j hj
      · -- a thread that has not started is not the one joined
        have hji : j ≠ i := by
          rintro rfl
          have hexists := (h.exists_iff j).mpr hi
          exact hexists.1 (h.notStarted j hj)
        simp only [Function.update_of_ne hji]
        exact h.notStarted j hj
    · cases hjoin
  · cases hjoin

/-- Where an access under the lock leads to. -/
def Leads (g : Globals A) : Pc A ⊕ Return → Prop
  | .inl pc => pc.holds = true ∧ Phase pc g
  | .inr _ => Settled g

/-- Each step inside the lock keeps what is known of the threads and leads to a
point whose own condition holds. -/
theorem critical_phase {g g' : Globals A} {pc : Pc A} {next : Pc A ⊕ Return}
    (h : critical g pc = some (g', next)) (hphase : Phase pc g) (hthreads : Threads g) :
    Threads g' ∧ Leads g' next := by
  cases pc with
  | idle => cases h
  | initializing alloc => cases h
  | shuttingDown => cases h
  | setAllocator alloc =>
    cases h
    refine ⟨⟨hthreads.exists_iff, hthreads.left, hthreads.notStarted⟩, rfl, by simp, ?_⟩
    exact hphase.joinable
  | activate =>
    cases h
    -- a thread behind its loop would still be there to join, and the library active
    refine ⟨⟨hthreads.exists_iff, fun i hi => ?_, hthreads.notStarted⟩, rfl, hphase.1, rfl⟩
    exact absurd hi (hthreads.not_left hphase.2 i)
  | testJoinable =>
    cases h
    refine ⟨hthreads, ?_⟩
    split
    · rename_i hnone
      exact ⟨rfl, hphase.1, hphase.2, hnone⟩
    · rename_i hsome
      exact ⟨rfl, hphase.1, hphase.2, hsome⟩
  | start =>
    cases h
    refine ⟨startThread_threads hthreads hphase.2.2, rfl, hphase.1, hphase.2.1, ?_⟩
    simp [Globals.startThread]
  | started =>
    cases h
    refine ⟨hthreads, ?_, ?_⟩
    · exact iff_of_true hphase.2.1 hphase.2.2
    · exact iff_of_true hphase.2.1 hphase.1
  | testActive =>
    cases h
    refine ⟨hthreads, ?_⟩
    split
    · exact ⟨rfl, hphase⟩
    · exact ⟨rfl, hphase⟩
  | uninitialized =>
    cases h
    exact ⟨hthreads, hphase⟩
  | deactivate =>
    cases h
    exact ⟨⟨hthreads.exists_iff, fun _ _ => rfl, hthreads.notStarted⟩, rfl, rfl⟩
  | testJoinable' =>
    cases h
    refine ⟨hthreads, ?_⟩
    split
    · rename_i hnone
      exact ⟨rfl, hphase, hnone⟩
    · exact ⟨rfl, hphase⟩
  | post =>
    cases h
    exact ⟨⟨hthreads.exists_iff, hthreads.left, hthreads.notStarted⟩, rfl, hphase⟩
  | join =>
    rcases Option.map_eq_some_iff.mp h with ⟨g1, hjoin, heq⟩
    cases heq
    -- the thread joined is gone
    rcases join_same hjoin with ⟨hactive, -, hnone⟩
    exact ⟨join_threads hthreads hjoin, rfl, hactive.trans hphase, hnone⟩
  | clearAllocator =>
    cases h
    exact ⟨⟨hthreads.exists_iff, hthreads.left, hthreads.notStarted⟩, rfl, hphase.1, hphase.2, rfl⟩
  | stopped =>
    cases h
    refine ⟨hthreads, ?_, ?_⟩
    · simp [hphase.1, hphase.2.1]
    · simp [hphase.1, hphase.2.2]

/-! ## The background thread -/

/-- So does a step of the background thread. -/
theorem background_same {g g' : Globals A} {i : ℕ} (h : background g i = some g') :
    g'.active = g.active ∧ g'.allocator = g.allocator ∧
      g'.backgroundThread = g.backgroundThread := by
  unfold background at h
  split at h
  · cases h
    exact ⟨rfl, rfl, rfl⟩
  · cases h
    exact ⟨rfl, rfl, rfl⟩
  · cases h

/-- It leaves its loop only while the library is not active. -/
theorem background_threads {g g' : Globals A} {i : ℕ} (h : background g i = some g')
    (hthreads : Threads g) : Threads g' := by
  have hupdate : ∀ b : Background, b.Exists → (g.threads i).Exists →
      (b = .left → g.active = false) → ∀ ready,
      Threads { g with ready := ready, threads := Function.update g.threads i b } := by
    intro b hb hi hleft ready
    refine ⟨fun j => ?_, fun j hj => ?_, fun j hj => ?_⟩
    · by_cases hji : j = i
      · subst hji
        simp only [Function.update_self]
        exact iff_of_true hb ((hthreads.exists_iff j).mp hi)
      · simp only [Function.update_of_ne hji]
        exact hthreads.exists_iff j
    · by_cases hji : j = i
      · subst hji
        exact hleft (by simpa using hj)
      · simp only [Function.update_of_ne hji] at hj
        exact hthreads.left j hj
    · have hji : j ≠ i := by
        rintro rfl
        exact hi.1 (hthreads.notStarted j hj)
      simp only [Function.update_of_ne hji]
      exact hthreads.notStarted j hj
  unfold background at h
  split at h
  · -- the test of the loop
    rename_i hi
    cases h
    refine hupdate _ ?_ (by simp [hi, Background.Exists]) ?_ g.ready
    · split <;> simp [Background.Exists]
    · intro hleft
      cases hactive : g.active with
      | false => rfl
      | true => simp [hactive] at hleft
  · -- its body
    rename_i hi
    cases h
    refine hupdate _ ?_ (by simp [hi, Background.Exists]) (by simp) false
    simp [Background.Exists]
  · cases h

/-! ## Steps -/

section
variable [DecidableEq τ]

/-- What a step does: a call begins, a lock is tried or taken, a step inside the
lock, or one of a background thread. -/
theorem step_cases {s s' : St τ A} {act : Act τ A} (h : step s act = some s') :
    (∃ t alloc, act = .callInitialize t alloc ∧ s.pc t = .idle ∧ s' = testInactive s t alloc) ∨
    (∃ t, act = .callShutdown t ∧ s.pc t = .idle ∧ s' = goto s t .shuttingDown) ∨
    (∃ t spurious, act = .lock t spurious ∧ s' = s) ∨
    (∃ t alloc, act = .lock t false ∧ s.pc t = .initializing alloc ∧ s.stateLock = false ∧
      s' = { goto s t (.setAllocator alloc) with stateLock := true }) ∨
    (∃ t, act = .lock t false ∧ s.pc t = .shuttingDown ∧ s.stateLock = false ∧
      s' = { goto s t .testActive with stateLock := true }) ∨
    (∃ t g next, act = .go t ∧ critical s.globals (s.pc t) = some (g, next) ∧
      s' = resume s t g next) ∨
    (∃ i g, act = .background i ∧ background s.globals i = some g ∧
      s' = { s with globals := g }) := by
  cases act with
  | callInitialize t alloc =>
    simp only [step] at h
    split at h
    · rename_i hpc
      exact Or.inl ⟨t, alloc, rfl, hpc, (Option.some.inj h).symm⟩
    · cases h
  | callShutdown t =>
    simp only [step] at h
    split at h
    · rename_i hpc
      exact Or.inr (Or.inl ⟨t, rfl, hpc, (Option.some.inj h).symm⟩)
    · cases h
  | lock t spurious =>
    right
    right
    simp only [step] at h
    -- the two calls try the lock with the same outcomes: it is held or the exchange
    -- fails, or it is taken
    split at h
    · rename_i alloc hpc
      split at h
      · exact Or.inl ⟨t, spurious, rfl, (Option.some.inj h).symm⟩
      · rename_i hfree
        rw [not_or, Bool.not_eq_true, Bool.not_eq_true] at hfree
        right
        left
        exact ⟨t, alloc, by rw [hfree.2], hpc, hfree.1, (Option.some.inj h).symm⟩
    · rename_i hpc
      split at h
      · exact Or.inl ⟨t, spurious, rfl, (Option.some.inj h).symm⟩
      · rename_i hfree
        rw [not_or, Bool.not_eq_true, Bool.not_eq_true] at hfree
        right
        right
        left
        exact ⟨t, by rw [hfree.2], hpc, hfree.1, (Option.some.inj h).symm⟩
    · cases h
  | go t =>
    rcases Option.map_eq_some_iff.mp h with ⟨⟨g, next⟩, hcritical, rfl⟩
    right
    right
    right
    right
    right
    left
    exact ⟨t, g, next, rfl, hcritical, rfl⟩
  | background i =>
    rcases Option.map_eq_some_iff.mp h with ⟨g, hbackground, rfl⟩
    right
    right
    right
    right
    right
    right
    exact ⟨i, g, rfl, hbackground, rfl⟩

/-- A call up to the lock moves its thread and nothing else, but for the list of
returns. -/
theorem testInactive_cases (s : St τ A) (t : τ) (alloc : Option A) :
    (∃ pc, pc.holds = false ∧ testInactive s t alloc = goto s t pc ∧
      s.globals.active = false) ∨
    (∃ r, testInactive s t alloc = ret s t (.initialized r) ∧
      (s.globals.active = true ∧ r = .alreadyInitialized ∨
        s.globals.active = false ∧ r = .invalidParameter)) := by
  unfold testInactive
  split
  · rename_i hactive
    exact Or.inr ⟨_, rfl, Or.inl ⟨hactive, rfl⟩⟩
  · rename_i hinactive
    rw [Bool.not_eq_true] at hinactive
    cases alloc with
    | none => exact Or.inr ⟨_, rfl, Or.inr ⟨hinactive, rfl⟩⟩
    | some alloc => exact Or.inl ⟨.initializing alloc, rfl, rfl, hinactive⟩

omit [DecidableEq τ] in
theorem critical_holds {g g' : Globals A} {pc : Pc A} {next : Pc A ⊕ Return}
    (h : critical g pc = some (g', next)) : pc.holds = true := by
  cases pc <;> first | rfl | cases h

/-- Under the lock a call goes on under the lock, unless it returns. -/
theorem critical_inl {g g' : Globals A} {pc pc' : Pc A}
    (h : critical g pc = some (g', .inl pc')) : pc'.holds = true := by
  cases pc with
  | testJoinable =>
    cases h
    split <;> rfl
  | testActive =>
    cases h
    split <;> rfl
  | testJoinable' =>
    cases h
    split <;> rfl
  | join =>
    rcases Option.map_eq_some_iff.mp h with ⟨g₁, -, heq⟩
    cases heq
    rfl
  | setAllocator alloc =>
    cases h
    rfl
  | activate =>
    cases h
    rfl
  | start =>
    cases h
    rfl
  | deactivate =>
    cases h
    rfl
  | post =>
    cases h
    rfl
  | clearAllocator =>
    cases h
    rfl
  | _ => cases h

/-- A discipline of `_stateLock` is obeyed if the critical sections obey it, the
calls that return before the lock do not matter to it, and neither do the steps
of a background thread. -/
theorem guarded_step {D : Guarded.Discipline (Pc A) (Globals A × List Return)}
    (hholds : D.holds = Pc.holds) {s s' : St τ A} {act : Act τ A} (h : step s act = some s')
    (hinv : Guarded.Inv D s.stateLock s.view s.pc)
    (hcritical : ∀ t g, D.Phase (s.pc t) s.view →
      (∀ pc, critical s.globals (s.pc t) = some (g, .inl pc) →
        pc.holds = true ∧ D.Phase pc (g, s.returned)) ∧
      ∀ r, critical s.globals (s.pc t) = some (g, .inr r) → D.Settled (g, r :: s.returned))
    (hlock : D.Settled s.view → D.Phase .testActive s.view ∧
      ∀ t alloc, act = .lock t false → s.pc t = .initializing alloc → s.stateLock = false →
        D.Phase (.setAllocator alloc) s.view)
    (hreturn : ∀ r, r = .alreadyInitialized ∨ r = .invalidParameter →
      (∀ pc, D.Phase pc s.view → D.Phase pc (s.globals, .initialized r :: s.returned)) ∧
      (D.Settled s.view → D.Settled (s.globals, .initialized r :: s.returned)))
    (hbackground : ∀ i g, background s.globals i = some g →
      (∀ pc, D.Phase pc s.view → D.Phase pc (g, s.returned)) ∧
      (D.Settled s.view → D.Settled (g, s.returned))) :
    Guarded.Inv D s'.stateLock s'.view s'.pc := by
  have hnot : ∀ pc : Pc A, pc.holds = false → D.holds pc = false := by
    intro pc hpc
    rw [hholds]
    exact hpc
  have hdoes : ∀ pc : Pc A, pc.holds = true → D.holds pc = true := by
    intro pc hpc
    rw [hholds]
    exact hpc
  rcases step_cases h with ⟨t, alloc, rfl, hpc, rfl⟩ | ⟨t, rfl, hpc, rfl⟩ |
    ⟨t, spurious, rfl, rfl⟩ | ⟨t, alloc, rfl, hpc, hfree, rfl⟩ | ⟨t, rfl, hpc, hfree, rfl⟩ |
    ⟨t, g, next, rfl, hnext, rfl⟩ | ⟨i, g, rfl, hthread, rfl⟩
  · -- Initialize up to the lock
    have hidle : D.holds (s.pc t) = false := hnot _ (by rw [hpc]; rfl)
    rcases testInactive_cases s t alloc with ⟨pc, hpc', heq, -⟩ | ⟨r, heq, hr⟩
    · rw [heq]
      exact hinv.elsewhere hidle (hnot _ hpc')
    · rw [heq]
      have hkeep := hreturn r (hr.imp And.right And.right)
      exact (hinv.elsewhere hidle (hnot _ rfl)).change hkeep.1 hkeep.2
  · -- Shutdown up to the lock
    exact hinv.elsewhere (hnot _ (by rw [hpc]; rfl)) (hnot _ rfl)
  · -- a compare-exchange that fails
    exact hinv
  · -- Initialize takes the lock
    have hphase := (hlock (hinv.settled hfree)).2 t alloc rfl hpc hfree
    exact hinv.advance (Or.inr hfree) (hdoes _ rfl) hphase
  · -- Shutdown takes the lock
    exact hinv.advance (Or.inr hfree) (hdoes _ rfl) (hlock (hinv.settled hfree)).1
  · -- a step under the lock
    have hheld := hdoes _ (critical_holds hnext)
    have hpost := hcritical t g (hinv.phase t hheld)
    cases next with
    | inl pc =>
      have hlocked : s.stateLock = true := hinv.locked.mpr ⟨t, hheld⟩
      have hgo := hpost.1 pc hnext
      show Guarded.Inv D s.stateLock _ _
      rw [hlocked]
      exact hinv.advance (Or.inl hheld) (hdoes _ hgo.1) hgo.2
    | inr r => exact hinv.release hheld (hnot _ rfl) (hpost.2 r hnext)
  · -- a step of a background thread
    have hkeep := hbackground i g hthread
    exact hinv.change hkeep.1 hkeep.2

/-- Every step keeps what is known of the threads. -/
theorem step_threads {s s' : St τ A} {act : Act τ A} (h : step s act = some s') (hinv : Inv s) :
    Threads s'.globals := by
  rcases step_cases h with ⟨t, alloc, rfl, -, rfl⟩ | ⟨t, rfl, -, rfl⟩ | ⟨t, spurious, rfl, rfl⟩ |
    ⟨t, alloc, rfl, -, -, rfl⟩ | ⟨t, rfl, -, -, rfl⟩ | ⟨t, g, next, rfl, hnext, rfl⟩ |
    ⟨i, g, rfl, hthread, rfl⟩
  · -- Initialize up to the lock
    rcases testInactive_cases s t alloc with ⟨pc, -, heq, -⟩ | ⟨r, heq, -⟩
    · rw [heq]
      exact hinv.threads
    · rw [heq]
      exact hinv.threads
  · -- Shutdown up to the lock
    exact hinv.threads
  · -- a compare-exchange that fails
    exact hinv.threads
  · -- Initialize takes the lock
    exact hinv.threads
  · -- Shutdown takes the lock
    exact hinv.threads
  · -- a step under the lock
    have hphase := hinv.guarded.phase t (critical_holds hnext)
    have hthreads := (critical_phase hnext hphase hinv.threads).1
    cases next with
    | inl pc => exact hthreads
    | inr r => exact hthreads
  · -- a step of a background thread
    exact background_threads hthread hinv.threads

/-- What is known at an access does not speak of the loop of the background
thread. -/
theorem phase_congr {g g' : Globals A} (hactive : g'.active = g.active)
    (hallocator : g'.allocator = g.allocator) (hhandle : g'.backgroundThread = g.backgroundThread) :
    (∀ pc, Phase pc g → Phase pc g') ∧ (Settled g → Settled g') := by
  have hsettled : Settled g → Settled g' := by
    rintro ⟨hj, ha⟩
    constructor
    · rw [hactive, hhandle]
      exact hj
    · rw [hactive, hallocator]
      exact ha
  refine ⟨fun pc hpc => ?_, hsettled⟩
  cases pc with
  | setAllocator alloc => exact hsettled hpc
  | testActive => exact hsettled hpc
  | uninitialized => exact hsettled hpc
  | deactivate => exact hsettled hpc
  | idle => trivial
  | initializing alloc => trivial
  | shuttingDown => trivial
  | _ => simpa only [Phase, hactive, hallocator, hhandle] using hpc

/-- Every step keeps the invariant. -/
theorem step_inv {s s' : St τ A} {act : Act τ A} (h : step s act = some s') (hinv : Inv s) :
    Inv s' := by
  refine ⟨guarded_step rfl h hinv.guarded ?_ ?_ ?_ ?_, step_threads h hinv⟩
  · intro t g hphase
    constructor
    · intro pc hnext
      exact (critical_phase hnext hphase hinv.threads).2
    · intro r hnext
      exact (critical_phase hnext hphase hinv.threads).2
  · exact fun hsettled => ⟨hsettled, fun _ _ _ _ _ => hsettled⟩
  · exact fun r _ => ⟨fun _ hphase => hphase, fun hsettled => hsettled⟩
  · intro i g hthread
    have hsame := background_same hthread
    exact phase_congr hsame.1 hsame.2.1 hsame.2.2

end

theorem init_inv : Inv (init : St τ A) := by
  constructor
  · refine Guarded.init_inv rfl ⟨?_, ?_⟩
    · simp [St.view, init]
    · simp [St.view, init]
  · refine ⟨fun i => ?_, fun i hi => ?_, fun i _ => rfl⟩
    · simp [init, Background.Exists]
    · simp [init] at hi

/-! ## Activation and the background thread -/

/-- There is one background thread, and it is in its loop. -/
def OneRunning (g : Globals A) : Prop :=
  ∃ i, (g.threads i).Running ∧ ∀ j, (g.threads j).Exists → j = i

/-- While the library is active, its background thread is the only one that runs.
-/
theorem Threads.oneRunning {g : Globals A} (h : Threads g) (hactive : g.active = true)
    (hhandle : g.backgroundThread ≠ none) : OneRunning g := by
  rcases Option.ne_none_iff_exists'.mp hhandle with ⟨i, hi⟩
  have hexists := (h.exists_iff i).mpr hi
  refine ⟨i, ?_, fun j hj => ?_⟩
  · cases hthread : g.threads i with
    | notStarted => exact absurd hthread hexists.1
    | joined => exact absurd hthread hexists.2
    | loop => exact Or.inl rfl
    | body => exact Or.inr rfl
    | left =>
      rw [h.left i hthread] at hactive
      cases hactive
  · exact Option.some.inj (((h.exists_iff j).mp hj).symm.trans hi)

/-- `Initialize` returns `Success` from one place. -/
theorem critical_success {g g' : Globals A} {pc : Pc A}
    (h : critical g pc = some (g', .inr (.initialized .success))) : pc = .started ∧ g' = g := by
  cases pc with
  | started =>
    cases h
    exact ⟨rfl, rfl⟩
  | join =>
    rcases Option.map_eq_some_iff.mp h with ⟨g1, -, heq⟩
    cases heq
  | _ => cases h

section
variable [DecidableEq τ]

/-- An `Initialize` that returns `Success` leaves one background thread in its
loop. -/
theorem success_oneRunning {s s' : St τ A} {act : Act τ A} (h : step s act = some s')
    (hinv : Inv s) (hreturned : s'.returned = .initialized .success :: s.returned) :
    OneRunning s'.globals := by
  have hsame : s.returned ≠ .initialized .success :: s.returned := (List.cons_ne_self _ _).symm
  have hne : ∀ r : Return, r ≠ .initialized .success →
      r :: s.returned ≠ .initialized .success :: s.returned := by
    intro r hr heq
    exact hr (List.cons.inj heq).1
  rcases step_cases h with ⟨t, alloc, rfl, -, rfl⟩ | ⟨t, rfl, -, rfl⟩ | ⟨t, spurious, rfl, rfl⟩ |
    ⟨t, alloc, rfl, -, -, rfl⟩ | ⟨t, rfl, -, -, rfl⟩ | ⟨t, g, next, rfl, hnext, rfl⟩ |
    ⟨i, g, rfl, hthread, rfl⟩
  · -- a return without the lock is no success
    rcases testInactive_cases s t alloc with ⟨pc, -, heq, -⟩ | ⟨r, heq, hr⟩
    · rw [heq] at hreturned
      exact absurd hreturned hsame
    · rw [heq] at hreturned
      refine absurd hreturned (hne _ ?_)
      rcases hr with ⟨-, rfl⟩ | ⟨-, rfl⟩ <;> decide
  · -- Shutdown up to the lock
    exact absurd hreturned hsame
  · -- a compare-exchange that fails
    exact absurd hreturned hsame
  · -- Initialize takes the lock
    exact absurd hreturned hsame
  · -- Shutdown takes the lock
    exact absurd hreturned hsame
  · -- a step under the lock
    have hphase := hinv.guarded.phase t (critical_holds hnext)
    cases next with
    | inl pc => exact absurd hreturned hsame
    | inr r =>
      have hr : r = .initialized .success := (List.cons.inj hreturned).1
      subst hr
      rcases critical_success hnext with ⟨hpc, rfl⟩
      rw [hpc] at hphase
      exact hinv.threads.oneRunning hphase.2.1 hphase.2.2
  · -- a step of a background thread
    exact absurd hreturned hsame

/-- An `Initialize` that meets the library at rest returns `Success`. -/
theorem initialize_ends {s : St τ A} (hinv : Inv s) (hfree : s.stateLock = false)
    (hinactive : s.globals.active = false) (t : τ) (alloc : A) (hpc : s.pc t = .idle) :
    ∃ s', run step s [.callInitialize t (some alloc), .lock t false, .go t, .go t, .go t, .go t,
      .go t] = some s' ∧ s'.returned = .initialized .success :: s.returned := by
  have hnone : s.globals.backgroundThread = none := by
    by_contra hsome
    have hactive : s.globals.active = true := (hinv.guarded.settled hfree).joinable.mpr hsome
    rw [hactive] at hinactive
    cases hinactive
  simp [run_cons, step, hpc, testInactive, hinactive, goto, hfree, critical, resume, hnone,
    Globals.startThread, ret]

/-- In every state reached: there is at most one background thread, and it is
behind its loop only while the library is not active; with the lock free, the
library is active exactly if there is a thread to join, and exactly if there is
an allocator, and then that thread is running. An `Initialize` at rest succeeds,
and whenever one returns `Success` exactly one background thread is running. -/
theorem lifecycle_safe (acts : List (Act τ A)) (s : St τ A) (hrun : run step init acts = some s) :
    (∀ i j, (s.globals.threads i).Exists → (s.globals.threads j).Exists → i = j) ∧
    (∀ i, s.globals.threads i = .left → s.globals.active = false) ∧
    (s.stateLock = false →
      (s.globals.active = true ↔ s.globals.backgroundThread ≠ none) ∧
      (s.globals.active = true ↔ s.globals.allocator ≠ none) ∧
      (s.globals.active = true → OneRunning s.globals)) ∧
    (∀ act s', step s act = some s' → s'.returned = .initialized .success :: s.returned →
      OneRunning s'.globals) ∧
    (∀ t alloc, s.stateLock = false → s.globals.active = false → s.pc t = .idle →
      ∃ s', run step s [.callInitialize t (some alloc), .lock t false, .go t, .go t, .go t, .go t,
        .go t] = some s' ∧ s'.returned = .initialized .success :: s.returned) := by
  have hinv : Inv s := run_invariant step (fun _ _ _ => step_inv) init_inv hrun
  refine ⟨?_, hinv.threads.left, ?_, fun act s' hstep => success_oneRunning hstep hinv, ?_⟩
  · intro i j hi hj
    have hi' := (hinv.threads.exists_iff i).mp hi
    exact Option.some.inj (hi'.symm.trans ((hinv.threads.exists_iff j).mp hj))
  · intro hfree
    have hsettled := hinv.guarded.settled hfree
    refine ⟨hsettled.joinable, hsettled.allocator, fun hactive => ?_⟩
    exact hinv.threads.oneRunning hactive (hsettled.joinable.mp hactive)
  · intro t alloc hfree hinactive hpc
    exact initialize_ends hinv hfree hinactive t alloc hpc

/-- Thread 0 activates the library and thread 1 stops it. -/
theorem lifecycle_safe_once :
    ∃ s : St ℕ ℕ, run step init
      [.callInitialize 0 (some 7), .lock 0 false, .go 0, .go 0, .go 0, .go 0, .background 0, .go 0,
        .callShutdown 1, .lock 1 false, .go 1, .go 1, .go 1, .go 1, .background 0, .background 0,
        .go 1, .go 1, .go 1] = some s ∧
      s.returned = [.shutDown .success, .initialized .success] ∧
      s.globals.threads 0 = .joined ∧
      (s.globals.active = true ↔ s.globals.allocator ≠ none) := by
  have hrun : ∃ s : St ℕ ℕ, run step init
      [.callInitialize 0 (some 7), .lock 0 false, .go 0, .go 0, .go 0, .go 0, .background 0, .go 0,
        .callShutdown 1, .lock 1 false, .go 1, .go 1, .go 1, .go 1, .background 0, .background 0,
        .go 1, .go 1, .go 1] = some s ∧
      s.returned = [.shutDown .success, .initialized .success] ∧
      s.globals.threads 0 = .joined ∧ s.stateLock = false := ⟨_, rfl, rfl, rfl, rfl⟩
  rcases hrun with ⟨s, hs, hreturned, hjoined, hfree⟩
  exact ⟨s, hs, hreturned, hjoined, ((lifecycle_safe _ s hs).2.2.1 hfree).2.1⟩

end

end Yardstick.Lifecycle
