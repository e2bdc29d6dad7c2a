import Mathlib.Logic.Function.Basic
import Mathlib.Data.List.Nodup
import Yardstick.Base.Chain
import Yardstick.Base.Runs

/-!
# ThreadRegistry — the list of live ThreadStates

`GlobalState` keeps every live `ThreadState` in an intrusive list: `_threads`
is the head, `_next` and `_prev` are fields of the thread. The background
thread walks it in `FlushThreads`.

`RegisterThread` writes `_threads->_next = thread` where the back link
`_threads->_prev` was due, so the second thread registered at a time closes a
cycle of length two at the head, and no later call opens it again:

* `registry_sound_iff`: the list is right after a run exactly when every
  registration of the run found no thread registered.
-/

namespace Yardstick.ThreadRegistry

open Chain Runs

variable {τ : Type*} [DecidableEq τ]

/-! ## The list fields and the two operations -/

/-- `GlobalState::_threads` and the list fields of the `ThreadState`s. -/
structure Registry (τ : Type*) where
  threads : Option τ
  next : τ → Option τ
  prev : τ → Option τ

/-- The registry of a fresh `GlobalState`. -/
def Registry.empty : Registry τ := ⟨none, fun _ => none, fun _ => none⟩

/-- The member initialisers of `ThreadState`: both links start null. -/
def construct (g : Registry τ) (thread : τ) : Registry τ :=
  { g with
    next := Function.update g.next thread none
    prev := Function.update g.prev thread none }

/-- `GlobalState::RegisterThread`. -/
def registerThread (g : Registry τ) (thread : τ) : Registry τ :=
  -- thread->_next = _threads
  let next := Function.update g.next thread g.threads
  -- if (_threads != nullptr) _threads->_next = thread
  let next := match g.threads with
    | none => next
    | some head => Function.update next head (some thread)
  { g with next := next, threads := some thread }

/-- `GlobalState::DeregisterThread`. -/
def deregisterThread (g : Registry τ) (thread : τ) : Registry τ :=
  -- if (thread->_next != nullptr) thread->_next->_prev = thread->_prev
  let prev := match g.next thread with
    | none => g.prev
    | some n => Function.update g.prev n (g.prev thread)
  -- if (thread->_prev != nullptr) thread->_prev->_next = thread->_next
  let next := match prev thread with
    | none => g.next
    | some p => Function.update g.next p (g.next thread)
  -- if (_threads == thread) _threads = _threads->_next
  let threads := if g.threads = some thread then next thread else g.threads
  { threads := threads, next := next, prev := prev }

/-- `GlobalState::FlushThreads`: the threads `ProcessThread` is called on, in
order, or `none` while the loop has not ended after `fuel` calls.
`ProcessThread` always succeeds and touches no link. -/
def flushThreads (fuel : ℕ) (g : Registry τ) : Option (List τ) := walk g.next fuel g.threads

/-! ## Runs -/

/-- The registry with the threads registered and not yet deregistered. -/
structure St (τ : Type*) where
  reg : Registry τ
  registered : List τ

/-- No thread has been created yet. -/
def init : St τ := ⟨Registry.empty, []⟩

/-- A `ThreadState` is constructed or destroyed. -/
inductive Act (τ : Type*) where
  | register (t : τ)
  | deregister (t : τ)
deriving DecidableEq, Repr

/-- A thread is registered while it is not, and deregistered while it is. The
storage of a destroyed `ThreadState` may be used again. -/
def step (s : St τ) : Act τ → Option (St τ)
  | .register t =>
    if t ∈ s.registered then none
    else some ⟨registerThread (construct s.reg t) t, t :: s.registered⟩
  | .deregister t =>
    if t ∈ s.registered then some ⟨deregisterThread s.reg t, s.registered.erase t⟩ else none

/-- What a step does: a thread is put in front, or one is taken out. -/
theorem step_cases {s s' : St τ} {a : Act τ} (h : step s a = some s') :
    (∃ t, a = .register t ∧ t ∉ s.registered ∧
      s' = ⟨registerThread (construct s.reg t) t, t :: s.registered⟩) ∨
    (∃ t, a = .deregister t ∧ t ∈ s.registered ∧
      s' = ⟨deregisterThread s.reg t, s.registered.erase t⟩) := by
  cases a with
  | register t =>
    simp only [step] at h
    split at h
    · cases h
    · rename_i ht
      exact Or.inl ⟨t, rfl, ht, (Option.some.inj h).symm⟩
  | deregister t =>
    simp only [step] at h
    split at h
    · rename_i ht
      exact Or.inr ⟨t, rfl, ht, (Option.some.inj h).symm⟩
    · cases h

/-! ## What the list is for -/

/-- The chain from `_threads` is finite and visits every registered thread
once and no other, `_prev` inverts `_next` along it, and `FlushThreads` ends
after one `ProcessThread` per registered thread. -/
structure Sound (s : St τ) : Prop where
  chain : ∃ l, Path s.reg.next s.reg.threads l ∧ l.Nodup ∧ (∀ t, t ∈ l ↔ t ∈ s.registered) ∧
    BackLinks s.reg.prev none l
  flush : ∃ fuel visited, flushThreads fuel s.reg = some visited ∧ visited.Nodup ∧
    ∀ t, t ∈ visited ↔ t ∈ s.registered

/-- The condition on a step: a thread registers only while no other is. -/
def Alone (s : St τ) : Act τ → Prop
  | .register _ => s.registered = []
  | .deregister _ => True

omit [DecidableEq τ] in
theorem sound_of_path {s : St τ} {l : List τ} (hl : Path s.reg.next s.reg.threads l)
    (hmem : ∀ t, t ∈ l ↔ t ∈ s.registered) (hback : BackLinks s.reg.prev none l) : Sound s := by
  rcases exists_walk_iff.mpr hl with ⟨fuel, hfuel⟩
  exact ⟨⟨l, hl, hl.nodup, hmem, hback⟩, ⟨fuel, l, hfuel, hl.nodup, hmem⟩⟩

/-! ## At most one thread at a time -/

/-- Nobody is registered, or one thread is and its links are null. -/
def AtMostOne (s : St τ) : Prop :=
  (∀ t, s.reg.prev t = none) ∧
  ((s.registered = [] ∧ s.reg.threads = none) ∨
    ∃ t, s.registered = [t] ∧ s.reg.threads = some t ∧ s.reg.next t = none)

omit [DecidableEq τ] in
theorem init_atMostOne : AtMostOne (init : St τ) := ⟨fun _ => rfl, Or.inl ⟨rfl, rfl⟩⟩

omit [DecidableEq τ] in
theorem sound_of_atMostOne {s : St τ} (h : AtMostOne s) : Sound s := by
  rcases h.2 with ⟨hreg, hthreads⟩ | ⟨t, hreg, hthreads, hnext⟩
  · exact sound_of_path (l := []) hthreads (by simp [hreg]) trivial
  · exact sound_of_path (l := [t]) ⟨hthreads, hnext⟩ (by simp [hreg]) ⟨h.1 t, trivial⟩

/-- No operation ever makes a back link: `DeregisterThread` only copies one. -/
theorem step_prev_none {s s' : St τ} {a : Act τ} (h : step s a = some s')
    (hprev : ∀ t, s.reg.prev t = none) (u : τ) : s'.reg.prev u = none := by
  rcases step_cases h with ⟨t, rfl, -, rfl⟩ | ⟨t, rfl, -, rfl⟩
  · by_cases hu : u = t
    · simp [registerThread, construct, hu]
    · simp [registerThread, construct, hu, hprev]
  · simp only [deregisterThread, hprev]
    cases s.reg.next t with
    | none => exact hprev u
    | some n =>
      by_cases hu : u = n
      · simp [hu]
      · simp [hu, hprev]

/-- With no back links, deregistering a thread only moves the head. -/
theorem deregister_links {g : Registry τ} (hprev : ∀ t, g.prev t = none) (t : τ) :
    (deregisterThread g t).next = g.next ∧
    (deregisterThread g t).threads = if g.threads = some t then g.next t else g.threads := by
  -- the links copied are null ones
  have hcopy : (match g.next t with
      | none => g.prev
      | some n => Function.update g.prev n (g.prev t)) t = none := by
    cases g.next t with
    | none => exact hprev t
    | some n =>
      by_cases ht : t = n
      · simp [ht, hprev]
      · simp [ht, hprev]
  constructor <;> simp only [deregisterThread, hcopy]

/-- A thread that registers alone, and one that leaves, keep at most one in the
list. -/
theorem step_atMostOne {s s' : St τ} {a : Act τ} (hP : Alone s a) (h : step s a = some s')
    (hs : AtMostOne s) : AtMostOne s' := by
  refine ⟨step_prev_none h hs.1, ?_⟩
  rcases step_cases h with ⟨t, rfl, -, rfl⟩ | ⟨t, rfl, ht, rfl⟩
  · -- the first thread: its next link is the null head
    have hempty : s.registered = [] := hP
    have hthreads : s.reg.threads = none := by
      rcases hs.2 with h1 | ⟨u, hu, -, -⟩
      · exact h1.2
      · rw [hempty] at hu
        cases hu
    right
    exact ⟨t, by simp [hempty], rfl, by simp [registerThread, construct, hthreads]⟩
  · -- the only thread leaves
    rcases hs.2 with ⟨hreg, -⟩ | ⟨u, hreg, hthreads, hnext⟩
    · simp [hreg] at ht
    · have htu : t = u := by simpa [hreg] using ht
      subst htu
      left
      refine ⟨by simp [hreg], ?_⟩
      rw [(deregister_links hs.1 t).2, if_pos hthreads, hnext]

/-! ## Two threads at a time -/

/-- The head is on a cycle of length at most two. -/
def Cyclic (s : St τ) : Prop :=
  (∀ t, s.reg.prev t = none) ∧
  ∃ h h', s.reg.threads = some h ∧ s.reg.next h = some h' ∧ s.reg.next h' = some h

omit [DecidableEq τ] in
theorem not_sound_of_cyclic {s : St τ} (h : Cyclic s) : ¬ Sound s := by
  intro hsound
  rcases h with ⟨-, a, b, ha, hab, hba⟩
  rcases hsound.chain with ⟨l, hl, -⟩
  exact not_path_of_cycle ha hab hba l hl

/-- Registering a thread while the list is not empty makes the cycle. -/
theorem register_cycle (g : Registry τ) (head : τ) (hhead : g.threads = some head) (t : τ) :
    ∃ h h', (registerThread (construct g t) t).threads = some h ∧
      (registerThread (construct g t) t).next h = some h' ∧
      (registerThread (construct g t) t).next h' = some h := by
  refine ⟨t, head, rfl, ?_, ?_⟩
  · by_cases ht : t = head
    · simp [registerThread, construct, hhead, ht]
    · simp [registerThread, construct, hhead, ht]
  · simp [registerThread, construct, hhead]

/-- A second thread makes the list a cycle. -/
theorem break_cyclic {s s' : St τ} {a : Act τ} (hP : ¬ Alone s a) (h : step s a = some s')
    (hs : AtMostOne s) : Cyclic s' := by
  refine ⟨step_prev_none h hs.1, ?_⟩
  rcases step_cases h with ⟨t, rfl, -, rfl⟩ | ⟨t, rfl, -, rfl⟩
  · rcases hs.2 with ⟨hreg, -⟩ | ⟨u, -, hthreads, -⟩
    · exact absurd hreg hP
    · exact register_cycle s.reg u hthreads t
  · exact absurd trivial hP

/-- A list that runs in a circle stays one. -/
theorem step_cyclic {s s' : St τ} {a : Act τ} (h : step s a = some s') (hs : Cyclic s) :
    Cyclic s' := by
  refine ⟨step_prev_none h hs.1, ?_⟩
  rcases hs with ⟨hprev, a, b, ha, hab, hba⟩
  rcases step_cases h with ⟨t, rfl, -, rfl⟩ | ⟨t, rfl, -, rfl⟩
  · exact register_cycle s.reg a ha t
  · -- the links stay; the head is the same cell of the cycle or the other one
    simp only [(deregister_links hprev t).1, (deregister_links hprev t).2]
    by_cases ht : s.reg.threads = some t
    · have hat : a = t := Option.some.inj (ha.symm.trans ht)
      subst hat
      exact ⟨b, a, by rw [if_pos ht, hab], hba, hab⟩
    · exact ⟨a, b, by rw [if_neg ht, ha], hab, hba⟩

/-! ## The list over whole runs -/

/-- After any run the list is right exactly when every registration of the run
found no thread registered. -/
theorem registry_sound_iff (acts : List (Act τ)) (s : St τ) (hrun : run step init acts = some s) :
    Sound s ↔ Along step Alone (init : St τ) acts := by
  constructor
  · intro hsound
    have hnot : ¬ Cyclic s := fun hc => not_sound_of_cyclic hc hsound
    exact along_of_not_bad step AtMostOne Cyclic (fun _ _ _ => step_atMostOne)
      (fun _ _ _ => break_cyclic) (fun _ _ _ => step_cyclic) init_atMostOne hrun hnot
  · intro halong
    exact sound_of_atMostOne
      (run_invariant_along step (fun _ _ _ => step_atMostOne) halong init_atMostOne hrun)

/-- One thread after another, at the same address. -/
theorem registry_sound_reuse :
    Sound (⟨registerThread (construct (deregisterThread
      (registerThread (construct Registry.empty 1) 1) 1) 1) 1, [1]⟩ : St ℕ) := by
  refine (registry_sound_iff [.register 1, .deregister 1, .register 1] _ ?_).mpr ?_
  · simp [run_cons, step, init]
  · simp [along_cons, step, Alone, init]

/-- Two threads alive together: the registry is no longer a list. -/
theorem registry_two_threads :
    ∃ s : St ℕ, run step init [.register 1, .register 2] = some s ∧ s.registered = [2, 1] ∧
      ¬ Sound s := by
  refine ⟨⟨registerThread (construct (registerThread (construct Registry.empty 1) 1) 2) 2, [2, 1]⟩,
    ?_, rfl, not_sound_of_cyclic ⟨fun t => ?_, register_cycle _ 1 rfl 2⟩⟩
  · simp [run_cons, step, init]
  · simp [registerThread, construct, Registry.empty]

end Yardstick.ThreadRegistry
