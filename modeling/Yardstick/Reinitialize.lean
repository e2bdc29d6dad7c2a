import Yardstick.Lifecycle

/-!
# Reinitialize — racing calls of Initialize

`Initialize` returns `AlreadyInitialized` if it finds the library active before
it takes the lock. Two calls that both find it inactive get the lock one after
the other, and both go through.

* `Sole`: what the calls of `Initialize` are meant to return, step by step;
* `reinitialize_sole`: they do in every run in which a call that takes the lock
  finds the library still inactive.
-/

namespace Yardstick.Reinitialize

open Protocol Runs Lifecycle

variable {τ A : Type*}

/-- How many calls of `Initialize` have returned `Success` since a `Shutdown`
last did; the newest return comes first. -/
def successes : List Return → ℕ
  | [] => 0
  | .initialized .success :: rs => successes rs + 1
  | .shutDown .success :: _ => 0
  | _ :: rs => successes rs

/-- The library is active exactly between the two. -/
def Counted (view : Globals A × List Return) : Prop :=
  successes view.2 = if view.1.active then 1 else 0

/-- The lock, if it is only taken by an `Initialize` that may go through. -/
def sole : Guarded.Discipline (Pc A) (Globals A × List Return) where
  holds := Pc.holds
  Phase
    | .setAllocator _, view => view.1.active = false ∧ successes view.2 = 0
    | .activate, view => view.1.active = false ∧ successes view.2 = 0
    | .testJoinable, view => view.1.active = true ∧ successes view.2 = 0
    | .start, view => view.1.active = true ∧ successes view.2 = 0
    | .started, view => view.1.active = true ∧ successes view.2 = 0
    | .testActive, view => Counted view
    | .uninitialized, view => Counted view
    | .deactivate, view => Counted view
    | .testJoinable', view => view.1.active = false ∧ successes view.2 ≤ 1
    | .post, view => view.1.active = false ∧ successes view.2 ≤ 1
    | .join, view => view.1.active = false ∧ successes view.2 ≤ 1
    | .clearAllocator, view => view.1.active = false ∧ successes view.2 ≤ 1
    | .stopped, view => view.1.active = false ∧ successes view.2 ≤ 1
    | _, _ => True
  Settled := Counted

theorem Counted.le_one {view : Globals A × List Return} (h : Counted view) :
    successes view.2 ≤ 1 := by
  rw [h]
  split <;> decide

/-- Inside the lock at most one call has been counted. -/
theorem sole_le_one {pc : Pc A} {view : Globals A × List Return} (hpc : pc.holds = true)
    (h : sole.Phase pc view) : successes view.2 ≤ 1 := by
  cases pc with
  | idle => cases hpc
  | initializing alloc => cases hpc
  | shuttingDown => cases hpc
  | testActive => exact Counted.le_one h
  | uninitialized => exact Counted.le_one h
  | deactivate => exact Counted.le_one h
  | setAllocator alloc => exact Nat.le_succ_of_le (Nat.le_of_eq h.2)
  | activate => exact Nat.le_succ_of_le (Nat.le_of_eq h.2)
  | testJoinable => exact Nat.le_succ_of_le (Nat.le_of_eq h.2)
  | start => exact Nat.le_succ_of_le (Nat.le_of_eq h.2)
  | started => exact Nat.le_succ_of_le (Nat.le_of_eq h.2)
  | testJoinable' => exact h.2
  | post => exact h.2
  | join => exact h.2
  | clearAllocator => exact h.2
  | stopped => exact h.2

/-- Only the activation and the returns matter. -/
theorem sole_congr {g g' : Globals A} {rs rs' : List Return} (hactive : g'.active = g.active)
    (hcount : successes rs' = successes rs) :
    (∀ pc, sole.Phase pc (g, rs) → sole.Phase pc (g', rs')) ∧
    (sole.Settled (g, rs) → sole.Settled (g', rs')) := by
  have hcounted : Counted (g, rs) → Counted (g', rs') := by
    intro h
    unfold Counted at h ⊢
    rw [hcount, hactive]
    exact h
  refine ⟨fun pc hpc => ?_, hcounted⟩
  cases pc with
  | idle => trivial
  | initializing alloc => trivial
  | shuttingDown => trivial
  | testActive => exact hcounted hpc
  | uninitialized => exact hcounted hpc
  | deactivate => exact hcounted hpc
  | _ => simpa only [sole, hactive, hcount] using hpc

/-- Each step inside the lock either goes on inside of it or returns with the calls
counted. -/
theorem critical_sole {g g' : Globals A} {pc : Pc A} {next : Pc A ⊕ Return} {rs : List Return}
    (h : critical g pc = some (g', next)) (hphase : sole.Phase pc (g, rs)) :
    match next with
    | .inl pc' => pc'.holds = true ∧ sole.Phase pc' (g', rs)
    | .inr r => Counted (g', r :: rs) := by
  cases pc with
  | idle => cases h
  | initializing alloc => cases h
  | shuttingDown => cases h
  | setAllocator alloc =>
    cases h
    exact ⟨rfl, hphase⟩
  | activate =>
    cases h
    exact ⟨rfl, rfl, hphase.2⟩
  | testJoinable =>
    cases h
    dsimp only
    split
    · exact ⟨rfl, hphase⟩
    · exact ⟨rfl, hphase⟩
  | start =>
    cases h
    exact ⟨rfl, hphase⟩
  | started =>
    cases h
    -- the one success since the last `Shutdown`
    have hphase' : g.active = true ∧ successes rs = 0 := hphase
    simp [Counted, successes, hphase'.1, hphase'.2]
  | testActive =>
    cases h
    dsimp only
    split
    · exact ⟨rfl, hphase⟩
    · exact ⟨rfl, hphase⟩
  | uninitialized =>
    cases h
    exact hphase
  | deactivate =>
    cases h
    -- what was counted up to here is at most one
    have hcounted : Counted (g, rs) := hphase
    exact ⟨rfl, rfl, hcounted.le_one⟩
  | testJoinable' =>
    cases h
    dsimp only
    split
    · exact ⟨rfl, hphase⟩
    · exact ⟨rfl, hphase⟩
  | post =>
    cases h
    exact ⟨rfl, hphase⟩
  | join =>
    rcases Option.map_eq_some_iff.mp h with ⟨g1, hjoin, heq⟩
    cases heq
    exact ⟨rfl, (join_same hjoin).1.trans hphase.1, hphase.2⟩
  | clearAllocator =>
    cases h
    exact ⟨rfl, hphase⟩
  | stopped =>
    cases h
    have hphase' : g.active = false ∧ successes rs ≤ 1 := hphase
    simp [Counted, successes, hphase'.1]

/-- The allocator is only written while the library is not active. -/
theorem critical_allocator {g g' : Globals A} {pc : Pc A} {next : Pc A ⊕ Return}
    {rs : List Return} (h : critical g pc = some (g', next)) (hphase : sole.Phase pc (g, rs))
    (hactive : g.active = true) : g'.allocator = g.allocator := by
  have hinactive : g.active ≠ false := by simp [hactive]
  cases pc with
  | setAllocator alloc => exact absurd hphase.1 hinactive
  | clearAllocator => exact absurd hphase.1 hinactive
  | join => exact absurd hphase.1 hinactive
  | idle => cases h
  | initializing alloc => cases h
  | shuttingDown => cases h
  | _ =>
    cases h
    rfl

/-- Under the lock `Initialize` returns nothing but `Success`. -/
theorem critical_initialized {g g' : Globals A} {pc : Pc A} {r : YsResult}
    (h : critical g pc = some (g', .inr (.initialized r))) : r = .success := by
  cases pc with
  | started =>
    cases h
    rfl
  | join =>
    rcases Option.map_eq_some_iff.mp h with ⟨g1, -, heq⟩
    cases heq
  | _ => cases h

/-! ## Runs -/

section
variable [DecidableEq τ]

/-- What a step should do: since the last successful `Shutdown` at most one
`Initialize` has returned `Success`; while the library is active the allocator
stays what it is, and an `Initialize` that returns has succeeded or returns
`AlreadyInitialized`. -/
def Sole (s : St τ A) (act : Act τ A) : Prop :=
  ∀ s', step s act = some s' →
    successes s'.returned ≤ 1 ∧
    (s.globals.active = true → s'.globals.allocator = s.globals.allocator) ∧
    ∀ r, s'.returned = .initialized r :: s.returned → s.globals.active = true →
      r = .success ∨ r = .alreadyInitialized

/-- The condition on a step: an `Initialize` that takes the lock finds the
library still inactive. -/
def Unraced (s : St τ A) (act : Act τ A) : Prop :=
  ∀ t alloc, act = .lock t false → s.pc t = .initializing alloc → s.stateLock = false →
    s.globals.active = false

/-- The lock obeys `sole`. -/
def Inv (s : St τ A) : Prop := Guarded.Inv sole s.stateLock s.view s.pc

/-- Steps that meet the condition keep the discipline of the lock. -/
theorem step_inv {s s' : St τ A} {act : Act τ A} (hP : Unraced s act) (h : step s act = some s')
    (hinv : Inv s) : Inv s' := by
  refine guarded_step rfl h hinv ?_ ?_ ?_ ?_
  · intro t g hphase
    constructor
    · exact fun pc hnext => critical_sole hnext hphase
    · exact fun r hnext => critical_sole hnext hphase
  · intro hcounted
    refine ⟨hcounted, fun t alloc hact hpc hfree => ?_⟩
    have hinactive := hP t alloc hact hpc hfree
    have hcounted' : successes s.returned = if s.globals.active then 1 else 0 := hcounted
    rw [hinactive] at hcounted'
    exact ⟨hinactive, hcounted'⟩
  · intro r hr
    refine sole_congr rfl ?_
    rcases hr with rfl | rfl <;> rfl
  · intro i g hthread
    exact sole_congr (background_same hthread).1 rfl

omit [DecidableEq τ] in
theorem inv_le_one {s : St τ A} (h : Inv s) : successes s.returned ≤ 1 := by
  cases hlock : s.stateLock with
  | false => exact Counted.le_one (h.settled hlock)
  | true =>
    rcases h.locked.mp hlock with ⟨t, ht⟩
    exact sole_le_one ht (h.phase t ht)

/-- The discipline of the lock gives what a step should do. -/
theorem sole_of_unraced {s : St τ A} {act : Act τ A} (hinv : Inv s) (hP : Unraced s act) :
    Sole s act := by
  intro s' h
  refine ⟨inv_le_one (step_inv hP h hinv), ?_⟩
  have hsame : ∀ r, s.returned ≠ .initialized r :: s.returned := fun r =>
    (List.cons_ne_self _ _).symm
  rcases step_cases h with ⟨t, alloc, rfl, -, rfl⟩ | ⟨t, rfl, -, rfl⟩ | ⟨t, spurious, rfl, rfl⟩ |
    ⟨t, alloc, rfl, -, -, rfl⟩ | ⟨t, rfl, -, -, rfl⟩ | ⟨t, g, next, rfl, hnext, rfl⟩ |
    ⟨i, g, rfl, hthread, rfl⟩
  · -- Initialize up to the lock
    rcases testInactive_cases s t alloc with ⟨pc, -, heq, hinactive⟩ | ⟨r, heq, hr⟩
    · rw [heq]
      exact ⟨fun _ => rfl, fun r hreturned => absurd hreturned (hsame r)⟩
    · rw [heq]
      refine ⟨fun _ => rfl, fun r' hreturned hactive => ?_⟩
      cases hreturned
      rcases hr with ⟨-, hr⟩ | ⟨hinactive, -⟩
      · exact Or.inr hr
      · rw [hinactive] at hactive
        cases hactive
  · -- Shutdown up to the lock
    exact ⟨fun _ => rfl, fun r hreturned => absurd hreturned (hsame r)⟩
  · -- a compare-exchange that fails
    exact ⟨fun _ => rfl, fun r hreturned => absurd hreturned (hsame r)⟩
  · -- Initialize takes the lock
    exact ⟨fun _ => rfl, fun r hreturned => absurd hreturned (hsame r)⟩
  · -- Shutdown takes the lock
    exact ⟨fun _ => rfl, fun r hreturned => absurd hreturned (hsame r)⟩
  · -- a step under the lock
    have hphase := hinv.phase t (critical_holds hnext)
    cases next with
    | inl pc =>
      refine ⟨critical_allocator hnext hphase, fun r hreturned => ?_⟩
      exact absurd hreturned (hsame r)
    | inr r =>
      refine ⟨critical_allocator hnext hphase, fun r' hreturned _ => ?_⟩
      have hr : r = .initialized r' := (List.cons.inj hreturned).1
      subst hr
      exact Or.inl (critical_initialized hnext)
  · -- a step of a background thread
    refine ⟨fun _ => (background_same hthread).2.1, fun r hreturned => ?_⟩
    exact absurd hreturned (hsame r)

omit [DecidableEq τ] in
theorem init_inv : Inv (init : St τ A) := Guarded.init_inv rfl rfl

/-- In every run in which an `Initialize` that takes the lock finds the library
inactive: between two successful calls of `Shutdown` at most one `Initialize`
returns `Success`, and one that returns while the library is active has not
touched the allocator otherwise. -/
theorem reinitialize_sole (acts : List (Act τ A))
    (h : Along step Unraced (init : St τ A) acts) : Along step Sole (init : St τ A) acts :=
  along_of_invariant step (fun _ _ _ hP hstep hinv => step_inv hP hstep hinv)
    (fun _ _ hinv hP => sole_of_unraced hinv hP) init_inv h

end

/-- One thread activates the library, another one comes too late. -/
theorem reinitialize_sole_late :
    Along step Sole (init : St ℕ ℕ)
      [.callInitialize 0 (some 7), .lock 0 false, .go 0, .go 0, .callInitialize 1 (some 8)] := by
  apply reinitialize_sole
  refine (along_cons _).mpr ⟨fun _ _ h => (nomatch h), fun s hs => ?_⟩
  cases hs
  refine (along_cons _).mpr ⟨fun _ _ _ _ _ => rfl, fun s hs => ?_⟩
  cases hs
  refine (along_cons _).mpr ⟨fun _ _ h => (nomatch h), fun s hs => ?_⟩
  cases hs
  refine (along_cons _).mpr ⟨fun _ _ h => (nomatch h), fun s hs => ?_⟩
  cases hs
  exact (along_cons _).mpr ⟨fun _ _ h => (nomatch h), fun s _ => along_nil _ _ s⟩

/-- Two threads find the library inactive, and both activate it. -/
theorem reinitialize_twice :
    (∃ s : St ℕ ℕ, run step init
      ([.callInitialize 0 (some 7), .callInitialize 1 (some 8), .lock 0 false, .go 0, .go 0, .go 0,
        .go 0, .go 0, .lock 1 false, .go 1, .go 1, .go 1] ++ [.go 1]) = some s ∧
      s.returned = [.initialized .success, .initialized .success] ∧
      s.globals.allocator = some 8) ∧
    ¬ Along step Sole (init : St ℕ ℕ)
      ([.callInitialize 0 (some 7), .callInitialize 1 (some 8), .lock 0 false, .go 0, .go 0, .go 0,
        .go 0, .go 0, .lock 1 false, .go 1, .go 1, .go 1] ++ [.go 1]) := by
  refine ⟨⟨_, rfl, rfl, rfl⟩, fun h => ?_⟩
  have hlast := Along.at step h rfl _ rfl
  exact absurd hlast.1 (by decide)

end Yardstick.Reinitialize
