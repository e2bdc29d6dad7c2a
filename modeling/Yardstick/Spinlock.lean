import Yardstick.Lifecycle

/-!
# Spinlock — the lock behind `LockGuard`

`Lock` tries a compare-exchange from 0 to 1 until it succeeds. One that fails,
and it may fail for no reason, leaves in `expected` what it has seen in `_state`;
the body of the loop sets `expected` back to 0 before the next one.

Any number of guards take the lock; a thread with a guard inside of another one
counts as two. Every compare-exchange, reset and store is a step of its own.

* `step_inv`: at every compare-exchange `expected` is 0;
* `lock_safe`: one guard at most is inside, and none gets there by a
  compare-exchange that fails;
* `run_spin`: the lock of `Lifecycle`, whose attempts are single steps, is this
  one.
-/

namespace Yardstick.Spinlock

open Runs

variable {τ : Type*}

/-! ## The lock and the guards -/

/-- Where a guard is in its life. -/
inductive Pc where
  | outside
  /-- At the compare-exchange of `Lock`. -/
  | attempt (expected : BitVec 32)
  /-- In the body of the loop. -/
  | failed (expected : BitVec 32)
  /-- Behind `Lock`, and up to the store of `Unlock`. -/
  | inside
deriving DecidableEq

structure St (τ : Type*) where
  state : BitVec 32
  pc : τ → Pc

def init : St τ := ⟨0, fun _ => .outside⟩

/-- A guard is constructed, and destroyed with `unlock`. -/
inductive Act (τ : Type*) where
  | lock (t : τ)
  | compareExchange (t : τ) (spurious : Bool)
  | reset (t : τ)
  | unlock (t : τ)

section
variable [DecidableEq τ]

def goto (s : St τ) (t : τ) (pc : Pc) : St τ := { s with pc := Function.update s.pc t pc }

def step (s : St τ) : Act τ → Option (St τ)
  | .lock t =>
    match s.pc t with
    | .outside => some (goto s t (.attempt 0))
    | _ => none
  | .compareExchange t spurious =>
    match s.pc t with
    | .attempt expected =>
      if s.state = expected ∧ spurious = false then some { goto s t .inside with state := 1 }
      else some (goto s t (.failed s.state))
    | _ => none
  | .reset t =>
    match s.pc t with
    | .failed _ => some (goto s t (.attempt 0))
    | _ => none
  | .unlock t =>
    match s.pc t with
    | .inside => some { goto s t .outside with state := 0 }
    | _ => none

/-- What a step does: a thread comes to the lock, an exchange goes through or
fails, `expected` is set back, or a thread leaves. -/
theorem step_cases {s s' : St τ} {a : Act τ} (h : step s a = some s') :
    (∃ t, a = .lock t ∧ s.pc t = .outside ∧ s' = goto s t (.attempt 0)) ∨
    (∃ t expected, a = .compareExchange t false ∧ s.pc t = .attempt expected ∧
      s.state = expected ∧ s' = { goto s t .inside with state := 1 }) ∨
    (∃ t spurious expected, a = .compareExchange t spurious ∧ s.pc t = .attempt expected ∧
      ¬ (s.state = expected ∧ spurious = false) ∧ s' = goto s t (.failed s.state)) ∨
    (∃ t expected, a = .reset t ∧ s.pc t = .failed expected ∧ s' = goto s t (.attempt 0)) ∨
    (∃ t, a = .unlock t ∧ s.pc t = .inside ∧ s' = { goto s t .outside with state := 0 }) := by
  cases a with
  | lock t =>
    simp only [step] at h
    split at h
    · rename_i hpc
      exact Or.inl ⟨t, rfl, hpc, (Option.some.inj h).symm⟩
    · cases h
  | compareExchange t spurious =>
    simp only [step] at h
    split at h
    · rename_i expected hpc
      split at h
      · -- the exchange goes through
        rename_i heq
        have hs' := (Option.some.inj h).symm
        exact Or.inr (Or.inl ⟨t, expected, by rw [heq.2], hpc, heq.1, hs'⟩)
      · -- or leaves what it has read in `expected`
        rename_i hne
        have hs' := (Option.some.inj h).symm
        exact Or.inr (Or.inr (Or.inl ⟨t, spurious, expected, rfl, hpc, hne, hs'⟩))
    · cases h
  | reset t =>
    simp only [step] at h
    split at h
    · rename_i expected hpc
      have hs' := (Option.some.inj h).symm
      exact Or.inr (Or.inr (Or.inr (Or.inl ⟨t, expected, rfl, hpc, hs'⟩)))
    · cases h
  | unlock t =>
    simp only [step] at h
    split at h
    · rename_i hpc
      have hs' := (Option.some.inj h).symm
      exact Or.inr (Or.inr (Or.inr (Or.inr ⟨t, rfl, hpc, hs'⟩)))
    · cases h

end

/-! ## The invariant -/

def Pc.holds : Pc → Bool
  | .inside => true
  | _ => false

theorem holds_iff {pc : Pc} : pc.holds = true ↔ pc = .inside := by
  cases pc <;> simp [Pc.holds]

/-- `_state` is 1 for the guard inside, and 0 without one. -/
def word : Guarded.Discipline Pc (BitVec 32) where
  holds := Pc.holds
  Phase := fun _ state => state = 1
  Settled := fun state => state = 0

structure Inv (s : St τ) : Prop where
  guarded : Guarded.Inv word (decide (s.state = 1)) s.state s.pc
  expected : ∀ t e, s.pc t = .attempt e → e = 0

theorem init_inv : Inv (init : St τ) := by
  constructor
  · exact Guarded.init_inv rfl rfl
  · intro t e h
    cases h

section
variable [DecidableEq τ] {s s' : St τ} {a : Act τ}

/-- A guard that moves to a compare-exchange has reset its `expected`. -/
theorem expected_goto (h : Inv s) {t : τ} {pc : Pc} (hpc : ∀ e, pc = .attempt e → e = 0) :
    ∀ u e, Function.update s.pc t pc u = .attempt e → e = 0 := by
  intro u e hu
  by_cases hut : u = t
  · rw [hut, Function.update_self] at hu
    exact hpc e hu
  · rw [Function.update_of_ne hut] at hu
    exact h.expected u e hu

/-- Every step keeps the invariant. -/
theorem step_inv (hstep : step s a = some s') (h : Inv s) : Inv s' := by
  have hout : ∀ {t : τ} {pc : Pc}, s.pc t = pc → pc ≠ .inside → word.holds (s.pc t) = false := by
    rintro t pc hpc hne
    rw [hpc]
    exact Bool.eq_false_iff.mpr fun hholds => hne (holds_iff.mp hholds)
  rcases step_cases hstep with ⟨t, -, hpc, rfl⟩ | ⟨t, e, -, hpc, hstate, rfl⟩ |
    ⟨t, spurious, e, -, hpc, -, rfl⟩ | ⟨t, e, -, hpc, rfl⟩ | ⟨t, -, hpc, rfl⟩
  · -- Lock is called
    refine ⟨h.guarded.elsewhere (hout hpc (by simp)) rfl, expected_goto h fun e he => ?_⟩
    cases he
    rfl
  · -- the compare-exchange succeeds, so it has found 0
    have hfree : decide (s.state = 1) = false := by
      rw [hstate, h.expected t e hpc]
      decide
    refine ⟨?_, expected_goto h fun e he => by cases he⟩
    exact h.guarded.advance (Or.inr hfree) rfl rfl
  · -- the compare-exchange fails
    refine ⟨h.guarded.elsewhere (hout hpc (by simp)) rfl, expected_goto h fun e he => ?_⟩
    cases he
  · -- `expected` is reset
    refine ⟨h.guarded.elsewhere (hout hpc (by simp)) rfl, expected_goto h fun e he => ?_⟩
    cases he
    rfl
  · -- Unlock
    refine ⟨?_, expected_goto h fun e he => by cases he⟩
    exact h.guarded.release (by rw [hpc]; rfl) rfl rfl

/-! ## Safety -/

/-- One guard at most is inside, and `_state` shows it; a guard gets inside by a
compare-exchange that finds the lock free, and by no other step. -/
structure Safe (s : St τ) : Prop where
  exclusive : ∀ t u, s.pc t = .inside → s.pc u = .inside → t = u
  state_iff : s.state = 1 ↔ ∃ t, s.pc t = .inside
  through : ∀ t a s', step s a = some s' → s.pc t ≠ .inside → s'.pc t = .inside →
    a = .compareExchange t false ∧ s.state = 0 ∧ ∀ u, s.pc u ≠ .inside
  refused : ∀ t spurious s', step s (.compareExchange t spurious) = some s' →
    spurious = true ∨ s.state = 1 → s'.pc t ≠ .inside ∧ s'.state = s.state

omit [DecidableEq τ] in
theorem Inv.state_iff (h : Inv s) : s.state = 1 ↔ ∃ t, s.pc t = .inside := by
  have hlocked := h.guarded.locked
  rw [decide_eq_true_iff] at hlocked
  rw [hlocked]
  exact exists_congr fun t => holds_iff

/-- The only way in is an exchange on an open lock, which nobody has. -/
theorem Inv.through (h : Inv s) (hstep : step s a = some s') {t : τ} (hout : s.pc t ≠ .inside)
    (hin : s'.pc t = .inside) :
    a = .compareExchange t false ∧ s.state = 0 ∧ ∀ u, s.pc u ≠ .inside := by
  have hsame : ∀ {u : τ} {pc : Pc}, pc ≠ .inside → Function.update s.pc u pc t ≠ .inside := by
    intro u pc hpc
    by_cases htu : t = u
    · rwa [htu, Function.update_self]
    · rwa [Function.update_of_ne htu]
  rcases step_cases hstep with ⟨u, -, -, rfl⟩ | ⟨u, e, rfl, hpc, hstate, rfl⟩ |
    ⟨u, spurious, e, -, -, -, rfl⟩ | ⟨u, e, -, -, rfl⟩ | ⟨u, -, -, rfl⟩
  · -- Lock is called
    exact absurd hin (hsame (by simp))
  · -- the compare-exchange succeeds
    have htu : t = u := by
      by_contra hne
      exact hout ((Function.update_of_ne hne ..).symm.trans hin)
    subst htu
    have hfree : s.state = 0 := hstate.trans (h.expected t e hpc)
    refine ⟨rfl, hfree, fun u hu => ?_⟩
    have hone : s.state = 1 := h.state_iff.mpr ⟨u, hu⟩
    rw [hfree] at hone
    cases hone
  · -- the compare-exchange fails
    exact absurd hin (hsame (by simp))
  · -- `expected` is reset
    exact absurd hin (hsame (by simp))
  · -- Unlock
    exact absurd hin (hsame (by simp))

/-- An exchange that fails leaves the thread outside and the lock as it is. -/
theorem Inv.refused (h : Inv s) {t : τ} {spurious : Bool}
    (hstep : step s (.compareExchange t spurious) = some s')
    (hfails : spurious = true ∨ s.state = 1) : s'.pc t ≠ .inside ∧ s'.state = s.state := by
  rcases step_cases hstep with ⟨u, heq, -⟩ | ⟨u, e, heq, hpc, hstate, -⟩ |
    ⟨u, spurious', e, heq, -, -, rfl⟩ | ⟨u, e, heq, -⟩ | ⟨u, heq, -⟩
  · cases heq
  · -- it would have expected 1
    cases heq
    rcases hfails with hspurious | hone
    · cases hspurious
    · rw [hstate, h.expected t e hpc] at hone
      cases hone
  · cases heq
    refine ⟨?_, rfl⟩
    show Function.update s.pc t (.failed s.state) t ≠ .inside
    rw [Function.update_self]
    simp
  · cases heq
  · cases heq

theorem safe_of_inv (h : Inv s) : Safe s := by
  constructor
  · intro t u ht hu
    exact h.guarded.unique t u (holds_iff.mpr ht) (holds_iff.mpr hu)
  · exact h.state_iff
  · intro t a s' hstep hout hin
    exact h.through hstep hout hin
  · intro t spurious s' hstep hfails
    exact h.refused hstep hfails

theorem lock_safe {acts : List (Act τ)} (hrun : run step init acts = some s) : Safe s :=
  safe_of_inv (run_invariant step (fun _ _ _ hstep h => step_inv hstep h) init_inv hrun)

end

/-- One guard is inside; the other one fails, resets, and fails for no reason
when the lock is free. -/
def contended : List (Act Bool) :=
  [.lock false, .compareExchange false false, .lock true, .compareExchange true false,
    .reset true, .compareExchange true false, .reset true, .unlock false,
    .compareExchange true true, .reset true, .compareExchange true false]

theorem lock_safe_contended :
    ∃ s, run step init contended = some s ∧ s.state = 1 ∧ s.pc false = .outside ∧
      s.pc true = .inside ∧ Safe s := by
  have hvalues : (run step init contended).map (fun s => (s.state, s.pc false, s.pc true)) =
      some (1, .outside, .inside) := rfl
  rcases Option.map_eq_some_iff.mp hvalues with ⟨s, hrun, hs⟩
  rcases Prod.mk.inj hs with ⟨hstate, hpcs⟩
  rcases Prod.mk.inj hpcs with ⟨hfalse, htrue⟩
  exact ⟨s, hrun, hstate, hfalse, htrue, lock_safe hrun⟩

/-! ## The lock of `Lifecycle` -/

section
variable {A : Type*}

/-- Where a call of `Initialize` or `Shutdown` is with its guard. -/
def guardPc : Lifecycle.Pc A → Pc
  | .idle => .outside
  | .initializing _ => .attempt 0
  | .shuttingDown => .attempt 0
  | _ => .inside

/-- `_stateLock`. -/
def spin (s : Lifecycle.St τ A) : St τ := ⟨if s.stateLock then 1 else 0, guardPc ∘ s.pc⟩

theorem guardPc_of_holds {pc : Lifecycle.Pc A} (h : pc.holds = true) : guardPc pc = .inside := by
  cases pc with
  | idle => cases h
  | initializing alloc => cases h
  | shuttingDown => cases h
  | _ => rfl

variable [DecidableEq τ] {s s' : Lifecycle.St τ A}

theorem update_stay {t : τ} {pc : Lifecycle.Pc A} (h : guardPc (s.pc t) = guardPc pc) :
    guardPc ∘ Function.update s.pc t pc = guardPc ∘ s.pc := by
  rw [Function.comp_update, ← h]
  exact Function.update_eq_self t (guardPc ∘ s.pc)

theorem spin_goto (t : τ) (pc : Lifecycle.Pc A) :
    spin (Lifecycle.goto s t pc) = goto (spin s) t (guardPc pc) :=
  congrArg (St.mk _) (Function.comp_update ..)

/-- The guard is constructed, and goes to its first compare-exchange. -/
theorem run_call {t : τ} {pc : Lifecycle.Pc A} (hidle : s.pc t = .idle)
    (hpc : guardPc pc = .attempt 0) :
    run step (spin s) [.lock t] = some (spin (Lifecycle.goto s t pc)) := by
  have hout : (spin s).pc t = .outside := congrArg guardPc hidle
  have hstep : step (spin s) (.lock t) = some (goto (spin s) t (.attempt 0)) := by
    rw [step, hout]
  rw [run_cons, hstep, spin_goto, hpc]
  rfl

/-- An attempt that fails, with the reset behind it, changes nothing; any other
takes the lock. -/
theorem run_attempt {t : τ} {spurious : Bool} {pc : Lifecycle.Pc A}
    (hpc : guardPc (s.pc t) = .attempt 0) (hholds : pc.holds = true) :
    ∃ acts, run step (spin s) acts = some (spin
      (if s.stateLock ∨ spurious then s
        else { Lifecycle.goto s t pc with stateLock := true })) := by
  have hattempt : (spin s).pc t = .attempt 0 := hpc
  by_cases hfails : s.stateLock = true ∨ spurious = true
  · rw [if_pos hfails]
    have hne : ¬ ((spin s).state = 0 ∧ spurious = false) := by
      rintro ⟨hstate, hstrong⟩
      rcases hfails with hlock | hspurious
      · simp [spin, hlock] at hstate
      · rw [hstrong] at hspurious
        cases hspurious
    refine ⟨[.compareExchange t spurious, .reset t], ?_⟩
    simp only [run_cons, run_nil, step, hattempt, if_neg hne, Option.bind_some, goto,
      Function.update_self, Function.update_idem]
    -- the guard is at the same compare-exchange again
    rw [← hattempt, Function.update_eq_self]
  · rw [if_neg hfails]
    rw [not_or, Bool.not_eq_true, Bool.not_eq_true] at hfails
    have hfree : (spin s).state = 0 := by simp [spin, hfails.1]
    have hstep : step (spin s) (.compareExchange t false) =
        some { goto (spin s) t .inside with state := 1 } := by
      rw [step, hattempt]
      exact if_pos ⟨hfree, rfl⟩
    have hpcs : guardPc ∘ Function.update s.pc t pc =
        Function.update (guardPc ∘ s.pc) t .inside := by
      rw [Function.comp_update, guardPc_of_holds hholds]
    refine ⟨[.compareExchange t false], ?_⟩
    rw [run_cons, hstep]
    exact congrArg (fun pc => some (St.mk 1 pc)) hpcs.symm

/-- Every step of `Lifecycle` is steps of the lock. -/
theorem step_spin {a : Lifecycle.Act τ A} (h : Lifecycle.step s a = some s') :
    ∃ acts, run step (spin s) acts = some (spin s') := by
  have hnone : ∀ {v : Lifecycle.St τ A}, spin v = spin s →
      ∃ acts, run step (spin s) acts = some (spin v) := fun hv => ⟨[], congrArg some hv.symm⟩
  cases a with
  | callInitialize t alloc =>
    simp only [Lifecycle.step] at h
    split at h
    · rename_i hpc
      cases h
      have hret : ∀ r, spin (Lifecycle.ret s t r) = spin s := fun r =>
        congrArg (St.mk _) (update_stay (congrArg guardPc hpc))
      unfold Lifecycle.testInactive
      split
      · exact hnone (hret _)
      · cases alloc with
        | none => exact hnone (hret _)
        | some alloc => exact ⟨_, run_call hpc rfl⟩
    · cases h
  | callShutdown t =>
    simp only [Lifecycle.step] at h
    split at h
    · rename_i hpc
      cases h
      exact ⟨_, run_call hpc rfl⟩
    · cases h
  | lock t spurious =>
    simp only [Lifecycle.step] at h
    split at h
    · rename_i alloc hpc
      cases h
      exact run_attempt (congrArg guardPc hpc) rfl
    · rename_i hpc
      cases h
      exact run_attempt (congrArg guardPc hpc) rfl
    · cases h
  | go t =>
    rcases Option.map_eq_some_iff.mp h with ⟨⟨g, next⟩, hcritical, rfl⟩
    have hin := guardPc_of_holds (Lifecycle.critical_holds hcritical)
    cases next with
    | inl pc =>
      have hpc := guardPc_of_holds (Lifecycle.critical_inl hcritical)
      exact hnone (congrArg (St.mk _) (update_stay (hin.trans hpc.symm)))
    | inr r =>
      -- the guard is destroyed
      have hinside : (spin s).pc t = .inside := hin
      have hstep : step (spin s) (.unlock t) =
          some { goto (spin s) t .outside with state := 0 } := by
        rw [step, hinside]
      have hpcs : guardPc ∘ Function.update s.pc t .idle =
          Function.update (guardPc ∘ s.pc) t .outside := Function.comp_update ..
      refine ⟨[.unlock t], ?_⟩
      rw [run_cons, hstep]
      exact congrArg (fun pc => some (St.mk 0 pc)) hpcs.symm
  | background i =>
    rcases Option.map_eq_some_iff.mp h with ⟨g, -, rfl⟩
    exact hnone rfl

/-- In every run of `Lifecycle`, `_stateLock` runs as a spinlock, from the
beginning. -/
theorem run_spin {acts : List (Lifecycle.Act τ A)}
    (hrun : run Lifecycle.step Lifecycle.init acts = some s) :
    ∃ acts', run step init acts' = some (spin s) := by
  have hstep : ∀ (s : Lifecycle.St τ A) a s', Lifecycle.step s a = some s' →
      (∃ acts', run step init acts' = some (spin s)) →
      ∃ acts', run step init acts' = some (spin s') := by
    rintro s a s' hstep ⟨acts₁, hacts₁⟩
    rcases step_spin hstep with ⟨acts₂, hacts₂⟩
    refine ⟨acts₁ ++ acts₂, ?_⟩
    rw [run_append, hacts₁]
    exact hacts₂
  exact run_invariant Lifecycle.step hstep ⟨[], rfl⟩ hrun

end

end Yardstick.Spinlock
