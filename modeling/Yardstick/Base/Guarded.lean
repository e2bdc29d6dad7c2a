import Mathlib.Logic.Function.Basic

/-!
# Guarded — shared state behind one lock

Threads with program points of a type `π` work on a shared state of a type `γ`;
the state is changed by the thread that holds the lock, or by steps from
outside that respect what the threads rely on. A discipline says which program
points hold the lock, what is known there, and what is true while the lock is
free.

* `Inv`: one thread at most holds the lock, and what the discipline says is true;
* `Inv.advance`, `Inv.release`, `Inv.elsewhere`, `Inv.change`: one rule for each
  kind of step.
-/

namespace Guarded

/-- `Phase` is what the holder knows at a program point. -/
structure Discipline (π γ : Type*) where
  holds : π → Bool
  Phase : π → γ → Prop
  Settled : γ → Prop

variable {τ π γ : Type*} {D : Discipline π γ}

/-- The lock and the threads obey the discipline. -/
structure Inv (D : Discipline π γ) (lock : Bool) (g : γ) (pc : τ → π) : Prop where
  unique : ∀ t u, D.holds (pc t) = true → D.holds (pc u) = true → t = u
  locked : lock = true ↔ ∃ t, D.holds (pc t) = true
  phase : ∀ t, D.holds (pc t) = true → D.Phase (pc t) g
  settled : lock = false → D.Settled g

theorem init_inv {g : γ} {p : π} (hp : D.holds p = false) (hg : D.Settled g) :
    Inv D false g (fun _ : τ => p) := by
  refine ⟨?_, ?_, ?_, fun _ => hg⟩
  · intro t u ht
    rw [hp] at ht
    cases ht
  · simp [hp]
  · intro t ht
    rw [hp] at ht
    cases ht

variable {lock : Bool} {g g' : γ} {pc : τ → π}

theorem Inv.not_holds (h : Inv D false g pc) (t : τ) : D.holds (pc t) = false := by
  cases ht : D.holds (pc t) with
  | false => rfl
  | true => exact absurd (h.locked.mpr ⟨t, ht⟩) (by simp)

/-- A step from outside. -/
theorem Inv.change (h : Inv D lock g pc) (hphase : ∀ p, D.Phase p g → D.Phase p g')
    (hsettled : D.Settled g → D.Settled g') : Inv D lock g' pc :=
  ⟨h.unique, h.locked, fun t ht => hphase _ (h.phase t ht), fun hl => hsettled (h.settled hl)⟩

variable [DecidableEq τ]

/-- A thread without the lock moves, and does not take it. -/
theorem Inv.elsewhere (h : Inv D lock g pc) {t : τ} {p : π} (ht : D.holds (pc t) = false)
    (hp : D.holds p = false) : Inv D lock g (Function.update pc t p) := by
  have hsame : ∀ u, D.holds (Function.update pc t p u) = D.holds (pc u) := by
    intro u
    by_cases hu : u = t
    · subst hu
      rw [Function.update_self, hp, ht]
    · rw [Function.update_of_ne hu]
  refine ⟨?_, ?_, ?_, h.settled⟩
  · intro u v hu hv
    rw [hsame] at hu hv
    exact h.unique u v hu hv
  · simp only [hsame]
    exact h.locked
  · intro u hu
    have hne : u ≠ t := by
      rintro rfl
      rw [hsame, ht] at hu
      cases hu
    rw [Function.update_of_ne hne] at hu ⊢
    exact h.phase u hu

/-- The others do not hold the lock. -/
theorem Inv.holds_update (h : Inv D lock g pc) {t : τ} {p : π}
    (ht : D.holds (pc t) = true ∨ lock = false) {u : τ}
    (hu : D.holds (Function.update pc t p u) = true) : u = t := by
  by_contra hne
  rw [Function.update_of_ne hne] at hu
  rcases ht with ht | hfree
  · exact hne (h.unique u t hu ht)
  · subst hfree
    rw [h.not_holds u] at hu
    cases hu

/-- The holder goes on, or a thread takes the free lock. -/
theorem Inv.advance (h : Inv D lock g pc) {t : τ} {p : π}
    (ht : D.holds (pc t) = true ∨ lock = false) (hp : D.holds p = true) (hphase : D.Phase p g') :
    Inv D true g' (Function.update pc t p) := by
  refine ⟨?_, ?_, ?_, ?_⟩
  · intro u v hu hv
    rw [h.holds_update ht hu, h.holds_update ht hv]
  · refine iff_of_true rfl ⟨t, ?_⟩
    rw [Function.update_self]
    exact hp
  · intro u hu
    rw [h.holds_update ht hu, Function.update_self]
    exact hphase
  · intro hfalse
    cases hfalse

/-- The holder gives the lock back. -/
theorem Inv.release (h : Inv D lock g pc) {t : τ} {p : π} (ht : D.holds (pc t) = true)
    (hp : D.holds p = false) (hsettled : D.Settled g') :
    Inv D false g' (Function.update pc t p) := by
  have hnone : ∀ u, D.holds (Function.update pc t p u) ≠ true := by
    intro u hu
    have hut := h.holds_update (Or.inl ht) hu
    subst hut
    rw [Function.update_self, hp] at hu
    cases hu
  refine ⟨fun u v hu => absurd hu (hnone u), ?_, fun u hu => absurd hu (hnone u), fun _ => hsettled⟩
  simp [hnone]

end Guarded
