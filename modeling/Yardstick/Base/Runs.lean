import Mathlib.Data.List.Basic
import Mathlib.Data.Option.Basic

/-!
# Runs — finite runs of a labelled machine

A machine is a partial step function: `step s l` is the state after the action
`l`, or `none` where `l` cannot happen in `s`. The rules every invariant proof
below goes through:

* `run_invariant`: what the start has and every step preserves holds at the
  end of every run;
* `run_invariant_along`: the same for runs whose steps all meet a condition
  on the state before the step and the action;
* `seen_of_run`: a state whose like comes up in one way only has a past;
* `along_of_invariant`, `along_congr`: what such steps meet on top of it, and
  what is the same condition;
* `replies_simulate`: simulation, for machines that answer every call;
* `run_simulate`: simulation, for machines of which one can do whatever the other
  does;
* `foldl_iff_along`: where one step is known exactly, so is the whole run;
* `always_iff_along`: where it is known exactly which steps keep a state good,
  so is which runs stay good.

The initial parts of a run are runs, so a statement about the end of every run
is one about every state on the way.
-/

namespace Runs

variable {σ ℓ : Type*} (step : σ → ℓ → Option σ)

/-- The state after the given actions, if they can all happen in that order. -/
def run (s : σ) (ls : List ℓ) : Option σ := ls.foldlM step s

@[simp] theorem run_nil (s : σ) : run step s [] = some s := rfl

theorem run_cons (s : σ) (l : ℓ) (ls : List ℓ) :
    run step s (l :: ls) = (step s l).bind fun s' => run step s' ls := rfl

theorem run_append (s : σ) (ls ls' : List ℓ) :
    run step s (ls ++ ls') = (run step s ls).bind fun s' => run step s' ls' :=
  List.foldlM_append

/-- The rule of inductive invariance. -/
theorem run_invariant {Inv : σ → Prop} (hstep : ∀ s l s', step s l = some s' → Inv s → Inv s')
    {s s' : σ} {ls : List ℓ} (hs : Inv s) (hrun : run step s ls = some s') : Inv s' := by
  induction ls generalizing s with
  | nil =>
    cases hrun
    exact hs
  | cons l ls ih =>
    rcases Option.bind_eq_some_iff.mp hrun with ⟨t, ht, hrest⟩
    exact ih (hstep s l t ht hs) hrest

/-! ## Runs whose steps meet a condition -/

/-- Every step of the run from `s` meets `P`. -/
def Along (P : σ → ℓ → Prop) : σ → List ℓ → Prop
  | _, [] => True
  | s, l :: ls => P s l ∧ ∀ s', step s l = some s' → Along P s' ls

@[simp] theorem along_nil (P : σ → ℓ → Prop) (s : σ) : Along step P s [] := trivial

theorem along_cons {P : σ → ℓ → Prop} {s : σ} {l : ℓ} {ls : List ℓ} :
    Along step P s (l :: ls) ↔ P s l ∧ ∀ s', step s l = some s' → Along step P s' ls := Iff.rfl

/-- On a run of a machine that computes. -/
instance decidableAlong {P : σ → ℓ → Prop} [∀ s l, Decidable (P s l)] :
    ∀ s ls, Decidable (Along step P s ls)
  | _, [] => isTrue trivial
  | s, l :: ls =>
    match h : step s l with
    | none => decidable_of_iff (P s l) (by simp [along_cons, h])
    | some t =>
      haveI := decidableAlong (P := P) t ls
      decidable_of_iff (P s l ∧ Along step P t ls) (by simp [along_cons, h])

/-- A condition on the action alone. -/
theorem along_of_forall {P : σ → ℓ → Prop} {s : σ} {ls : List ℓ} (h : ∀ s, ∀ l ∈ ls, P s l) :
    Along step P s ls := by
  induction ls generalizing s with
  | nil => trivial
  | cons l ls ih =>
    exact ⟨h s l List.mem_cons_self, fun s' _ => ih fun u m hm => h u m (List.mem_cons_of_mem l hm)⟩

/-- On a run that ends, it is one on all actions. -/
theorem along_iff_forall {P : ℓ → Prop} {s s' : σ} {ls : List ℓ}
    (hrun : run step s ls = some s') : Along step (fun _ l => P l) s ls ↔ ∀ l ∈ ls, P l := by
  constructor
  · induction ls generalizing s with
    | nil =>
      intro _ l hl
      cases hl
    | cons l ls ih =>
      rintro ⟨hl, hrest⟩
      rcases Option.bind_eq_some_iff.mp hrun with ⟨t, ht, hrun'⟩
      exact List.forall_mem_cons.mpr ⟨hl, ih hrun' (hrest t ht)⟩
  · intro hall
    exact along_of_forall step fun _ => hall

theorem Along.mono {P Q : σ → ℓ → Prop} (himp : ∀ s l, P s l → Q s l) {s : σ} {ls : List ℓ}
    (h : Along step P s ls) : Along step Q s ls := by
  induction ls generalizing s with
  | nil => trivial
  | cons l ls ih => exact ⟨himp s l h.1, fun s' hs' => ih (h.2 s' hs')⟩

/-- What the steps of a run meet, the step behind an initial part of it does. -/
theorem Along.at {P : σ → ℓ → Prop} {s t : σ} {ls ls' : List ℓ} {l : ℓ}
    (h : Along step P s (ls ++ l :: ls')) (hrun : run step s ls = some t) : P t l := by
  induction ls generalizing s with
  | nil =>
    cases hrun
    exact h.1
  | cons m ls ih =>
    rcases Option.bind_eq_some_iff.mp hrun with ⟨u, hu, hrest⟩
    exact ih (h.2 u hu) hrest

/-- Where an invariant of the steps that meet `P` turns `P` into `Q`. -/
theorem along_of_invariant {P Q : σ → ℓ → Prop} {Inv : σ → Prop}
    (hstep : ∀ s l s', P s l → step s l = some s' → Inv s → Inv s')
    (himp : ∀ s l, Inv s → P s l → Q s l) {s : σ} {ls : List ℓ} (hs : Inv s)
    (h : Along step P s ls) : Along step Q s ls := by
  induction ls generalizing s with
  | nil => trivial
  | cons l ls ih =>
    refine ⟨himp s l hs h.1, fun s' hs' => ?_⟩
    exact ih (hstep s l s' h.1 hs' hs) (h.2 s' hs')

/-- Where an invariant of the steps that meet `P` makes `P` and `Q` the same. -/
theorem along_congr {P Q : σ → ℓ → Prop} {Inv : σ → Prop}
    (hstep : ∀ s l s', P s l → step s l = some s' → Inv s → Inv s')
    (hiff : ∀ s l s', step s l = some s' → Inv s → (Q s l ↔ P s l))
    {s s' : σ} {ls : List ℓ} (hs : Inv s) (hrun : run step s ls = some s') :
    Along step Q s ls ↔ Along step P s ls := by
  induction ls generalizing s with
  | nil => simp
  | cons l ls ih =>
    rcases Option.bind_eq_some_iff.mp hrun with ⟨t, ht, hrest⟩
    have honly : ∀ (R : σ → ℓ → Prop), (∀ u, step s l = some u → Along step R u ls) ↔
        Along step R t ls := by
      intro R
      simp [ht]
    rw [along_cons, along_cons, honly, honly, hiff s l t ht hs]
    refine and_congr_right fun hP => ?_
    exact ih (hstep s l t hP ht hs) hrest

/-- Inductive invariance along runs whose steps all meet `P`. -/
theorem run_invariant_along {P : σ → ℓ → Prop} {Inv : σ → Prop}
    (hstep : ∀ s l s', P s l → step s l = some s' → Inv s → Inv s')
    {s s' : σ} {ls : List ℓ} (halong : Along step P s ls) (hs : Inv s)
    (hrun : run step s ls = some s') : Inv s' := by
  induction ls generalizing s with
  | nil =>
    cases hrun
    exact hs
  | cons l ls ih =>
    rcases Option.bind_eq_some_iff.mp hrun with ⟨t, ht, hrest⟩
    exact ih (halong.2 t ht) (hstep s l t halong.1 ht hs) hrest

/-- The run passes through a state with `P`, and all actions behind it are in
`Stay`. -/
def Seen (P : σ → Prop) (Stay : ℓ → Prop) (s : σ) (ls : List ℓ) : Prop :=
  ∃ pre post t, ls = pre ++ post ∧ run step s pre = some t ∧ P t ∧ ∀ l ∈ post, Stay l

/-- If `Q` comes up only by an action in `Stay`, out of `P` or out of `Q`, then a
run that ends in `Q` had it all the time or has seen `P`. -/
theorem seen_of_run {C : σ → ℓ → Prop} {Inv P Q : σ → Prop} {Stay : ℓ → Prop}
    (hinv : ∀ s l s', C s l → step s l = some s' → Inv s → Inv s')
    (hstep : ∀ s l s', step s l = some s' → Inv s → Q s' → (P s ∨ Q s) ∧ Stay l)
    {s s' : σ} {ls : List ℓ} (halong : Along step C s ls) (hs : Inv s)
    (hrun : run step s ls = some s') (hQ : Q s') :
    (Q s ∧ ∀ l ∈ ls, Stay l) ∨ Seen step P Stay s ls := by
  induction ls generalizing s with
  | nil =>
    cases hrun
    exact Or.inl ⟨hQ, fun l hl => nomatch hl⟩
  | cons l ls ih =>
    rcases Option.bind_eq_some_iff.mp hrun with ⟨t, ht, hrest⟩
    rcases ih (halong.2 t ht) (hinv s l t halong.1 ht hs) hrest with
      ⟨hQt, hstay⟩ | ⟨pre, post, u, hsplit, hpre, hu, hpost⟩
    · -- `Q` since the first step
      rcases hstep s l t ht hs hQt with ⟨hs', hl⟩
      have hall : ∀ m ∈ l :: ls, Stay m := List.forall_mem_cons.mpr ⟨hl, hstay⟩
      rcases hs' with hP | hQs
      · exact Or.inr ⟨[], l :: ls, s, rfl, rfl, hP, hall⟩
      · exact Or.inl ⟨hQs, hall⟩
    · refine Or.inr ⟨l :: pre, post, u, by rw [hsplit, List.cons_append], ?_, hu, hpost⟩
      rw [run_cons, ht]
      exact hpre

/-- If the first step that breaks `P` leaves `Bad`, and `Bad` is never left,
then a run that ends outside `Bad` has all its steps meet `P`. -/
theorem along_of_not_bad {P : σ → ℓ → Prop} (Inv Bad : σ → Prop)
    (hgood : ∀ s l s', P s l → step s l = some s' → Inv s → Inv s')
    (hbreak : ∀ s l s', ¬ P s l → step s l = some s' → Inv s → Bad s')
    (hstay : ∀ s l s', step s l = some s' → Bad s → Bad s')
    {s s' : σ} {ls : List ℓ} (hs : Inv s) (hrun : run step s ls = some s') (hs' : ¬ Bad s') :
    Along step P s ls := by
  induction ls generalizing s with
  | nil => trivial
  | cons l ls ih =>
    rcases Option.bind_eq_some_iff.mp hrun with ⟨t, ht, hrest⟩
    have hP : P s l := by
      by_contra hP
      exact hs' (run_invariant step hstay (hbreak s l t hP ht hs) hrest)
    refine ⟨hP, fun u hu => ?_⟩
    have hut : u = t := Option.some.inj (hu.symm.trans ht)
    subst hut
    exact ih (hgood s l u hP hu hs) hrest

/-- A machine that never stops: if every step has `Inv` afterwards exactly when
it had `Inv` before and met `P`, then a run ends in `Inv` exactly when it
started there and all its steps met `P`. -/
theorem foldl_iff_along {f : σ → ℓ → σ} {Inv : σ → Prop} {P : σ → ℓ → Prop}
    (hstep : ∀ s l, Inv (f s l) ↔ Inv s ∧ P s l) (s : σ) (ls : List ℓ) :
    Inv (ls.foldl f s) ↔ Inv s ∧ Along (fun s l => some (f s l)) P s ls := by
  induction ls generalizing s with
  | nil => simp
  | cons l ls ih =>
    rw [List.foldl_cons, ih, hstep, and_assoc]
    simp [along_cons]

/-- If, from a good state, a step leads to a good state exactly when it meets
`P`, then all states a run passes through are good exactly when all its steps
meet `P`. `Aux` is what holds in any case. -/
theorem always_iff_along {Aux Good : σ → Prop} {P : σ → ℓ → Prop}
    (haux : ∀ s l s', step s l = some s' → Aux s → Good s → Aux s')
    (hstep : ∀ s l s', step s l = some s' → Aux s → Good s → (Good s' ↔ P s l))
    {s s' : σ} {ls : List ℓ} (ha : Aux s) (hs : Good s) (hrun : run step s ls = some s') :
    (∀ pre t, pre <+: ls → run step s pre = some t → Good t) ↔ Along step P s ls := by
  induction ls generalizing s with
  | nil =>
    simp only [List.prefix_nil, along_nil, iff_true]
    rintro pre t rfl hpre
    cases hpre
    exact hs
  | cons l ls ih =>
    rcases Option.bind_eq_some_iff.mp hrun with ⟨t, ht, hrest⟩
    -- the states from `t` on are states of the whole run
    have hcut : ∀ pre u, run step t pre = some u → run step s (l :: pre) = some u := by
      intro pre u hpre
      rw [run_cons, ht]
      exact hpre
    constructor
    · intro hall
      have hgood : Good t := hall [l] t (by simp) (hcut [] t rfl)
      refine ⟨(hstep s l t ht ha hs).mp hgood, ?_⟩
      intro u hu
      have hut : u = t := Option.some.inj (hu.symm.trans ht)
      subst hut
      refine (ih (haux s l u ht ha hs) hgood hrest).mp ?_
      intro pre v hpre hv
      exact hall (l :: pre) v (List.cons_prefix_cons.mpr ⟨rfl, hpre⟩) (hcut pre v hv)
    · intro halong pre u hpre hu
      have hgood : Good t := (hstep s l t ht ha hs).mpr halong.1
      cases pre with
      | nil =>
        cases hu
        exact hs
      | cons l' pre =>
        rcases List.cons_prefix_cons.mp hpre with ⟨rfl, hpre'⟩
        have hu' : run step t pre = some u := by
          rw [run_cons, ht] at hu
          exact hu
        exact (ih (haux s l' t ht ha hs) hgood hrest).mpr (halong.2 t ht) pre u hpre' hu'

/-! ## Machines that answer -/

section
variable {τ ω : Type*}

/-- The answers to the given calls, and the state behind them. -/
def replies (f : σ → ℓ → ω × σ) : σ → List ℓ → List ω × σ
  | s, [] => ([], s)
  | s, l :: ls =>
    let r := f s l
    let rest := replies f r.2 ls
    (r.1 :: rest.1, rest.2)

/-- Related states that answer alike and stay related answer alike for ever. -/
theorem replies_simulate {f : σ → ℓ → ω × σ} {g : τ → ℓ → ω × τ} {R : σ → τ → Prop}
    (hstep : ∀ s t l, R s t → (f s l).1 = (g t l).1 ∧ R (f s l).2 (g t l).2) {s : σ} {t : τ}
    (h : R s t) (ls : List ℓ) :
    (replies f s ls).1 = (replies g t ls).1 ∧ R (replies f s ls).2 (replies g t ls).2 := by
  induction ls generalizing s t with
  | nil => exact ⟨rfl, h⟩
  | cons l ls ih =>
    rcases hstep s t l h with ⟨hanswer, hnext⟩
    rcases ih hnext with ⟨hanswers, hend⟩
    exact ⟨congrArg₂ List.cons hanswer hanswers, hend⟩

end

/-! ## Machines of another level -/

/-- A machine that can follow every step of another one can follow its runs. -/
theorem run_simulate {τ κ : Type*} {step' : τ → κ → Option τ} {f : ℓ → κ} {R : σ → τ → Prop}
    (hstep : ∀ s t l s', R s t → step s l = some s' → ∃ t', step' t (f l) = some t' ∧ R s' t')
    {s s' : σ} {t : τ} {ls : List ℓ} (h : R s t) (hrun : run step s ls = some s') :
    ∃ t', run step' t (ls.map f) = some t' ∧ R s' t' := by
  induction ls generalizing s t with
  | nil =>
    cases hrun
    exact ⟨t, rfl, h⟩
  | cons l ls ih =>
    rcases Option.bind_eq_some_iff.mp hrun with ⟨u, hu, hrest⟩
    rcases hstep s t l u h hu with ⟨v, hv, hnext⟩
    rcases ih hnext hrest with ⟨t', hrun', hend⟩
    refine ⟨t', ?_, hend⟩
    rw [List.map_cons, run_cons, hv]
    exact hrun'

end Runs
