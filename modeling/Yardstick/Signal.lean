import Mathlib.Logic.Function.Basic
import Yardstick.Base.Runs

/-!
# Signal — Wait and Post with a condition variable

The class as it is where there is no Windows. One thread waits; any number of
threads post. `wait_for` with a predicate is the loop of the standard library: it
evaluates the predicate under the mutex, and while that is false it gives the
mutex back and blocks, in one step. `notify_all` wakes the thread if it is
blocked at that moment; it may also wake for no reason, or at its deadline.

`Post` never takes the mutex. So it may fall between the evaluation of the
predicate and the block.

* `Inv.ready_iff`: between them `_ready` is set exactly if a Post has stored;
* `signal_heard_iff`: no Post is slept through exactly if none falls in between
  as a whole.
-/

namespace Yardstick.Signal

open Runs

variable {τ : Type*}

/-! ## The signal and its threads -/

/-- Where the waiting thread is in `Wait`. -/
inductive WaitPc where
  | idle
  /-- At the constructor of the guard. -/
  | lock
  /-- At the predicate; behind a deadline it is evaluated for the last time. -/
  | test (timedOut : Bool)
  /-- The predicate was false. -/
  | block
  | blocked
  /-- Awake, and without the mutex. -/
  | relock
  /-- At `_ready = false`. -/
  | clear
  /-- At the destructor of the guard. -/
  | unlock
deriving DecidableEq

/-- Where a thread is in `Post`. -/
inductive PostPc where
  | idle
  | store
  /-- At `notify_all`, with how often the predicate had been evaluated when
  `_ready` was stored. -/
  | notify (tests : ℕ)
deriving DecidableEq

/-- The members, the threads, how often the predicate has been evaluated, and for
each Post that has returned how often it had been at its store. -/
structure St (τ : Type*) where
  ready : BitVec 32
  mutex : Bool
  wait : WaitPc
  post : τ → PostPc
  tests : ℕ
  posted : List ℕ

def init : St τ :=
  { ready := 0, mutex := false, wait := .idle, post := fun _ => .idle, tests := 0, posted := [] }

/-- The steps of `Wait`, from its call on, and those of `Post`. `wake` is a wake-up
without a `notify_all`; whether the deadline has been reached is known when the
mutex has been taken again. -/
inductive Act (τ : Type*) where
  | wait
  | lock
  | test
  | block
  | wake
  | relock (timedOut : Bool)
  | clear
  | unlock
  | post (t : τ)
  | store (t : τ)
  | notify (t : τ)
deriving DecidableEq

section
variable [DecidableEq τ]

/-- `notify_all` wakes a thread that is blocked. -/
def WaitPc.notified : WaitPc → WaitPc
  | .blocked => .relock
  | pc => pc

def step (s : St τ) : Act τ → Option (St τ)
  -- Wait
  | .wait => if s.wait = .idle then some { s with wait := .lock } else none
  | .lock =>
    if s.wait = .lock ∧ s.mutex = false then
      some { s with mutex := true, wait := .test false }
    else none
  | .test =>
    match s.wait with
    | .test timedOut =>
      some { s with
        tests := s.tests + 1, wait := if s.ready ≠ 0 ∨ timedOut then .clear else .block }
    | _ => none
  | .block =>
    if s.wait = .block then some { s with mutex := false, wait := .blocked } else none
  | .wake => if s.wait = .blocked then some { s with wait := .relock } else none
  | .relock timedOut =>
    if s.wait = .relock ∧ s.mutex = false then
      some { s with mutex := true, wait := .test timedOut }
    else none
  | .clear => if s.wait = .clear then some { s with ready := 0, wait := .unlock } else none
  | .unlock => if s.wait = .unlock then some { s with mutex := false, wait := .idle } else none
  -- Post
  | .post t =>
    match s.post t with
    | .idle => some { s with post := Function.update s.post t .store }
    | _ => none
  | .store t =>
    match s.post t with
    | .store => some { s with ready := 1, post := Function.update s.post t (.notify s.tests) }
    | _ => none
  | .notify t =>
    match s.post t with
    | .notify n =>
      some { s with
        wait := s.wait.notified, post := Function.update s.post t .idle
        posted := n :: s.posted }
    | _ => none

/-- What a step can do. Most steps of `Wait` move it and nothing but the mutex. -/
theorem step_cases {s s' : St τ} {a : Act τ} (h : step s a = some s') :
    (∃ pc mutex, a ≠ .block ∧ pc ≠ .block ∧ pc ≠ .blocked ∧
      s' = { s with mutex := mutex, wait := pc }) ∨
    (∃ timedOut, a = .test ∧ s.wait = .test timedOut ∧ s' = { s with
      tests := s.tests + 1, wait := if s.ready ≠ 0 ∨ timedOut then .clear else .block }) ∨
    (a = .block ∧ s.wait = .block ∧ s' = { s with mutex := false, wait := .blocked }) ∨
    (a = .clear ∧ s' = { s with ready := 0, wait := .unlock }) ∨
    (∃ t, a = .post t ∧ s.post t = .idle ∧
      s' = { s with post := Function.update s.post t .store }) ∨
    (∃ t, a = .store t ∧ s.post t = .store ∧
      s' = { s with ready := 1, post := Function.update s.post t (.notify s.tests) }) ∨
    (∃ t n, a = .notify t ∧ s.post t = .notify n ∧ s' = { s with
      wait := s.wait.notified, post := Function.update s.post t .idle
      posted := n :: s.posted }) := by
  have hmove : ∀ {pc : WaitPc} {mutex : Bool}, a ≠ .block → pc ≠ .block → pc ≠ .blocked →
      some { s with mutex := mutex, wait := pc } = some s' →
      ∃ pc mutex, a ≠ .block ∧ pc ≠ .block ∧ pc ≠ .blocked ∧
        s' = { s with mutex := mutex, wait := pc } :=
    fun ha hblock hblocked hs' => ⟨_, _, ha, hblock, hblocked, (Option.some.inj hs').symm⟩
  cases a with
  -- the steps of the waiting thread that neither test nor block
  | wait =>
    obtain ⟨-, hs'⟩ := Option.ite_none_right_eq_some.mp h
    exact Or.inl (hmove (by simp) (by simp) (by simp) hs')
  | lock =>
    obtain ⟨-, hs'⟩ := Option.ite_none_right_eq_some.mp h
    exact Or.inl (hmove (by simp) (by simp) (by simp) hs')
  | wake =>
    obtain ⟨-, hs'⟩ := Option.ite_none_right_eq_some.mp h
    exact Or.inl (hmove (by simp) (by simp) (by simp) hs')
  | relock timedOut =>
    obtain ⟨-, hs'⟩ := Option.ite_none_right_eq_some.mp h
    exact Or.inl (hmove (by simp) (by simp) (by simp) hs')
  | unlock =>
    obtain ⟨-, hs'⟩ := Option.ite_none_right_eq_some.mp h
    exact Or.inl (hmove (by simp) (by simp) (by simp) hs')
  -- the predicate of `wait_for`
  | test =>
    simp only [step] at h
    split at h
    · rename_i timedOut hpc
      exact Or.inr (Or.inl ⟨timedOut, rfl, hpc, (Option.some.inj h).symm⟩)
    · cases h
  | block =>
    obtain ⟨hpc, hs'⟩ := Option.ite_none_right_eq_some.mp h
    exact Or.inr (Or.inr (Or.inl ⟨rfl, hpc, (Option.some.inj hs').symm⟩))
  | clear =>
    obtain ⟨-, hs'⟩ := Option.ite_none_right_eq_some.mp h
    exact Or.inr (Or.inr (Or.inr (Or.inl ⟨rfl, (Option.some.inj hs').symm⟩)))
  -- the steps of a Post
  | post t =>
    simp only [step] at h
    split at h
    · rename_i hpc
      have hs' := (Option.some.inj h).symm
      exact Or.inr (Or.inr (Or.inr (Or.inr (Or.inl ⟨t, rfl, hpc, hs'⟩))))
    · cases h
  | store t =>
    simp only [step] at h
    split at h
    · rename_i hpc
      have hs' := (Option.some.inj h).symm
      exact Or.inr (Or.inr (Or.inr (Or.inr (Or.inr (Or.inl ⟨t, rfl, hpc, hs'⟩)))))
    · cases h
  | notify t =>
    simp only [step] at h
    split at h
    · rename_i n hpc
      have hs' := (Option.some.inj h).symm
      exact Or.inr (Or.inr (Or.inr (Or.inr (Or.inr (Or.inr ⟨t, n, rfl, hpc, hs'⟩)))))
    · cases h

end

/-! ## Between the predicate and the block -/

/-- The predicate was false, and has not been evaluated again. -/
def WaitPc.waits (pc : WaitPc) : Prop := pc = .block ∨ pc = .blocked

theorem WaitPc.waits_of_notified {pc : WaitPc} (h : pc.notified.waits) :
    pc.waits ∧ pc.notified = pc := by
  cases pc with
  | block => exact ⟨Or.inl rfl, rfl⟩
  | _ => simp [WaitPc.notified, WaitPc.waits] at h

/-- A Post has stored since the last evaluation of the predicate. -/
def Stored (s : St τ) : Prop := (∃ t, s.post t = .notify s.tests) ∨ s.tests ∈ s.posted

/-- While the thread waits, nothing but a Post sets `_ready`, and nothing clears
it. -/
structure Inv (s : St τ) : Prop where
  ready_iff : s.wait.waits → (s.ready ≠ 0 ↔ Stored s)
  notify_le : ∀ t n, s.post t = .notify n → n ≤ s.tests
  posted_le : ∀ n ∈ s.posted, n ≤ s.tests

theorem init_inv : Inv (init : St τ) := by
  constructor
  · rintro (h | h)
    · cases h
    · cases h
  · intro t n h
    cases h
  · intro n h
    cases h

section
variable [DecidableEq τ] {s s' : St τ} {a : Act τ}

/-- The other Posts are where they were. -/
theorem notify_update {t u : τ} {pc : PostPc} {n : ℕ} (hpc : pc ≠ .notify n)
    (hu : Function.update s.post t pc u = .notify n) : u ≠ t ∧ s.post u = .notify n := by
  by_cases hut : u = t
  · rw [hut, Function.update_self] at hu
    exact absurd hu hpc
  · rw [Function.update_of_ne hut] at hu
    exact ⟨hut, hu⟩

/-- The store of a `Post` sets `_ready`, and the notification is still to come. -/
theorem Inv.store (h : Inv s) (t : τ) :
    Inv { s with ready := 1, post := Function.update s.post t (.notify s.tests) } := by
  constructor
  · intro _
    refine iff_of_true (show (1 : BitVec 32) ≠ 0 by decide) (Or.inl ⟨t, ?_⟩)
    exact Function.update_self ..
  · intro u n hu
    have hpost : Function.update s.post t (.notify s.tests) u = .notify n := hu
    by_cases hut : u = t
    · rw [hut, Function.update_self] at hpost
      cases hpost
      exact Nat.le_refl _
    · rw [Function.update_of_ne hut] at hpost
      exact h.notify_le u n hpost
  · exact h.posted_le

/-- A `Post` that begins has changed nothing yet. -/
theorem Inv.post (h : Inv s) {t : τ} (hpc : s.post t = .idle) :
    Inv { s with post := Function.update s.post t .store } := by
  constructor
  · intro hwaits
    refine (h.ready_iff hwaits).trans (or_congr_left ?_)
    constructor
    · rintro ⟨u, hu⟩
      have hut : u ≠ t := by
        rintro rfl
        rw [hpc] at hu
        cases hu
      exact ⟨u, (Function.update_of_ne hut ..).trans hu⟩
    · rintro ⟨u, hu⟩
      exact ⟨u, (notify_update (by simp) hu).2⟩
  · intro u n hu
    exact h.notify_le u n (notify_update (by simp) hu).2
  · exact h.posted_le

/-- The Post that returns is the one it was. -/
theorem stored_notify {t : τ} {n : ℕ} (hpc : s.post t = .notify n) {pc : WaitPc} :
    Stored { s with
      wait := pc, post := Function.update s.post t .idle, posted := n :: s.posted } ↔ Stored s := by
  constructor
  · rintro (⟨u, hu⟩ | hmem)
    · exact Or.inl ⟨u, (notify_update (by simp) hu).2⟩
    · rcases List.mem_cons.mp hmem with heq | hmem
      · exact Or.inl ⟨t, hpc.trans (congrArg PostPc.notify heq.symm)⟩
      · exact Or.inr hmem
  · rintro (⟨u, hu⟩ | hmem)
    · by_cases hut : u = t
      · subst hut
        rw [hpc] at hu
        cases hu
        exact Or.inr List.mem_cons_self
      · exact Or.inl ⟨u, (Function.update_of_ne hut ..).trans hu⟩
    · exact Or.inr (List.mem_cons_of_mem n hmem)

/-- A notification takes the thread that waits out of its sleep. -/
theorem Inv.notify (h : Inv s) {t : τ} {n : ℕ} (hpc : s.post t = .notify n) :
    Inv { s with
      wait := s.wait.notified, post := Function.update s.post t .idle
      posted := n :: s.posted } := by
  constructor
  · intro hwaits
    exact (h.ready_iff (WaitPc.waits_of_notified hwaits).1).trans (stored_notify hpc).symm
  · intro u m hu
    exact h.notify_le u m (notify_update (by simp) hu).2
  · exact List.forall_mem_cons.mpr ⟨h.notify_le t n hpc, h.posted_le⟩

omit [DecidableEq τ] in
/-- The predicate was false, and no Post has stored since. -/
theorem Inv.test (h : Inv s) (timedOut : Bool) :
    Inv { s with
      tests := s.tests + 1, wait := if s.ready ≠ 0 ∨ timedOut then .clear else .block } := by
  constructor
  · intro hwaits
    have hready : ¬ s.ready ≠ 0 := by
      intro hset
      have hpc : (if s.ready ≠ 0 ∨ timedOut = true then WaitPc.clear else .block).waits := hwaits
      rw [if_pos (Or.inl hset)] at hpc
      rcases hpc with hpc | hpc
      · cases hpc
      · cases hpc
    refine iff_of_false hready ?_
    rintro (⟨t, ht⟩ | hmem)
    · exact Nat.not_succ_le_self _ (h.notify_le t _ ht)
    · exact Nat.not_succ_le_self _ (h.posted_le _ hmem)
  · exact fun t n ht => Nat.le_succ_of_le (h.notify_le t n ht)
  · exact fun n hn => Nat.le_succ_of_le (h.posted_le n hn)

/-- Every step keeps the invariant. -/
theorem step_inv (hstep : step s a = some s') (h : Inv s) : Inv s' := by
  have hgone : ∀ {v : St τ}, ¬ v.wait.waits → v.post = s.post → v.tests = s.tests →
      v.posted = s.posted → Inv v := by
    intro v hwaits hpost htests hposted
    refine ⟨fun hw => absurd hw hwaits, ?_, ?_⟩
    · rw [hpost, htests]
      exact h.notify_le
    · rw [hposted, htests]
      exact h.posted_le
  rcases step_cases hstep with ⟨pc, mutex, -, hblock, hblocked, rfl⟩ | ⟨timedOut, -, -, rfl⟩ |
    ⟨-, hpc, rfl⟩ | ⟨-, rfl⟩ | ⟨t, -, hpc, rfl⟩ | ⟨t, -, -, rfl⟩ | ⟨t, n, -, hpc, rfl⟩
  · -- Wait moves on, and what it changes is the mutex at most
    exact hgone (fun hw => hw.elim hblock hblocked) rfl rfl rfl
  · -- the test of the predicate
    exact h.test timedOut
  · -- Wait blocks
    exact ⟨fun _ => h.ready_iff (Or.inl hpc), h.notify_le, h.posted_le⟩
  · -- the store of 0 to `_ready`
    exact hgone (by simp [WaitPc.waits]) rfl rfl rfl
  · -- the call of Post
    exact h.post hpc
  · -- the store of 1 to `_ready`
    exact h.store t
  · -- `notify_all`
    exact h.notify hpc

end

/-! ## What is heard -/

/-- A thread that is blocked while `_ready` is set is about to be woken: some Post
is between its store and its `notify_all`. -/
def Notified (s : St τ) : Prop := s.wait = .blocked → s.ready ≠ 0 → ∃ t n, s.post t = .notify n

/-- And no Post that has returned since the thread found the predicate false is
slept through. -/
structure Heard (s : St τ) : Prop where
  notified : Notified s
  returned : s.wait = .blocked → s.tests ∉ s.posted

/-- The condition on a step: the thread does not block when a whole Post, its
store and its `notify_all`, has come since it found the predicate false. -/
def NoneBetween (s : St τ) (a : Act τ) : Prop := a = .block → s.tests ∉ s.posted

/-- Likewise, unless another Post has still to notify. -/
def Covered (s : St τ) (a : Act τ) : Prop :=
  a = .block → s.tests ∈ s.posted → ∃ t n, s.post t = .notify n

section
variable [DecidableEq τ] {s s' : St τ} {a : Act τ}

instance (s : St τ) (a : Act τ) : Decidable (NoneBetween s a) := by
  unfold NoneBetween
  infer_instance

/-- A thread that is blocked after a step has blocked by it, or was blocked
before; in that case no Post has returned by it, and none is lost. -/
theorem blocked_of_step (hstep : step s a = some s') (hblocked : s'.wait = .blocked) :
    (a = .block ∧ s.wait = .block ∧ s' = { s with mutex := false, wait := .blocked }) ∨
    (a ≠ .block ∧ s.wait = .blocked ∧ s'.tests = s.tests ∧ s'.posted = s.posted ∧
      ((∃ t n, s'.post t = .notify n) ∨
        s'.ready = s.ready ∧ ∀ t n, s.post t = .notify n → s'.post t = .notify n)) := by
  rcases step_cases hstep with ⟨pc, mutex, -, -, hpc, rfl⟩ | ⟨timedOut, -, -, rfl⟩ |
    ⟨ha, hpc, rfl⟩ | ⟨-, rfl⟩ | ⟨t, rfl, hpc, rfl⟩ | ⟨t, rfl, -, rfl⟩ | ⟨t, n, -, -, rfl⟩
  · -- Wait moves on, and what it changes is the mutex at most
    exact absurd hblocked hpc
  · -- the test of the predicate
    simp only at hblocked
    split at hblocked <;> cases hblocked
  · -- Wait blocks
    exact Or.inl ⟨ha, hpc, rfl⟩
  · -- the store of 0 to `_ready`
    cases hblocked
  · -- the call of Post
    refine Or.inr ⟨by simp, hblocked, rfl, rfl, Or.inr ⟨rfl, fun u n hu => ?_⟩⟩
    have hut : u ≠ t := by
      rintro rfl
      rw [hpc] at hu
      cases hu
    exact (Function.update_of_ne hut ..).trans hu
  · -- the store of 1 to `_ready`
    exact Or.inr ⟨by simp, hblocked, rfl, rfl, Or.inl ⟨t, s.tests, Function.update_self ..⟩⟩
  · -- a thread that was blocked is awake now
    cases hwait : s.wait <;> simp [hwait, WaitPc.notified] at hblocked

/-- The only step after which a blocked thread has no notification coming is a
block that is not covered. -/
theorem notified_of_step (hstep : step s a = some s') (h : Inv s) (hnotified : Notified s) :
    Notified s' ↔ Covered s a := by
  constructor
  · rintro hnotified' rfl hmem
    obtain ⟨hpc, hs'⟩ := Option.ite_none_right_eq_some.mp hstep
    cases hs'
    exact hnotified' rfl ((h.ready_iff (Or.inl hpc)).mpr (Or.inr hmem))
  · intro hcovered hblocked hready
    rcases blocked_of_step hstep hblocked with ⟨ha, hpc, rfl⟩ | ⟨-, hwait, -, -, hpost⟩
    · rcases (h.ready_iff (Or.inl hpc)).mp hready with ⟨t, ht⟩ | hmem
      · exact ⟨t, _, ht⟩
      · exact hcovered ha hmem
    · rcases hpost with hsome | ⟨hsame, hkeep⟩
      · exact hsome
      · rw [hsame] at hready
        rcases hnotified hwait hready with ⟨t, n, ht⟩
        exact ⟨t, n, hkeep t n ht⟩

/-- And a Post is slept through only by a block with a whole Post behind the test.
-/
theorem heard_of_step (hstep : step s a = some s') (h : Inv s) (hheard : Heard s) :
    Heard s' ↔ NoneBetween s a := by
  constructor
  · rintro hheard' rfl
    obtain ⟨hpc, hs'⟩ := Option.ite_none_right_eq_some.mp hstep
    cases hs'
    exact hheard'.returned rfl
  · intro hnone
    constructor
    · refine (notified_of_step hstep h hheard.notified).mpr fun ha hmem => ?_
      exact absurd hmem (hnone ha)
    · intro hblocked
      rcases blocked_of_step hstep hblocked with ⟨ha, -, rfl⟩ | ⟨-, hwait, htests, hposted, -⟩
      · exact hnone ha
      · rw [htests, hposted]
        exact hheard.returned hwait

/-- In a run, the thread is never blocked with `_ready` set and no Post on its way
to `notify_all`, and never sleeps through a Post that has returned, exactly if it
never blocks after a Post that has come as a whole since it found the predicate
false. The former alone is so exactly if some other Post has then still to
notify. -/
theorem signal_heard_iff (acts : List (Act τ)) (s : St τ) (hrun : run step init acts = some s) :
    ((∀ pre u, pre <+: acts → run step init pre = some u → Heard u) ↔
        Along step NoneBetween init acts) ∧
      ((∀ pre u, pre <+: acts → run step init pre = some u → Notified u) ↔
        Along step Covered init acts) := by
  have hnotified : Notified (init : St τ) := fun hblocked => by cases hblocked
  have hheard : Heard (init : St τ) := ⟨hnotified, fun hblocked => by cases hblocked⟩
  constructor
  · exact always_iff_along step (fun _ _ _ hstep h _ => step_inv hstep h)
      (fun _ _ _ hstep h hgood => heard_of_step hstep h hgood) init_inv hheard hrun
  · exact always_iff_along step (fun _ _ _ hstep h _ => step_inv hstep h)
      (fun _ _ _ hstep h hgood => notified_of_step hstep h hgood) init_inv hnotified hrun

end

/-- A Post that stores before the thread blocks and notifies after, and one that
comes as a whole while it is blocked. -/
def awaited : List (Act ℕ) :=
  [.wait, .lock, .post 0, .test, .store 0, .block, .notify 0, .relock false, .test, .clear,
    .unlock, .wait, .lock, .test, .block, .post 1, .store 1, .notify 1]

theorem signal_heard_awaited :
    ∃ s, run step init awaited = some s ∧ s.posted = [3, 1] ∧ s.wait = .relock ∧
      ∀ pre u, pre <+: awaited → run step init pre = some u → Heard u := by
  have hvalues : (run step init awaited).map (fun s => (s.posted, s.wait)) =
      some ([3, 1], .relock) := rfl
  rcases Option.map_eq_some_iff.mp hvalues with ⟨s, hrun, hs⟩
  rcases Prod.mk.inj hs with ⟨hposted, hwait⟩
  have hnone : Along step NoneBetween (init : St ℕ) awaited := by decide
  exact ⟨s, hrun, hposted, hwait, (signal_heard_iff awaited s hrun).1.mpr hnone⟩

/-- The predicate is false, a Post comes and returns, and the thread blocks. -/
theorem signal_slept_through :
    ∃ s : St ℕ, run step init
      [.wait, .lock, .test, .post 0, .store 0, .notify 0, .block] = some s ∧
      s.wait = .blocked ∧ s.ready = 1 ∧ (∀ t, s.post t = .idle) ∧ ¬ Notified s ∧ ¬ Heard s := by
  have hidle : ∀ t : ℕ, Function.update (Function.update (Function.update (fun _ => PostPc.idle) 0
      .store) 0 (.notify 1)) 0 .idle t = .idle := by
    intro t
    rw [Function.update_idem, Function.update_idem]
    exact congrFun (Function.update_eq_self 0 fun _ => PostPc.idle) t
  refine ⟨_, rfl, rfl, rfl, hidle, fun hnotified => ?_, fun hheard => ?_⟩
  · rcases hnotified rfl (by decide) with ⟨t, n, ht⟩
    cases (hidle t).symm.trans ht
  · exact hheard.returned rfl List.mem_cons_self

end Yardstick.Signal
