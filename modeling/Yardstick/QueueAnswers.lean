import Yardstick.QueueSafety

/-!
# QueueAnswers — when a call returns, and what it returns

A call decides on two loads, of its counter and of a sequence number.

* `sequence_slt`: the number is behind exactly if the counter has not moved and
  the slot is not ready;
* `calls_return`: a call that runs alone returns, and otherwise it goes round
  its loop at most once for every claim;
* `refused_iff`: a call that returns false has seen the queue full or empty.
-/

namespace Yardstick.ConcurrentQueue

open Runs TicketRing WrappingCounter

variable {τ T : Type*} (k : ℕ)

/-! ## What a sequence number shows -/

section
variable {k} {s : St τ T}

/-- The sequence number of a slot, loaded for a call whose counter was `n`. -/
theorem sequence_shows (h : Inv k s) (hk1 : 1 ≤ k) (hk : k ≤ 30) {op : Op T} {n : ℕ}
    (hn : n ≤ claims s op.kind) :
    ∃ c e, s.sequence (slot k (BitVec.ofNat 32 n)) = BitVec.ofNat 32 c ∧
      op.expected (BitVec.ofNat 32 n) = BitVec.ofNat 32 e ∧ n ≤ e ∧
      c ≤ claims s .deque + 2 ^ k ∧ e ≤ c + 2 ^ k + 1 ∧
      (c < e ↔ claims s op.kind = n ∧ ¬ Ready k s op.kind) := by
  have htwo : 2 ≤ 2 ^ k := Nat.pow_le_pow_right (show 0 < 2 by decide) hk1
  have hvalid := h.members.valid
  have htakes : s.deqs ≤ s.enqs.length := hvalid.takes_le
  rw [slot_ofNat k hk]
  cases op with
  | enque value =>
    -- an enqueue waits for its own number
    rcases h.members.stamps.shown_claim hvalid htwo hn with ⟨c, hc, hlow, hup, hiff⟩
    have hn' : n ≤ s.enqs.length := hn
    have hlow' : s.enqs.length ≤ c + 2 ^ k := hlow
    refine ⟨c, n, hc, rfl, Nat.le_refl n, hup, by omega, hiff.trans ?_⟩
    refine and_congr_right fun hcur => ?_
    rw [← hcur]
    rfl
  | deque =>
    -- a dequeue waits for the number after its own
    rcases h.members.stamps.shown_take hvalid htwo hn with ⟨c, hc, hlow, hup, hiff⟩
    have hn' : n ≤ s.deqs := hn
    have hlow' : s.enqs.length ≤ c + 2 ^ k := hlow
    have hnext : BitVec.ofNat 32 n + 1 = BitVec.ofNat 32 (n + 1) := by
      rw [BitVec.ofNat_add]
      rfl
    refine ⟨c, n + 1, hc, hnext, by omega, hup, by omega, hiff.trans ?_⟩
    refine and_congr_right fun hcur => ?_
    rw [← hcur]
    rfl

/-- The number is behind what the call waits for exactly if the counter has not
moved since its load and the slot is not ready. -/
theorem sequence_slt (h : Inv k s) (hk1 : 1 ≤ k) (hk : k ≤ 30) {op : Op T} {n : ℕ}
    (hn : n ≤ claims s op.kind) (hsince : claims s op.kind - n < 2 ^ 30) :
    (s.sequence (slot k (BitVec.ofNat 32 n)) - op.expected (BitVec.ofNat 32 n)).slt 0 = true ↔
      claims s op.kind = n ∧ ¬ Ready k s op.kind := by
  rcases sequence_shows h hk1 hk hn with ⟨c, e, hc, he, hne, hup, hlow, hiff⟩
  have hS := two_pow_le k hk
  have hahead : claims s .deque ≤ claims s op.kind := by
    cases op with
    | enque value => exact h.members.valid.takes_le
    | deque => exact Nat.le_refl _
  rw [hc, he, ← hiff]
  exact slt_zero_sub (by omega) (by omega)

/-- As long as the counter has not moved, the number is the one the call waits
for, or it is behind. -/
theorem sequence_current (h : Inv k s) (hk1 : 1 ≤ k) (hk : k ≤ 30) (op : Op T) :
    let target := BitVec.ofNat 32 (claims s op.kind)
    s.sequence (slot k target) = op.expected target ∨
      (s.sequence (slot k target) - op.expected target).slt 0 = true := by
  have hvalid := h.members.valid
  by_cases hready : Ready k s op.kind
  · refine Or.inl ?_
    rw [slot_ofNat k hk]
    cases op with
    | enque value => exact h.members.stamps.free _ (Nat.le_refl _) hready
    | deque =>
      have hfull := h.members.stamps.full s.deqs hready
        fun hf => Nat.lt_irrefl _ (hvalid.freed_lt _ hf)
      refine hfull.trans ?_
      rw [BitVec.ofNat_add]
      rfl
  · refine Or.inr ((sequence_slt h hk1 hk (Nat.le_refl _) ?_).mpr ⟨rfl, hready⟩)
    omega

end

/-! ## Where a call comes from -/

section
variable {k} [DecidableEq τ] {s s' : St τ T} {t : τ}

/-- The thread that takes the step. -/
def Act.thread : Act τ T → τ
  | .call t _ => t
  | .go t _ => t

/-- The action does not begin a call of the thread. -/
def Act.Within (t : τ) (a : Act τ T) : Prop := ∀ op, a ≠ .call t op

/-- A step moves its own thread only. -/
theorem step_pc_ne {a : Act τ T} (hstep : step k s a = some s') (ht : t ≠ a.thread) :
    s'.pc t = s.pc t := by
  cases a with
  | call u op =>
    rcases call_cases hstep with ⟨-, rfl⟩
    exact pc_setPc_ne ht
  | go u spurious =>
    have htu : t ≠ u := ht
    rcases go_cases hstep with ⟨op, -, rfl⟩ | ⟨op, target, n, -, rfl⟩ |
      ⟨op, target, id, n, -, rfl⟩ | ⟨op, target, n, -, rfl⟩ | ⟨op, target, n, out, -, rfl⟩
    · -- the load of the counter
      exact pc_setPc_ne htu
    · -- the load of the sequence number
      exact pc_setPc_ne htu
    · -- the compare-exchange
      rcases exchange_cases s u op target id spurious with ⟨_, _, _, heq⟩ | ⟨_, heq⟩ | ⟨_, heq, _⟩
      · rw [heq, pc_setPc_ne htu, pc_claim]
      · rw [heq, pc_setPc_ne htu]
      · rw [heq, pc_setPc_ne htu]
    · -- the copy
      rcases copy_cases (k := k) (s := s) (t := u) op target n with ⟨s₁, out, heq, hpc, -⟩
      rw [heq, pc_setPc_ne htu, hpc]
    · -- the store of the sequence number
      rw [pc_setPc_ne htu, pc_finish]

/-- What a call does from its compare-exchange: it claims, returns false, or goes
round its loop. -/
theorem step_exchange {op : Op T} {target id : BitVec 32} {n : ℕ} {spurious : Bool}
    (hp : s.pc t = .exchange op target id n) (hstep : step k s (.go t spurious) = some s') :
    (id = op.expected target ∧ counter s op.kind = target ∧ spurious = false ∧
        s' = setPc (claim s op target) t (.copy op target (claims s op.kind))) ∨
      ((id - op.expected target).slt 0 = true ∧ s' = setPc s t .idle) ∨
      (¬ (id - op.expected target).slt 0 = true ∧ s' = setPc s t (.load op) ∧
        ¬ (id = op.expected target ∧ counter s op.kind = target ∧ spurious = false)) := by
  simp only [step, hp, Option.some.injEq] at hstep
  subst hstep
  exact exchange_cases s t op target id spurious

/-- A call comes to its compare-exchange from the load of the sequence number. -/
theorem exchange_from {a : Act τ T} (hstep : step k s a = some s') {op : Op T}
    {target id : BitVec 32} {n : ℕ} (hp : s'.pc t = .exchange op target id n) :
    (s.pc t = .exchange op target id n ∨
      s.pc t = .sequence op target n ∧ id = s.sequence (slot k target)) ∧ a.Within t := by
  by_cases ht : t = a.thread
  · cases a with
    | call u op' =>
      have htu : t = u := ht
      subst htu
      rcases call_cases hstep with ⟨-, rfl⟩
      rw [pc_setPc] at hp
      cases hp
    | go u spurious =>
      have htu : t = u := ht
      subst htu
      have hwithin : (Act.go t spurious : Act τ T).Within t := by
        intro op' h
        cases h
      refine ⟨Or.inr ?_, hwithin⟩
      rcases go_cases hstep with ⟨op', -, rfl⟩ | ⟨op', target', n', hq, rfl⟩ |
        ⟨op', target', id', n', hq, -⟩ | ⟨op', target', n', -, rfl⟩ |
        ⟨op', target', n', out, -, rfl⟩
      · -- the load of the counter
        rw [pc_setPc] at hp
        cases hp
      · -- the load of the sequence number
        rw [pc_setPc] at hp
        cases hp
        exact ⟨hq, rfl⟩
      · -- the compare-exchange
        rcases step_exchange hq hstep with ⟨_, _, _, rfl⟩ | ⟨_, rfl⟩ | ⟨_, rfl, _⟩
        · rw [pc_setPc] at hp
          cases hp
        · rw [pc_setPc] at hp
          cases hp
        · rw [pc_setPc] at hp
          cases hp
      · -- the copy
        rcases copy_cases (k := k) (s := s) (t := t) op' target' n' with ⟨s₁, out, heq, -⟩
        rw [heq, pc_setPc] at hp
        cases hp
      · -- the store of the sequence number
        rw [pc_setPc] at hp
        cases hp
  · rw [step_pc_ne hstep ht] at hp
    refine ⟨Or.inl hp, ?_⟩
    rintro op' rfl
    -- the thread would be idle
    rw [step, hp] at hstep
    cases hstep

end

/-! ## Calls return -/

/-- As long as the counter has not moved, the loaded sequence number is the one
the call waits for, or it is behind. -/
def Current (s : St τ T) : Prop :=
  ∀ t op target id n, s.pc t = .exchange op target id n → claims s op.kind = n →
    id = op.expected target ∨ (id - op.expected target).slt 0 = true

section
variable {k} [DecidableEq τ] {s s' : St τ T} {t : τ}

theorem step_claims_mono {a : Act τ T} (hstep : step k s a = some s') (kind : Kind) :
    claims s kind ≤ claims s' kind := by
  rcases step_claims hstep with ⟨ms, _, henqs, hdeqs⟩
  cases kind <;> simp [claims, henqs, hdeqs]

/-- Every step keeps that: a slot is not stamped past the claim that is next. -/
theorem step_current (hk1 : 1 ≤ k) (hk : k ≤ 30) {a : Act τ T} (hstep : step k s a = some s')
    (h : Inv k s) (hcur : Current s) : Current s' := by
  intro t op target id n hp hn
  have hmono := step_claims_mono hstep op.kind
  have hpc := h.threads.pcs t
  rcases exchange_from hstep hp with ⟨hq | ⟨hq, rfl⟩, _⟩
  · rw [hq] at hpc
    have hle := hpc.2.1
    exact hcur t op target id n hq (by omega)
  · -- the counter has not moved before the load of the sequence number either
    rw [hq] at hpc
    rcases hpc with ⟨rfl, hle⟩
    have hold : n = claims s op.kind := by omega
    rw [hold]
    exact sequence_current h hk1 hk _

/-- In every timely run the loaded sequence numbers are current. -/
theorem run_current (hk1 : 1 ≤ k) (hk : k ≤ 30) {buffer : ℕ → T} {acts : List (Act τ T)}
    (htimely : Along (step k) Timely (init buffer) acts)
    (hrun : run (step k) (init buffer) acts = some s) : Inv k s ∧ Current s := by
  have hstep : ∀ (s : St τ T) (a : Act τ T) (s' : St τ T), Timely s a → step k s a = some s' →
      Inv k s ∧ Current s → Inv k s' ∧ Current s' := by
    intro s a s' ht hs h
    exact ⟨step_inv hk1 hk s a s' ht hs h.1, step_current hk1 hk hs h.1 h.2⟩
  have hinit : Current (init (τ := τ) buffer) := by
    intro t op target id n hp
    cases hp
  exact run_invariant_along (step k) hstep htimely ⟨init_inv k buffer, hinit⟩ hrun

/-! ### Alone -/

theorem step_copy {op : Op T} {target : BitVec 32} {n : ℕ} (hp : s.pc t = .copy op target n)
    (spurious : Bool) :
    ∃ s' out, step k s (.go t spurious) = some s' ∧ s'.pc t = .store op target n out := by
  rw [step, hp]
  cases op with
  | enque value => exact ⟨_, _, rfl, pc_setPc⟩
  | deque => exact ⟨_, _, rfl, pc_setPc⟩

theorem run_copy {op : Op T} {target : BitVec 32} {n : ℕ} (hp : s.pc t = .copy op target n)
    (sp sp' : Bool) :
    ∃ s', run (step k) s [.go t sp, .go t sp'] = some s' ∧ s'.pc t = .idle := by
  rcases step_copy (k := k) hp sp with ⟨s₁, out, hs₁, hp₁⟩
  refine ⟨setPc (finish k s₁ op target n out) t .idle, ?_, pc_setPc⟩
  rw [run_cons, hs₁, Option.bind_some, run_cons, step, hp₁]
  rfl

/-- From the load of its counter on, a call that runs alone claims or returns
false in its first round. -/
theorem run_round (h : Inv k s) (hk1 : 1 ≤ k) (hk : k ≤ 30) {op : Op T} (hp : s.pc t = .load op) :
    ∃ s₁ s₂, run (step k) s [.go t false, .go t false] = some s₁ ∧
      step k s₁ (.go t false) = some s₂ ∧ (∃ target id n, s₁.pc t = .exchange op target id n) ∧
      (s₂.pc t = .idle ∨ ∃ target n, s₂.pc t = .copy op target n) := by
  have hcur := sequence_current h hk1 hk op
  rw [← h.members.counters op.kind] at hcur
  let target := counter s op.kind
  let s₀ := setPc s t (.sequence op target (claims s op.kind))
  let s₁ := setPc s₀ t (.exchange op target (s.sequence (slot k target)) (claims s op.kind))
  have h₀ : step k s (.go t false) = some s₀ := by rw [step, hp]
  have h₁ : step k s₀ (.go t false) = some s₁ := by
    rw [step, show s₀.pc t = .sequence op target (claims s op.kind) from pc_setPc]
    rfl
  have hp₁ : s₁.pc t = .exchange op target (s.sequence (slot k target)) (claims s op.kind) :=
    pc_setPc
  have hcounter : counter s₁ op.kind = target := by rw [counter_setPc, counter_setPc]
  have h₂ : ∃ s₂, step k s₁ (.go t false) = some s₂ := by
    rw [step, hp₁]
    exact ⟨_, rfl⟩
  rcases h₂ with ⟨s₂, hs₂⟩
  have hrun : run (step k) s [.go t false, .go t false] = some s₁ := by
    rw [run_cons, h₀, Option.bind_some, run_cons, h₁]
    rfl
  refine ⟨s₁, s₂, hrun, hs₂, ⟨_, _, _, hp₁⟩, ?_⟩
  rcases step_exchange hp₁ hs₂ with ⟨_, _, _, rfl⟩ | ⟨_, rfl⟩ | ⟨hneg, _, hswap⟩
  · exact Or.inr ⟨_, _, pc_setPc⟩
  · exact Or.inl pc_setPc
  · -- the number is neither the one the call waits for nor behind
    rcases hcur with hid | hslt
    · exact absurd ⟨hid, hcounter, rfl⟩ hswap
    · exact absurd hslt hneg

/-- A call that is left alone gets as far as its copy, or returns. -/
theorem run_load (h : Inv k s) (hk1 : 1 ≤ k) (hk : k ≤ 30) {op : Op T} (hp : s.pc t = .load op) :
    ∃ s', run (step k) s [.go t false, .go t false, .go t false] = some s' ∧
      (s'.pc t = .idle ∨ ∃ target n, s'.pc t = .copy op target n) := by
  rcases run_round h hk1 hk hp with ⟨s₁, s₂, hrun, hs₂, _, hpc⟩
  refine ⟨s₂, ?_, hpc⟩
  change run (step k) s ([Act.go t false, Act.go t false] ++ [Act.go t false]) = some s₂
  rw [run_append, hrun, Option.bind_some, run_cons, hs₂]
  rfl

/-- Alone, the call of a thread returns in at most so many steps. -/
def Returns (k : ℕ) (t : τ) (s : St τ T) (most : ℕ) : Prop :=
  ∃ i, i ≤ most ∧ ∃ s', run (step k) s (List.replicate i (.go t false)) = some s' ∧
    s'.pc t = .idle

theorem Returns.step {s₁ : St τ T} {most : ℕ} (hstep : step k s (.go t false) = some s₁)
    (h : Returns k t s₁ most) : Returns k t s (most + 1) := by
  rcases h with ⟨i, hi, s', hrun, hidle⟩
  refine ⟨i + 1, Nat.succ_le_succ hi, s', ?_, hidle⟩
  rw [List.replicate_succ, run_cons, hstep]
  exact hrun

theorem Returns.mono {most most' : ℕ} (h : Returns k t s most) (hle : most ≤ most') :
    Returns k t s most' := by
  rcases h with ⟨i, hi, hrun⟩
  exact ⟨i, Nat.le_trans hi hle, hrun⟩

theorem returns_idle (hp : s.pc t = .idle) : Returns k t s 0 := ⟨0, Nat.le_refl 0, s, rfl, hp⟩

theorem returns_copy {op : Op T} {target : BitVec 32} {n : ℕ} (hp : s.pc t = .copy op target n) :
    Returns k t s 2 := by
  rcases run_copy (k := k) hp false false with ⟨s', hrun, hidle⟩
  exact ⟨2, Nat.le_refl 2, s', hrun, hidle⟩

/-- A call that has loaded nothing yet returns by itself. -/
theorem returns_load (h : Inv k s) (hk1 : 1 ≤ k) (hk : k ≤ 30) {op : Op T}
    (hp : s.pc t = .load op) : Returns k t s 5 := by
  rcases run_load h hk1 hk hp with ⟨s₁, hrun, hp₁ | ⟨target, n, hp₁⟩⟩
  · exact ⟨3, by decide, s₁, hrun, hp₁⟩
  · rcases run_copy (k := k) hp₁ false false with ⟨s₂, hrun₂, hp₂⟩
    refine ⟨5, by decide, s₂, ?_, hp₂⟩
    change run (step k) s ([Act.go t false, Act.go t false, Act.go t false] ++
      [Act.go t false, Act.go t false]) = some s₂
    rw [run_append, hrun]
    exact hrun₂

/-- From the exchange on: a lost exchange goes back to the load, where the counter
is read anew. -/
theorem returns_exchange (h : Inv k s) (hk1 : 1 ≤ k) (hk : k ≤ 30) {op : Op T}
    {target id : BitVec 32} {n : ℕ} (hp : s.pc t = .exchange op target id n) :
    Returns k t s 6 := by
  have hstep : ∃ s₁, step k s (.go t false) = some s₁ := by
    rw [step, hp]
    exact ⟨_, rfl⟩
  rcases hstep with ⟨s₁, hs₁⟩
  refine Returns.step hs₁ ?_
  rcases step_exchange hp hs₁ with ⟨_, _, _, rfl⟩ | ⟨_, rfl⟩ | ⟨_, rfl, _⟩
  · exact (returns_copy pc_setPc).mono (by decide)
  · exact (returns_idle pc_setPc).mono (by decide)
  · -- a stale counter is loaded again
    have hload : Inv k (setPc s t (.load op)) := inv_setPc h trivial (by rw [hp]; rfl)
    exact returns_load hload hk1 hk pc_setPc

/-- Wherever a call has been stopped, alone it returns. -/
theorem returns_within (h : Inv k s) (hk1 : 1 ≤ k) (hk : k ≤ 30) (t : τ) : Returns k t s 7 := by
  cases hp : s.pc t with
  | idle => exact (returns_idle hp).mono (by decide)
  | load op => exact (returns_load h hk1 hk hp).mono (by decide)
  | sequence op target n =>
    have hstep : ∃ s₁, step k s (.go t false) = some s₁ ∧
        s₁ = setPc s t (.exchange op target (s.sequence (slot k target)) n) := by
      rw [step, hp]
      exact ⟨_, rfl, rfl⟩
    rcases hstep with ⟨s₁, hs₁, rfl⟩
    have htimely : Timely s (.go t false) := by
      intro op' target' id' n' hq
      rw [hp] at hq
      cases hq
    exact (returns_exchange (step_inv hk1 hk _ _ _ htimely hs₁ h) hk1 hk pc_setPc).step hs₁
  | exchange op target id n => exact (returns_exchange h hk1 hk hp).mono (by decide)
  | copy op target n => exact (returns_copy hp).mono (by decide)
  | store op target n out =>
    have hstep : step k s (.go t false) = some (setPc (finish k s op target n out) t .idle) := by
      rw [step, hp]
    exact ((returns_idle pc_setPc).step hstep).mono (by decide)

/-! ### Among others -/

/-- How many steps a call takes at most if nothing is claimed. -/
def Pc.rank : Pc T → ℕ
  | .idle => 0
  | .load _ => 5
  | .sequence .. => 4
  | .exchange .. => 3
  | .copy .. => 2
  | .store .. => 1

/-- The call loads the counter of `op` and has last loaded it with `b` claims or
more. -/
def LoadedFrom (op : Op T) (b : ℕ) : Pc T → Prop
  | .load op' => op' = op
  | .sequence op' _ n => op' = op ∧ b ≤ n
  | .exchange op' _ _ n => op' = op ∧ b ≤ n
  | _ => True

/-- A step of the call lowers its rank, or the call goes round its loop and
something has been claimed since the last load. -/
theorem step_rank (h : Inv k s) (hcur : Current s) {op : Op T} {b : ℕ}
    (hb : b ≤ claims s op.kind) (hfrom : LoadedFrom op b (s.pc t))
    (hstep : step k s (.go t false) = some s') :
    ∃ b', b ≤ b' ∧ b' ≤ claims s' op.kind ∧ LoadedFrom op b' (s'.pc t) ∧
      1 + (s'.pc t).rank ≤ (s.pc t).rank + 3 * (b' - b) := by
  have hmono := step_claims_mono hstep op.kind
  have hpc := h.threads.pcs t
  rcases go_cases hstep with ⟨op', hp, rfl⟩ | ⟨op', target, n, hp, rfl⟩ |
    ⟨op', target, id, n, hp, -⟩ | ⟨op', target, n, hp, rfl⟩ | ⟨op', target, n, out, hp, rfl⟩
  · -- the load of the counter
    rw [hp] at hfrom ⊢
    have hop : op' = op := hfrom
    subst hop
    rw [pc_setPc]
    exact ⟨b, Nat.le_refl b, by omega, ⟨rfl, hb⟩, by simp [Pc.rank]⟩
  · -- the load of the sequence number
    rw [hp] at hfrom ⊢
    rw [pc_setPc]
    exact ⟨b, Nat.le_refl b, by omega, hfrom, by simp [Pc.rank]⟩
  · -- the compare-exchange
    rw [hp] at hfrom hpc ⊢
    rcases hfrom with ⟨rfl, hbn⟩
    rcases step_exchange hp hstep with ⟨_, _, _, rfl⟩ | ⟨_, rfl⟩ | ⟨hneg, rfl, hswap⟩
    · -- it claims
      rw [pc_setPc]
      exact ⟨b, Nat.le_refl b, by omega, trivial, by simp [Pc.rank]⟩
    · -- it returns false
      rw [pc_setPc]
      exact ⟨b, Nat.le_refl b, by omega, trivial, by simp [Pc.rank]⟩
    · -- the counter has moved since its load
      have hmoved : n < claims s op'.kind := by
        by_contra hge
        have hn : claims s op'.kind = n := by
          have hle := hpc.2.1
          omega
        rcases hcur t op' target id n hp hn with hid | hslt
        · refine hswap ⟨hid, ?_, rfl⟩
          rw [hpc.1, ← hn]
          exact h.members.counters op'.kind
        · exact hneg hslt
      rw [pc_setPc, claims_setPc]
      refine ⟨claims s op'.kind, hb, Nat.le_refl _, rfl, ?_⟩
      simp only [Pc.rank]
      omega
  · -- the copy
    rcases copy_cases (k := k) (s := s) (t := t) op' target n with ⟨s₁, out, heq, -⟩
    rw [hp]
    rw [heq] at hmono ⊢
    rw [pc_setPc]
    exact ⟨b, Nat.le_refl b, by omega, trivial, by simp [Pc.rank]⟩
  · -- the store of the sequence number
    rw [hp, pc_setPc]
    exact ⟨b, Nat.le_refl b, by omega, trivial, by simp [Pc.rank]⟩

/-- The steps of one call, among any steps of the others, are at most five and
three for every claim of its kind. -/
theorem steps_le (hk1 : 1 ≤ k) (hk : k ≤ 30) {acts : List (Act τ T)} {op : Op T} {b : ℕ}
    (htimely : Along (step k) Timely s acts) (hrun : run (step k) s acts = some s')
    (hwithin : ∀ a ∈ acts, a.Within t)
    (hstrong : ∀ spurious, .go t spurious ∈ acts → spurious = false)
    (h : Inv k s) (hcur : Current s) (hb : b ≤ claims s op.kind)
    (hfrom : LoadedFrom op b (s.pc t)) :
    b ≤ claims s' op.kind ∧
      acts.countP (fun a => a.thread = t) ≤ (s.pc t).rank + 3 * (claims s' op.kind - b) := by
  induction acts generalizing s b with
  | nil =>
    cases hrun
    exact ⟨hb, by simp⟩
  | cons a acts ih =>
    rcases Option.bind_eq_some_iff.mp hrun with ⟨s₁, hs₁, hrest⟩
    have h₁ := step_inv hk1 hk s a s₁ htimely.1 hs₁ h
    have hcur₁ := step_current hk1 hk hs₁ h hcur
    have hwithin₁ : ∀ a ∈ acts, a.Within t := fun a ha => hwithin a (List.mem_cons_of_mem _ ha)
    have hstrong₁ : ∀ spurious, .go t spurious ∈ acts → spurious = false :=
      fun spurious hmem => hstrong spurious (List.mem_cons_of_mem _ hmem)
    have htimely₁ := htimely.2 s₁ hs₁
    by_cases ha : a.thread = t
    · -- a step of the call
      have hgo : a = .go t false := by
        cases a with
        | call u op' =>
          have hut : u = t := ha
          exact absurd (by rw [hut]) (hwithin _ List.mem_cons_self op')
        | go u spurious =>
          have hut : u = t := ha
          subst hut
          rw [hstrong spurious List.mem_cons_self]
      subst hgo
      rcases step_rank h hcur hb hfrom hs₁ with ⟨b', hbb', hb', hfrom', hrank⟩
      rcases ih htimely₁ hrest hwithin₁ hstrong₁ h₁ hcur₁ hb' hfrom' with ⟨hle, hcount⟩
      refine ⟨by omega, ?_⟩
      rw [List.countP_cons_of_pos (by simp [ha])]
      omega
    · -- a step of another thread
      have hmono := step_claims_mono hs₁ op.kind
      have hpc : s₁.pc t = s.pc t := step_pc_ne hs₁ (Ne.symm ha)
      rw [← hpc] at hfrom ⊢
      rw [List.countP_cons_of_neg (by simp [ha])]
      exact ih htimely₁ hrest hwithin₁ hstrong₁ h₁ hcur₁ (by omega) hfrom

/-- From every state in which the others have stopped somewhere: a new call that
runs alone claims or returns at the first evaluation of its loop's conditions,
and then it is done. A call stopped anywhere returns when it runs alone. A call
goes round its loop only for claims of others: its steps are at most five and
three for every claim. -/
theorem calls_return (hk1 : 1 ≤ k) (hk : k ≤ 30) {buffer : ℕ → T} {acts : List (Act τ T)}
    (htimely : Along (step k) Timely (init buffer) acts)
    (hrun : run (step k) (init buffer) acts = some s) :
    (∀ t op, s.pc t = .idle → ∃ s₁,
      run (step k) s [.call t op, .go t false, .go t false, .go t false] = some s₁ ∧
        (s₁.pc t = .idle ∨ ∃ target n, s₁.pc t = .copy op target n ∧ ∀ sp sp', ∃ s₂,
          run (step k) s₁ [.go t sp, .go t sp'] = some s₂ ∧ s₂.pc t = .idle)) ∧
      (∀ t, Returns k t s 7) ∧
      ∀ t op more s', s.pc t = .load op → Along (step k) Timely s more →
        run (step k) s more = some s' → (∀ a ∈ more, a.Within t) →
        (∀ spurious, .go t spurious ∈ more → spurious = false) →
        more.countP (fun a => a.thread = t) ≤ 5 + 3 * (claims s' op.kind - claims s op.kind) := by
  rcases run_current hk1 hk htimely hrun with ⟨h, hcur⟩
  refine ⟨?_, returns_within h hk1 hk, ?_⟩
  · -- a new call that runs alone
    intro t op hp
    have hcall : step k s (.call t op) = some (setPc s t (.load op)) := by rw [step, hp]
    have hload : Inv k (setPc s t (.load op)) := inv_setPc h trivial (by rw [hp]; rfl)
    rcases run_load hload hk1 hk pc_setPc with ⟨s₁, hs₁, hp₁⟩
    refine ⟨s₁, ?_, ?_⟩
    · rw [run_cons, hcall]
      exact hs₁
    · rcases hp₁ with hidle | ⟨target, n, hcopy⟩
      · exact Or.inl hidle
      · exact Or.inr ⟨target, n, hcopy, run_copy hcopy⟩
  · -- a call among others
    intro t op more s' hp hmore hs' hwithin hstrong
    have hfrom : LoadedFrom op (claims s op.kind) (s.pc t) := by
      rw [hp]
      rfl
    have hcount := (steps_le hk1 hk hmore hs' hwithin hstrong h hcur (Nat.le_refl _) hfrom).2
    rw [hp] at hcount
    exact hcount

end

/-- An enqueue stopped behind its claim. -/
def stopped : List (Act Bool ℕ) := .call false (.enque 7) :: List.replicate 3 (.go false false)

/-- From the state in which one thread has stopped in the middle of an `Enque`, the
calls of both return. -/
theorem calls_return_stopped :
    ∃ s, run (step 1) (init fun _ => 0) stopped = some s ∧ s.pc false = .copy (.enque 7) 0 0 ∧
      (∃ s₁, run (step 1) s [.call true .deque, .go true false, .go true false, .go true false] =
        some s₁ ∧ (s₁.pc true = .idle ∨ ∃ target n, s₁.pc true = .copy .deque target n ∧
          ∀ sp sp', ∃ s₂, run (step 1) s₁ [.go true sp, .go true sp'] = some s₂ ∧
            s₂.pc true = .idle)) ∧
      Returns 1 false s 7 := by
  have hpcs : (run (step 1) (init fun _ => 0) stopped).map (fun s => (s.pc false, s.pc true)) =
      some (.copy (.enque 7) 0 0, .idle) := rfl
  rcases Option.map_eq_some_iff.mp hpcs with ⟨s, hrun, hs⟩
  rcases Prod.mk.inj hs with ⟨hcopy, hidle⟩
  have htimely : Along (step 1) Timely (init fun _ => 0) stopped :=
    along_timely fun kind => by cases kind <;> decide
  have hreturn := calls_return (by decide) (by decide) htimely hrun
  exact ⟨s, hrun, hcopy, hreturn.1 true .deque hidle, hreturn.2.1 false⟩

/-! ## What a call that returns has seen -/

/-- What a call of the thread returns by the step between the states. -/
def answer (s s' : St τ T) (t : τ) : Option Bool :=
  match s.pc t, s'.pc t with
  | .exchange .., .idle => some false
  | .store .., .idle => some true
  | _, _ => none

/-- What stands against the call in a state: the counter is at the number `n` of
an enqueue whose value a lap before has not been dequeued to the end, or the next
value to dequeue has not been published. -/
def Against (s : St τ T) (target : BitVec 32) (n : ℕ) : Op T → Prop
  | .enque _ => s.enque = target ∧ claims s .enque = n ∧
    ∃ m, m + 2 ^ k = n ∧ ¬ done s .deque m = true
  | .deque => ¬ done s .enque (claims s .deque) = true

/-- The values whose enqueue has claimed and whose dequeue has not. -/
def queued (s : St τ T) : List T := s.enqs.drop s.deqs

/-- How many values are queued where the call has to fail. -/
def Op.limit : Op T → ℕ
  | .enque _ => 2 ^ k
  | .deque => 0

section
variable {k} [DecidableEq τ] {s s' : St τ T} {t : τ}

omit [DecidableEq τ] in
/-- A slot that is not ready for the next number speaks against the call. -/
theorem against_of_not_ready (h : Inv k s) {op : Op T} {n : ℕ} (hn : claims s op.kind = n)
    (hready : ¬ Ready k s op.kind) : Against k s (BitVec.ofNat 32 n) n op := by
  cases op with
  | enque value =>
    have hn' : s.enqs.length = n := hn
    refine ⟨by rw [← hn]; exact h.members.counters .enque, hn, ?_⟩
    simp only [Op.kind, Ready, Ring.Claimable, not_forall] at hready
    rcases hready with ⟨m, hm, hf⟩
    exact ⟨m, hm.trans hn', hf⟩
  | deque => exact hready

/-- A call whose sequence number is behind has loaded it while the queue was
against it. -/
theorem seen_against (hk1 : 1 ≤ k) (hk : k ≤ 30) {acts : List (Act τ T)} {op : Op T}
    {target id : BitVec 32} {n : ℕ} (halong : Along (step k) Timely s acts) (h : Inv k s)
    (hs : ∀ op target id n, s.pc t ≠ .exchange op target id n)
    (hrun : run (step k) s acts = some s') (hp : s'.pc t = .exchange op target id n)
    (hsince : claims s' op.kind - n < 2 ^ 30) (hneg : (id - op.expected target).slt 0 = true) :
    Seen (step k) (fun u => Inv k u ∧ u.pc t = .sequence op target n ∧ Against k u target n op)
      (Act.Within t) s acts := by
  have hstep : ∀ (u : St τ T) (a : Act τ T) (u' : St τ T), step k u a = some u' → Inv k u →
      u'.pc t = .exchange op target id n ∧ claims u' op.kind - n < 2 ^ 30 →
      ((Inv k u ∧ u.pc t = .sequence op target n ∧ Against k u target n op) ∨
        (u.pc t = .exchange op target id n ∧ claims u op.kind - n < 2 ^ 30)) ∧ a.Within t := by
    rintro u a u' hstep hu ⟨hp', hsince'⟩
    have hmono := step_claims_mono hstep op.kind
    have hlate : claims u op.kind - n < 2 ^ 30 := by omega
    rcases exchange_from hstep hp' with ⟨hq | ⟨hq, rfl⟩, hstay⟩
    · exact ⟨Or.inr ⟨hq, hlate⟩, hstay⟩
    · -- the load of the sequence number
      refine ⟨Or.inl ⟨hu, hq, ?_⟩, hstay⟩
      have hpc := hu.threads.pcs t
      rw [hq] at hpc
      rcases hpc with ⟨rfl, hle⟩
      rcases (sequence_slt hu hk1 hk hle hlate).mp hneg with ⟨hn, hready⟩
      exact against_of_not_ready hu hn hready
  rcases seen_of_run (step k) (step_inv hk1 hk) hstep halong h hrun ⟨hp, hsince⟩ with
    ⟨⟨hq, _⟩, _⟩ | hseen
  · exact absurd hq (hs op target id n)
  · exact hseen

/-- A call returns false from its compare-exchange, with a sequence number that
is behind. -/
theorem answer_false {spurious : Bool} (hstep : step k s (.go t spurious) = some s')
    (h : answer s s' t = some false) :
    ∃ op target id n, s.pc t = .exchange op target id n ∧
      (id - op.expected target).slt 0 = true := by
  cases hp : s.pc t with
  | exchange op target id n =>
    refine ⟨op, target, id, n, rfl, ?_⟩
    rcases step_exchange hp hstep with ⟨_, _, _, rfl⟩ | ⟨hneg, _⟩ | ⟨_, rfl, _⟩
    · simp [answer, hp] at h
    · exact hneg
    · simp [answer, hp] at h
  | store op target n out =>
    rw [answer, hp] at h
    split at h <;> simp_all
  | _ => simp [answer, hp] at h

omit [DecidableEq τ] in
/-- Success is answered only by a call that has copied its value. -/
theorem answer_true (h : answer s s' t = some true) :
    ∃ op target n out, s.pc t = .store op target n out := by
  cases hp : s.pc t with
  | store op target n out => exact ⟨op, target, n, out, rfl⟩
  | exchange op target id n =>
    rw [answer, hp] at h
    split at h <;> simp_all
  | _ => simp [answer, hp] at h

/-! ### Alone -/

/-- What a call that runs alone from `s₀` has claimed. -/
def Mine (s₀ s : St τ T) (op : Op T) : Pc T → Prop
  | .idle => True
  | .load op' => op' = op ∧ ∀ kind, claims s kind = claims s₀ kind
  | .sequence op' _ n | .exchange op' _ _ n =>
    op' = op ∧ n = claims s₀ op.kind ∧ ∀ kind, claims s kind = claims s₀ kind
  | .copy op' _ _ | .store op' _ _ _ =>
    op' = op ∧ ∀ kind, claims s kind = claims s₀ kind + if kind = op.kind then 1 else 0

structure Alone (s₀ : St τ T) (t : τ) (op : Op T) (s : St τ T) : Prop where
  others : ∀ u, u ≠ t → s.pc u = .idle
  mine : Mine s₀ s op (s.pc t)

/-- A call that steps alone changes nothing but what it has claimed itself. -/
theorem step_alone {s₀ : St τ T} {op : Op T} {spurious : Bool} (h : Alone s₀ t op s)
    (hstep : step k s (.go t spurious) = some s') : Alone s₀ t op s' := by
  have hmine := h.mine
  constructor
  · intro u hu
    rw [step_pc_ne hstep hu]
    exact h.others u hu
  · rcases go_cases hstep with ⟨op', hp, rfl⟩ | ⟨op', target, n, hp, rfl⟩ |
      ⟨op', target, id, n, hp, -⟩ | ⟨op', target, n, hp, rfl⟩ | ⟨op', target, n, out, hp, rfl⟩
    · rw [hp] at hmine
      rcases hmine with ⟨rfl, hclaims⟩
      rw [pc_setPc]
      exact ⟨rfl, hclaims _, fun kind => (claims_setPc ..).trans (hclaims kind)⟩
    · rw [hp] at hmine
      rw [pc_setPc]
      exact ⟨hmine.1, hmine.2.1, fun kind => (claims_setPc ..).trans (hmine.2.2 kind)⟩
    · rw [hp] at hmine
      rcases hmine with ⟨rfl, _, hclaims⟩
      rcases step_exchange hp hstep with ⟨_, _, _, rfl⟩ | ⟨_, rfl⟩ | ⟨_, rfl, _⟩
      · -- the call has claimed its number
        rw [pc_setPc]
        refine ⟨rfl, fun kind => ?_⟩
        rw [claims_setPc, ← hclaims]
        cases op' <;> cases kind <;> simp [claims, claim, Op.kind]
      · rw [pc_setPc]
        trivial
      · rw [pc_setPc]
        exact ⟨rfl, fun kind => (claims_setPc ..).trans (hclaims kind)⟩
    · -- the copy claims nothing
      rw [hp] at hmine
      rcases hmine with ⟨rfl, hclaims⟩
      rcases copy_cases (k := k) (s := s) (t := t) op' target n with
        ⟨s₁, out, heq, -, henqs, hdeqs⟩
      rw [heq, pc_setPc]
      refine ⟨rfl, fun kind => ?_⟩
      rw [claims_setPc, ← hclaims]
      cases kind with
      | enque => exact congrArg List.length henqs
      | deque => exact hdeqs
    · rw [pc_setPc]
      trivial

omit [DecidableEq τ] in
/-- Alone, nothing is claimed between the load of the counter and its use. -/
theorem Alone.timely {s₀ : St τ T} {op : Op T} (h : Alone s₀ t op s) (spurious : Bool) :
    Timely s (.go t spurious) := by
  intro op' target id n hp _
  have hmine := h.mine
  rw [hp] at hmine
  rcases hmine with ⟨rfl, hn, hclaims⟩
  rw [hclaims, hn, Nat.sub_self]
  decide

/-- The same for all steps of a call that runs alone. -/
theorem run_alone {s₀ : St τ T} {op : Op T} {acts : List (Act τ T)}
    (hacts : ∀ a ∈ acts, ∃ spurious, a = .go t spurious) (h : Alone s₀ t op s) :
    Along (step k) Timely s acts ∧
      ∀ s', run (step k) s acts = some s' → Alone s₀ t op s' := by
  induction acts generalizing s with
  | nil =>
    refine ⟨trivial, fun s' hrun => ?_⟩
    cases hrun
    exact h
  | cons a acts ih =>
    rcases hacts a List.mem_cons_self with ⟨spurious, rfl⟩
    have hrest : ∀ a ∈ acts, ∃ spurious, a = .go t spurious :=
      fun a ha => hacts a (List.mem_cons_of_mem _ ha)
    refine ⟨⟨h.timely spurious, fun s₁ hs₁ => (ih hrest (step_alone h hs₁)).1⟩, ?_⟩
    intro s' hrun
    rcases Option.bind_eq_some_iff.mp hrun with ⟨s₁, hs₁, hrun'⟩
    exact (ih hrest (step_alone h hs₁)).2 s' hrun'

theorem run_call (hp : s.pc t = .idle) (op : Op T) (acts : List (Act τ T)) :
    run (step k) s (.call t op :: acts) = run (step k) (setPc s t (.load op)) acts := by
  rw [run_cons, step, hp]
  rfl

theorem inv_call (h : Inv k s) (hp : s.pc t = .idle) (op : Op T) :
    Inv k (setPc s t (.load op)) := by
  refine inv_setPc h trivial ?_
  rw [hp]
  rfl

/-- A call that begins while all others are idle is alone. -/
theorem alone_call (hidle : ∀ u, s.pc u = .idle) (t : τ) (op : Op T) :
    Alone s t op (setPc s t (.load op)) := by
  constructor
  · intro u hu
    rw [pc_setPc_ne hu]
    exact hidle u
  · rw [pc_setPc]
    exact ⟨rfl, fun kind => claims_setPc ..⟩

omit [DecidableEq τ] in
theorem mem_map_go (spurs : List Bool) :
    ∀ a ∈ spurs.map (Act.go (T := T) t), ∃ spurious, a = .go t spurious := by
  intro a ha
  rcases List.mem_map.mp ha with ⟨spurious, _, rfl⟩
  exact ⟨spurious, rfl⟩

/-- A call that runs alone, while no other is in progress. -/
theorem solo_call {op : Op T} {spurs : List Bool} (h : Inv k s) (hk1 : 1 ≤ k) (hk : k ≤ 30)
    (hidle : ∀ u, s.pc u = .idle)
    (hrun : run (step k) s (.call t op :: spurs.map (.go t)) = some s') :
    Inv k s' ∧ Alone s t op s' := by
  rw [run_call (hidle t)] at hrun
  have halone := run_alone (k := k) (mem_map_go spurs) (alone_call hidle t op)
  exact ⟨run_invariant_along (step k) (step_inv hk1 hk) halone.1 (inv_call h (hidle t) op) hrun,
    halone.2 s' hrun⟩

/-- A call alone comes to a step that answers, in finitely many steps. -/
theorem call_answers (h : Inv k s) (hk1 : 1 ≤ k) (hk : k ≤ 30) (hp : s.pc t = .idle)
    (op : Op T) :
    ∃ (spurs : List Bool) (s₁ s₂ : St τ T) (b : Bool),
      run (step k) s (.call t op :: spurs.map (.go t)) = some s₁ ∧
      step k s₁ (.go t false) = some s₂ ∧ answer s₁ s₂ t = some b := by
  rcases run_round (inv_call h hp op) hk1 hk pc_setPc with
    ⟨s₁, s₂, hrun, hs₂, ⟨target, id, n, hp₁⟩, hidle | ⟨target', n', hcopy⟩⟩
  · refine ⟨[false, false], s₁, s₂, false, ?_, hs₂, ?_⟩
    · rw [run_call hp]
      exact hrun
    · rw [answer, hp₁, hidle]
  · rcases step_copy (k := k) hcopy false with ⟨s₃, out, hs₃, hp₃⟩
    have hs₄ : ∃ s₄, step k s₃ (.go t false) = some s₄ ∧ s₄.pc t = .idle := by
      rw [step, hp₃]
      exact ⟨_, rfl, pc_setPc⟩
    rcases hs₄ with ⟨s₄, hs₄, hp₄⟩
    refine ⟨[false, false, false, false], s₃, s₄, true, ?_, hs₄, ?_⟩
    · rw [run_call hp]
      change run (step k) _ ([Act.go t false, Act.go t false] ++
        [Act.go t false, Act.go t false]) = some s₃
      rw [run_append, hrun, Option.bind_some, run_cons, hs₂, Option.bind_some, run_cons, hs₃]
      rfl
    · rw [answer, hp₃, hp₄]

/-! ### Full and empty -/

omit [DecidableEq τ] in
/-- With nobody in a claim, all claims are finished. -/
theorem done_of_none_holding (h : Inv k s) (hnone : ∀ u, (s.pc u).holding = none) {kind : Kind}
    {n : ℕ} (hn : n < claims s kind) : done s kind n = true := by
  by_contra hdone
  rcases h.threads.held kind n hn hdone with ⟨u, hu⟩
  rw [hnone u] at hu
  cases hu

omit [DecidableEq τ] in
theorem queued_length : (queued s).length = claims s .enque - claims s .deque :=
  List.length_drop

omit [DecidableEq τ] in
/-- A call that sees nothing but itself, and finds the queue against it, fails on
account of the values that are queued. -/
theorem limit_of_against {u : St τ T} {op : Op T} {target : BitVec 32} {n : ℕ} (hu : Inv k u)
    (halone : Alone s t op u) (hp : u.pc t = .sequence op target n)
    (hagainst : Against k u target n op) : (queued s).length = op.limit k := by
  have hnone : ∀ v, (u.pc v).holding = none := by
    intro v
    by_cases hv : v = t
    · rw [hv, hp]
      rfl
    · rw [halone.others v hv]
      rfl
  have hmine := halone.mine
  rw [hp] at hmine
  have htakes : claims u .deque ≤ claims u .enque := hu.members.valid.takes_le
  have hclaims : claims u .enque ≤ claims u .deque + 2 ^ k := hu.members.valid.claims_le
  rw [queued_length, ← hmine.2.2 .enque, ← hmine.2.2 .deque]
  cases op with
  | enque value =>
    -- the value a lap before has not been dequeued, so a whole lap is queued
    rcases hagainst with ⟨_, hn, m, hm, hdone⟩
    have hge : claims u .deque ≤ m := by
      by_contra hlt
      exact hdone (done_of_none_holding hu hnone (by omega))
    simp only [Op.limit]
    omega
  | deque =>
    -- a value that is claimed has been published, so there is none
    have hge : claims u .enque ≤ claims u .deque := by
      by_contra hlt
      exact hagainst (done_of_none_holding hu hnone (by omega))
    simp only [Op.limit]
    omega

omit [DecidableEq τ] in
/-- A call that has claimed on its own had room, or a value. -/
theorem limit_of_store {u : St τ T} {op : Op T} (hu : Inv k u)
    (hclaimed : ∀ kind, claims u kind = claims s kind + if kind = op.kind then 1 else 0) :
    (queued s).length ≠ op.limit k := by
  have htakes : claims u .deque ≤ claims u .enque := hu.members.valid.takes_le
  have hclaims : claims u .enque ≤ claims u .deque + 2 ^ k := hu.members.valid.claims_le
  have henque := hclaimed .enque
  have hdeque := hclaimed .deque
  have hpos := Nat.two_pow_pos k
  rw [queued_length]
  cases op with
  | enque value =>
    simp only [Op.kind, reduceCtorEq, ↓reduceIte] at henque hdeque
    rw [Op.limit]
    omega
  | deque =>
    simp only [Op.kind, reduceCtorEq, ↓reduceIte] at henque hdeque
    rw [Op.limit]
    omega

/-- A call that runs alone fails exactly if the queue is full, or empty. -/
theorem solo_answer (hk1 : 1 ≤ k) (hk : k ≤ 30) (h : Inv k s) (hidle : ∀ u, s.pc u = .idle)
    {op : Op T} {spurs : List Bool} {s₁ s₂ : St τ T} {spurious b : Bool}
    (hrun : run (step k) s (.call t op :: spurs.map (.go t)) = some s₁)
    (hstep : step k s₁ (.go t spurious) = some s₂) (hb : answer s₁ s₂ t = some b) :
    b = false ↔ (queued s).length = op.limit k := by
  rcases solo_call h hk1 hk hidle hrun with ⟨h₁, halone⟩
  have hmine := halone.mine
  cases b with
  | true =>
    rcases answer_true hb with ⟨op', target, n, out, hp⟩
    rw [hp] at hmine
    simp only [Bool.true_eq_false, false_iff]
    exact limit_of_store h₁ hmine.2
  | false =>
    refine iff_of_true rfl ?_
    rcases answer_false hstep hb with ⟨op', target, id, n, hp, hneg⟩
    rw [hp] at hmine
    rcases hmine with ⟨rfl, hn, hclaims⟩
    have hsince : claims s₁ op'.kind - n < 2 ^ 30 := by
      rw [hclaims, hn, Nat.sub_self]
      decide
    rw [run_call (hidle t)] at hrun
    have hcall := alone_call hidle t op'
    have hload : ∀ op target id n, (setPc s t (.load op')).pc t ≠ .exchange op target id n := by
      intro op target id n
      rw [pc_setPc]
      exact fun heq => nomatch heq
    have htimely := (run_alone (k := k) (mem_map_go spurs) hcall).1
    rcases seen_against hk1 hk htimely (inv_call h (hidle t) op') hload hrun hp hsince hneg with
      ⟨pre, post, u, hsplit, hpre, ⟨hu, hpu, hagainst⟩, _⟩
    -- up to the load of the sequence number the call has run alone
    have hgo' : ∀ a ∈ pre, ∃ spurious, a = .go t spurious := by
      intro a ha
      refine mem_map_go spurs a ?_
      rw [hsplit]
      exact List.mem_append_left post ha
    exact limit_of_against hu ((run_alone hgo' hcall).2 u hpre) hpu hagainst

/-- A call that returns false has, at an instant since it began, loaded its
sequence number while the queue was against it. A call that runs while no other
is in progress returns, and it fails exactly if the queue is full, or empty. -/
theorem refused_iff (hk1 : 1 ≤ k) (hk : k ≤ 30) {buffer : ℕ → T} {acts : List (Act τ T)}
    (hprompt : Along (step k) Prompt (init buffer) acts)
    (hrun : run (step k) (init buffer) acts = some s) :
    (∀ t spurious s', Prompt s (.go t spurious) → step k s (.go t spurious) = some s' →
      answer s s' t = some false → ∃ op target id n, s.pc t = .exchange op target id n ∧
        Seen (step k) (fun u => u.pc t = .sequence op target n ∧ Against k u target n op)
          (Act.Within t) (init buffer) acts) ∧
      ((∀ u, s.pc u = .idle) → ∀ t op,
        (∃ (spurs : List Bool) (s₁ s₂ : St τ T) (b : Bool),
          run (step k) s (.call t op :: spurs.map (.go t)) = some s₁ ∧
            step k s₁ (.go t false) = some s₂ ∧ answer s₁ s₂ t = some b) ∧
        ∀ (spurs : List Bool) (s₁ s₂ : St τ T) (spurious b : Bool),
          run (step k) s (.call t op :: spurs.map (.go t)) = some s₁ →
            step k s₁ (.go t spurious) = some s₂ → answer s₁ s₂ t = some b →
              (b = false ↔ (queued s).length = op.limit k)) := by
  have h := run_inv hk1 hk (timely_of_prompt hprompt) hrun
  constructor
  · -- a call that runs among others
    intro t spurious s' hlast hstep hb
    rcases answer_false hstep hb with ⟨op, target, id, n, hp, hneg⟩
    refine ⟨op, target, id, n, hp, ?_⟩
    have hinit : ∀ op target id n, (init (τ := τ) buffer).pc t ≠ .exchange op target id n :=
      fun op target id n heq => nomatch heq
    rcases seen_against hk1 hk (timely_of_prompt hprompt) (init_inv k buffer) hinit hrun hp
      (hlast op target id n hp) hneg with ⟨pre, post, u, hsplit, hpre, hu, hpost⟩
    exact ⟨pre, post, u, hsplit, hpre, hu.2, hpost⟩
  · -- a call that runs alone
    intro hidle t op
    refine ⟨call_answers h hk1 hk (hidle t) op, ?_⟩
    intro spurs s₁ s₂ spurious b hrun₁ hstep hb
    exact solo_answer hk1 hk h hidle hrun₁ hstep hb

end

/-- Two values in a queue of two. -/
def filled : List (Act Bool ℕ) :=
  .call false (.enque 7) :: List.replicate 5 (.go false false) ++
    .call false (.enque 8) :: List.replicate 5 (.go false false)

/-- A queue of two values that are both taken refuses a third one. -/
theorem refused_iff_filled :
    ∃ s, run (step 1) (init fun _ => 0) filled = some s ∧ queued s = [7, 8] ∧
      ∀ (spurs : List Bool) (s₁ s₂ : St Bool ℕ) (spurious b : Bool),
        run (step 1) s (.call true (.enque 9) :: spurs.map (.go true)) = some s₁ →
          step 1 s₁ (.go true spurious) = some s₂ → answer s₁ s₂ true = some b →
            (b = false ↔ (queued s).length = 2 ^ 1) := by
  have hvalues : (run (step 1) (init fun _ => 0) filled).map
      (fun s => (queued s, s.pc false, s.pc true)) = some ([7, 8], .idle, .idle) := rfl
  rcases Option.map_eq_some_iff.mp hvalues with ⟨s, hrun, hs⟩
  rcases Prod.mk.inj hs with ⟨hqueued, hpcs⟩
  rcases Prod.mk.inj hpcs with ⟨hfalse, htrue⟩
  have hprompt : Along (step 1) Prompt (init fun _ => 0) filled :=
    along_prompt fun kind => by cases kind <;> decide
  have hidle : ∀ u, s.pc u = .idle := Bool.forall_bool.mpr ⟨hfalse, htrue⟩
  have hrefused := refused_iff (by decide) (by decide) hprompt hrun
  exact ⟨s, hrun, hqueued, (hrefused.2 hidle true (.enque 9)).2⟩

end Yardstick.ConcurrentQueue
