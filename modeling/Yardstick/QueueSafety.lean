import Yardstick.Base.BoundedFifo
import Yardstick.QueueInvariant

/-!
# QueueSafety — what the ring is for

* `queue_safe`: a slot has one user at a time, and the dequeue with number `n`
  returns the value of the enqueue with number `n`;
* `run_refines_fifo`: the claims alone are the moves of a bounded FIFO;
* `along_timely`, `along_prompt`: what short runs meet.
-/

namespace Yardstick.ConcurrentQueue

open Runs TicketRing BoundedFifo

variable {τ T : Type*} (k : ℕ)

/-! ## Safety -/

/-- The slot of the claim a thread is using. -/
def Pc.place : Pc T → Option ℕ
  | .copy _ target _ => some (slot k target)
  | .store _ target _ _ => some (slot k target)
  | _ => none

/-- The claims of a kind are numbered `0, 1, 2, …`, and no two calls have one
number. A slot is used by one call at a time; an enqueue uses it after the value
a lap before has been returned, a dequeue after its value has been written. The
dequeue with number `n` returns the value of the enqueue with number `n`. -/
structure Safe (s : St τ T) : Prop where
  counters : ∀ kind, counter s kind = BitVec.ofNat 32 (claims s kind)
  numbers : ∀ t u kind n, (s.pc t).holding = some (kind, n) →
    (s.pc u).holding = some (kind, n) → t = u
  claimed : ∀ kind n, n < claims s kind ↔
    done s kind n = true ∨ ∃ t, (s.pc t).holding = some (kind, n)
  unfinished : ∀ t kind n, (s.pc t).holding = some (kind, n) → ¬ done s kind n = true
  places : ∀ t kind n, (s.pc t).holding = some (kind, n) → (s.pc t).place k = some (n % 2 ^ k)
  exclusive : ∀ t u p, (s.pc t).place k = some p → (s.pc u).place k = some p → t = u
  writer : ∀ t n, (s.pc t).holding = some (.enque, n) → ∀ m, m + 2 ^ k = n →
    done s .deque m = true
  reader : ∀ t n, (s.pc t).holding = some (.deque, n) → done s .enque n = true
  returned : ∀ n v, s.results n = some v → s.enqs[n]? = some v
  ahead : claims s .deque ≤ claims s .enque ∧ claims s .enque ≤ claims s .deque + 2 ^ k

section
variable {k} {s : St τ T}

/-- A call that holds a number has the slot of that number. -/
theorem place_of_holding (h : Inv k s) (hk : k ≤ 30) {t : τ} {kind : Kind} {n : ℕ}
    (ht : (s.pc t).holding = some (kind, n)) : (s.pc t).place k = some (n % 2 ^ k) := by
  have hpc := h.threads.pcs t
  cases hp : s.pc t with
  | copy op target m =>
    rw [hp] at ht hpc
    cases ht
    rw [Pc.place, hpc.1, slot_ofNat k hk]
  | store op target m out =>
    rw [hp] at ht hpc
    cases ht
    rw [Pc.place, hpc.1, slot_ofNat k hk]
  | _ =>
    rw [hp] at ht
    cases ht

theorem holding_of_place {pc : Pc T} {p : ℕ} (hp : pc.place k = some p) :
    ∃ kind n, pc.holding = some (kind, n) := by
  cases pc with
  | copy op target n => exact ⟨op.kind, n, rfl⟩
  | store op target n out => exact ⟨op.kind, n, rfl⟩
  | _ => cases hp

/-- A slot has one call at a time. -/
theorem place_exclusive (h : Inv k s) (hk : k ≤ 30) {t u : τ} {p : ℕ}
    (ht : (s.pc t).place k = some p) (hu : (s.pc u).place k = some p) : t = u := by
  rcases holding_of_place ht with ⟨kind, n, hn⟩
  rcases holding_of_place hu with ⟨kind', m, hm⟩
  have hslot : n % 2 ^ k = m % 2 ^ k := by
    rw [place_of_holding h hk hn] at ht
    rw [place_of_holding h hk hm] at hu
    exact Option.some.inj (ht.trans hu.symm)
  have hnm := h.members.valid.exclusive (active_of_holding h hn) (active_of_holding h hm) hslot
  subst hnm
  have hwritten : ∀ v : τ, (s.pc v).holding = some (.deque, n) → s.written n = true := by
    intro v hv
    exact h.members.valid.taken_written n (h.threads.claimed hv).1
  -- a ticket that is being written has no consumer yet
  cases kind with
  | enque =>
    cases kind' with
    | enque => exact h.threads.unique t u _ hn hm
    | deque => exact absurd (hwritten u hm) (h.threads.claimed hn).2
  | deque =>
    cases kind' with
    | enque => exact absurd (hwritten t hn) (h.threads.claimed hm).2
    | deque => exact h.threads.unique t u _ hn hm

/-- Under the invariant no two calls are in the same slot. -/
theorem safe_of_inv (h : Inv k s) (hk : k ≤ 30) : Safe k s := by
  have hahead : claims s .deque ≤ claims s .enque ∧
      claims s .enque ≤ claims s .deque + 2 ^ k :=
    ⟨h.members.valid.takes_le, h.members.valid.claims_le⟩
  constructor
  · exact h.members.counters
  · intro t u kind n ht hu
    exact h.threads.unique t u _ ht hu
  · intro kind n
    -- what is claimed is done, or some call is still at it
    constructor
    · intro hn
      by_cases hdone : done s kind n = true
      · exact Or.inl hdone
      · exact Or.inr (h.threads.held kind n hn hdone)
    · rintro (hdone | ⟨t, ht⟩)
      · exact h.done_lt hdone
      · exact (h.threads.claimed ht).1
  · intro t kind n ht
    exact (h.threads.claimed ht).2
  · intro t kind n ht
    exact place_of_holding h hk ht
  · intro t u p ht hu
    exact place_exclusive h hk ht hu
  · intro t n ht m hm
    -- a claim a lap later was only possible once the slot had been freed
    have hn : m + 2 ^ k < s.enqs.length := hm ▸ (h.threads.claimed ht).1
    exact h.members.valid.reused m hn
  · intro t n ht
    exact h.members.valid.taken_written n (h.threads.claimed ht).1
  · exact h.members.returned
  · exact hahead

variable [DecidableEq τ]

/-! ## A bounded FIFO -/

/-- What a step does to the claims, as moves of a FIFO. -/
theorem step_claims {s' : St τ T} {a : Act τ T} (h : step k s a = some s') :
    ∃ ms : List (Move T), (ms = [] ∨ (∃ v, ms = [.push v]) ∨ ms = [.pop]) ∧
      s'.enqs = s.enqs ++ pushed ms ∧ s'.deqs = s.deqs + pops ms := by
  have hnone : ∀ {q : St τ T}, q.enqs = s.enqs → q.deqs = s.deqs →
      ∃ ms : List (Move T), (ms = [] ∨ (∃ v, ms = [.push v]) ∨ ms = [.pop]) ∧
        q.enqs = s.enqs ++ pushed ms ∧ q.deqs = s.deqs + pops ms := by
    intro q henqs hdeqs
    exact ⟨[], Or.inl rfl, henqs.trans (List.append_nil _).symm, hdeqs⟩
  cases a with
  | call t op =>
    rcases call_cases h with ⟨-, rfl⟩
    exact hnone rfl rfl
  | go t spurious =>
    rcases go_cases h with ⟨op, -, rfl⟩ | ⟨op, target, n, -, rfl⟩ | ⟨op, target, id, n, -, rfl⟩ |
      ⟨op, target, n, -, rfl⟩ | ⟨op, target, n, out, -, rfl⟩
    · -- the load of the counter
      exact hnone rfl rfl
    · -- the load of the sequence number
      exact hnone rfl rfl
    · -- a compare-exchange that succeeds is the move
      rcases exchange_cases s t op target id spurious with ⟨_, _, _, heq⟩ | ⟨_, heq⟩ | ⟨_, heq, _⟩
      · rw [heq]
        cases op with
        | enque value => exact ⟨[.push value], Or.inr (Or.inl ⟨value, rfl⟩), rfl, rfl⟩
        | deque => exact ⟨[.pop], Or.inr (Or.inr rfl), (List.append_nil _).symm, rfl⟩
      · rw [heq]
        exact hnone rfl rfl
      · rw [heq]
        exact hnone rfl rfl
    · -- the copy
      rcases copy_cases (k := k) (s := s) (t := t) op target n with ⟨s₁, out, heq, -, henqs, hdeqs⟩
      rw [heq]
      exact hnone henqs hdeqs
    · -- the store of the sequence number
      cases op with
      | enque value => exact hnone rfl rfl
      | deque => exact hnone rfl rfl

/-- The claims so far are a run of a FIFO of `2 ^ k` values: an enqueue that
claims a number pushes, a dequeue that claims one pops. -/
def Simulates (k : ℕ) (s : St τ T) : Prop :=
  ∃ ms, ∃ q : Fifo T (2 ^ k), run BoundedFifo.step Fifo.empty ms = some q ∧
    pushed ms = s.enqs ∧ pops ms = s.deqs ∧ q.items = s.enqs.drop s.deqs

/-- A step that claims is a push or a pop, and every other step is none. -/
theorem step_simulates {s' : St τ T} {a : Act τ T} (hstep : step k s a = some s')
    (h' : Inv k s') (hsim : Simulates k s) : Simulates k s' := by
  rcases hsim with ⟨ms, q, hrun, hpushed, hpops, hitems⟩
  rcases step_claims hstep with ⟨ms', hms', henqs, hdeqs⟩
  have hlength : q.items.length = s.enqs.length - s.deqs := by rw [hitems, List.length_drop]
  have hpos := Nat.two_pow_pos k
  -- the counters keep their distance, so a push has room and a pop has a value
  have hmove : ∃ q', run BoundedFifo.step q ms' = some q' := by
    have htakes : s'.deqs ≤ s'.enqs.length := h'.members.valid.takes_le
    have hclaims : s'.enqs.length ≤ s'.deqs + 2 ^ k := h'.members.valid.claims_le
    rw [henqs, hdeqs, List.length_append] at htakes hclaims
    rcases hms' with rfl | ⟨v, rfl⟩ | rfl
    · exact ⟨q, rfl⟩
    · simp only [pushed, pops, List.length_cons, List.length_nil] at htakes hclaims
      rcases step_push (show q.items.length < 2 ^ k by omega) v with ⟨q', hq'⟩
      exact ⟨q', by rw [run_cons, hq']; rfl⟩
    · simp only [pushed, pops, List.length_nil] at htakes hclaims
      rcases step_pop (show 0 < q.items.length by omega) with ⟨q', hq'⟩
      exact ⟨q', by rw [run_cons, hq']; rfl⟩
  rcases hmove with ⟨q', hq'⟩
  have hrun' : run BoundedFifo.step (Fifo.empty : Fifo T (2 ^ k)) (ms ++ ms') = some q' := by
    rw [run_append, hrun]
    exact hq'
  have hpushed' : pushed (ms ++ ms') = s'.enqs := by rw [pushed_append, hpushed, henqs]
  have hpops' : pops (ms ++ ms') = s'.deqs := by rw [pops_append, hpops, hdeqs]
  refine ⟨ms ++ ms', q', hrun', hpushed', hpops', ?_⟩
  rw [run_items hrun', hpushed', hpops']

/-- In every run the queue holds what a FIFO would hold. -/
theorem run_refines_fifo (hk1 : 1 ≤ k) (hk : k ≤ 30) {buffer : ℕ → T} {acts : List (Act τ T)}
    (htimely : Along (step k) Timely (init buffer) acts)
    (hrun : run (step k) (init buffer) acts = some s) : Simulates k s := by
  have hstep : ∀ (s : St τ T) (a : Act τ T) (s' : St τ T), Timely s a → step k s a = some s' →
      Inv k s ∧ Simulates k s → Inv k s' ∧ Simulates k s' := by
    intro s a s' ht hs h
    have h' := step_inv hk1 hk s a s' ht hs h.1
    exact ⟨h', step_simulates hs h' h.2⟩
  exact (run_invariant_along (step k) hstep htimely
    ⟨init_inv k buffer, [], Fifo.empty, rfl, rfl, rfl, rfl⟩ hrun).2

/-- Every state of every timely run is safe, and the values leave in the order
of their claims. -/
theorem queue_safe (hk1 : 1 ≤ k) (hk : k ≤ 30) {buffer : ℕ → T} {acts : List (Act τ T)}
    (htimely : Along (step k) Timely (init buffer) acts)
    (hrun : run (step k) (init buffer) acts = some s) : Safe k s ∧ Simulates k s :=
  ⟨safe_of_inv (run_inv hk1 hk htimely hrun) hk, run_refines_fifo hk1 hk htimely hrun⟩

/-! ## Short runs -/

/-- Fewer than `2 ^ 30` claims of its kind lie between the load of the counter
and the end of the round of the loop, in every round. -/
def Prompt (s : St τ T) : Act τ T → Prop
  | .go t _ => ∀ op target id n, s.pc t = .exchange op target id n →
    claims s op.kind - n < 2 ^ 30
  | .call _ _ => True

theorem step_claims_le {s' : St τ T} {a : Act τ T} (h : step k s a = some s') (kind : Kind) :
    claims s' kind ≤ claims s kind + 1 := by
  rcases step_claims h with ⟨ms, rfl | ⟨v, rfl⟩ | rfl, henqs, hdeqs⟩
  · cases kind <;> simp [claims, henqs, hdeqs, pushed, pops]
  · cases kind <;> simp [claims, henqs, hdeqs, pushed, pops]
  · cases kind <;> simp [claims, henqs, hdeqs, pushed, pops]

theorem timely_of_prompt {acts : List (Act τ T)} (h : Along (step k) Prompt s acts) :
    Along (step k) Timely s acts := by
  refine Along.mono (step k) ?_ h
  intro s a hprompt
  cases a with
  | call t op => trivial
  | go t spurious => exact fun op target id n hp _ => hprompt op target id n hp

/-- A run of fewer than `2 ^ 30` accesses is prompt. -/
theorem along_prompt {acts : List (Act τ T)}
    (hlen : ∀ kind, claims s kind + acts.length < 2 ^ 30) : Along (step k) Prompt s acts := by
  induction acts generalizing s with
  | nil => trivial
  | cons a acts ih =>
    constructor
    · cases a with
      | call t op => trivial
      | go t spurious =>
        intro op target id n _
        have hop := hlen op.kind
        omega
    · intro s' hstep
      refine ih ?_
      intro kind
      have hone := step_claims_le hstep kind
      have hkind := hlen kind
      rw [List.length_cons] at hkind
      omega

theorem along_timely {acts : List (Act τ T)}
    (hlen : ∀ kind, claims s kind + acts.length < 2 ^ 30) : Along (step k) Timely s acts :=
  timely_of_prompt (along_prompt hlen)

end

/-- One thread enqueues a value, then another dequeues it. -/
def handOver : List (Act Bool ℕ) :=
  .call false (.enque 7) :: List.replicate 5 (.go false false) ++
    .call true .deque :: List.replicate 5 (.go true false)

theorem queue_safe_handOver :
    ∃ s, run (step 1) (init fun _ => 0) handOver = some s ∧ s.results 0 = some 7 ∧
      Safe 1 s ∧ Simulates 1 s := by
  have hresults : (run (step 1) (init fun _ => 0) handOver).map (fun s => s.results 0) =
      some (some 7) := rfl
  rcases Option.map_eq_some_iff.mp hresults with ⟨s, hrun, hs⟩
  have htimely : Along (step 1) Timely (init fun _ => 0) handOver :=
    along_timely fun kind => by cases kind <;> decide
  exact ⟨s, hrun, hs, queue_safe (by decide) (by decide) htimely hrun⟩

end Yardstick.ConcurrentQueue
