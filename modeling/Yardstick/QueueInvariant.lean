import Yardstick.Base.Runs
import Yardstick.ConcurrentQueue

/-!
# QueueInvariant — what holds in every state of the ring

The numbers of the claims are tickets of a `TicketRing`, and the sequence
numbers are its stamps. A slot that was ready when a call loaded its sequence
number is still ready when the compare-exchange succeeds, since nothing has been
claimed in between.

* `Members`: the ring is valid, stamps and contents are right, and the counters
  are the images of the numbers of claims;
* `Threads`: what each call knows, and that an unfinished claim is one call's;
* `step_inv`, `run_inv`: every timely step keeps both.
-/

namespace Yardstick.ConcurrentQueue

open Runs TicketRing WrappingCounter

variable {τ T : Type*} (k : ℕ)

/-! ## The invariant -/

/-- The claims as tickets: an enqueue writes its slot, a dequeue frees it. -/
def ring (s : St τ T) : Ring where
  claims := s.enqs.length
  takes := s.deqs
  Written := fun n => s.written n = true
  Freed := fun n => (s.results n).isSome

/-- The call with the given number has stored its sequence number. -/
def done (s : St τ T) : Kind → ℕ → Bool
  | .enque, n => s.written n
  | .deque, n => (s.results n).isSome

/-- The slot of the next claim is ready for it. -/
def Ready (s : St τ T) : Kind → Prop
  | .enque => (ring s).Claimable (2 ^ k) s.enqs.length
  | .deque => s.written s.deqs = true

/-- The call has claimed `n` and has not finished. -/
structure Owns (s : St τ T) (op : Op T) (n : ℕ) : Prop where
  claimed : n < claims s op.kind
  unfinished : ¬ done s op.kind n = true
  value : ∀ v, op = .enque v → s.enqs[n]? = some v

/-- What a call knows at each of its accesses. -/
def PcOk (s : St τ T) : Pc T → Prop
  | .idle => True
  | .load _ => True
  | .sequence op target n => target = BitVec.ofNat 32 n ∧ n ≤ claims s op.kind
  | .exchange op target id n => target = BitVec.ofNat 32 n ∧ n ≤ claims s op.kind ∧
    (id = op.expected target → claims s op.kind = n → Ready k s op.kind)
  | .copy op target n => target = BitVec.ofNat 32 n ∧ Owns s op n
  | .store op target n out => target = BitVec.ofNat 32 n ∧ Owns s op n ∧
    s.enqs[n]? = some out ∧ (op.kind = .enque → s.buffer (n % 2 ^ k) = out)

/-- What holds of the members of the queue. -/
structure Members (s : St τ T) : Prop where
  valid : Valid (2 ^ k) (ring s)
  stamps : Stamps (BitVec.ofNat 32) (2 ^ k) (ring s) s.sequence
  contents : Contents (2 ^ k) (ring s) (fun n => s.enqs[n]?) s.buffer
  counters : ∀ kind, counter s kind = BitVec.ofNat 32 (claims s kind)
  returned : ∀ n v, s.results n = some v → s.enqs[n]? = some v

/-- What holds of the calls in progress: an unfinished claim is one call's. -/
structure Threads (s : St τ T) : Prop where
  pcs : ∀ t, PcOk k s (s.pc t)
  unique : ∀ t u x, (s.pc t).holding = some x → (s.pc u).holding = some x → t = u
  held : ∀ kind n, n < claims s kind → ¬ done s kind n = true →
    ∃ t, (s.pc t).holding = some (kind, n)

structure Inv (s : St τ T) : Prop where
  members : Members k s
  threads : Threads k s

/-- A queue whose slots have their own indices for sequence numbers is empty. -/
theorem init_inv (buffer : ℕ → T) : Inv k (init (τ := τ) buffer) := by
  have hring : ring (init (τ := τ) buffer) = Ring.empty := by
    simp [ring, init, Ring.empty]
  constructor
  · constructor
    · rw [hring]
      exact valid_empty
    · rw [hring]
      exact stamps_empty fun i _ => rfl
    · rw [hring]
      intro n hn
      cases hn
    · intro kind
      cases kind <;> rfl
    · intro n v hn
      cases hn
  · constructor
    · intro t
      trivial
    · intro t u x ht
      cases ht
    · intro kind n hn
      cases kind <;> cases hn

/-! ## What a step of one call leaves to the others -/

section
variable {k} {s s' : St τ T}

/-- Claims are made and finished, never taken back. -/
structure Extends (s s' : St τ T) : Prop where
  claims_le : ∀ kind, claims s kind ≤ claims s' kind
  enqs_pre : s.enqs <+: s'.enqs
  done_of : ∀ kind n, done s kind n = true → done s' kind n = true

/-- Nothing has happened to claim `n`, nor to the slot it writes. -/
def Keeps (k : ℕ) (s s' : St τ T) (kind : Kind) (n : ℕ) : Prop :=
  done s' kind n = done s kind n ∧
    (kind = .enque → s'.buffer (n % 2 ^ k) = s.buffer (n % 2 ^ k))

theorem Extends.refl (s : St τ T) : Extends s s :=
  ⟨fun _ => Nat.le_refl _, List.prefix_refl _, fun _ _ hn => hn⟩

theorem Extends.getElem? (h : Extends s s') {n : ℕ} {v : T} (hn : s.enqs[n]? = some v) :
    s'.enqs[n]? = some v := by
  rcases h.enqs_pre with ⟨rest, hrest⟩
  have hlt : n < s.enqs.length := (List.getElem?_eq_some_iff.mp hn).1
  rw [← hrest, List.getElem?_append_left hlt]
  exact hn

/-- A ready slot stays ready while nobody claims it. -/
theorem Extends.ready (h : Extends s s') {kind : Kind} (heq : claims s' kind = claims s kind)
    (hready : Ready k s kind) : Ready k s' kind := by
  cases kind with
  | enque =>
    intro m hm
    exact h.done_of .deque m (hready m (hm.trans heq))
  | deque =>
    have hdone := h.done_of .enque s.deqs hready
    have hdeqs : s'.deqs = s.deqs := heq
    rw [Ready, hdeqs]
    exact hdone

/-- A claim is held until the call that made it is done. -/
theorem Extends.owns (h : Extends s s') {op : Op T} {n : ℕ}
    (hdone : done s' op.kind n = done s op.kind n) (howns : Owns s op n) : Owns s' op n := by
  constructor
  · exact Nat.lt_of_lt_of_le howns.claimed (h.claims_le _)
  · rw [hdone]
    exact howns.unfinished
  · intro v hv
    exact h.getElem? (howns.value v hv)

/-- Where a call stands stays right as long as the numbers only grow and nothing
happens to the number it holds. -/
theorem PcOk.mono (h : Extends s s') {pc : Pc T}
    (hkeep : ∀ kind n, pc.holding = some (kind, n) → Keeps k s s' kind n) (hpc : PcOk k s pc) :
    PcOk k s' pc := by
  cases pc with
  | idle => trivial
  | load op => trivial
  | sequence op target n => exact ⟨hpc.1, Nat.le_trans hpc.2 (h.claims_le _)⟩
  | exchange op target id n =>
    refine ⟨hpc.1, Nat.le_trans hpc.2.1 (h.claims_le _), ?_⟩
    intro hid hn
    -- the number has not moved since the load, so nothing has been claimed
    have hle := h.claims_le op.kind
    have hold : claims s op.kind = n := by
      have hload := hpc.2.1
      omega
    exact h.ready (hn.trans hold.symm) (hpc.2.2 hid hold)
  | copy op target n =>
    have hk := hkeep op.kind n rfl
    exact ⟨hpc.1, h.owns hk.1 hpc.2⟩
  | store op target n out =>
    have hk := hkeep op.kind n rfl
    refine ⟨hpc.1, h.owns hk.1 hpc.2.1, h.getElem? hpc.2.2.1, ?_⟩
    intro hkind
    rw [hk.2 hkind]
    exact hpc.2.2.2 hkind

/-- A call holds a number that is claimed and not finished. -/
theorem Threads.claimed (h : Threads k s) {t : τ} {kind : Kind} {n : ℕ}
    (ht : (s.pc t).holding = some (kind, n)) : n < claims s kind ∧ ¬ done s kind n = true := by
  have hpc := h.pcs t
  cases hp : s.pc t with
  | copy op target m =>
    rw [hp] at ht hpc
    cases ht
    exact ⟨hpc.2.claimed, hpc.2.unfinished⟩
  | store op target m out =>
    rw [hp] at ht hpc
    cases ht
    exact ⟨hpc.2.1.claimed, hpc.2.1.unfinished⟩
  | _ =>
    rw [hp] at ht
    cases ht

section
variable [DecidableEq τ]

@[simp] theorem claims_setPc (t : τ) (pc : Pc T) (kind : Kind) :
    claims (setPc s t pc) kind = claims s kind := by
  cases kind <;> rfl

@[simp] theorem done_setPc (t : τ) (pc : Pc T) (kind : Kind) (n : ℕ) :
    done (setPc s t pc) kind n = done s kind n := by
  cases kind <;> rfl

@[simp] theorem counter_setPc (t : τ) (pc : Pc T) (kind : Kind) :
    counter (setPc s t pc) kind = counter s kind := by
  cases kind <;> rfl

/-- Where a thread is does not matter to another. -/
theorem pcOk_setPc {t : τ} {pc pc' : Pc T} (h : PcOk k s pc') : PcOk k (setPc s t pc) pc' := by
  have hext : Extends s (setPc s t pc) := by
    constructor
    · intro kind
      exact Nat.le_of_eq (claims_setPc t pc kind).symm
    · exact List.prefix_refl _
    · intro kind n hn
      rw [done_setPc]
      exact hn
  refine PcOk.mono hext ?_ h
  intro kind n _
  exact ⟨done_setPc t pc kind n, fun _ => rfl⟩

theorem members_setPc {t : τ} {pc : Pc T} (h : Members k s) : Members k (setPc s t pc) := by
  refine ⟨h.valid, h.stamps, h.contents, ?_, h.returned⟩
  intro kind
  rw [counter_setPc, claims_setPc]
  exact h.counters kind

/-- One thread moves: what the others know is kept, and every unfinished claim
stays with its call. -/
theorem Threads.move (h : Threads k s) {t : τ} {pc : Pc T} (hsame : s'.pc = s.pc)
    (hext : Extends s s')
    (hkeep : ∀ u kind n, u ≠ t → (s.pc u).holding = some (kind, n) → Keeps k s s' kind n)
    (hpc : PcOk k s' pc)
    (hnew : ∀ u x, u ≠ t → pc.holding = some x → (s.pc u).holding ≠ some x)
    (hheld : ∀ kind n, n < claims s' kind → ¬ done s' kind n = true →
      pc.holding ≠ some (kind, n) → n < claims s kind ∧ (s.pc t).holding ≠ some (kind, n)) :
    Threads k (setPc s' t pc) := by
  have hself : (setPc s' t pc).pc t = pc := Function.update_self ..
  have hother : ∀ u, u ≠ t → (setPc s' t pc).pc u = s.pc u := by
    intro u hu
    rw [← hsame]
    exact Function.update_of_ne hu ..
  constructor
  · -- what the calls know
    intro u
    by_cases hu : u = t
    · rw [hu, hself]
      exact pcOk_setPc hpc
    · rw [hother u hu]
      exact pcOk_setPc (PcOk.mono hext (fun kind n => hkeep u kind n hu) (h.pcs u))
  · -- one claim, one call
    intro u w x hux hwx
    by_cases hu : u = t
    · by_cases hw : w = t
      · rw [hu, hw]
      · rw [hu, hself] at hux
        rw [hother w hw] at hwx
        exact absurd hwx (hnew w x hw hux)
    · rw [hother u hu] at hux
      by_cases hw : w = t
      · rw [hw, hself] at hwx
        exact absurd hux (hnew u x hu hwx)
      · rw [hother w hw] at hwx
        exact h.unique u w x hux hwx
  · -- an unfinished claim is still with its call
    intro kind n hn hdone
    rw [claims_setPc] at hn
    rw [done_setPc] at hdone
    by_cases hx : pc.holding = some (kind, n)
    · refine ⟨t, ?_⟩
      rw [hself]
      exact hx
    · rcases hheld kind n hn hdone hx with ⟨hlt, ht⟩
      rcases h.held kind n hlt (fun hold => hdone (hext.done_of kind n hold)) with ⟨u, hu⟩
      have hut : u ≠ t := by
        rintro rfl
        exact ht hu
      refine ⟨u, ?_⟩
      rw [hother u hut]
      exact hu

end

end

/-! ## Steps keep the invariant -/

section
variable {k} {s : St τ T} {t : τ}

theorem Inv.done_lt (h : Inv k s) {kind : Kind} {n : ℕ} (hn : done s kind n = true) :
    n < claims s kind := by
  cases kind with
  | enque => exact h.members.valid.written_lt n hn
  | deque => exact h.members.valid.freed_lt n hn

/-- A claim in use is a ticket that is active in its slot. -/
theorem active_of_holding (h : Inv k s) {t : τ} {kind : Kind} {n : ℕ}
    (ht : (s.pc t).holding = some (kind, n)) : (ring s).Active n := by
  have hclaimed := h.threads.claimed ht
  cases kind with
  | enque => exact h.members.valid.active_of_not_written hclaimed.1 hclaimed.2
  | deque =>
    exact h.members.valid.active_of_written (h.members.valid.taken_written n hclaimed.1) hclaimed.2

/-- A claim takes the next number of its kind: the counter moves on, no slot
changes. -/
theorem members_claim (h : Members k s) {op : Op T} {target : BitVec 32}
    (htarget : counter s op.kind = target) (hready : Ready k s op.kind) :
    Members k (claim s op target) := by
  cases op with
  | enque value =>
    have hring : ring (claim s (.enque value) target) = (ring s).claim := by
      simp [ring, claim, Ring.claim]
    have hcount : counter s .enque = BitVec.ofNat 32 s.enqs.length := h.counters .enque
    constructor
    · rw [hring]
      exact h.valid.claim hready
    · rw [hring]
      exact h.stamps.claim hready
    · rw [hring]
      intro n hn hf
      -- the value appended is not one of those written
      have hlt := h.valid.written_lt n hn
      exact (List.getElem?_append_left hlt).trans (h.contents n hn hf)
    · intro kind
      cases kind with
      | enque =>
        have hlen : (s.enqs ++ [value]).length = s.enqs.length + 1 := by simp
        have hnext : target + 1 = BitVec.ofNat 32 (s.enqs.length + 1) := by
          rw [BitVec.ofNat_add, ← hcount, ← htarget]
          rfl
        change target + 1 = BitVec.ofNat 32 (s.enqs ++ [value]).length
        rw [hlen, hnext]
      | deque => exact h.counters .deque
    · intro n v hn
      have hold := h.returned n v hn
      have hlt := (List.getElem?_eq_some_iff.mp hold).1
      exact (List.getElem?_append_left hlt).trans hold
  | deque =>
    have hcount : counter s .deque = BitVec.ofNat 32 s.deqs := h.counters .deque
    constructor
    · exact h.valid.take hready
    · exact h.stamps.take
    · exact h.contents
    · intro kind
      cases kind with
      | enque => exact h.counters .enque
      | deque =>
        change target + 1 = BitVec.ofNat 32 (s.deqs + 1)
        rw [BitVec.ofNat_add, ← hcount, ← htarget]
        rfl
    · exact h.returned

/-- The value that is put into a slot is that of the ticket. -/
theorem members_put (h : Members k s) (hk : k ≤ 30) {value : T} {n : ℕ}
    (howns : Owns s (.enque value) n) :
    Members k (put k s (BitVec.ofNat 32 n) value) := by
  have hw : ¬ s.written n = true := howns.unfinished
  have hcontents := h.contents.write h.valid howns.claimed hw value
  rw [← slot_ofNat k hk n] at hcontents
  refine ⟨h.valid, h.stamps, hcontents, ?_, h.returned⟩
  intro kind
  cases kind with
  | enque => exact h.counters .enque
  | deque => exact h.counters .deque

/-- A call that finishes stamps its slot: an enqueue publishes its value for the
dequeue of the same number, a dequeue releases the slot for the next round. -/
theorem members_finish (h : Members k s) (hk : k ≤ 30) {op : Op T} {n : ℕ} {out : T}
    (howns : Owns s op n) (hout : s.enqs[n]? = some out)
    (hbuffer : op.kind = .enque → s.buffer (n % 2 ^ k) = out) :
    Members k (finish k s op (BitVec.ofNat 32 n) n out) := by
  cases op with
  | enque value =>
    have hw : ¬ s.written n = true := howns.unfinished
    have hring : ring (finish k s (.enque value) (BitVec.ofNat 32 n) n out) =
        (ring s).publish n := by
      simp [ring, finish, Ring.publish, Function.update_apply, or_comm]
    constructor
    · rw [hring]
      exact h.valid.publish howns.claimed
    · rw [hring]
      have hstamps := h.stamps.publish h.valid howns.claimed hw
      rw [← slot_ofNat k hk n, BitVec.ofNat_add] at hstamps
      exact hstamps
    · rw [hring]
      rintro m (hm | rfl) hf
      · exact h.contents m hm hf
      · -- the value copied is there
        rw [← hbuffer rfl] at hout
        exact hout
    · intro kind
      cases kind with
      | enque => exact h.counters .enque
      | deque => exact h.counters .deque
    · exact h.returned
  | deque =>
    have hf : ¬ (s.results n).isSome = true := howns.unfinished
    have hring : ring (finish k s .deque (BitVec.ofNat 32 n) n out) = (ring s).release n := by
      simp only [ring, finish, Ring.release, Function.update_apply, Ring.mk.injEq, true_and]
      funext m
      by_cases hm : m = n <;> simp [hm]
    constructor
    · rw [hring]
      exact h.valid.release howns.claimed
    · rw [hring]
      have hstamps := h.stamps.release h.valid howns.claimed hf
      rw [← slot_ofNat k hk n, ← next_lap k n] at hstamps
      exact hstamps
    · rw [hring]
      intro m hm hf'
      exact h.contents m hm fun hf'' => hf' (Or.inl hf'')
    · intro kind
      cases kind with
      | enque => exact h.counters .enque
      | deque => exact h.counters .deque
    · intro m v hm
      by_cases hmn : m = n
      · -- the value returned is the one with its number
        rw [hmn] at hm ⊢
        rw [show (finish k s .deque (BitVec.ofNat 32 n) n out).results n = some out from
          Function.update_self ..] at hm
        rw [← hm]
        exact hout
      · rw [show (finish k s .deque (BitVec.ofNat 32 n) n out).results m = s.results m from
          Function.update_of_ne hmn ..] at hm
        exact h.returned m v hm

theorem done_finish {op : Op T} {target : BitVec 32} {n : ℕ} {out : T} {kind : Kind} {m : ℕ} :
    done (finish k s op target n out) kind m = true ↔
      done s kind m = true ∨ (kind, m) = (op.kind, n) := by
  cases op <;> cases kind <;> by_cases hm : m = n <;>
    simp [done, finish, Op.kind, hm]

/-- The loaded sequence number is the one the call waits for, and nothing has
been claimed since its counter was loaded: the slot is ready. -/
theorem ready_of_sequence (h : Inv k s) (hk1 : 1 ≤ k) (hk : k ≤ 30) {op : Op T}
    (hid : s.sequence (slot k (BitVec.ofNat 32 (claims s op.kind))) =
      op.expected (BitVec.ofNat 32 (claims s op.kind))) : Ready k s op.kind := by
  have htwo : 2 ≤ 2 ^ k := Nat.pow_le_pow_right (show 0 < 2 by decide) hk1
  rw [slot_ofNat k hk] at hid
  cases op with
  | enque value => exact h.members.stamps.claimable (spaced k hk) htwo hid
  | deque =>
    have hnext : s.sequence (s.deqs % 2 ^ k) = BitVec.ofNat 32 (s.deqs + 1) := by
      rw [BitVec.ofNat_add]
      exact hid
    exact h.members.stamps.written h.members.valid (spaced k hk) htwo hnext

variable [DecidableEq τ]

/-- A step that moves its thread and touches nothing else. -/
theorem inv_setPc (h : Inv k s) {pc : Pc T} (hpc : PcOk k s pc)
    (hhold : pc.holding = (s.pc t).holding) : Inv k (setPc s t pc) := by
  refine ⟨members_setPc h.members, h.threads.move rfl (Extends.refl s) ?_ hpc ?_ ?_⟩
  · intro u kind n _ _
    exact ⟨rfl, fun _ => rfl⟩
  · intro u x hu hx hux
    rw [hhold] at hx
    exact hu (h.threads.unique u t x hux hx)
  · intro kind n hn _ hx
    rw [hhold] at hx
    exact ⟨hn, hx⟩

/-- The claim of one call, in the whole queue: no other call holds that number. -/
theorem inv_claim (h : Inv k s) {op : Op T} {target : BitVec 32}
    (htarget : counter s op.kind = target) (hready : Ready k s op.kind)
    (hidle : (s.pc t).holding = none) :
    Inv k (setPc (claim s op target) t (.copy op target (claims s op.kind))) := by
  have hdone : ∀ kind n, done (claim s op target) kind n = done s kind n := by
    intro kind n
    cases op <;> cases kind <;> rfl
  have hclaims : ∀ kind n, n < claims (claim s op target) kind ↔
      n < claims s kind ∨ (kind, n) = (op.kind, claims s op.kind) := by
    intro kind n
    cases op <;> cases kind <;> simp [claims, claim, Op.kind] <;> omega
  have hext : Extends s (claim s op target) := by
    constructor
    · intro kind
      by_contra hlt
      exact absurd ((hclaims kind _).mpr (Or.inl (by omega))) (Nat.lt_irrefl _)
    · cases op with
      | enque value => exact List.prefix_append ..
      | deque => exact List.prefix_refl _
    · intro kind n hn
      rw [hdone]
      exact hn
  refine ⟨members_setPc (members_claim h.members htarget hready), ?_⟩
  refine h.threads.move ?_ hext ?_ ?_ ?_ ?_
  · cases op <;> rfl
  · intro u kind n _ _
    refine ⟨hdone kind n, ?_⟩
    intro _
    cases op <;> rfl
  · -- the new claim has the first number that is not claimed
    refine ⟨htarget.symm.trans (h.members.counters op.kind), ?_, ?_, ?_⟩
    · exact (hclaims _ _).mpr (Or.inr rfl)
    · rw [hdone]
      intro hn
      exact absurd (h.done_lt hn) (Nat.lt_irrefl _)
    · rintro value rfl
      exact List.getElem?_concat_length
  · intro u x _ hx hux
    cases hx
    exact absurd (h.threads.claimed hux).1 (Nat.lt_irrefl _)
  · intro kind n hn _ hx
    rcases (hclaims kind n).mp hn with hlt | heq
    · refine ⟨hlt, ?_⟩
      rw [hidle]
      intro hnone
      cases hnone
    · exact absurd (congrArg some heq.symm) hx

/-- The copy of a call that has claimed its slot goes to or comes from this slot
alone. -/
theorem inv_copy (h : Inv k s) (hk : k ≤ 30) {op : Op T} {target : BitVec 32} {n : ℕ}
    (ht : s.pc t = .copy op target n) : Inv k (copy k s t op target n) := by
  have hpc := h.threads.pcs t
  have hhold : (s.pc t).holding = some (op.kind, n) := by rw [ht, Pc.holding]
  rw [ht] at hpc
  rcases hpc with ⟨rfl, howns⟩
  cases op with
  | deque =>
    -- the slot is full, with the value of ticket `n`
    refine inv_setPc h ⟨rfl, howns, ?_, ?_⟩ ?_
    · rw [slot_ofNat k hk]
      exact h.members.contents n (h.members.valid.taken_written n howns.claimed) howns.unfinished
    · intro hkind
      cases hkind
    · rw [ht]
      rfl
  | enque value =>
    have hbuffer : (put k s (BitVec.ofNat 32 n) value).buffer =
        Function.update s.buffer (n % 2 ^ k) value := by
      rw [← slot_ofNat k hk n]
      rfl
    have hactive := h.members.valid.active_of_not_written howns.claimed howns.unfinished
    refine ⟨members_setPc (members_put h.members hk howns), ?_⟩
    refine h.threads.move rfl ?_ ?_ ?_ ?_ ?_
    · constructor
      · intro kind
        cases kind <;> exact Nat.le_refl _
      · exact List.prefix_refl _
      · intro kind m hm
        cases kind <;> exact hm
    · -- another enqueue is writing another slot
      intro u kind m hu hum
      refine ⟨by cases kind <;> rfl, ?_⟩
      rintro rfl
      have hclaimed := h.threads.claimed hum
      rw [hbuffer, Function.update_of_ne]
      intro hslot
      have hmn := h.members.valid.exclusive
        (h.members.valid.active_of_not_written hclaimed.1 hclaimed.2) hactive hslot
      rw [hmn] at hum
      exact hu (h.threads.unique u t _ hum hhold)
    · refine ⟨rfl, ⟨howns.claimed, howns.unfinished, howns.value⟩, howns.value value rfl, ?_⟩
      intro _
      rw [hbuffer, Function.update_self]
    · intro u x hu hx hux
      rw [← hx] at hux
      exact hu (h.threads.unique u t _ hux hhold)
    · intro kind m hm _ hx
      refine ⟨by cases kind <;> exact hm, ?_⟩
      rw [hhold]
      exact hx

/-- The last step of a call gives up its slot. -/
theorem inv_finish (h : Inv k s) (hk : k ≤ 30) {op : Op T} {target : BitVec 32} {n : ℕ} {out : T}
    (ht : s.pc t = .store op target n out) :
    Inv k (setPc (finish k s op target n out) t .idle) := by
  have hpc := h.threads.pcs t
  have hhold : (s.pc t).holding = some (op.kind, n) := by rw [ht, Pc.holding]
  rw [ht] at hpc
  rcases hpc with ⟨rfl, howns, hout, hbuffer⟩
  have hclaims : ∀ kind,
      claims (finish k s op (BitVec.ofNat 32 n) n out) kind = claims s kind := by
    intro kind
    cases op <;> cases kind <;> rfl
  have hext : Extends s (finish k s op (BitVec.ofNat 32 n) n out) := by
    constructor
    · intro kind
      exact Nat.le_of_eq (hclaims kind).symm
    · cases op <;> exact List.prefix_refl _
    · intro kind m hm
      exact done_finish.mpr (Or.inl hm)
  refine ⟨members_setPc (members_finish h.members hk howns hout hbuffer), ?_⟩
  refine h.threads.move ?_ hext ?_ trivial ?_ ?_
  · cases op <;> rfl
  · intro u kind m hu hum
    constructor
    · rw [Bool.eq_iff_iff, done_finish, or_iff_left]
      intro heq
      -- no other thread holds the number that is done now
      rw [heq] at hum
      exact hu (h.threads.unique u t _ hum hhold)
    · intro _
      cases op <;> rfl
  · intro u x _ hx
    cases hx
  · intro kind m hm hdone _
    rw [hclaims] at hm
    refine ⟨hm, ?_⟩
    rw [hhold]
    intro heq
    exact hdone (done_finish.mpr (Or.inr (Option.some.inj heq).symm))

/-- The exchange claims if the counter is still the one that was loaded; the 32
bits cannot have come round to it in time. -/
theorem inv_exchange (h : Inv k s) {op : Op T} {target id : BitVec 32} {n : ℕ}
    (ht : s.pc t = .exchange op target id n)
    (htimely : id = op.expected target → claims s op.kind - n < 2 ^ 30) (spurious : Bool) :
    Inv k (exchange s t op target id spurious) := by
  have hidle : (s.pc t).holding = none := by
    rw [ht]
    rfl
  have hpc := h.threads.pcs t
  rw [ht] at hpc
  rcases hpc with ⟨hload, hle, hready⟩
  rw [exchange]
  by_cases hswap : id - op.expected target = 0 ∧ counter s op.kind = target ∧ spurious = false
  · -- the counter is back at its image in less than a lap: it has not moved
    rw [if_pos hswap]
    have hid : id = op.expected target :=
      (BitVec.sub_eq_iff_eq_add.mp hswap.1).trans (BitVec.zero_add _)
    have hsince := htimely hid
    have hn : n = claims s op.kind := by
      refine eq_of_ofNat hle (show claims s op.kind - n < 2 ^ 32 by omega) ?_
      rw [← hload, ← hswap.2.1]
      exact h.members.counters op.kind
    exact inv_claim h hswap.2.1 (hready hid hn.symm) hidle
  · rw [if_neg hswap]
    by_cases hneg : (id - op.expected target).slt 0
    · -- the call returns false
      rw [if_pos hneg]
      exact inv_setPc h trivial hidle.symm
    · -- the loop goes on
      rw [if_neg hneg]
      exact inv_setPc h trivial hidle.symm

/-- Every step that is timely keeps the invariant. -/
theorem step_inv (hk1 : 1 ≤ k) (hk : k ≤ 30) (s : St τ T) (a : Act τ T) (s' : St τ T)
    (htimely : Timely s a) (hstep : step k s a = some s') (h : Inv k s) : Inv k s' := by
  cases a with
  | call t op =>
    rcases call_cases hstep with ⟨hp, rfl⟩
    refine inv_setPc h trivial ?_
    rw [hp]
    rfl
  | go t spurious =>
    rcases go_cases hstep with ⟨op, hp, rfl⟩ | ⟨op, target, n, hp, rfl⟩ |
      ⟨op, target, id, n, hp, rfl⟩ | ⟨op, target, n, hp, rfl⟩ | ⟨op, target, n, out, hp, rfl⟩
    · -- the counter loaded is the image of the number of claims
      refine inv_setPc h ⟨h.members.counters op.kind, Nat.le_refl _⟩ ?_
      rw [hp]
      rfl
    · -- a sequence number that is the one waited for shows the slot ready
      have hpc := h.threads.pcs t
      rw [hp] at hpc
      refine inv_setPc h ⟨hpc.1, hpc.2, ?_⟩ ?_
      · intro hid hn
        rw [hpc.1, ← hn] at hid
        exact ready_of_sequence h hk1 hk hid
      · rw [hp]
        rfl
    · -- the compare-exchange
      exact inv_exchange h hp (htimely op target id n hp) spurious
    · -- the copy
      exact inv_copy h hk hp
    · -- the store of the sequence number
      exact inv_finish h hk hp

/-- The invariant holds in every state of a timely run. -/
theorem run_inv (hk1 : 1 ≤ k) (hk : k ≤ 30) {buffer : ℕ → T} {acts : List (Act τ T)}
    (htimely : Along (step k) Timely (init buffer) acts)
    (hrun : run (step k) (init buffer) acts = some s) : Inv k s :=
  run_invariant_along (step k) (step_inv hk1 hk) htimely (init_inv k buffer) hrun

end

end Yardstick.ConcurrentQueue
