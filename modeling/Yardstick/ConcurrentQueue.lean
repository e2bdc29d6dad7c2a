import Yardstick.Base.TicketRing
import Yardstick.Base.WrappingCounter

/-!
# ConcurrentQueue — the lock-free ring of events

Any number of threads call `TryEnque` and `TryDeque` on a ring of `2 ^ k`
slots; every load, compare-exchange, copy and store of theirs is a step of its
own. A call claims the next number of its kind by moving a 32-bit counter with
a compare-exchange, copies its value, and then stores the sequence number of
the slot. Counters and sequence numbers wrap.
-/

namespace Yardstick.ConcurrentQueue

open TicketRing WrappingCounter

variable {τ T : Type*} (k : ℕ)

/-! ## The queue and the calls in progress -/

/-- `kBufferMask`, for `S = 2 ^ k`. -/
def kBufferMask : BitVec 32 := BitVec.ofNat 32 (2 ^ k - 1)

def slot (target : BitVec 32) : ℕ := (target &&& kBufferMask k).toNat

inductive Kind where
  | enque
  | deque
deriving DecidableEq, Repr

/-- A call of `TryEnque` or `TryDeque`. -/
inductive Op (T : Type*) where
  | enque (value : T)
  | deque

def Op.kind : Op T → Kind
  | .enque _ => .enque
  | .deque => .deque

/-- The sequence number of a slot that is ready for the call. -/
def Op.expected (target : BitVec 32) : Op T → BitVec 32
  | .enque _ => target
  | .deque => target + 1

/-- Where a thread is: the next access it makes. The last number is not in the
code: in `sequence` and `exchange` it is how many claims there had been when the
counter was loaded, in `copy` and `store` the number of the claim. -/
inductive Pc (T : Type*) where
  | idle
  | load (op : Op T)
  | sequence (op : Op T) (target : BitVec 32) (n : ℕ)
  | exchange (op : Op T) (target id : BitVec 32) (n : ℕ)
  | copy (op : Op T) (target : BitVec 32) (n : ℕ)
  | store (op : Op T) (target : BitVec 32) (n : ℕ) (out : T)

/-- The claim a thread is using, from the compare-exchange to the store. -/
def Pc.holding : Pc T → Option (Kind × ℕ)
  | .copy op _ n => some (op.kind, n)
  | .store op _ n _ => some (op.kind, n)
  | _ => none

/-- The members of the queue, where the threads are, and what has been claimed
and finished so far: the values in the order of the enqueue claims, the number
of dequeue claims, which enqueues have stored their sequence number, and what
the finished dequeues have returned. -/
structure St (τ T : Type*) where
  enque : BitVec 32
  deque : BitVec 32
  sequence : ℕ → BitVec 32
  buffer : ℕ → T
  pc : τ → Pc T
  enqs : List T
  deqs : ℕ
  written : ℕ → Bool
  results : ℕ → Option T

/-- The constructor: the buffer has any contents. -/
def init (buffer : ℕ → T) : St τ T :=
  { enque := 0, deque := 0, sequence := fun i => BitVec.ofNat 32 i, buffer := buffer
    pc := fun _ => .idle, enqs := [], deqs := 0, written := fun _ => false
    results := fun _ => none }

def counter (s : St τ T) : Kind → BitVec 32
  | .enque => s.enque
  | .deque => s.deque

/-- How many claims of a kind there have been. -/
def claims (s : St τ T) : Kind → ℕ
  | .enque => s.enqs.length
  | .deque => s.deqs

/-! ## Steps -/

section
variable [DecidableEq τ]

def setPc (s : St τ T) (t : τ) (pc : Pc T) : St τ T := { s with pc := Function.update s.pc t pc }

/-- A compare-exchange that succeeds: `target + 1` is stored in the counter. -/
def claim (s : St τ T) (op : Op T) (target : BitVec 32) : St τ T :=
  match op with
  | .enque value => { s with enque := target + 1, enqs := s.enqs ++ [value] }
  | .deque => { s with deque := target + 1, deqs := s.deqs + 1 }

/-- The condition of the loop, and its body up to the next load. -/
def exchange (s : St τ T) (t : τ) (op : Op T) (target id : BitVec 32) (spurious : Bool) :
    St τ T :=
  let delta := id - op.expected target
  if delta = 0 ∧ counter s op.kind = target ∧ spurious = false then
    setPc (claim s op target) t (.copy op target (claims s op.kind))
  else if delta.slt 0 then setPc s t .idle
  else setPc s t (.load op)

/-- `_buffer[target & kBufferMask] = value`. -/
def put (s : St τ T) (target : BitVec 32) (value : T) : St τ T :=
  { s with buffer := Function.update s.buffer (slot k target) value }

/-- The copy to the buffer or out of it. -/
def copy (s : St τ T) (t : τ) (op : Op T) (target : BitVec 32) (n : ℕ) : St τ T :=
  match op with
  | .enque value => setPc (put k s target value) t (.store op target n value)
  | .deque => setPc s t (.store op target n (s.buffer (slot k target)))

/-- The store of the sequence number. -/
def finish (s : St τ T) (op : Op T) (target : BitVec 32) (n : ℕ) (out : T) : St τ T :=
  match op with
  | .enque _ =>
    { s with
      sequence := Function.update s.sequence (slot k target) (target + 1)
      written := Function.update s.written n true }
  | .deque =>
    { s with
      sequence := Function.update s.sequence (slot k target) (target + kBufferMask k + 1)
      results := Function.update s.results n (some out) }

/-- An idle thread calls, or a thread in a call makes its next access; a
compare-exchange may fail for no reason. -/
inductive Act (τ T : Type*) where
  | call (t : τ) (op : Op T)
  | go (t : τ) (spurious : Bool)

def step (s : St τ T) : Act τ T → Option (St τ T)
  | .call t op =>
    match s.pc t with
    | .idle => some (setPc s t (.load op))
    | _ => none
  | .go t spurious =>
    match s.pc t with
    | .idle => none
    | .load op => some (setPc s t (.sequence op (counter s op.kind) (claims s op.kind)))
    | .sequence op target n =>
      some (setPc s t (.exchange op target (s.sequence (slot k target)) n))
    | .exchange op target id _ => some (exchange s t op target id spurious)
    | .copy op target n => some (copy k s t op target n)
    | .store op target n out => some (setPc (finish k s op target n out) t .idle)

section
variable {k} {s s' : St τ T} {t : τ}

@[simp] theorem pc_setPc {pc : Pc T} : (setPc s t pc).pc t = pc := Function.update_self ..

theorem pc_setPc_ne {u : τ} {pc : Pc T} (htu : t ≠ u) : (setPc s u pc).pc t = s.pc t :=
  Function.update_of_ne htu ..

omit [DecidableEq τ] in
@[simp] theorem pc_claim (op : Op T) (target : BitVec 32) : (claim s op target).pc = s.pc := by
  cases op <;> rfl

omit [DecidableEq τ] in
@[simp] theorem pc_finish (op : Op T) (target : BitVec 32) (n : ℕ) (out : T) :
    (finish k s op target n out).pc = s.pc := by
  cases op <;> rfl

/-- Behind the copy lies the store, of the value that is returned. -/
theorem copy_cases (op : Op T) (target : BitVec 32) (n : ℕ) :
    ∃ (s₁ : St τ T) (out : T), copy k s t op target n = setPc s₁ t (.store op target n out) ∧
      s₁.pc = s.pc ∧ s₁.enqs = s.enqs ∧ s₁.deqs = s.deqs := by
  cases op with
  | enque value => exact ⟨put k s target value, value, rfl, rfl, rfl, rfl⟩
  | deque => exact ⟨s, _, rfl, rfl, rfl, rfl⟩

/-! ### What a step can do -/

theorem call_cases {op : Op T} (hstep : step k s (.call t op) = some s') :
    s.pc t = .idle ∧ s' = setPc s t (.load op) := by
  cases hp : s.pc t with
  | idle =>
    simp only [step, hp, Option.some.injEq] at hstep
    exact ⟨rfl, hstep.symm⟩
  | _ => simp [step, hp] at hstep

/-- The steps of a call that is under way, one for each point it can be at. -/
theorem go_cases {spurious : Bool} (hstep : step k s (.go t spurious) = some s') :
    (∃ op, s.pc t = .load op ∧
      s' = setPc s t (.sequence op (counter s op.kind) (claims s op.kind))) ∨
    (∃ op target n, s.pc t = .sequence op target n ∧
      s' = setPc s t (.exchange op target (s.sequence (slot k target)) n)) ∨
    (∃ op target id n, s.pc t = .exchange op target id n ∧
      s' = exchange s t op target id spurious) ∨
    (∃ op target n, s.pc t = .copy op target n ∧ s' = copy k s t op target n) ∨
    (∃ op target n out, s.pc t = .store op target n out ∧
      s' = setPc (finish k s op target n out) t .idle) := by
  cases hp : s.pc t with
  | idle => simp [step, hp] at hstep
  | load op =>
    simp only [step, hp, Option.some.injEq] at hstep
    exact Or.inl ⟨op, rfl, hstep.symm⟩
  | sequence op target n =>
    simp only [step, hp, Option.some.injEq] at hstep
    exact Or.inr (Or.inl ⟨op, target, n, rfl, hstep.symm⟩)
  | exchange op target id n =>
    simp only [step, hp, Option.some.injEq] at hstep
    exact Or.inr (Or.inr (Or.inl ⟨op, target, id, n, rfl, hstep.symm⟩))
  | copy op target n =>
    simp only [step, hp, Option.some.injEq] at hstep
    exact Or.inr (Or.inr (Or.inr (Or.inl ⟨op, target, n, rfl, hstep.symm⟩)))
  | store op target n out =>
    simp only [step, hp, Option.some.injEq] at hstep
    exact Or.inr (Or.inr (Or.inr (Or.inr ⟨op, target, n, out, rfl, hstep.symm⟩)))

/-- A compare-exchange claims, makes the call return false, or leads back to the
load of the counter. -/
theorem exchange_cases (s : St τ T) (t : τ) (op : Op T) (target id : BitVec 32)
    (spurious : Bool) :
    (id = op.expected target ∧ counter s op.kind = target ∧ spurious = false ∧
      exchange s t op target id spurious =
        setPc (claim s op target) t (.copy op target (claims s op.kind))) ∨
    ((id - op.expected target).slt 0 = true ∧
      exchange s t op target id spurious = setPc s t .idle) ∨
    (¬ (id - op.expected target).slt 0 = true ∧
      exchange s t op target id spurious = setPc s t (.load op) ∧
      ¬ (id = op.expected target ∧ counter s op.kind = target ∧ spurious = false)) := by
  have hzero : id - op.expected target = 0 ↔ id = op.expected target :=
    ⟨fun h => (BitVec.sub_eq_iff_eq_add.mp h).trans (BitVec.zero_add _), fun h => by simp [h]⟩
  simp only [exchange, hzero]
  split
  · next hswap => exact Or.inl ⟨hswap.1, hswap.2.1, hswap.2.2, rfl⟩
  · next hswap =>
    split
    · next hneg => exact Or.inr (Or.inl ⟨hneg, rfl⟩)
    · next hneg => exact Or.inr (Or.inr ⟨hneg, rfl, hswap⟩)

end

end

/-- Fewer than `2 ^ 30` claims of its kind lie between the load of the counter
and the compare-exchange of a call. -/
def Timely (s : St τ T) : Act τ T → Prop
  | .go t _ => ∀ op target id n, s.pc t = .exchange op target id n →
    id = op.expected target → claims s op.kind - n < 2 ^ 30
  | .call _ _ => True

/-! ## Numbers and slots -/

theorem slot_ofNat (hk : k ≤ 30) (n : ℕ) : slot k (BitVec.ofNat 32 n) = n % 2 ^ k :=
  toNat_and_mask (by omega) n

theorem two_pow_le (hk : k ≤ 30) : 2 ^ k ≤ 2 ^ 30 :=
  Nat.pow_le_pow_right (by decide) hk

theorem spaced (hk : k ≤ 30) : Spaced (BitVec.ofNat 32) (2 ^ k) := by
  intro a b hlt hlap heq
  have hle := two_pow_le k hk
  have hab := eq_of_ofNat (show a ≤ b by omega) (show b - a < 2 ^ 32 by omega) heq
  omega

/-- A slot that is released is stamped for the same place one lap later. -/
theorem next_lap (n : ℕ) :
    BitVec.ofNat 32 n + kBufferMask k + 1 = BitVec.ofNat 32 (n + 2 ^ k) := by
  have hpos := Nat.two_pow_pos k
  calc BitVec.ofNat 32 n + kBufferMask k + 1
      = BitVec.ofNat 32 (n + (2 ^ k - 1) + 1) := by
        rw [kBufferMask, BitVec.ofNat_add, BitVec.ofNat_add]
        rfl
    _ = BitVec.ofNat 32 (n + 2 ^ k) := by
        congr 1
        omega

end Yardstick.ConcurrentQueue
