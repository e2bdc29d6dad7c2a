import Mathlib.Data.List.Basic

/-!
# Ledger — the calls of user-supplied allocators

What a program has asked of its allocators so far, as a list of calls. A block
is an allocation, not an address: an address handed out again is a new block.

* `held_alloc`, `held_free`: what is held after one call more;
* `sound_free`: releasing a block keeps a ledger sound exactly if the block is
  held, through the allocator used;
* `outstanding_alloc`, `outstanding_free`: which blocks are out, where all others
  have come back once.
-/

namespace Ledger

/-- One call, with the block obtained or released. -/
inductive Call (A β : Type*) where
  | alloc (allocator : A) (block : β)
  | free (allocator : A) (block : β)
deriving DecidableEq

variable {A β : Type*}

def Call.block : Call A β → β
  | .alloc _ b => b
  | .free _ b => b

/-- The block has not been handed out. -/
def Fresh (calls : List (Call A β)) (b : β) : Prop := ∀ c ∈ calls, c.block ≠ b

instance [DecidableEq β] (calls : List (Call A β)) (b : β) : Decidable (Fresh calls b) := by
  unfold Fresh
  infer_instance

section
variable [DecidableEq β]

/-- The call releases `b`. -/
def Call.frees (b : β) : Call A β → Bool
  | .alloc _ _ => false
  | .free _ b' => b' = b

/-- How often a block has been released. -/
def releases (calls : List (Call A β)) (b : β) : ℕ := calls.countP (Call.frees b)

/-- Obtained from `a` and not released. -/
def Held (calls : List (Call A β)) (a : A) (b : β) : Prop :=
  .alloc a b ∈ calls ∧ releases calls b = 0

/-- Every block is released at most once, through the allocator it came from. -/
structure Sound (calls : List (Call A β)) : Prop where
  once : ∀ b, releases calls b ≤ 1
  owned : ∀ a b, .free a b ∈ calls → .alloc a b ∈ calls

@[simp] theorem releases_append (calls calls' : List (Call A β)) (b : β) :
    releases (calls ++ calls') b = releases calls b + releases calls' b := List.countP_append

@[simp] theorem releases_alloc (a : A) (b b' : β) :
    releases [(.alloc a b : Call A β)] b' = 0 := rfl

@[simp] theorem releases_free (a : A) (b b' : β) :
    releases [(.free a b : Call A β)] b' = if b = b' then 1 else 0 := by
  simp [releases, Call.frees, List.countP_cons]

/-- A block that has never been handed out has never been given back either. -/
theorem releases_of_fresh {calls : List (Call A β)} {b : β} (h : Fresh calls b) :
    releases calls b = 0 := by
  refine List.countP_eq_zero.mpr fun c hc => ?_
  have hne := h c hc
  cases c with
  | alloc a b' => simp [Call.frees]
  | free a b' =>
    have hb : b' ≠ b := hne
    simpa [Call.frees] using hb

theorem sound_nil : Sound ([] : List (Call A β)) := by
  constructor
  · intro b
    exact Nat.zero_le 1
  · intro a b h
    cases h

theorem not_held_nil (a : A) (b : β) : ¬ Held ([] : List (Call A β)) a b := by
  rintro ⟨h, -⟩
  cases h

/-! ## One call more -/

/-- A fresh block is held by the allocator that hands it out. -/
theorem held_alloc {calls : List (Call A β)} {a a' : A} {b b' : β} (hfresh : Fresh calls b) :
    Held (calls ++ [.alloc a b]) a' b' ↔ (a' = a ∧ b' = b) ∨ Held calls a' b' := by
  simp only [Held, List.mem_append, List.mem_singleton, Call.alloc.injEq, releases_append,
    releases_alloc, Nat.add_zero]
  constructor
  · rintro ⟨hmem | heq, hzero⟩
    · exact Or.inr ⟨hmem, hzero⟩
    · exact Or.inl heq
  · rintro (⟨rfl, rfl⟩ | ⟨hmem, hzero⟩)
    · exact ⟨Or.inr ⟨rfl, rfl⟩, releases_of_fresh hfresh⟩
    · exact ⟨Or.inl hmem, hzero⟩

theorem held_free {calls : List (Call A β)} {a a' : A} {b b' : β} :
    Held (calls ++ [.free a b]) a' b' ↔ Held calls a' b' ∧ b ≠ b' := by
  by_cases hb : b = b'
  · simp [Held, hb]
  · simp [Held, hb]

/-- Handing out a block never breaks the rule on giving back. -/
theorem sound_alloc {calls : List (Call A β)} {a : A} {b : β} (h : Sound calls) :
    Sound (calls ++ [.alloc a b]) := by
  constructor
  · intro b'
    simpa using h.once b'
  · intro a' b' hfree
    have hfree' : .free a' b' ∈ calls := by simpa using hfree
    exact List.mem_append_left _ (h.owned a' b' hfree')

/-- Only what is held may be released. -/
theorem sound_free {calls : List (Call A β)} {a : A} {b : β} (h : Sound calls) :
    Sound (calls ++ [.free a b]) ↔ Held calls a b := by
  constructor
  · intro h'
    have hcount := h'.once b
    rw [releases_append, releases_free, if_pos rfl] at hcount
    have hmem := h'.owned a b (List.mem_append_right _ (List.mem_singleton.mpr rfl))
    exact ⟨by simpa using hmem, by omega⟩
  · rintro ⟨hmem, hzero⟩
    constructor
    · intro b'
      rw [releases_append, releases_free]
      have hcount := h.once b'
      split
      · rename_i hb
        subst hb
        omega
      · omega
    · intro a' b' hfree
      apply List.mem_append_left
      rcases List.mem_append.mp hfree with hold | hnew
      · exact h.owned a' b' hold
      · cases List.mem_singleton.mp hnew
        exact hmem

/-! ## What is out -/

/-- The blocks of `out` are out, and every other block obtained has been
released once. -/
def Outstanding (calls : List (Call A β)) (out : List β) : Prop :=
  ∀ a b, .alloc a b ∈ calls → releases calls b = if b ∈ out then 0 else 1

omit [DecidableEq β] in
theorem ne_of_fresh {calls : List (Call A β)} {a : A} {b b' : β} (hfresh : Fresh calls b)
    (h : .alloc a b' ∈ calls) : b' ≠ b := hfresh _ h

omit [DecidableEq β] in
theorem fresh_alloc {calls : List (Call A β)} {a : A} {b b' : β} (hfresh : Fresh calls b)
    (hne : b' ≠ b) : Fresh (calls ++ [.alloc a b']) b := by
  intro c hc
  rcases List.mem_append.mp hc with hold | hnew
  · exact hfresh c hold
  · rw [List.mem_singleton.mp hnew]
    exact hne

omit [DecidableEq β] in
theorem fresh_free {calls : List (Call A β)} {a a' : A} {b b' : β} (hfresh : Fresh calls b)
    (h : .alloc a b' ∈ calls) : Fresh (calls ++ [.free a' b']) b := by
  intro c hc
  rcases List.mem_append.mp hc with hold | hnew
  · exact hfresh c hold
  · rw [List.mem_singleton.mp hnew]
    exact ne_of_fresh hfresh h

theorem outstanding_nil : Outstanding ([] : List (Call A β)) [] := by
  intro a b h
  cases h

/-- A fresh block is outstanding from then on. -/
theorem outstanding_alloc {calls : List (Call A β)} {out : List β} {a : A} {b : β}
    (hfresh : Fresh calls b) (h : Outstanding calls out) :
    Outstanding (calls ++ [.alloc a b]) (b :: out) := by
  intro a' b' hmem
  rw [releases_append, releases_alloc, Nat.add_zero]
  rcases List.mem_append.mp hmem with hold | hnew
  · rw [h a' b' hold]
    simp [ne_of_fresh hfresh hold]
  · cases List.mem_singleton.mp hnew
    simp [releases_of_fresh hfresh]

/-- A block that is given back is outstanding no more. -/
theorem outstanding_free {calls : List (Call A β)} {out : List β} {a : A} {b : β}
    (hout : b ∉ out) (h : Outstanding calls (b :: out)) :
    Outstanding (calls ++ [.free a b]) out := by
  intro a' b' hmem
  have hold : .alloc a' b' ∈ calls := by simpa using hmem
  have hcount := h a' b' hold
  rw [releases_append, releases_free, hcount]
  by_cases hb : b = b'
  · subst hb
    simp [hout]
  · have hb' : b' ≠ b := Ne.symm hb
    simp [hb, hb']

end

end Ledger
