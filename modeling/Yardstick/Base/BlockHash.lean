import Mathlib.Data.List.Basic

/-!
# BlockHash — hashing a stream block by block

A hash of this kind keeps a state and the symbols of a block that is not full
yet; a full block is compressed into the state. Symbols can be taken in one at a
time or in any pieces.

* `absorb_blocks`: a stream of whole blocks compresses them one after another;
* `absorb_pending`: what is pending are the symbols behind the last full block;
* `exists_blocks`: a stream of the right length is whole blocks.
-/

namespace BlockHash

variable {σ β : Type*}

/-- The state after the full blocks, and the symbols behind them. -/
structure Progress (σ β : Type*) where
  state : σ
  pending : List β

variable (size : ℕ) (compress : σ → List β → σ)

/-- Take one symbol in. -/
def push (s : Progress σ β) (b : β) : Progress σ β :=
  if s.pending.length + 1 = size then ⟨compress s.state (s.pending ++ [b]), []⟩
  else ⟨s.state, s.pending ++ [b]⟩

/-- Take symbols in. -/
def absorb (s : Progress σ β) (bs : List β) : Progress σ β := bs.foldl (push size compress) s

theorem absorb_append (s : Progress σ β) (bs cs : List β) :
    absorb size compress s (bs ++ cs) = absorb size compress (absorb size compress s bs) cs := by
  simp [absorb]

/-- Symbols that do not fill the block stay pending. -/
theorem absorb_room {s : Progress σ β} {bs : List β} (h : s.pending.length + bs.length < size) :
    absorb size compress s bs = ⟨s.state, s.pending ++ bs⟩ := by
  induction bs generalizing s with
  | nil => simp [absorb]
  | cons b bs ih =>
    have hlt : s.pending.length + 1 + bs.length < size := by
      simp only [List.length_cons] at h
      omega
    have hpush : push size compress s b = ⟨s.state, s.pending ++ [b]⟩ := by
      rw [push, if_neg (by omega)]
    have hrest : absorb size compress ⟨s.state, s.pending ++ [b]⟩ bs = _ := ih (by simpa using hlt)
    show absorb size compress (push size compress s b) bs = _
    rw [hpush, hrest]
    simp

/-- Symbols that fill it are compressed with what was pending. -/
theorem absorb_fill {s : Progress σ β} {bs : List β} (hne : bs ≠ [])
    (h : s.pending.length + bs.length = size) :
    absorb size compress s bs = ⟨compress s.state (s.pending ++ bs), []⟩ := by
  rcases List.eq_nil_or_concat bs with rfl | ⟨front, b, rfl⟩
  · exact absurd rfl hne
  · have hlen : s.pending.length + front.length + 1 = size := by
      simpa [Nat.add_assoc] using h
    have hfront := absorb_room size compress (show s.pending.length + front.length < size by omega)
    rw [List.concat_eq_append, absorb_append, hfront]
    show push size compress _ b = _
    rw [push, if_pos (by simpa using hlen), List.append_assoc]

/-- Whole blocks are compressed one after another. -/
theorem absorb_blocks (hsize : 0 < size) {blocks : List (List β)}
    (h : ∀ block ∈ blocks, block.length = size) (state : σ) :
    absorb size compress ⟨state, []⟩ blocks.flatten = ⟨blocks.foldl compress state, []⟩ := by
  induction blocks generalizing state with
  | nil => rfl
  | cons block blocks ih =>
    have hblock := h block List.mem_cons_self
    have hne : block ≠ [] := by
      rintro rfl
      simp at hblock
      omega
    rw [List.flatten_cons, absorb_append, absorb_fill size compress hne (by simpa using hblock),
      ih fun b hb => h b (List.mem_cons_of_mem _ hb)]
    rfl

/-- How many symbols are pending. -/
theorem absorb_pending (hsize : 0 < size) {s : Progress σ β} (h : s.pending.length < size)
    (bs : List β) :
    (absorb size compress s bs).pending.length = (s.pending.length + bs.length) % size := by
  induction bs generalizing s with
  | nil => exact (Nat.mod_eq_of_lt h).symm
  | cons b bs ih =>
    have hnext : (push size compress s b).pending.length = (s.pending.length + 1) % size := by
      unfold push
      split
      · rename_i hfull
        rw [hfull, Nat.mod_self]
        rfl
      · rw [List.length_append, Nat.mod_eq_of_lt]
        · rfl
        · omega
    show (absorb size compress (push size compress s b) bs).pending.length = _
    rw [ih (by rw [hnext]; exact Nat.mod_lt _ hsize), hnext, Nat.mod_add_mod, List.length_cons]
    congr 1
    omega

/-- A stream of the right length is whole blocks. -/
theorem exists_blocks {bs : List β} (h : size ∣ bs.length) :
    ∃ blocks : List (List β), blocks.flatten = bs ∧ ∀ block ∈ blocks, block.length = size := by
  rcases h with ⟨n, hn⟩
  induction n generalizing bs with
  | zero => exact ⟨[], (List.length_eq_zero_iff.mp (by simpa using hn)).symm, by simp⟩
  | succ n ih =>
    rw [Nat.mul_succ] at hn
    rcases ih (show (bs.drop size).length = size * n by rw [List.length_drop]; omega) with
      ⟨blocks, hblocks, hlen⟩
    refine ⟨bs.take size :: blocks, by simp [hblocks], ?_⟩
    intro block hblock
    rcases List.mem_cons.mp hblock with rfl | hmem
    · rw [List.length_take]
      omega
    · exact hlen block hmem

end BlockHash
