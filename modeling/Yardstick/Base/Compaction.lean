import Mathlib.Data.List.Nodup
import Mathlib.Data.List.TakeDrop

/-!
# Compaction — closing gaps in an array of owners

The first entries of an array are in use. When one of them goes, those behind it
move down by one, and what they own moves with them; the last place in use keeps
what it had, which now exists twice.

* `take_move`, `drop_move`: what a move leaves in use, and what is behind it;
* `Usable`: so many entries from the front own different things, and no more;
* `Usable.close`: after a gap was closed, one entry less is usable than were in
  use; nothing ever brings it back.
-/

namespace Compaction

variable {α β : Type*}

/-- `memmove` within an array: `len` entries from `src` on are copied to `dst`. -/
def move (l : List α) (dst src len : ℕ) : List α :=
  l.take dst ++ (l.drop src).take len ++ l.drop (dst + len)

theorem map_move (f : α → β) (l : List α) (dst src len : ℕ) :
    (move l dst src len).map f = move (l.map f) dst src len := by
  simp only [move, List.map_append, List.map_take, List.map_drop]

/-- Closing the gap at `i` in the first `n` entries. -/
theorem move_gap (l : List α) {i n : ℕ} (hi : i < n) :
    move l i (i + 1) (n - i - 1) = (l.take n).eraseIdx i ++ l.drop (n - 1) := by
  have hlen : i + (n - i - 1) = n - 1 := by omega
  have hmiddle : (l.take n).drop (i + 1) = (l.drop (i + 1)).take (n - i - 1) := by
    rw [List.drop_take]
    congr 1
  rw [move, hlen, List.eraseIdx_eq_take_drop_succ, hmiddle, List.take_take, Nat.min_eq_left (by omega)]

theorem length_eraseIdx_take {l : List α} {i n : ℕ} (hi : i < n) (hn : n ≤ l.length) :
    ((l.take n).eraseIdx i).length = n - 1 := by
  rw [List.length_eraseIdx_of_lt (by rw [List.length_take]; omega), List.length_take,
    Nat.min_eq_left hn]

theorem take_move {l : List α} {i n : ℕ} (hi : i < n) (hn : n ≤ l.length) :
    (move l i (i + 1) (n - i - 1)).take (n - 1) = (l.take n).eraseIdx i := by
  rw [move_gap l hi]
  exact List.take_left' (length_eraseIdx_take hi hn)

theorem drop_move {l : List α} {i n : ℕ} (hi : i < n) (hn : n ≤ l.length) :
    (move l i (i + 1) (n - i - 1)).drop (n - 1) = l.drop (n - 1) := by
  rw [move_gap l hi]
  exact List.drop_left' (length_eraseIdx_take hi hn)

theorem length_move {l : List α} {i n : ℕ} (hi : i < n) (hn : n ≤ l.length) :
    (move l i (i + 1) (n - i - 1)).length = l.length := by
  rw [move_gap l hi, List.length_append, length_eraseIdx_take hi hn, List.length_drop]
  omega

/-- Closing the gap behind the last entry moves nothing. -/
theorem move_last (l : List α) (i : ℕ) : move l i (i + 1) (i + 1 - i - 1) = l := by
  have hlen : i + 1 - i - 1 = 0 := by omega
  rw [hlen, move, List.take_zero, List.append_nil]
  exact List.take_append_drop i l

/-! ## What the entries own -/

/-- The first `limit` entries own different things; the entry behind them owns
what the last of them owns. -/
structure Usable (owned : List β) (limit : ℕ) : Prop where
  le : limit ≤ owned.length
  nodup : (owned.take limit).Nodup
  again : limit < owned.length → 0 < limit ∧ owned[limit - 1]? = owned[limit]?

/-- So many entries own different things, and no more. -/
theorem Usable.nodup_iff {owned : List β} {limit : ℕ} (h : Usable owned limit) {n : ℕ}
    (hn : n ≤ owned.length) : (owned.take n).Nodup ↔ n ≤ limit := by
  constructor
  · intro hnodup
    by_contra hlt
    obtain ⟨hpos, hagain⟩ := h.again (by omega)
    have hlast : (owned.take n)[limit - 1]? = (owned.take n)[limit]? := by
      rw [List.getElem?_take_of_lt (by omega), List.getElem?_take_of_lt (by omega), hagain]
    have hlength : limit - 1 < (owned.take n).length := by
      rw [List.length_take]
      omega
    have heq := (List.getElem?_inj hlength hnodup).mp hlast
    omega
  · intro hle
    have htake : owned.take n = (owned.take limit).take n := by
      rw [List.take_take, Nat.min_eq_left hle]
    rw [htake]
    exact h.nodup.sublist (List.take_sublist _ _)

/-- A gap that is closed among the first `n` makes what the last of them owned
exist twice. -/
theorem Usable.close {owned : List β} {limit : ℕ} (h : Usable owned limit) {i n : ℕ} (hi : i < n)
    (hn : n ≤ limit) :
    Usable (move owned i (i + 1) (n - i - 1)) (if i + 1 < n then n - 1 else limit) := by
  have hlength := h.le
  split
  · rename_i hfront
    have htake := take_move hi (Nat.le_trans hn h.le)
    constructor
    · rw [length_move hi (by omega)]
      omega
    · rw [htake]
      exact ((h.nodup_iff (by omega)).mpr hn).sublist (List.eraseIdx_sublist _ _)
    · intro _
      refine ⟨by omega, ?_⟩
      -- both are the entry that was the last
      have hbefore : (move owned i (i + 1) (n - i - 1))[n - 1 - 1]? = owned[n - 1]? := by
        rw [← List.getElem?_take_of_lt (show n - 1 - 1 < n - 1 by omega), htake,
          List.getElem?_eraseIdx_of_ge (by omega), List.getElem?_take_of_lt (by omega)]
        congr 1
        omega
      have hbehind : (move owned i (i + 1) (n - i - 1))[n - 1]? = owned[n - 1]? := by
        have hdrop := congrArg List.head? (drop_move hi (Nat.le_trans hn h.le))
        rw [List.head?_drop, List.head?_drop] at hdrop
        exact hdrop
      rw [hbefore, hbehind]
  · rename_i hlast
    obtain rfl : n = i + 1 := by omega
    rw [move_last]
    exact h

end Compaction
