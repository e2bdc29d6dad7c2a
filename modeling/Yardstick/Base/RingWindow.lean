import Mathlib.Data.List.Basic
import Yardstick.Base.TicketRing

/-!
# RingWindow — the end of a stream, kept in a ring

Entry `i` of a stream lies in cell `i % n` of a ring of `n` cells, as long as no
entry a lap later has been written. A window is what still lies there: the
entries from `lo` on.

* `Holds.write`: what a write behind the end of the stream leaves alone;
* `Holds.extend`: the window grows once all of a block has been written;
* `wrapped`: the cells of a block, as a copy that wraps once visits them;
* `memcpy_into`, `memcpy_out_of`: the same copy in two pieces;
* `prefix_read`: what has been read of a stream, with a block read next.
-/

namespace RingWindow

variable {β : Type*} {n : ℕ} {cell : ℕ → β} {l : List β} {lo : ℕ}

/-- The entries of `l` from `lo` on lie in their cells. -/
def Holds (n : ℕ) (cell : ℕ → β) (l : List β) (lo : ℕ) : Prop :=
  ∀ i v, lo ≤ i → l[i]? = some v → cell (i % n) = v

theorem holds_nil : Holds n cell [] lo := by
  intro i v _ hv
  simp at hv

/-- Entries less than a lap apart have different cells. -/
theorem mod_ne {i j : ℕ} (hlt : i < j) (hlap : j < i + n) : i % n ≠ j % n := by
  intro heq
  have hle := TicketRing.lap_le_of_lt hlt heq
  omega

theorem Holds.later {lo' : ℕ} (h : Holds n cell l lo) (hle : lo ≤ lo') : Holds n cell l lo' :=
  fun i v hi hv => h i v (Nat.le_trans hle hi) hv

/-- A write behind the end, but less than a lap from the start of the window. -/
theorem Holds.write {i : ℕ} {v : β} (h : Holds n cell l lo) (hend : l.length ≤ i)
    (hlap : i < lo + n) : Holds n (Function.update cell (i % n) v) l lo := by
  intro j u hj hu
  obtain ⟨hjl, -⟩ := List.getElem?_eq_some_iff.mp hu
  have hne : j % n ≠ i % n := mod_ne (by omega) (by omega)
  rw [Function.update_of_ne hne]
  exact h j u hj hu

/-- A block whose entries lie in their cells. -/
theorem Holds.extend {new : List β} (h : Holds n cell l lo)
    (hnew : ∀ j v, new[j]? = some v → cell ((l.length + j) % n) = v) :
    Holds n cell (l ++ new) lo := by
  intro i v hi hv
  rcases Nat.lt_or_ge i l.length with hlt | hge
  · rw [List.getElem?_append_left hlt] at hv
    exact h i v hi hv
  · rw [List.getElem?_append_right hge] at hv
    have hcell := hnew (i - l.length) v hv
    rwa [Nat.add_sub_cancel' hge] at hcell

/-- The offsets of a block of `size` entries that starts at cell `pos`: those
that fit in front of the end of the ring, then the others from cell 0 on. -/
theorem wrapped {pos size i : ℕ} (hpos : pos < n) (hi : i < size) (hsize : size ≤ n) :
    (if i < min size (n - pos) then pos + i else i - min size (n - pos)) = (pos + i) % n := by
  split
  · rw [Nat.mod_eq_of_lt (by omega)]
  · have hmin : min size (n - pos) = n - pos := by omega
    rw [Nat.mod_eq_sub_mod (by omega), Nat.mod_eq_of_lt (by omega)]
    omega

/-! ## Blocks -/

/-- `n` entries of `src` from `s` on are copied to `dst` from `d` on. -/
def memcpy (dst : ℕ → β) (d : ℕ) (src : ℕ → β) (s n : ℕ) : ℕ → β := fun p =>
  if d ≤ p ∧ p < d + n then src (s + (p - d)) else dst p

@[simp] theorem memcpy_zero (dst : ℕ → β) (d : ℕ) (src : ℕ → β) (s : ℕ) :
    memcpy dst d src s 0 = dst := by
  funext p
  rw [memcpy, if_neg (by omega)]

/-- One entry more. -/
theorem memcpy_succ (dst : ℕ → β) (d : ℕ) (src : ℕ → β) (s m : ℕ) :
    memcpy dst d src s (m + 1) = Function.update (memcpy dst d src s m) (d + m) (src (s + m)) := by
  funext p
  by_cases hp : p = d + m
  · rw [hp, Function.update_self, memcpy, if_pos (by omega)]
    congr 1
    omega
  · rw [Function.update_of_ne hp, memcpy, memcpy]
    congr 1
    simp only [eq_iff_iff]
    omega

/-- One entry more of a block that is copied in two pieces, the first of `count`
entries. -/
theorem memcpy_split_succ (dst src : ℕ → β) (d s d' s' count m : ℕ) :
    memcpy (memcpy dst d src s (min (m + 1) count)) d' src s' (m + 1 - count) =
      Function.update (memcpy (memcpy dst d src s (min m count)) d' src s' (m - count))
        (if m < count then d + m else d' + (m - count))
        (src (if m < count then s + m else s' + (m - count))) := by
  by_cases hm : m < count
  · -- the second piece has not begun
    have hrest : m + 1 - count = 0 := by omega
    have hrest' : m - count = 0 := by omega
    have hmin : min (m + 1) count = m + 1 := by omega
    have hmin' : min m count = m := by omega
    rw [if_pos hm, if_pos hm, hrest, hrest', hmin, hmin', memcpy_zero, memcpy_zero, memcpy_succ]
  · have hrest : m + 1 - count = m - count + 1 := by omega
    have hmin : min (m + 1) count = min m count := by omega
    rw [if_neg hm, if_neg hm, hrest, hmin, memcpy_succ]

/-- A block that is copied into a ring in two pieces lies in its cells. -/
theorem memcpy_into {pos size i : ℕ} (cell src : ℕ → β) (hpos : pos < n) (hi : i < size)
    (hsize : size ≤ n) :
    memcpy (memcpy cell pos src 0 (min size (n - pos))) 0 src (min size (n - pos))
      (size - min size (n - pos)) ((pos + i) % n) = src i := by
  rw [← wrapped hpos hi hsize]
  by_cases hfirst : i < min size (n - pos)
  · rw [if_pos hfirst, memcpy, if_neg (by omega), memcpy, if_pos (by omega)]
    congr 1
    omega
  · rw [if_neg hfirst, memcpy, if_pos (by omega)]
    congr 1
    omega

/-- The other cells keep what they hold. -/
theorem memcpy_into_other {pos size p : ℕ} (cell src : ℕ → β) (hpos : pos < n)
    (hsize : size ≤ n) (hp : ∀ i < size, p ≠ (pos + i) % n) :
    memcpy (memcpy cell pos src 0 (min size (n - pos))) 0 src (min size (n - pos))
      (size - min size (n - pos)) p = cell p := by
  have hout : ∀ i < size,
      p ≠ if i < min size (n - pos) then pos + i else i - min size (n - pos) := by
    intro i hi
    rw [wrapped hpos hi hsize]
    exact hp i hi
  rw [memcpy, if_neg, memcpy, if_neg]
  · rintro ⟨hlow, hhigh⟩
    have hne := hout (p - pos) (by omega)
    rw [if_pos (by omega)] at hne
    omega
  · rintro ⟨-, hhigh⟩
    have hne := hout (p + min size (n - pos)) (by omega)
    rw [if_neg (by omega)] at hne
    omega

/-- A block that is copied out of a ring in two pieces. -/
theorem memcpy_out_of {pos size : ℕ} (out cell : ℕ → β) (hpos : pos < n) (hsize : size ≤ n)
    (i : ℕ) :
    memcpy (memcpy out 0 cell pos (min size (n - pos))) (min size (n - pos)) cell 0
      (size - min size (n - pos)) i = if i < size then cell ((pos + i) % n) else out i := by
  by_cases hi : i < size
  · rw [if_pos hi, ← wrapped hpos hi hsize]
    by_cases hfirst : i < min size (n - pos)
    · rw [if_pos hfirst, memcpy, if_neg (by omega), memcpy, if_pos (by omega), Nat.sub_zero]
    · rw [if_neg hfirst, memcpy, if_pos (by omega), Nat.zero_add]
  · rw [if_neg hi, memcpy, if_neg (by omega), memcpy, if_neg (by omega)]

/-- A block put behind the end of the stream. -/
theorem Holds.block {size : ℕ} {cell' new : ℕ → β} (h : Holds n cell l lo)
    (hroom : l.length + size ≤ lo + n) (hnew : ∀ i < size, cell' ((l.length + i) % n) = new i)
    (hold : ∀ p, (∀ i < size, p ≠ (l.length + i) % n) → cell' p = cell p) :
    Holds n cell' (l ++ (List.range size).map new) lo := by
  have hkeep : Holds n cell' l lo := by
    intro j v hj hv
    obtain ⟨hjl, -⟩ := List.getElem?_eq_some_iff.mp hv
    rw [hold]
    · exact h j v hj hv
    · intro i hi
      exact mod_ne (by omega) (by omega)
  refine hkeep.extend ?_
  intro j v hv
  obtain ⟨hj, hjv⟩ := List.getElem?_eq_some_iff.mp hv
  have hsize : j < size := by simpa using hj
  rw [hnew j hsize, ← hjv]
  simp

/-- What is read next continues what has been read. -/
theorem prefix_read {read : List β} {m : ℕ} {out : ℕ → β} (h : read <+: l)
    (hout : ∀ j < m, l[read.length + j]? = some (out j)) :
    read ++ (List.range m).map out <+: l := by
  obtain ⟨rest, rfl⟩ := h
  refine (List.prefix_append_right_inj read).mpr (List.prefix_iff_getElem?.mpr fun j hj => ?_)
  have hjm : j < m := by simpa using hj
  have hj' := hout j hjm
  rw [List.getElem?_append_right (by omega), Nat.add_sub_cancel_left] at hj'
  simpa using hj'

end RingWindow
