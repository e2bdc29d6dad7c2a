import Mathlib.Data.List.Basic

/-!
# TaggedLog — one log that several writers fill

Each entry of the log carries the tag of its writer.

* `entriesOf_drop_suffix`: a reader that starts in the middle of the log gets a
  tail of what each writer has written;
* `entriesOf_drop_eq`: from a writer that starts no earlier it gets all.
-/

namespace TaggedLog

variable {ι β : Type*} [DecidableEq ι]

/-- The entries of one writer, in order. -/
def entriesOf (log : List (ι × β)) (i : ι) : List β := (log.filter fun e => e.1 = i).map Prod.snd

@[simp] theorem entriesOf_append (log log' : List (ι × β)) (i : ι) :
    entriesOf (log ++ log') i = entriesOf log i ++ entriesOf log' i := by
  simp [entriesOf]

theorem entriesOf_concat_self (log : List (ι × β)) (i : ι) (b : β) :
    entriesOf (log ++ [(i, b)]) i = entriesOf log i ++ [b] := by
  simp [entriesOf]

theorem entriesOf_concat_ne (log : List (ι × β)) {i j : ι} (b : β) (h : j ≠ i) :
    entriesOf (log ++ [(j, b)]) i = entriesOf log i := by
  simp [entriesOf, h]

theorem entriesOf_eq_nil {log : List (ι × β)} {i : ι} (h : ∀ e ∈ log, e.1 ≠ i) :
    entriesOf log i = [] := by
  unfold entriesOf
  rw [List.filter_eq_nil_iff.mpr fun e he => by simpa using h e he, List.map_nil]

theorem entriesOf_drop_suffix (log : List (ι × β)) (n : ℕ) (i : ι) :
    entriesOf (log.drop n) i <:+ entriesOf log i :=
  ((List.drop_suffix n log).filter _).map _

theorem entriesOf_drop_eq {log : List (ι × β)} {n : ℕ} {i : ι} (h : ∀ e ∈ log.take n, e.1 ≠ i) :
    entriesOf (log.drop n) i = entriesOf log i := by
  conv_rhs => rw [← List.take_append_drop n log, entriesOf_append, entriesOf_eq_nil h]
  rfl

end TaggedLog
