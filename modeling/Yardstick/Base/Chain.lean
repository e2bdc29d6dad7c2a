import Mathlib.Data.List.Nodup
import Mathlib.Data.List.Basic
import Mathlib.Logic.Function.Basic

/-!
# Chain — linked lists in a store

Cells of a type `α` with a successor field `next : α → Option α`; a list starts
at a head pointer `p : Option α` and ends at a null successor.

* `Path next p l`: following `next` from `p` visits the cells of `l`, in order,
  and ends. There is at most one such `l`, and it has no repetitions.
* `Segment next p l q`: the same up to a pointer `q`, which need not be null.
* `BackLinks prev q l`: the predecessor fields of `l` point back along it.
* `walk`: the loop `for (c = p; c != null; c = c->next)`, with fuel. It ends
  exactly when there is a path, and then visits the path's cells.
-/

namespace Chain

variable {α : Type*} {next next' : α → Option α}

/-- Following `next` from the pointer visits exactly the given cells. -/
def Path (next : α → Option α) : Option α → List α → Prop
  | p, [] => p = none
  | p, a :: l => p = some a ∧ Path next (next a) l

@[simp] theorem path_nil {p : Option α} : Path next p [] ↔ p = none := Iff.rfl

/-- The successor field determines the path. -/
theorem Path.unique {p : Option α} {l l' : List α} (h : Path next p l) (h' : Path next p l') :
    l = l' := by
  induction l generalizing p l' with
  | nil =>
    cases l' with
    | nil => rfl
    | cons b l' => exact absurd (h.symm.trans h'.1) (by simp)
  | cons a l ih =>
    cases l' with
    | nil => exact absurd (h'.symm.trans h.1) (by simp)
    | cons b l' =>
      have hab : a = b := Option.some.inj (h.1.symm.trans h'.1)
      subst hab
      rw [ih h.2 h'.2]

/-- A path through a cell continues with a path from that cell. -/
theorem Path.of_mem {p : Option α} {l : List α} (h : Path next p l) {a : α} (ha : a ∈ l) :
    ∃ l', Path next (some a) l' ∧ l'.length ≤ l.length := by
  induction l generalizing p with
  | nil => cases ha
  | cons b l ih =>
    rcases List.mem_cons.mp ha with rfl | ha
    · exact ⟨a :: l, ⟨rfl, h.2⟩, Nat.le_refl _⟩
    · rcases ih h.2 ha with ⟨l', hl', hlen⟩
      exact ⟨l', hl', by simp; omega⟩

/-- A path ends, so it visits no cell twice. -/
theorem Path.nodup {p : Option α} {l : List α} (h : Path next p l) : l.Nodup := by
  induction l generalizing p with
  | nil => exact List.nodup_nil
  | cons a l ih =>
    refine List.nodup_cons.mpr ⟨fun ha => ?_, ih h.2⟩
    -- were `a` met again, the path from `a` would be shorter than itself
    rcases h.2.of_mem ha with ⟨l', hl', hlen⟩
    have heq : l' = a :: l := hl'.unique ⟨rfl, h.2⟩
    rw [heq, List.length_cons] at hlen
    omega

/-- A path only depends on the successor fields of the cells it visits. -/
theorem Path.congr {p : Option α} {l : List α} (hagree : ∀ a ∈ l, next a = next' a)
    (h : Path next p l) : Path next' p l := by
  induction l generalizing p with
  | nil => exact h
  | cons a l ih =>
    refine ⟨h.1, ?_⟩
    rw [← hagree a List.mem_cons_self]
    exact ih (fun b hb => hagree b (List.mem_cons_of_mem a hb)) h.2

/-- Writing the successor field of a cell that is not on the path. -/
theorem Path.update [DecidableEq α] {p : Option α} {l : List α} {a : α} {q : Option α}
    (h : Path next p l) (ha : a ∉ l) : Path (Function.update next a q) p l := by
  refine h.congr fun b hb => ?_
  have hne : b ≠ a := fun hba => ha (hba ▸ hb)
  rw [Function.update_of_ne hne]

/-- Following `next` from `p` visits the given cells and arrives at `q`. -/
def Segment (next : α → Option α) : Option α → List α → Option α → Prop
  | p, [], q => p = q
  | p, a :: l, q => p = some a ∧ Segment next (next a) l q

theorem Path.head_mem {a : α} {l : List α} (h : Path next (some a) l) : a ∈ l := by
  cases l with
  | nil => cases h
  | cons b l =>
    cases h.1
    exact List.mem_cons_self

/-- A path is not left by following `next`. -/
theorem Path.next_mem {p : Option α} {l : List α} {a b : α} (h : Path next p l) (ha : a ∈ l)
    (hb : next a = some b) : b ∈ l := by
  induction l generalizing p with
  | nil => cases ha
  | cons c l ih =>
    apply List.mem_cons_of_mem c
    rcases List.mem_cons.mp ha with rfl | ha
    · have hrest := h.2
      rw [hb] at hrest
      exact hrest.head_mem
    · exact ih h.2 ha

/-- Where a segment of the chain ends, there is an element of the chain. -/
theorem Path.segment_mem {p : Option α} {l front : List α} {a : α} (h : Path next p l)
    (hsegment : Segment next p front (some a)) : a ∈ l := by
  induction front generalizing p l with
  | nil =>
    rw [show p = some a from hsegment] at h
    exact h.head_mem
  | cons b front ih =>
    cases l with
    | nil =>
      rw [path_nil.mp h] at hsegment
      cases hsegment.1
    | cons c l =>
      have hcb : c = b := Option.some.inj (h.1.symm.trans hsegment.1)
      subst hcb
      exact List.mem_cons_of_mem c (ih h.2 hsegment.2)

/-- A list that comes back to its head never ends. -/
theorem not_path_of_cycle {p : Option α} {a b : α} (hp : p = some a) (ha : next a = some b)
    (hb : next b = some a) (l : List α) : ¬ Path next p l := by
  intro h
  have hnd := h.nodup
  cases l with
  | nil => exact absurd (hp.symm.trans h) (by simp)
  | cons c l =>
    have hca : c = a := Option.some.inj (h.1.symm.trans hp)
    subst hca
    have hback : Path next (some b) l := ha ▸ h.2
    cases l with
    | nil => exact absurd hback (by simp)
    | cons d l =>
      have hdb : b = d := Option.some.inj hback.1
      subst hdb
      have hmem : c ∈ l := by
        have h3 : Path next (some c) l := hb ▸ hback.2
        cases l with
        | nil => exact absurd h3 (by simp)
        | cons e l =>
          rw [Option.some.inj h3.1]
          exact List.mem_cons_self
      exact (List.nodup_cons.mp hnd).1 (List.mem_cons_of_mem b hmem)

/-! ## Predecessor fields -/

/-- The predecessor field of each cell names the cell before it; `q` stands
before the first one. -/
def BackLinks (prev : α → Option α) : Option α → List α → Prop
  | _, [] => True
  | q, a :: l => prev a = q ∧ BackLinks prev (some a) l

/-! ## The loop over a list -/

/-- Visit the cells from `p` on, at most `fuel` of them; `none` when the loop
has not ended by then. -/
def walk (next : α → Option α) : ℕ → Option α → Option (List α)
  | _, none => some []
  | 0, some _ => none
  | fuel + 1, some a => (walk next fuel (next a)).map (a :: ·)

/-- A walk over a list with an end comes to that end, given enough steps. -/
theorem walk_of_path {p : Option α} {l : List α} (h : Path next p l) (fuel : ℕ)
    (hfuel : l.length ≤ fuel) : walk next fuel p = some l := by
  induction l generalizing p fuel with
  | nil =>
    cases path_nil.mp h
    simp [walk]
  | cons a l ih =>
    cases fuel with
    | zero => simp at hfuel
    | succ fuel =>
      have ih' := ih h.2 fuel (by simpa using hfuel)
      rw [h.1, walk, ih', Option.map_some]

/-- A walk that comes to an end has followed the links. -/
theorem path_of_walk {p : Option α} {l : List α} {fuel : ℕ} (h : walk next fuel p = some l) :
    Path next p l := by
  induction fuel generalizing p l with
  | zero =>
    cases p with
    | none =>
      cases h
      exact rfl
    | some a => cases h
  | succ fuel ih =>
    cases p with
    | none =>
      cases h
      exact rfl
    | some a =>
      rcases Option.map_eq_some_iff.mp h with ⟨l', hl', rfl⟩
      exact ⟨rfl, ih hl'⟩

/-- The loop ends, with these visits, exactly when they are the path. -/
theorem exists_walk_iff {p : Option α} {l : List α} :
    (∃ fuel, walk next fuel p = some l) ↔ Path next p l :=
  ⟨fun ⟨_, h⟩ => path_of_walk h, fun h => ⟨l.length, walk_of_path h l.length (Nat.le_refl _)⟩⟩

end Chain
