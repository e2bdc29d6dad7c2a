import Mathlib.Order.Lattice
import Mathlib.Data.List.Basic

/-!
# OrderedSearch — sequences kept in the order of a key

* `search`: the halving search for the end of an initial segment; on a
  segment closed downwards it finds exactly where the segment ends
  (`lt_search_iff`), and it looks at no other place (`searchRead_eq`);
* `Ordered`: a list sorted by a key. Search finds the first place that is not
  below (`search_firstFrom`), so it cuts the list in two (`drop_search`), and
  a value goes in between what is not above and what is not below it
  (`ordered_insert`).
-/

namespace OrderedSearch

/-! ## The search -/

/-- The halving search over `count` places from `start` on: left of a place
that is `below`, nothing is looked for any more. -/
def search (below : ℕ → Bool) (start count : ℕ) : ℕ :=
  if 0 < count then
    let step := count / 2
    let i := start + step
    if below i then search below (i + 1) (count - (step + 1)) else search below start step
  else start
termination_by count
decreasing_by all_goals omega

/-- The search does not leave the range it is given. -/
theorem search_bounds (below : ℕ → Bool) (start count : ℕ) :
    start ≤ search below start count ∧ search below start count ≤ start + count := by
  fun_induction search below start count with
  | case1 start count hcount step i hbelow ih =>
    have hstep : step = count / 2 := rfl
    have hi : i = start + step := rfl
    omega
  | case2 start count hcount step i hbelow ih =>
    have hstep : step = count / 2 := rfl
    omega
  | case3 start count hcount => omega

/-- If the places below are an initial segment of those searched, the search
ends where they end. -/
theorem lt_search_iff {below : ℕ → Bool} {start count : ℕ}
    (hseg : ∀ i j, start ≤ i → i ≤ j → j < start + count → below j = true → below i = true) :
    ∀ i, start ≤ i → i < start + count → (i < search below start count ↔ below i = true) := by
  fun_induction search below start count with
  | case1 start count hcount step i hbelow ih =>
    -- the middle is below: so is everything left of it
    have hstep : step = count / 2 := rfl
    have hi : i = start + step := rfl
    have hle := (search_bounds below (i + 1) (count - (step + 1))).1
    intro j hj hjlt
    rcases Nat.lt_or_ge i j with hij | hij
    · apply ih _ j hij (by omega)
      intro i' j' hi' hij' hj'
      exact hseg i' j' (by omega) hij' (by omega)
    · constructor
      · intro _
        exact hseg j i hj hij (by omega) hbelow
      · intro _
        omega
  | case2 start count hcount step i hbelow ih =>
    -- the middle is not below: neither is anything right of it
    have hstep : step = count / 2 := rfl
    have hi : i = start + step := rfl
    have hle := (search_bounds below start step).2
    intro j hj hjlt
    rcases Nat.lt_or_ge j i with hij | hij
    · apply ih _ j hj (by omega)
      intro i' j' hi' hij' hj'
      exact hseg i' j' hi' hij' (by omega)
    · constructor
      · intro _
        omega
      · intro hjbelow
        exact absurd (hseg i j (by omega) hij (by omega) hjbelow) hbelow
  | case3 start count hcount =>
    intro j hj hjlt
    omega

/-- The same search, as far as it gets: it stops for good where it reads a place
that is not there. -/
def searchRead (below : ℕ → Option Bool) (start count : ℕ) : Option ℕ :=
  if 0 < count then
    let step := count / 2
    let i := start + step
    match below i with
    | none => none
    | some true => searchRead below (i + 1) (count - (step + 1))
    | some false => searchRead below start step
  else some start
termination_by count
decreasing_by all_goals omega

/-- It reads none but the places it searches. -/
theorem searchRead_eq {read : ℕ → Option Bool} {below : ℕ → Bool} {start count : ℕ}
    (hread : ∀ i, start ≤ i → i < start + count → read i = some (below i)) :
    searchRead read start count = some (search below start count) := by
  fun_induction search below start count with
  -- on behind the middle
  | case1 start count hcount step i hbelow ih =>
    have hstep : step = count / 2 := rfl
    have hi : i = start + step := rfl
    have hhere := hread (start + count / 2) (by omega) (by omega)
    rw [searchRead, if_pos hcount]
    simp only [hhere, show below (start + count / 2) = true from hbelow]
    refine ih ?_
    intro j hj hjlt
    exact hread j (by omega) (by omega)
  -- on in front of it
  | case2 start count hcount step i hbelow ih =>
    have hstep : step = count / 2 := rfl
    have hi : i = start + step := rfl
    have hhere := hread (start + count / 2) (by omega) (by omega)
    have hfalse : below (start + count / 2) = false := by simpa using hbelow
    rw [searchRead, if_pos hcount]
    simp only [hhere, hfalse]
    refine ih ?_
    intro j hj hjlt
    exact hread j hj (by omega)
  | case3 start count hcount =>
    rw [searchRead, if_neg hcount]

/-! ## Ordered lists -/

variable {α κ : Type*} [LinearOrder κ] (key : α → κ)

/-- Sorted by nondecreasing key. -/
def Ordered (l : List α) : Prop := l.Pairwise fun a b => key a ≤ key b

theorem ordered_nil : Ordered key [] := List.Pairwise.nil

/-- What remains of an ordered list is ordered. -/
theorem Ordered.sublist {l l' : List α} (h : Ordered key l') (hsub : l.Sublist l') :
    Ordered key l := List.Pairwise.sublist hsub h

/-- No key is above the one of a later place. -/
theorem Ordered.le_of_le {l : List α} (h : Ordered key l) {i j : ℕ} {a b : α} (hij : i ≤ j)
    (ha : l[i]? = some a) (hb : l[j]? = some b) : key a ≤ key b := by
  rcases Nat.lt_or_eq_of_le hij with hlt | heq
  · have hj : j < l.length := (List.getElem?_eq_some_iff.mp hb).1
    have hle := List.pairwise_iff_getElem.mp h i j (by omega) hj hlt
    rw [(List.getElem?_eq_some_iff.mp ha).2, (List.getElem?_eq_some_iff.mp hb).2] at hle
    exact hle
  · subst heq
    rw [ha] at hb
    rw [Option.some.inj hb]

theorem sublist_insert (l : List α) (k : ℕ) (x : α) : l.Sublist (l.take k ++ x :: l.drop k) := by
  have hsub := (List.Sublist.refl (l.take k)).append (List.sublist_cons_self x (l.drop k))
  rwa [List.take_append_drop] at hsub

/-- A value put between those not above and those not below it. -/
theorem ordered_insert {l : List α} (h : Ordered key l) {k : ℕ} {x : α}
    (hleft : ∀ a ∈ l.take k, key a ≤ key x) (hright : ∀ a ∈ l.drop k, key x ≤ key a) :
    Ordered key (l.take k ++ x :: l.drop k) := by
  have hsplit : Ordered key (l.take k ++ l.drop k) := by
    rw [List.take_append_drop]
    exact h
  rcases List.pairwise_append.mp hsplit with ⟨htake, hdrop, hcross⟩
  refine List.pairwise_append.mpr ⟨htake, List.pairwise_cons.mpr ⟨hright, hdrop⟩, ?_⟩
  intro a ha b hb
  rcases List.mem_cons.mp hb with rfl | hb
  · exact hleft a ha
  · exact hcross a ha b hb

/-- Whether the key at a place of a list is below `t`. -/
def keyBelow (l : List α) (t : κ) (i : ℕ) : Bool := l[i]?.any fun a => key a < t

/-- A place parts a list: the keys in front of it are below `t`, those from it on
are not. -/
structure FirstFrom (l : List α) (t : κ) (n : ℕ) : Prop where
  le_length : n ≤ l.length
  before : ∀ i < n, ∀ a, l[i]? = some a → key a < t
  behind : ∀ i, n ≤ i → ∀ a, l[i]? = some a → t ≤ key a

/-- In an ordered list the entries in front of the answer are those with a smaller
key. -/
theorem lt_search_keyBelow {l : List α} (h : Ordered key l) (t : κ) {i : ℕ} {a : α}
    (ha : l[i]? = some a) : i < search (keyBelow key l t) 0 l.length ↔ key a < t := by
  have hlt := (List.getElem?_eq_some_iff.mp ha).1
  rw [lt_search_iff ?_ i (Nat.zero_le _) (by omega)]
  · simp [keyBelow, ha]
  · intro i j _ hij hj hbelow
    rw [Nat.zero_add] at hj
    have hi : i < l.length := Nat.lt_of_le_of_lt hij hj
    have hle := h.le_of_le key hij (List.getElem?_eq_getElem hi) (List.getElem?_eq_getElem hj)
    simp only [keyBelow, List.getElem?_eq_getElem hi, List.getElem?_eq_getElem hj,
      Option.any_some, decide_eq_true_eq] at hbelow ⊢
    exact lt_of_le_of_lt hle hbelow

/-- The search of an ordered list finds the first place whose key is not below. -/
theorem search_firstFrom {l : List α} (h : Ordered key l) (t : κ) :
    FirstFrom key l t (search (keyBelow key l t) 0 l.length) := by
  constructor
  · have hbounds := (search_bounds (keyBelow key l t) 0 l.length).2
    omega
  · intro i hi a ha
    exact (lt_search_keyBelow key h t ha).mp hi
  · intro i hi a ha
    refine not_lt.mp fun hlt => ?_
    have hbefore := (lt_search_keyBelow key h t ha).mpr hlt
    omega

/-- It reads only places of the list, ordered or not. -/
theorem searchRead_list (l : List α) (t : κ) :
    searchRead (fun i => (l[i]?).map fun a => decide (key a < t)) 0 l.length =
      some (search (keyBelow key l t) 0 l.length) := by
  apply searchRead_eq
  intro i _ hi
  have hlt : i < l.length := by omega
  simp [keyBelow, hlt]

/-- The search cuts an ordered list in two: what comes from there on are the
values whose key is not below `t`. -/
theorem drop_search {l : List α} (h : Ordered key l) (t : κ) :
    l.drop (search (keyBelow key l t) 0 l.length) = l.filter fun a => t ≤ key a := by
  have hiff : ∀ i (hi : i < l.length),
      i < search (keyBelow key l t) 0 l.length ↔ key l[i] < t :=
    fun i hi => lt_search_keyBelow key h t (List.getElem?_eq_getElem hi)
  generalize search (keyBelow key l t) 0 l.length = n at hiff ⊢
  have htake : (l.take n).filter (fun a => t ≤ key a) = [] := by
    rw [List.filter_eq_nil_iff]
    intro a ha
    rcases List.mem_take_iff_getElem.mp ha with ⟨i, hi, rfl⟩
    have hlt := (hiff i (by omega)).mp (by omega)
    simpa using hlt
  have hdrop : (l.drop n).filter (fun a => t ≤ key a) = l.drop n := by
    rw [List.filter_eq_self]
    intro a ha
    rcases List.mem_drop_iff_getElem.mp ha with ⟨i, hi, rfl⟩
    have hge : ¬ key l[n + i] < t := fun hlt => by
      have := (hiff (n + i) (by omega)).mpr hlt
      omega
    simpa using hge
  calc l.drop n = (l.take n).filter (fun a => t ≤ key a) ++
        (l.drop n).filter (fun a => t ≤ key a) := by rw [htake, hdrop, List.nil_append]
    _ = l.filter fun a => t ≤ key a := by rw [← List.filter_append, List.take_append_drop]

end OrderedSearch
