import Mathlib.Data.List.Nodup

/-!
# InsertionMap — maps that remember the order of insertion

Entries in the order in which their keys were first set; setting a key again
keeps its place.

* `get_set`, `get_mapValues`: what a map answers after an update;
* `keys_prefix_set`: the keys there were stay where they were.
-/

/-- A map with its entries in the order of insertion. -/
structure InsertionMap (κ α : Type*) where
  entries : List (κ × α)
  nodup_keys : (entries.map Prod.fst).Nodup

namespace InsertionMap

variable {κ α β : Type*}

/-- The map with no entry. -/
def empty : InsertionMap κ α := ⟨[], List.nodup_nil⟩

/-- Change every value. -/
def mapValues (m : InsertionMap κ α) (f : α → β) : InsertionMap κ β :=
  ⟨m.entries.map fun e => (e.1, f e.2), by simpa [Function.comp_def] using m.nodup_keys⟩

variable [DecidableEq κ]

/-- The value of the first entry for `k`. -/
def lookup (k : κ) : List (κ × α) → Option α
  | [] => none
  | e :: es => if e.1 = k then some e.2 else lookup k es

/-- Replace the entry for `k`, or append one. -/
def update (k : κ) (a : α) : List (κ × α) → List (κ × α)
  | [] => [(k, a)]
  | e :: es => if e.1 = k then (k, a) :: es else e :: update k a es

/-- The only key that may be new is the one that is set. -/
theorem mem_update_keys {k k' : κ} {a : α} {es : List (κ × α)}
    (h : k' ∈ (update k a es).map Prod.fst) : k' = k ∨ k' ∈ es.map Prod.fst := by
  induction es with
  | nil =>
    left
    simpa [update] using h
  | cons e es ih =>
    unfold update at h
    split at h
    · rcases List.mem_cons.mp h with hk | hmem
      · exact Or.inl hk
      · exact Or.inr (List.mem_cons_of_mem _ hmem)
    · rcases List.mem_cons.mp h with hk | hmem
      · right
        rw [hk]
        exact List.mem_cons_self
      · rcases ih hmem with hk | hk
        · exact Or.inl hk
        · exact Or.inr (List.mem_cons_of_mem _ hk)

/-- A key that is set stands once among the keys. -/
theorem nodup_update {es : List (κ × α)} (h : (es.map Prod.fst).Nodup) (k : κ) (a : α) :
    ((update k a es).map Prod.fst).Nodup := by
  induction es with
  | nil => simp [update]
  | cons e es ih =>
    have hcons := List.nodup_cons.mp h
    unfold update
    split
    · rename_i hk
      subst hk
      exact h
    · rename_i hk
      refine List.nodup_cons.mpr ⟨fun hmem => ?_, ih hcons.2⟩
      rcases mem_update_keys hmem with heq | hmem
      · exact hk heq
      · exact hcons.1 hmem

/-- The value set for `k`, if any. -/
def get (m : InsertionMap κ α) (k : κ) : Option α := lookup k m.entries

/-- Set the value for `k`. -/
def set (m : InsertionMap κ α) (k : κ) (a : α) : InsertionMap κ α :=
  ⟨update k a m.entries, nodup_update m.nodup_keys k a⟩

/-- Setting a key changes what is found under it, and nothing else. -/
theorem lookup_update (k k' : κ) (a : α) (es : List (κ × α)) :
    lookup k' (update k a es) = if k' = k then some a else lookup k' es := by
  induction es with
  | nil => simp [update, lookup, eq_comm]
  | cons e es ih =>
    by_cases he : e.1 = k
    · subst he
      by_cases hk : k' = e.1
      · simp [update, lookup, hk]
      · simp [update, lookup, hk, Ne.symm hk]
    · by_cases hk : e.1 = k'
      · have hne : ¬ k' = k := fun h => he (hk.trans h)
        simp [update, lookup, hk, hne]
      · simp [update, lookup, he, hk, ih]

@[simp] theorem get_set (m : InsertionMap κ α) (k k' : κ) (a : α) :
    (m.set k a).get k' = if k' = k then some a else m.get k' := lookup_update k k' a m.entries

@[simp] theorem get_mapValues (m : InsertionMap κ α) (f : α → β) (k : κ) :
    (m.mapValues f).get k = (m.get k).map f := by
  unfold get mapValues
  dsimp only
  induction m.entries with
  | nil => rfl
  | cons e es ih =>
    simp only [List.map_cons, lookup, ih]
    split <;> rfl

/-! ## The order of the keys -/

/-- The keys, in the order in which they were first set. -/
def keys (m : InsertionMap κ α) : List κ := m.entries.map Prod.fst

omit [DecidableEq κ] in
@[simp] theorem keys_mapValues (m : InsertionMap κ α) (f : α → β) :
    (m.mapValues f).keys = m.keys := by
  simp [keys, mapValues, Function.comp_def]

/-- A new key is put behind those that are there; an old one keeps its place. -/
theorem keys_prefix_update (k : κ) (a : α) (es : List (κ × α)) :
    es.map Prod.fst <+: (update k a es).map Prod.fst := by
  induction es with
  | nil => exact List.nil_prefix
  | cons e es ih =>
    unfold update
    split
    · rename_i hk
      rewrite [List.map_cons, List.map_cons, hk]
      exact List.prefix_rfl
    · rw [List.map_cons, List.map_cons]
      exact (List.prefix_cons_inj e.1).mpr ih

theorem keys_prefix_set (m : InsertionMap κ α) (k : κ) (a : α) : m.keys <+: (m.set k a).keys :=
  keys_prefix_update k a m.entries

/-- An entry is what is found under its key. -/
theorem get_of_mem {m : InsertionMap κ α} {e : κ × α} (h : e ∈ m.entries) :
    m.get e.1 = some e.2 := by
  have hnodup := m.nodup_keys
  unfold get
  generalize m.entries = es at h hnodup
  induction es with
  | nil => cases h
  | cons e' es ih =>
    rcases List.nodup_cons.mp hnodup with ⟨hnotin, hnodup⟩
    rcases List.mem_cons.mp h with rfl | hmem
    · exact if_pos rfl
    · have hne : e'.1 ≠ e.1 := fun heq => hnotin (heq ▸ List.mem_map_of_mem hmem)
      rw [lookup, if_neg hne]
      exact ih hmem hnodup

end InsertionMap
