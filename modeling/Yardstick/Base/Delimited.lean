import Mathlib.Data.List.Basic

/-!
# Delimited — texts that are cut at separators

Where a separator first occurs in a text, what is in front of it and what is
behind it; and the fields of a text between the occurrences of a symbol.

* `cut_spec`, `cut_front`: the two parts of a cut, and the cut of a text made of
  two such parts;
* `find_field`: a search for the beginnings of fields finds the first field that
  fits.
-/

namespace Delimited

variable {α β : Type*} [DecidableEq α]

/-! ## Cutting -/

/-- What is in front of the first occurrence of `sep` and what is behind it. -/
def cut (sep : List α) : List α → Option (List α × List α)
  | [] => if sep = [] then some ([], []) else none
  | x :: xs =>
    if sep.isPrefixOf (x :: xs) then some ([], (x :: xs).drop sep.length)
    else (cut sep xs).map fun r => (x :: r.1, r.2)

/-- What is cut off, the separator and the rest are the whole. -/
theorem cut_spec {sep xs front rest : List α} (h : cut sep xs = some (front, rest)) :
    xs = front ++ (sep ++ rest) := by
  induction xs generalizing front with
  | nil =>
    rw [cut] at h
    split at h
    · obtain ⟨rfl, rfl⟩ := by simpa using h
      simp_all
    · cases h
  | cons x xs ih =>
    rw [cut] at h
    split at h
    · rename_i hprefix
      obtain ⟨rfl, rfl⟩ := by simpa using h
      rcases List.isPrefixOf_iff_prefix.mp hprefix with ⟨t, ht⟩
      rw [← ht]
      simp
    · rcases Option.map_eq_some_iff.mp h with ⟨⟨front', rest'⟩, hcut, heq⟩
      obtain ⟨rfl, rfl⟩ := by simpa using heq
      rw [ih hcut, List.cons_append]

/-- A separator is found behind a text without its first symbol. -/
theorem cut_front {s : α} {sep front : List α} (h : s ∉ front) (rest : List α) :
    cut (s :: sep) (front ++ (s :: sep ++ rest)) = some (front, rest) := by
  induction front with
  | nil => simp [cut]
  | cons x front ih =>
    obtain ⟨hne, hmem⟩ := by simpa using h
    rw [List.cons_append, cut, ih hmem]
    simp [hne]

theorem cut_eq_none {s : α} {sep xs : List α} (h : s ∉ xs) : cut (s :: sep) xs = none := by
  induction xs with
  | nil => simp [cut]
  | cons x xs ih =>
    obtain ⟨hne, hmem⟩ := by simpa using h
    simp [cut, hne, ih hmem]

/-- What is behind a separator is shorter. -/
theorem length_cut_lt {s : α} {sep xs front rest : List α}
    (h : cut (s :: sep) xs = some (front, rest)) : rest.length < xs.length := by
  rw [cut_spec h]
  simp
  omega

/-! ## Fields -/

/-- Fields with a separator between any two of them. -/
def joinFields (sep : α) : List (List α) → List α
  | [] => []
  | [field] => field
  | field :: fields => field ++ sep :: joinFields sep fields

/-- Look at the rest of a text from every place at which a field begins. -/
def findAtFields (sep : α) (accept : List α → Option β) : Bool → List α → Option β
  | _, [] => none
  | begins, x :: xs =>
    match if begins then accept (x :: xs) else none with
    | some found => some found
    | none => findAtFields sep accept (decide (x = sep)) xs

omit [DecidableEq α] in
theorem joinFields_cons (sep : α) (field : List α) (fields : List (List α)) :
    joinFields sep (field :: fields) =
      field ++ if fields = [] then [] else sep :: joinFields sep fields := by
  cases fields <;> simp [joinFields]

/-- Within a field nothing is looked at. -/
theorem findAtFields_skip {sep : α} {accept : List α → Option β} {field : List α} (h : sep ∉ field)
    (rest : List α) :
    findAtFields sep accept false (field ++ sep :: rest) = findAtFields sep accept true rest ∧
    findAtFields sep accept false field = none := by
  induction field with
  | nil => simp [findAtFields]
  | cons x field ih =>
    obtain ⟨hne, hmem⟩ := by simpa using h
    have hne' : ¬ x = sep := fun heq => hne heq.symm
    simpa [findAtFields, hne'] using ih hmem

/-- A search that accepts the field of an item or not, whatever follows it, finds
the first item whose field it accepts. -/
theorem find_field {γ : Type*} {sep : α} {accept : List α → Option β} (text : γ → List α)
    (pick : γ → Option β) {items : List γ} (hfree : ∀ item ∈ items, sep ∉ text item)
    (hlocal : ∀ item ∈ items, ∀ rest, (rest = [] ∨ ∃ more, rest = sep :: more) →
      accept (text item ++ rest) = pick item)
    (hempty : accept [] = none) :
    findAtFields sep accept true (joinFields sep (items.map text)) = items.findSome? pick := by
  induction items with
  | nil => rfl
  | cons item items ih =>
    have hfield := hfree item List.mem_cons_self
    have haccept := hlocal item List.mem_cons_self
    have ih' := ih (fun i hi => hfree i (List.mem_cons_of_mem _ hi))
      (fun i hi => hlocal i (List.mem_cons_of_mem _ hi))
    rw [List.map_cons, joinFields_cons, List.findSome?_cons]
    generalize text item = field at hfield haccept ⊢
    cases field with
    | nil =>
      have hnone : pick item = none := by
        rw [← haccept [] (Or.inl rfl)]
        exact hempty
      rw [hnone]
      by_cases hlast : items.map text = []
      · rw [List.map_eq_nil_iff.mp hlast]
        rfl
      · -- an empty field, and then the others
        have hnext := haccept _ (Or.inr ⟨joinFields sep (items.map text), rfl⟩)
        rw [List.nil_append, hnone] at hnext
        rw [if_neg hlast, List.nil_append, findAtFields, if_pos rfl, hnext]
        simpa using ih'
    | cons x field =>
      obtain ⟨hne, hmem⟩ := by simpa using hfield
      have hne' : decide (x = sep) = false := by simpa using fun heq : x = sep => hne heq.symm
      have hnext := haccept (if items.map text = [] then [] else sep :: joinFields sep (items.map text))
        (by
          split
          · exact Or.inl rfl
          · exact Or.inr ⟨_, rfl⟩)
      rw [List.cons_append] at hnext
      rw [List.cons_append, findAtFields, if_pos rfl, hnext, hne']
      cases hfound : pick item with
      | some found => rfl
      | none =>
        -- the rest of the field is passed over
        by_cases hlast : items.map text = []
        · rw [List.map_eq_nil_iff.mp hlast]
          simpa using (findAtFields_skip hmem []).2
        · rw [if_neg hlast]
          exact (findAtFields_skip hmem _).1.trans ih'

end Delimited
