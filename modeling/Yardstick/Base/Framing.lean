import Mathlib.Data.List.Basic

/-!
# Framing — streams of self-delimiting records

A record format is a text for every record and a parser that takes one record
off the front of a stream, inverse to each other. From the one-record laws:

* a stream splits in exactly one way into records and a rest on which the
  parser fails (`split_spec`, `split_unique`);
* the records of the split are the longest prefix of the stream that is a
  concatenation of records (`prefix_of_split`);
* a concatenation of records determines them (`join_injective`).
-/

namespace Framing

/-- A format of self-delimiting records over symbols `β`. -/
structure Format (β ρ : Type*) where
  text : ρ → List β
  parse : List β → Option (ρ × List β)
  text_ne_nil : ∀ r, text r ≠ []
  parse_text : ∀ r rest, parse (text r ++ rest) = some (r, rest)
  text_of_parse : ∀ bs r rest, parse bs = some (r, rest) → bs = text r ++ rest

namespace Format

variable {β ρ : Type*} (F : Format β ρ)

/-- The stream made of the texts of the given records. -/
def join (rs : List ρ) : List β := rs.flatMap F.text

@[simp] theorem join_nil : F.join [] = [] := rfl

@[simp] theorem join_cons (r : ρ) (rs : List ρ) : F.join (r :: rs) = F.text r ++ F.join rs := by
  simp [join]

@[simp] theorem join_append (rs rs' : List ρ) : F.join (rs ++ rs') = F.join rs ++ F.join rs' := by
  simp [join]

theorem text_length_pos (r : ρ) : 0 < (F.text r).length :=
  List.length_pos_iff.mpr (F.text_ne_nil r)

/-- The parser fails on the empty stream: every record has a symbol. -/
theorem parse_nil : F.parse [] = none := by
  cases hp : F.parse [] with
  | none => rfl
  | some p =>
    have h := F.text_of_parse [] p.1 p.2 hp
    exact absurd (List.append_eq_nil_iff.mp h.symm).1 (F.text_ne_nil p.1)

theorem length_rest_lt {bs rest : List β} {r : ρ} (h : F.parse bs = some (r, rest)) :
    rest.length < bs.length := by
  rw [F.text_of_parse bs r rest h, List.length_append]
  have := F.text_length_pos r
  omega

/-! ## Splitting a stream -/

/-- Take records off the front, at most `fuel` of them. -/
def splitFuel : ℕ → List β → List ρ × List β
  | 0, bs => ([], bs)
  | fuel + 1, bs =>
    match F.parse bs with
    | none => ([], bs)
    | some (r, rest) =>
      let (rs, rest') := splitFuel fuel rest
      (r :: rs, rest')

/-- The records at the front of a stream and what follows them. A stream has
no more records than symbols. -/
def split (bs : List β) : List ρ × List β := F.splitFuel bs.length bs

/-- Texts of records are cut apart again, up to a rest that is no record. -/
theorem splitFuel_join (rs : List ρ) (rest : List β) (hrest : F.parse rest = none)
    (fuel : ℕ) (hfuel : rs.length ≤ fuel) : F.splitFuel fuel (F.join rs ++ rest) = (rs, rest) := by
  induction rs generalizing fuel with
  | nil => cases fuel <;> simp [splitFuel, hrest]
  | cons r rs ih =>
    cases fuel with
    | zero => simp at hfuel
    | succ fuel =>
      have ih' := ih fuel (by simpa using hfuel)
      simp [splitFuel, F.parse_text, ih']

theorem length_le_join (rs : List ρ) : rs.length ≤ (F.join rs).length := by
  induction rs with
  | nil => simp
  | cons r rs ih =>
    have := F.text_length_pos r
    simp only [join_cons, List.length_cons, List.length_append]
    omega

/-- Uniqueness of the split. -/
theorem split_unique (rs : List ρ) (rest : List β) (hrest : F.parse rest = none) :
    F.split (F.join rs ++ rest) = (rs, rest) := by
  apply F.splitFuel_join rs rest hrest
  have := F.length_le_join rs
  rw [List.length_append]
  omega

/-- Existence: every stream is records followed by a rest the parser refuses. -/
theorem exists_split (bs : List β) :
    ∃ rs rest, bs = F.join rs ++ rest ∧ F.parse rest = none := by
  induction hn : bs.length using Nat.strongRecOn generalizing bs with
  | ind n ih =>
    cases hp : F.parse bs with
    | none => exact ⟨[], bs, by simp, hp⟩
    | some p =>
      rcases p with ⟨r, rest⟩
      obtain ⟨rs, rest', hjoin, hnone⟩ :=
        ih rest.length (hn ▸ F.length_rest_lt hp) rest rfl
      refine ⟨r :: rs, rest', ?_, hnone⟩
      rw [F.text_of_parse bs r rest hp, hjoin, join_cons, List.append_assoc]

theorem split_spec (bs : List β) :
    bs = F.join (F.split bs).1 ++ (F.split bs).2 ∧ F.parse (F.split bs).2 = none := by
  rcases F.exists_split bs with ⟨rs, rest, rfl, hrest⟩
  rw [F.split_unique rs rest hrest]
  exact ⟨rfl, hrest⟩

theorem split_join (rs : List ρ) : F.split (F.join rs) = (rs, []) := by
  simpa using F.split_unique rs [] F.parse_nil

/-- Any records at the front of a stream are an initial part of the split: the
split has the longest prefix that is a concatenation of records. -/
theorem prefix_of_split (rs : List ρ) (rest : List β) :
    rs <+: (F.split (F.join rs ++ rest)).1 := by
  rcases F.exists_split rest with ⟨rs', rest', hrest, hnone⟩
  have hjoin : F.join rs ++ rest = F.join (rs ++ rs') ++ rest' := by
    rw [hrest, join_append, List.append_assoc]
  rw [hjoin, F.split_unique _ _ hnone]
  exact List.prefix_append rs rs'

/-- A concatenation of records determines them. -/
theorem join_injective : Function.Injective F.join := by
  intro rs rs' h
  have h' := congrArg (fun bs => (F.split bs).1) h
  simpa [F.split_join] using h'

end Format

end Framing
