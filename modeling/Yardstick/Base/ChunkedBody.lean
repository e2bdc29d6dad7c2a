import Mathlib.Data.List.Basic

/-!
# ChunkedBody — a body sent in chunks of known size

Each chunk is its size in hexadecimal on a line of its own, its bytes, and a line
end; a chunk of size 0 ends the body.

* `decode_chunk`, `decode_last`: what a reader makes of the first chunk;
* `decode_chunks`: of a list of chunks it gets those in front of the first empty
  one, and nothing behind it.
-/

namespace ChunkedBody

def lineEnd : List UInt8 := [13, 10]

def hexText (n : ℕ) : List UInt8 := (Nat.toDigits 16 n).map fun d => UInt8.ofNat d.toNat

def chunk (data : List UInt8) : List UInt8 := hexText data.length ++ lineEnd ++ data ++ lineEnd

/-! ## Reading -/

def digitValue (c : UInt8) : Option ℕ :=
  if 48 ≤ c ∧ c ≤ 57 then some (c.toNat - 48)
  else if 97 ≤ c ∧ c ≤ 102 then some (c.toNat - 87)
  else if 65 ≤ c ∧ c ≤ 70 then some (c.toNat - 55)
  else none

/-- The size on the first line and what is behind it, given the value of the
digits so far. A line without digits is no size. -/
def sizeLine (n : Option ℕ) : List UInt8 → Option (ℕ × List UInt8)
  | [] => none
  | c :: rest =>
    if c = 13 ∧ rest.head? = some 10 then n.map fun n => (n, rest.tail)
    else (digitValue c).bind fun d => sizeLine (some (16 * n.getD 0 + d)) rest

/-- A size line has at least one byte. -/
theorem length_sizeLine_lt {n : Option ℕ} {bs rest : List UInt8} {m : ℕ}
    (h : sizeLine n bs = some (m, rest)) : rest.length < bs.length := by
  induction bs generalizing n with
  | nil => simp [sizeLine] at h
  | cons c bs ih =>
    rw [sizeLine] at h
    split at h
    · rcases Option.map_eq_some_iff.mp h with ⟨n, -, heq⟩
      obtain ⟨-, rfl⟩ := by simpa using heq
      simp only [List.length_tail, List.length_cons]
      omega
    · rcases Option.bind_eq_some_iff.mp h with ⟨d, -, hrest⟩
      exact Nat.lt_trans (ih hrest) (by simp)

/-- The body and what is behind it. -/
def decode (bs : List UInt8) : Option (List UInt8 × List UInt8) :=
  match _h : sizeLine none bs with
  | none => none
  | some (0, rest) => if lineEnd.isPrefixOf rest then some ([], rest.drop 2) else none
  | some (n + 1, rest) =>
    if lineEnd.isPrefixOf (rest.drop (n + 1)) then
      (decode (rest.drop (n + 3))).map fun r => (rest.take (n + 1) ++ r.1, r.2)
    else none
termination_by bs.length
decreasing_by
  have hlt := length_sizeLine_lt _h
  rw [List.length_drop]
  omega

/-! ## Chunks -/

theorem digitValue_digitChar (d : Fin 16) :
    digitValue (UInt8.ofNat (Nat.digitChar d.val).toNat) = some d.val ∧
      UInt8.ofNat (Nat.digitChar d.val).toNat ≠ 13 := by
  revert d
  decide

/-- A digit is worth what it is written for. -/
theorem sizeLine_digit (n : Option ℕ) {d : ℕ} (hd : d < 16) (rest : List UInt8) :
    sizeLine n (UInt8.ofNat (Nat.digitChar d).toNat :: rest) =
      sizeLine (some (16 * n.getD 0 + d)) rest := by
  obtain ⟨hvalue, hne⟩ := digitValue_digitChar ⟨d, hd⟩
  rw [sizeLine, if_neg fun h => hne h.1, hvalue, Option.bind_some]

/-- The digits of a number are read as that number. -/
theorem sizeLine_hexText (n : ℕ) (rest : List UInt8) :
    sizeLine none (hexText n ++ rest) = sizeLine (some n) rest := by
  induction n using Nat.strongRecOn generalizing rest with
  | ind n ih =>
    rw [hexText, Nat.toDigits_eq_if (by omega)]
    split
    · rename_i hlt
      have hdigit := sizeLine_digit none hlt rest
      simpa using hdigit
    · rename_i hge
      have hdigit := sizeLine_digit (some (n / 16)) (Nat.mod_lt n (by omega)) rest
      have hsplit : 16 * (n / 16) + n % 16 = n := Nat.div_add_mod n 16
      rw [Option.getD_some, hsplit] at hdigit
      rw [List.map_append, List.append_assoc, ← hdigit]
      exact ih (n / 16) (by omega) _

theorem sizeLine_chunk (data rest : List UInt8) :
    sizeLine none (chunk data ++ rest) = some (data.length, data ++ (lineEnd ++ rest)) := by
  have hchunk : chunk data ++ rest =
      hexText data.length ++ (13 :: 10 :: (data ++ (lineEnd ++ rest))) := by
    simp [chunk, lineEnd]
  rw [hchunk, sizeLine_hexText, sizeLine]
  simp

/-- The empty chunk ends the body. -/
theorem decode_last (rest : List UInt8) : decode (chunk [] ++ rest) = some ([], rest) := by
  have hsize := sizeLine_chunk [] rest
  rw [decode]
  split
  · rename_i h
    rw [hsize] at h
    cases h
  · rename_i rest' h
    rw [hsize] at h
    obtain rfl : lineEnd ++ rest = rest' := by simpa using h
    simp [lineEnd]
  · rename_i n rest' h
    rw [hsize] at h
    simp at h

/-- Any other chunk is taken off the front. -/
theorem decode_chunk {data : List UInt8} (h : data ≠ []) (rest : List UInt8) :
    decode (chunk data ++ rest) = (decode rest).map fun r => (data ++ r.1, r.2) := by
  have hpos : 0 < data.length := List.length_pos_iff.mpr h
  have hsize := sizeLine_chunk data rest
  rw [decode]
  split
  · -- the size line is there
    rename_i h
    rw [hsize] at h
    cases h
  · -- and it is not that of the last chunk
    rename_i rest' h
    rw [hsize] at h
    have hzero : data.length = 0 := by simpa using congrArg (Option.map Prod.fst) h
    omega
  · -- behind the data the line end is skipped
    rename_i n rest' h
    rw [hsize] at h
    obtain ⟨hlen, rfl⟩ : data.length = n + 1 ∧ data ++ (lineEnd ++ rest) = rest' := by
      simpa using h
    have hdrop : (data ++ (lineEnd ++ rest)).drop (n + 1) = lineEnd ++ rest := by
      rw [← hlen, List.drop_left]
    have hnext : (data ++ (lineEnd ++ rest)).drop (n + 3) = rest := by
      rw [show n + 3 = (n + 1) + 2 from rfl, ← List.drop_drop, hdrop]
      rfl
    have htake : (data ++ (lineEnd ++ rest)).take (n + 1) = data := by
      rw [← hlen, List.take_left]
    rw [hdrop, hnext, htake, if_pos (by simp)]

/-- A reader gets the chunks in front of the first empty one. -/
theorem decode_chunks (pieces : List (List UInt8)) (h : [] ∈ pieces) (rest : List UInt8) :
    decode (pieces.flatMap chunk ++ rest) =
      some ((pieces.takeWhile (· ≠ [])).flatten,
        ((pieces.dropWhile (· ≠ [])).tail).flatMap chunk ++ rest) := by
  induction pieces with
  | nil => cases h
  | cons piece pieces ih =>
    rw [List.flatMap_cons, List.append_assoc]
    by_cases hpiece : piece = []
    · subst hpiece
      rw [decode_last]
      simp
    · have hmem : [] ∈ pieces := by
        rcases List.mem_cons.mp h with heq | hmem
        · exact absurd heq.symm hpiece
        · exact hmem
      rw [decode_chunk hpiece, ih hmem]
      simp [hpiece]

/-- An empty piece of the body comes before the one that ends it. -/
theorem mem_tail_dropWhile {pieces : List (List UInt8)} (h : [] ∈ pieces) :
    [] ∈ ((pieces ++ [[]]).dropWhile (· ≠ [])).tail := by
  induction pieces with
  | nil => cases h
  | cons piece pieces ih =>
    by_cases hpiece : piece = []
    · subst hpiece
      simp
    · have hmem : [] ∈ pieces := by
        rcases List.mem_cons.mp h with heq | hmem
        · exact absurd heq.symm hpiece
        · exact hmem
      simpa [hpiece] using ih hmem

/-- All of them, if only the last one is empty. -/
theorem decode_chunks_iff (pieces : List (List UInt8)) :
    decode ((pieces ++ [[]]).flatMap chunk) = some (pieces.flatten, []) ↔ [] ∉ pieces := by
  have hdecode := decode_chunks (pieces ++ [[]]) (by simp) []
  rw [List.append_nil] at hdecode
  rw [hdecode]
  constructor
  · intro heq hmem
    -- the last chunk is behind the first empty one
    have htail : ((pieces ++ [[]]).dropWhile (· ≠ [])).tail.flatMap chunk = [] := by
      simpa using congrArg (Option.map Prod.snd) heq
    have hlast := mem_tail_dropWhile hmem
    have hempty : chunk [] = [] := by
      apply List.eq_nil_iff_forall_not_mem.mpr
      intro b hb
      have hall := List.eq_nil_iff_forall_not_mem.mp htail b
      exact hall (List.mem_flatMap.mpr ⟨[], hlast, hb⟩)
    simp [chunk, lineEnd] at hempty
  · intro hmem
    have hall : ∀ piece ∈ pieces, decide (piece ≠ []) = true := by
      intro piece hpiece
      apply decide_eq_true
      rintro rfl
      exact hmem hpiece
    rw [List.takeWhile_append_of_pos hall, List.dropWhile_append_of_pos hall]
    simp

end ChunkedBody
