import Yardstick.Base.Delimited
import Yardstick.WebbyConnection

/-!
# WebbyQuery — URL decoding and query variables

`url_decode` turns `%XX` and `+` back into the bytes they stand for. It looks up
to two bytes past the end of its input, and `wb_setup_request` runs it in place,
with input and output in one buffer. `WebbyFindQueryVar` looks for `name=` at
the beginning of a field and decodes what follows up to the next `&`.

* `urlDecode_escaped`: every way to escape a text is decoded to the text;
* `urlDecodeInPlace_eq`: in place it gives the same bytes;
* `findQueryVar_pairs`: out of a query made of pairs it gets the value of the
  first one with the name.
-/

namespace Yardstick.WebbyQuery

open Delimited WebbyConnection

/-! ## Decoding -/

def isxdigit (b : UInt8) : Bool :=
  (48 ≤ b && b ≤ 57) || (65 ≤ b && b ≤ 70) || (97 ≤ b && b ≤ 102)

/-- `HEXTOI`, of a digit in lower case. -/
def hexToI (x : UInt8) : UInt8 := if 48 ≤ x ∧ x ≤ 57 then x - 48 else x - 87

def hexPair (a b : UInt8) : UInt8 := hexToI (toLower a) <<< 4 ||| hexToI (toLower b)

/-- A byte that is not the beginning of an escape. -/
def plain (form : Bool) (c : UInt8) : UInt8 := if form ∧ c = 43 then 32 else c

/-- `url_decode`: of the bytes at `src`, which go on behind the input, the first
`srcLen` are decoded, into at most `room` bytes. -/
def urlDecode (form : Bool) : List UInt8 → ℕ → ℕ → List UInt8
  | c :: src, srcLen + 1, room + 1 =>
    match src with
    | a :: b :: rest =>
      if c = 37 ∧ isxdigit a ∧ isxdigit b then
        hexPair a b :: urlDecode form rest (srcLen - 2) room
      else plain form c :: urlDecode form src srcLen room
    | _ => plain form c :: urlDecode form src srcLen room
  | _, _, _ => []

/-- `url_decode` with `dst` equal to `src`: the buffer and the number of bytes
decoded. `fuel` is the number of bytes that are left to look at. -/
def urlDecodeInPlace (form : Bool) (srcLen dstLen : ℕ) :
    ℕ → List UInt8 → ℕ → ℕ → List UInt8 × ℕ
  | 0, mem, _, j => (mem.set j 0, j)
  | fuel + 1, mem, i, j =>
    if i < srcLen ∧ j < dstLen - 1 then
      if mem.getD i 0 = 37 ∧ isxdigit (mem.getD (i + 1) 0) ∧ isxdigit (mem.getD (i + 2) 0) then
        let mem' := mem.set j (hexPair (mem.getD (i + 1) 0) (mem.getD (i + 2) 0))
        urlDecodeInPlace form srcLen dstLen fuel mem' (i + 3) (j + 1)
      else
        let mem' := mem.set j (plain form (mem.getD i 0))
        urlDecodeInPlace form srcLen dstLen fuel mem' (i + 1) (j + 1)
    else (mem.set j 0, j)

/-! ## Query variables -/

/-- What the loop of `WebbyFindQueryVar` does at the beginning of a field: with
the variable there it ends, with the decoded value or, when the value does not
fit, with nothing. -/
def acceptVar (name : Text) (dstLen : ℕ) (p : Text) : Option (Option Text) :=
  if name.length < p.length ∧ p.getD name.length 0 = 61 ∧ sameText name (p.take name.length) then
    let value := p.drop (name.length + 1)
    let len := (value.takeWhile (· ≠ 38)).length
    some (if len < dstLen then some (urlDecode true (value ++ [0]) len (dstLen - 1)) else none)
  else none

/-- `WebbyFindQueryVar`; `none` for -1. -/
def webbyFindQueryVar (buf name : Text) (dstLen : ℕ) : Option Text :=
  (findAtFields 38 (acceptVar name dstLen) true buf).join

/-! ## What decoding gives -/

def hexUpper (n : ℕ) : UInt8 := UInt8.ofNat (if n < 10 then 48 + n else 55 + n)

def hexLower (n : ℕ) : UInt8 := UInt8.ofNat (if n < 10 then 48 + n else 87 + n)

/-- The byte is the hexadecimal digit, in upper or in lower case. -/
def IsDigit (n : ℕ) (b : UInt8) : Prop := b = hexUpper n ∨ b = hexLower n

/-- The first text is a way to escape the second. -/
inductive Escaped (form : Bool) : Text → Text → Prop
  | nil : Escaped form [] []
  | plain {c : UInt8} {e t : Text} (hpercent : c ≠ 37) (hplus : form = true → c ≠ 43)
    (h : Escaped form e t) : Escaped form (c :: e) (c :: t)
  | space {e t : Text} (hform : form = true) (h : Escaped form e t) :
    Escaped form (43 :: e) (32 :: t)
  | byte {c a b : UInt8} {e t : Text} (ha : IsDigit (c.toNat / 16) a)
    (hb : IsDigit (c.toNat % 16) b) (h : Escaped form e t) :
    Escaped form (37 :: a :: b :: e) (c :: t)

/-- The code takes a hexadecimal digit, of either case, for its value. -/
theorem digit_spec {n : Fin 16} {b : UInt8} (h : IsDigit n.val b) :
    isxdigit b = true ∧ hexToI (toLower b) = UInt8.ofNat n.val := by
  have hall : ∀ n : Fin 16,
      (isxdigit (hexUpper n.val) = true ∧
        hexToI (toLower (hexUpper n.val)) = UInt8.ofNat n.val) ∧
      isxdigit (hexLower n.val) = true ∧
        hexToI (toLower (hexLower n.val)) = UInt8.ofNat n.val := by decide
  rcases h with rfl | rfl
  · exact (hall n).1
  · exact (hall n).2

/-- Two hexadecimal digits are read as the byte they stand for. -/
theorem hexPair_digits {c a b : UInt8} (ha : IsDigit (c.toNat / 16) a)
    (hb : IsDigit (c.toNat % 16) b) : isxdigit a = true ∧ isxdigit b = true ∧ hexPair a b = c := by
  have hc := c.toNat_lt
  obtain ⟨hxa, hva⟩ := digit_spec (n := ⟨c.toNat / 16, by omega⟩) ha
  obtain ⟨hxb, hvb⟩ := digit_spec (n := ⟨c.toNat % 16, by omega⟩) hb
  have hjoin : ∀ hi lo : Fin 16, UInt8.ofNat hi.val <<< 4 ||| UInt8.ofNat lo.val =
      UInt8.ofNat (hi.val * 16 + lo.val) := by decide
  refine ⟨hxa, hxb, ?_⟩
  rw [hexPair, hva, hvb, hjoin ⟨_, _⟩ ⟨_, _⟩]
  apply UInt8.toNat_inj.mp
  rw [UInt8.toNat_ofNat']
  dsimp only
  omega

/-- One step of decoding. The byte behind the last one counts as no digit. -/
theorem urlDecode_cons (form : Bool) (c : UInt8) (src : List UInt8) (n room : ℕ) :
    urlDecode form (c :: src) (n + 1) (room + 1) =
      if c = 37 ∧ isxdigit (src.getD 0 0) ∧ isxdigit (src.getD 1 0) then
        hexPair (src.getD 0 0) (src.getD 1 0) :: urlDecode form (src.drop 2) (n - 2) room
      else plain form c :: urlDecode form src n room := by
  have hzero : isxdigit 0 = false := rfl
  rcases src with _ | ⟨a, _ | ⟨b, rest⟩⟩
  · simp [urlDecode, hzero]
  · simp [urlDecode, hzero]
  · rfl

theorem urlDecode_zero (form : Bool) (src : List UInt8) (room : ℕ) :
    urlDecode form src 0 room = [] := by
  cases src <;> cases room <;> rfl

theorem urlDecode_room_zero (form : Bool) (src : List UInt8) (n : ℕ) :
    urlDecode form src n 0 = [] := by
  cases src <;> cases n <;> rfl

/-- Escaped text is decoded, as far as there is room, whatever follows it. -/
theorem urlDecode_escaped {form : Bool} {e t : Text} (h : Escaped form e t) (after : List UInt8)
    (room : ℕ) : urlDecode form (e ++ after) e.length room = t.take room := by
  induction h generalizing room with
  | nil => simpa using urlDecode_zero form after room
  | plain hpercent hplus h ih =>
    cases room with
    | zero => exact urlDecode_room_zero _ _ _
    | succ room =>
      rename_i c e t
      -- a byte that stands for itself
      have hc : plain form c = c := by
        unfold plain
        split
        · rename_i hboth
          exact absurd hboth.2 (hplus hboth.1)
        · rfl
      rw [List.cons_append, List.length_cons, urlDecode_cons,
        if_neg fun hesc => hpercent hesc.1, ih, hc, List.take_succ_cons]
  | space hform h ih =>
    cases room with
    | zero => exact urlDecode_room_zero _ _ _
    | succ room =>
      rw [List.cons_append, List.length_cons, urlDecode_cons,
        if_neg fun hesc => absurd hesc.1 (by decide), ih, List.take_succ_cons, plain,
        if_pos ⟨hform, rfl⟩]
  | byte ha hb h ih =>
    cases room with
    | zero => exact urlDecode_room_zero _ _ _
    | succ room =>
      -- three bytes for one
      obtain ⟨hxa, hxb, hpair⟩ := hexPair_digits ha hb
      rw [List.cons_append, List.cons_append, List.cons_append, List.length_cons, List.length_cons,
        List.length_cons, urlDecode_cons, if_pos ⟨rfl, hxa, hxb⟩]
      simp [ih, hpair]

/-! ## In place -/

/-- What decoding in place has done to a buffer, with the bytes in front of `j`
already written and those from `i` on still to be read. -/
structure Decoded (form : Bool) (srcLen dstLen : ℕ) (mem : List UInt8) (i j : ℕ)
    (r : List UInt8 × ℕ) : Prop where
  text : r.1.take r.2 =
    mem.take j ++ urlDecode form (mem.drop i) (srcLen - i) (dstLen - 1 - j)
  terminator : r.1[r.2]? = some 0
  behind : r.1.drop (srcLen + 1) = mem.drop (srcLen + 1)
  length : r.1.length = mem.length

/-- With nothing left to decode the loop writes the terminator. -/
theorem decoded_stop {form : Bool} {srcLen dstLen : ℕ} {mem : List UInt8} {i j : ℕ}
    (hsrc : srcLen < mem.length) (hj : j ≤ srcLen)
    (hnone : urlDecode form (mem.drop i) (srcLen - i) (dstLen - 1 - j) = []) :
    Decoded form srcLen dstLen mem i j (mem.set j 0, j) where
  text := by
    rw [hnone, List.append_nil]
    exact List.take_set_of_le (Nat.le_refl j)
  terminator := List.getElem?_set_self (by omega)
  behind := List.drop_set_of_lt (by omega)
  length := List.length_set

/-- One byte is written at `j`, in front of what is still to be read. -/
theorem decoded_step {form : Bool} {srcLen dstLen : ℕ} {mem : List UInt8} {i i' j : ℕ} {v : UInt8}
    {r : List UInt8 × ℕ} (h : Decoded form srcLen dstLen (mem.set j v) i' (j + 1) r)
    (hi : j < i') (hj : j < srcLen) (hsrc : srcLen < mem.length)
    (hstep : urlDecode form (mem.drop i) (srcLen - i) (dstLen - 1 - j) =
      v :: urlDecode form (mem.drop i') (srcLen - i') (dstLen - 1 - (j + 1))) :
    Decoded form srcLen dstLen mem i j r where
  text := by
    rw [h.text, List.drop_set_of_lt hi, hstep, List.take_add_one,
      List.take_set_of_le (Nat.le_refl j), List.getElem?_set_self (by omega)]
    simp
  terminator := h.terminator
  behind := by rw [h.behind, List.drop_set_of_lt (by omega)]
  length := by rw [h.length, List.length_set]

/-- The place that is written is never ahead of the place that is read, so the rest
of the source is as it was; that carries the induction. -/
theorem urlDecodeInPlace_loop (form : Bool) (srcLen dstLen : ℕ) {fuel i j : ℕ} {mem : List UInt8}
    (hfuel : srcLen ≤ i + fuel) (hsrc : srcLen < mem.length) (hji : j ≤ i) (hj : j ≤ srcLen) :
    Decoded form srcLen dstLen mem i j (urlDecodeInPlace form srcLen dstLen fuel mem i j) := by
  induction fuel generalizing mem i j with
  | zero =>
    apply decoded_stop hsrc hj
    rw [show srcLen - i = 0 by omega]
    exact urlDecode_zero _ _ _
  | succ fuel ih =>
    rw [urlDecodeInPlace]
    split
    · rename_i hmore
      obtain ⟨hi, hroom⟩ := hmore
      -- the byte at i and those behind it
      have hdrop : mem.drop i = mem.getD i 0 :: mem.drop (i + 1) := by
        rw [List.drop_eq_getElem_cons (by omega), List.getD_eq_getElem?_getD,
          List.getElem?_eq_getElem (by omega)]
        rfl
      have h1 : (mem.drop (i + 1)).getD 0 0 = mem.getD (i + 1) 0 := by
        simp [List.getD_eq_getElem?_getD]
      have h2 : (mem.drop (i + 1)).getD 1 0 = mem.getD (i + 2) 0 := by
        simp [List.getD_eq_getElem?_getD]
      have hcons := urlDecode_cons form (mem.getD i 0) (mem.drop (i + 1)) (srcLen - (i + 1))
        (dstLen - 1 - (j + 1))
      rw [h1, h2, ← hdrop, show srcLen - (i + 1) + 1 = srcLen - i by omega,
        show dstLen - 1 - (j + 1) + 1 = dstLen - 1 - j by omega] at hcons
      split
      · rename_i hescape
        rw [if_pos hescape, List.drop_drop, show srcLen - (i + 1) - 2 = srcLen - (i + 3) by omega]
          at hcons
        exact decoded_step (ih (by omega) (by simpa using hsrc) (by omega) (by omega)) (by omega)
          (by omega) hsrc hcons
      · rename_i hplain
        rw [if_neg hplain] at hcons
        exact decoded_step (ih (by omega) (by simpa using hsrc) (by omega) (by omega)) (by omega)
          (by omega) hsrc hcons
    · apply decoded_stop hsrc hj
      by_cases hi : i < srcLen
      · rw [show dstLen - 1 - j = 0 by omega]
        exact urlDecode_room_zero _ _ _
      · rw [show srcLen - i = 0 by omega]
        exact urlDecode_zero _ _ _

/-- Decoding in place, as `wb_setup_request` does: the buffer then begins with
what decoding into another buffer gives, a zero byte behind it, and no byte
behind the old terminator has changed. -/
theorem urlDecodeInPlace_eq (form : Bool) {srcLen : ℕ} {mem : List UInt8}
    (hsrc : srcLen < mem.length) :
    ∃ mem' n, urlDecodeInPlace form srcLen (srcLen + 1) srcLen mem 0 0 = (mem', n) ∧
      mem'.take n = urlDecode form mem srcLen srcLen ∧ mem'[n]? = some 0 ∧
      mem'.drop (srcLen + 1) = mem.drop (srcLen + 1) ∧ mem'.length = mem.length := by
  have h : Decoded form srcLen (srcLen + 1) mem 0 0
      (urlDecodeInPlace form srcLen (srcLen + 1) srcLen mem 0 0) :=
    urlDecodeInPlace_loop form srcLen (srcLen + 1) (by omega) hsrc (Nat.le_refl 0) (Nat.zero_le _)
  exact ⟨_, _, rfl, by simpa using h.text, h.terminator, h.behind, h.length⟩

/-- `%41+` in place, with a byte behind the terminator. -/
theorem urlDecodeInPlace_space :
    ∃ mem' n, urlDecodeInPlace true 4 (4 + 1) 4 [37, 52, 49, 43, 0, 99] 0 0 = (mem', n) ∧
      mem'.take n = urlDecode true [37, 52, 49, 43, 0, 99] 4 4 ∧ mem'[n]? = some 0 ∧
      mem'.drop (4 + 1) = [99] ∧ mem'.length = 6 :=
  urlDecodeInPlace_eq true (by decide)

/-! ## Looking for a variable -/

/-- No other byte becomes an equals sign in lower case. -/
theorem toLower_eq_equals {b : UInt8} (h : toLower b = 61) : b = 61 := by
  unfold toLower at h
  split at h
  · -- a lower-case letter is larger
    rename_i hupper
    obtain ⟨hlo, hhi⟩ := hupper
    have hsum := congrArg UInt8.toNat h
    rw [UInt8.toNat_add] at hsum
    rw [UInt8.le_iff_toNat_le] at hlo hhi
    have h65 : (65 : UInt8).toNat = 65 := rfl
    have h90 : (90 : UInt8).toNat = 90 := rfl
    have h32 : (32 : UInt8).toNat = 32 := rfl
    have h61 : (61 : UInt8).toNat = 61 := rfl
    omega
  · exact h

/-- A name without `=` does not compare equal to a text with one. -/
theorem sameText_equals {name p : Text} (h : (61 : UInt8) ∉ name) (hp : (61 : UInt8) ∈ p) :
    sameText name p = false := by
  rw [sameText, beq_eq_false_iff_ne]
  intro heq
  have hmem : (61 : UInt8) ∈ name.map toLower := by
    rw [heq]
    exact List.mem_map.mpr ⟨61, hp, rfl⟩
  rcases List.mem_map.mp hmem with ⟨b, hb, hlower⟩
  exact h (toLower_eq_equals hlower ▸ hb)

theorem sameText_length {a b : Text} (h : sameText a b = true) : a.length = b.length := by
  have hmap : a.map toLower = b.map toLower := by simpa [sameText] using h
  simpa using congrArg List.length hmap

/-- Escaping makes no text shorter. -/
theorem Escaped.length_le {form : Bool} {e t : Text} (h : Escaped form e t) :
    t.length ≤ e.length := by
  induction h with
  | nil => exact Nat.le_refl 0
  | plain _ _ _ ih => simpa using ih
  | space _ _ ih => simpa using ih
  | byte _ _ _ ih =>
    simp only [List.length_cons]
    omega

/-- A pair of a query: a name, a value, and the text it is escaped to. -/
structure Pair where
  name : Text
  text : Text
  value : Text
  name_free : (38 : UInt8) ∉ name ∧ (61 : UInt8) ∉ name
  text_free : (38 : UInt8) ∉ text
  escaped : Escaped true text value

def Pair.field (pair : Pair) : Text := pair.name ++ 61 :: pair.text

/-- The query string with the given pairs. -/
def query (pairs : List Pair) : Text := joinFields 38 (pairs.map Pair.field)

/-- A pair ends at the next `&` or at the end of the query. -/
theorem takeWhile_text {text rest : Text} (h : (38 : UInt8) ∉ text)
    (hrest : rest = [] ∨ ∃ more, rest = 38 :: more) :
    (text ++ rest).takeWhile (· ≠ 38) = text := by
  have hall : ∀ b ∈ text, (decide (b ≠ 38)) = true := by
    intro b hb
    exact decide_eq_true fun heq => h (heq ▸ hb)
  rw [List.takeWhile_append_of_pos hall]
  rcases hrest with rfl | ⟨more, rfl⟩ <;> simp

/-- What the search finds in a pair. -/
def lookup (name : Text) (dstLen : ℕ) (pair : Pair) : Option (Option Text) :=
  if sameText name pair.name then
    some (if pair.text.length < dstLen then some pair.value else none)
  else none

/-- A pair is recognized or not whatever follows it. -/
theorem acceptVar_pair {name : Text} (hname : (61 : UInt8) ∉ name) (dstLen : ℕ) (pair : Pair)
    (rest : Text) (hrest : rest = [] ∨ ∃ more, rest = 38 :: more) :
    acceptVar name dstLen (pair.field ++ rest) = lookup name dstLen pair := by
  have htext : pair.field ++ rest = pair.name ++ (61 :: (pair.text ++ rest)) := by
    simp [Pair.field]
  unfold lookup
  rw [htext]
  split
  · rename_i hsame
    have hlen := sameText_length hsame
    have hget : (pair.name ++ (61 :: (pair.text ++ rest))).getD name.length 0 = 61 := by
      simp [hlen]
    have htake : (pair.name ++ (61 :: (pair.text ++ rest))).take name.length = pair.name := by
      rw [hlen, List.take_left]
    have hdrop : (pair.name ++ (61 :: (pair.text ++ rest))).drop (name.length + 1) =
        pair.text ++ rest := by
      rw [hlen, List.drop_append, List.drop_eq_nil_of_le (by omega)]
      simp
    have hlonger : name.length < (pair.name ++ (61 :: (pair.text ++ rest))).length := by
      simp [hlen]
    rw [acceptVar, if_pos ⟨hlonger, hget, by rw [htake]; exact hsame⟩]
    dsimp only
    rw [hdrop, takeWhile_text pair.text_free hrest]
    split
    · -- the value fits
      have hle := pair.escaped.length_le
      rw [List.append_assoc, urlDecode_escaped pair.escaped, List.take_of_length_le (by omega)]
    · rfl
  · rename_i hdiffer
    rw [acceptVar, if_neg]
    rintro ⟨hlonger, hget, hsame⟩
    rcases Nat.lt_trichotomy name.length pair.name.length with hlt | heq | hgt
    · -- a byte of the name is no =
      rw [List.getD_eq_getElem?_getD, List.getElem?_append_left hlt,
        List.getElem?_eq_getElem hlt] at hget
      exact pair.name_free.2 (hget ▸ List.getElem_mem hlt)
    · rw [heq, List.take_left] at hsame
      exact hdiffer hsame
    · -- the name would reach over the =
      have hmem : (61 : UInt8) ∈ (pair.name ++ (61 :: (pair.text ++ rest))).take name.length := by
        rw [List.take_append, List.take_of_length_le (by omega)]
        apply List.mem_append_right
        rw [show name.length - pair.name.length = name.length - pair.name.length - 1 + 1 by omega,
          List.take_succ_cons]
        exact List.mem_cons_self
      rw [sameText_equals hname hmem] at hsame
      cases hsame

/-- Out of a query made of pairs, `WebbyFindQueryVar` gets the value of the first
one with the name, whatever case it is in, if its escaped text is shorter than
the destination. -/
theorem findQueryVar_pairs {name : Text} (hname : (61 : UInt8) ∉ name) (dstLen : ℕ)
    (pairs : List Pair) :
    webbyFindQueryVar (query pairs) name dstLen =
      (pairs.find? fun pair => sameText name pair.name).bind fun pair =>
        if pair.text.length < dstLen then some pair.value else none := by
  have hsearch : findAtFields 38 (acceptVar name dstLen) true (query pairs) =
      pairs.findSome? (lookup name dstLen) := by
    apply find_field Pair.field (lookup name dstLen)
    · -- a field has no separator
      intro pair _ hmem
      rcases List.mem_append.mp hmem with hname | htext
      · exact pair.name_free.1 hname
      · rcases List.mem_cons.mp htext with heq | htext
        · exact absurd heq (by decide)
        · exact pair.text_free htext
    · intro pair _ rest hrest
      exact acceptVar_pair hname dstLen pair rest hrest
    · simp [acceptVar]
  rw [webbyFindQueryVar, hsearch]
  clear hsearch
  induction pairs with
  | nil => rfl
  | cons pair pairs ih =>
    rw [List.findSome?_cons, List.find?_cons, lookup]
    cases sameText name pair.name with
    | false => exact ih
    | true => rfl

/-- The second of two variables, in another case, with an escape in its value. -/
theorem findQueryVar_second :
    let first : Pair := ⟨ascii "a", ascii "1", ascii "1", by decide, by decide,
      .plain (by decide) (by decide) .nil⟩
    let second : Pair := ⟨ascii "Port", ascii "%3d+", ascii "= ", by decide, by decide,
      .byte (Or.inl rfl) (Or.inr rfl) (.space rfl .nil)⟩
    webbyFindQueryVar (query [first, second]) (ascii "port") 8 =
      ([first, second].find? fun pair => sameText (ascii "port") pair.name).bind fun pair =>
        if pair.text.length < 8 then some pair.value else none := by
  intro first second
  exact findQueryVar_pairs (by decide) 8 [first, second]

end Yardstick.WebbyQuery
