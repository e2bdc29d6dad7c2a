import Mathlib.Data.List.Basic

/-!
# Base64 — the alphabet and the decoder

Three bytes are four symbols of six bits; one or two bytes at the end are padded
with `=`. Line ends are passed over.

* `symbol_spec`: a symbol gives its six bits back;
* `decodeGroups_group3`, `decodeGroups_group2`, `decodeGroups_group1`: a group
  gives its bytes back.
-/

namespace Base64

/-- The 64 symbols. -/
def symbol (v : ℕ) : UInt8 :=
  UInt8.ofNat <|
    if v < 26 then 65 + v
    else if v < 52 then 71 + v
    else if v < 62 then v - 4
    else if v = 62 then 43
    else 47

/-- The six bits of a symbol. -/
def value (c : UInt8) : Option ℕ :=
  if 65 ≤ c ∧ c ≤ 90 then some (c.toNat - 65)
  else if 97 ≤ c ∧ c ≤ 122 then some (c.toNat - 71)
  else if 48 ≤ c ∧ c ≤ 57 then some (c.toNat + 4)
  else if c = 43 then some 62
  else if c = 47 then some 63
  else none

def padding : UInt8 := 61

/-- A line end is no symbol. -/
def isBreak (c : UInt8) : Bool := c == 13 || c == 10

/-- The symbols of a text without line ends. Bits a padded group does not use
must be zero. -/
def decodeGroups : List UInt8 → Option (List UInt8)
  | [] => some []
  | a :: b :: c :: d :: rest =>
    match value a, value b with
    | some va, some vb =>
      if c = padding then
        if d = padding ∧ rest = [] ∧ vb % 16 = 0 then some [UInt8.ofNat (va * 4 + vb / 16)]
        else none
      else
        match value c with
        | none => none
        | some vc =>
          if d = padding then
            if rest = [] ∧ vc % 4 = 0 then
              some [UInt8.ofNat (va * 4 + vb / 16), UInt8.ofNat (vb % 16 * 16 + vc / 4)]
            else none
          else
            match value d, decodeGroups rest with
            | some vd, some bytes =>
              some (UInt8.ofNat (va * 4 + vb / 16) :: UInt8.ofNat (vb % 16 * 16 + vc / 4) ::
                UInt8.ofNat (vc % 4 * 64 + vd) :: bytes)
            | _, _ => none
    | _, _ => none
  | _ => none

def decode (text : List UInt8) : Option (List UInt8) :=
  decodeGroups (text.filter fun c => !isBreak c)

theorem symbol_spec (v : Fin 64) :
    value (symbol v.val) = some v.val ∧ symbol v.val ≠ padding ∧ isBreak (symbol v.val) = false := by
  revert v
  decide

/-- The symbols of three bytes, of two, and of one. -/
def group3 (a b c : ℕ) : List UInt8 :=
  [symbol (a / 4), symbol (a % 4 * 16 + b / 16), symbol (b % 16 * 4 + c / 64), symbol (c % 64)]

def group2 (a b : ℕ) : List UInt8 :=
  [symbol (a / 4), symbol (a % 4 * 16 + b / 16), symbol (b % 16 * 4), padding]

def group1 (a : ℕ) : List UInt8 := [symbol (a / 4), symbol (a % 4 * 16), padding, padding]

/-- Three bytes and what follows them. -/
theorem decodeGroups_group3 (a b c : UInt8) (rest : List UInt8) :
    decodeGroups (group3 a.toNat b.toNat c.toNat ++ rest) =
      (decodeGroups rest).map fun bytes => a :: b :: c :: bytes := by
  have ha := a.toNat_lt
  have hb := b.toNat_lt
  have hc := c.toNat_lt
  have h1 := symbol_spec ⟨a.toNat / 4, by omega⟩
  have h2 := symbol_spec ⟨a.toNat % 4 * 16 + b.toNat / 16, by omega⟩
  have h3 := symbol_spec ⟨b.toNat % 16 * 4 + c.toNat / 64, by omega⟩
  have h4 := symbol_spec ⟨c.toNat % 64, by omega⟩
  have e1 : a.toNat / 4 * 4 + (a.toNat % 4 * 16 + b.toNat / 16) / 16 = a.toNat := by omega
  have e2 : (a.toNat % 4 * 16 + b.toNat / 16) % 16 * 16 + (b.toNat % 16 * 4 + c.toNat / 64) / 4 =
      b.toNat := by omega
  have e3 : (b.toNat % 16 * 4 + c.toNat / 64) % 4 * 64 + c.toNat % 64 = c.toNat := by omega
  simp only [group3, List.cons_append, List.nil_append, decodeGroups, h1.1, h2.1, h3.1, h4.1,
    if_neg h3.2.1, if_neg h4.2.1, e1, e2, UInt8.ofNat_toNat]
  cases decodeGroups rest with
  | none => rfl
  | some bytes => simp only [e3, UInt8.ofNat_toNat, Option.map_some]

/-- A text that ends with two bytes. -/
theorem decodeGroups_group2 (a b : UInt8) :
    decodeGroups (group2 a.toNat b.toNat) = some [a, b] := by
  have ha := a.toNat_lt
  have hb := b.toNat_lt
  have h1 := symbol_spec ⟨a.toNat / 4, by omega⟩
  have h2 := symbol_spec ⟨a.toNat % 4 * 16 + b.toNat / 16, by omega⟩
  have h3 := symbol_spec ⟨b.toNat % 16 * 4, by omega⟩
  have e1 : a.toNat / 4 * 4 + (a.toNat % 4 * 16 + b.toNat / 16) / 16 = a.toNat := by omega
  have e2 : (a.toNat % 4 * 16 + b.toNat / 16) % 16 * 16 + b.toNat % 16 * 4 / 4 = b.toNat := by omega
  have e3 : b.toNat % 16 * 4 % 4 = 0 := by omega
  simp only [group2, decodeGroups, h1.1, h2.1, h3.1, if_neg h3.2.1, if_true, e1, e2, e3,
    UInt8.ofNat_toNat]
  simp

/-- The last group of a text, of one byte and two signs of padding. -/
theorem decodeGroups_group1 (a : UInt8) : decodeGroups (group1 a.toNat) = some [a] := by
  have ha := a.toNat_lt
  have h1 := symbol_spec ⟨a.toNat / 4, by omega⟩
  have h2 := symbol_spec ⟨a.toNat % 4 * 16, by omega⟩
  have e1 : a.toNat / 4 * 4 + a.toNat % 4 * 16 / 16 = a.toNat := by omega
  have e2 : a.toNat % 4 * 16 % 16 = 0 := by omega
  simp only [group1, decodeGroups, h1.1, h2.1, if_true, e1, e2, UInt8.ofNat_toNat]
  simp

end Base64
