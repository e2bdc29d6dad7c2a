import Mathlib.Algebra.Group.Nat.Defs
import Mathlib.Logic.Function.Basic

/-!
# TicketRing — a bounded ring whose slots are stamped with tickets

Producers and consumers draw tickets `0, 1, 2, …`, each kind its own. Ticket `n`
uses slot `n % S`: its producer writes the slot, its consumer then frees it,
and producer `n + S` may write it again. A stamp in every slot says how far it
has come, by the image of a ticket under `num`.

* `Valid.exclusive`: at most one ticket at a time is active in a slot;
* `Stamps`: what the stamps show, kept by every move;
* `Stamps.claimable`, `Stamps.written`: a stamp that shows the next ticket of a
  kind proves that its slot is ready;
* `Stamps.shown_claim`, `Stamps.shown_take`: what a stamp that is behind proves.
-/

namespace TicketRing

/-- How many tickets of each kind have been drawn, and which of them are done. -/
structure Ring where
  claims : ℕ
  takes : ℕ
  Written : ℕ → Prop
  Freed : ℕ → Prop

namespace Ring

/-- No ticket has been drawn. -/
def empty : Ring := ⟨0, 0, fun _ => False, fun _ => False⟩

/-- The slot of ticket `n` has been freed by the ticket before it. -/
def Claimable (r : Ring) (S n : ℕ) : Prop := ∀ m, m + S = n → r.Freed m

/-- The slot of ticket `n` is in use by it. -/
def Active (r : Ring) (n : ℕ) : Prop := n < r.claims ∧ ¬ r.Freed n

/-- A producer draws the next ticket. -/
def claim (r : Ring) : Ring := { r with claims := r.claims + 1 }

/-- The producer of ticket `n` is done. -/
def publish (r : Ring) (n : ℕ) : Ring := { r with Written := fun m => r.Written m ∨ m = n }

/-- A consumer draws the next ticket. -/
def take (r : Ring) : Ring := { r with takes := r.takes + 1 }

/-- The consumer of ticket `n` is done. -/
def release (r : Ring) (n : ℕ) : Ring := { r with Freed := fun m => r.Freed m ∨ m = n }

end Ring

open TicketRing.Ring

variable {S : ℕ} {r : Ring}

/-! ## Tickets -/

/-- Tickets are drawn before they are done, consumed after they are written, and
a slot is used again only after it has been freed. -/
structure Valid (S : ℕ) (r : Ring) : Prop where
  written_lt : ∀ n, r.Written n → n < r.claims
  freed_lt : ∀ n, r.Freed n → n < r.takes
  taken_written : ∀ n, n < r.takes → r.Written n
  reused : ∀ n, n + S < r.claims → r.Freed n

/-- Before the first claim nothing has been written, taken or freed. -/
theorem valid_empty : Valid S Ring.empty := by
  constructor
  · intro n hn
    cases hn
  · intro n hn
    cases hn
  · intro n hn
    cases hn
  · intro n hn
    cases hn

theorem Valid.takes_le (h : Valid S r) : r.takes ≤ r.claims := by
  cases hk : r.takes with
  | zero => exact Nat.zero_le _
  | succ k => exact h.written_lt k (h.taken_written k (by omega))

/-- No more than `S` tickets are ahead of the consumers. -/
theorem Valid.claims_le (h : Valid S r) : r.claims ≤ r.takes + S := by
  by_contra hgt
  have hfreed := h.freed_lt (r.claims - 1 - S) (h.reused _ (by omega))
  omega

theorem Valid.written_of_freed (h : Valid S r) {n : ℕ} (hn : r.Freed n) : r.Written n :=
  h.taken_written n (h.freed_lt n hn)

theorem Valid.active_of_not_written (h : Valid S r) {n : ℕ} (hn : n < r.claims)
    (hw : ¬ r.Written n) : r.Active n :=
  ⟨hn, fun hf => hw (h.written_of_freed hf)⟩

theorem Valid.active_of_written (h : Valid S r) {n : ℕ} (hw : r.Written n) (hf : ¬ r.Freed n) :
    r.Active n := ⟨h.written_lt n hw, hf⟩

/-- Tickets of one slot are at least a lap apart. -/
theorem lap_le_of_lt {n m : ℕ} (hlt : n < m) (hslot : n % S = m % S) : n + S ≤ m := by
  have hdvd : S ∣ m - n := Nat.dvd_of_mod_eq_zero (Nat.sub_mod_eq_zero_of_mod_eq hslot.symm)
  have hle := Nat.le_of_dvd (by omega) hdvd
  omega

/-- Every slot has one ticket among the next `S`. -/
theorem exists_next (hS : 0 < S) {n c : ℕ} (hnc : n ≤ c) :
    ∃ m, c ≤ m ∧ m < c + S ∧ m % S = n % S ∧ (m = n ∨ n + S ≤ m) := by
  have hdiv := Nat.div_add_mod (c - n + (S - 1)) S
  have hmod := Nat.mod_lt (c - n + (S - 1)) hS
  have hslot : (n + S * ((c - n + (S - 1)) / S)) % S = n % S := Nat.add_mul_mod_self_left ..
  refine ⟨n + S * ((c - n + (S - 1)) / S), by omega, by omega, hslot, ?_⟩
  rcases Nat.eq_zero_or_pos ((c - n + (S - 1)) / S) with hzero | hpos
  · rw [hzero]
    exact Or.inl rfl
  · exact Or.inr (Nat.add_le_add_left (Nat.le_mul_of_pos_right S hpos) n)

theorem Valid.freed_of_lap (h : Valid S r) {n m : ℕ} (hlt : n < m) (hslot : n % S = m % S)
    (hm : m < r.claims) : r.Freed n := by
  have hlap := lap_le_of_lt hlt hslot
  exact h.reused n (by omega)

/-- One slot, one active ticket. -/
theorem Valid.exclusive (h : Valid S r) {n m : ℕ} (hn : r.Active n) (hm : r.Active m)
    (hslot : n % S = m % S) : n = m := by
  rcases Nat.lt_trichotomy n m with hlt | heq | hgt
  · exact absurd (h.freed_of_lap hlt hslot hm.1) hn.2
  · exact heq
  · exact absurd (h.freed_of_lap hgt hslot.symm hn.1) hm.2

/-- The slot of a ticket that can be drawn is nobody's. -/
theorem Valid.claimable_slot (h : Valid S r) {n m : ℕ} (hn : r.claims ≤ n)
    (hfree : r.Claimable S n) (hm : r.Active m) : n % S ≠ m % S := by
  intro hslot
  have hm1 := hm.1
  have hlap := lap_le_of_lt (show m < n by omega) hslot.symm
  rcases Nat.lt_or_eq_of_le hlap with hlt | heq
  · -- the ticket a lap before `n` is freed, hence drawn, and a lap after `m`
    have hdrawn := h.freed_lt _ (hfree (n - S) (by omega))
    have htakes := h.takes_le
    have hslot' : m % S = (n - S) % S := by
      rw [← hslot, Nat.mod_eq_sub_mod (show n ≥ S by omega)]
    exact hm.2 (h.freed_of_lap (show m < n - S by omega) hslot' (by omega))
  · exact hm.2 (hfree m heq)

/-! ### Moves -/

/-- A ticket is claimed only when the slot of its number is free. -/
theorem Valid.claim (h : Valid S r) (hfree : r.Claimable S r.claims) : Valid S r.claim := by
  constructor
  · intro n hn
    exact Nat.lt_succ_of_lt (h.written_lt n hn)
  · exact h.freed_lt
  · exact h.taken_written
  · intro n hn
    have hn' : n + S < r.claims + 1 := hn
    rcases Nat.lt_or_eq_of_le (Nat.le_of_lt_succ hn') with hlt | heq
    · exact h.reused n hlt
    · exact hfree n heq

/-- A value is published by the one who holds the ticket. -/
theorem Valid.publish (h : Valid S r) {n : ℕ} (hn : n < r.claims) : Valid S (r.publish n) := by
  constructor
  · rintro m (hm | rfl)
    · exact h.written_lt m hm
    · exact hn
  · exact h.freed_lt
  · intro m hm
    exact Or.inl (h.taken_written m hm)
  · exact h.reused

/-- A value is taken once it has been written. -/
theorem Valid.take (h : Valid S r) (hw : r.Written r.takes) : Valid S r.take := by
  constructor
  · exact h.written_lt
  · intro n hn
    exact Nat.lt_succ_of_lt (h.freed_lt n hn)
  · intro n hn
    rcases Nat.lt_or_eq_of_le (Nat.le_of_lt_succ hn) with hlt | heq
    · exact h.taken_written n hlt
    · rw [heq]
      exact hw
  · exact h.reused

/-- The slot of a value that has been taken is released. -/
theorem Valid.release (h : Valid S r) {n : ℕ} (hn : n < r.takes) : Valid S (r.release n) := by
  constructor
  · exact h.written_lt
  · rintro m (hm | rfl)
    · exact h.freed_lt m hm
    · exact hn
  · exact h.taken_written
  · intro m hm
    exact Or.inl (h.reused m hm)

/-! ## Stamps -/

section
variable {β : Type*} {num : ℕ → β} {stamp : ℕ → β}

/-- What the stamp of a slot shows: the ticket that is to write it or is
writing it, or the one after the ticket it holds. -/
structure Stamps (num : ℕ → β) (S : ℕ) (r : Ring) (stamp : ℕ → β) : Prop where
  writing : ∀ n, n < r.claims → ¬ r.Written n → stamp (n % S) = num n
  full : ∀ n, r.Written n → ¬ r.Freed n → stamp (n % S) = num (n + 1)
  free : ∀ n, r.claims ≤ n → r.Claimable S n → stamp (n % S) = num n

/-- The images of tickets within a lap differ. -/
def Spaced (num : ℕ → β) (S : ℕ) : Prop := ∀ a b, a < b → b ≤ a + S → num a ≠ num b

/-- A fresh ring, each of whose slots has its own index for a stamp. -/
theorem stamps_empty (hstamp : ∀ i, i < S → stamp i = num i) :
    Stamps num S Ring.empty stamp := by
  constructor
  · intro n hn
    cases hn
  · intro n hn
    cases hn
  · intro n _ hfree
    have hlt : n < S := by
      by_contra hge
      exact hfree (n - S) (by omega)
    rw [Nat.mod_eq_of_lt hlt]
    exact hstamp n hlt

/-- A claim alone changes no stamp. -/
theorem Stamps.claim (h : Stamps num S r stamp) (hfree : r.Claimable S r.claims) :
    Stamps num S r.claim stamp := by
  constructor
  · intro n hn hw
    rcases Nat.lt_or_eq_of_le (Nat.le_of_lt_succ hn) with hlt | heq
    · exact h.writing n hlt hw
    · rw [heq]
      exact h.free _ (Nat.le_refl _) hfree
  · exact h.full
  · intro n hn hc
    exact h.free n (Nat.le_of_succ_le hn) hc

/-- Publishing a ticket stamps its slot with the number behind it. -/
theorem Stamps.publish (h : Stamps num S r stamp) (hv : Valid S r) {n : ℕ} (hn : n < r.claims)
    (hw : ¬ r.Written n) :
    Stamps num S (r.publish n) (Function.update stamp (n % S) (num (n + 1))) := by
  have hactive := hv.active_of_not_written hn hw
  constructor
  · -- the other tickets that are being written have other slots
    intro m hm hwm
    have hwm' : ¬ r.Written m := fun hwm' => hwm (Or.inl hwm')
    have hne : m % S ≠ n % S := fun hslot =>
      hwm (Or.inr (hv.exclusive (hv.active_of_not_written hm hwm') hactive hslot))
    rw [Function.update_of_ne hne]
    exact h.writing m hm hwm'
  · -- the slot of `n` is full now
    intro m hwm hf
    by_cases hmn : m = n
    · rw [hmn, Function.update_self]
    · have hwm' : r.Written m := hwm.resolve_right hmn
      have hne : m % S ≠ n % S := fun hslot =>
        hmn (hv.exclusive (hv.active_of_written hwm' hf) hactive hslot)
      rw [Function.update_of_ne hne]
      exact h.full m hwm' hf
  · intro m hm hc
    rw [Function.update_of_ne (hv.claimable_slot hm hc hactive)]
    exact h.free m hm hc

theorem Stamps.take (h : Stamps num S r stamp) : Stamps num S r.take stamp :=
  ⟨h.writing, h.full, h.free⟩

/-- Releasing a ticket stamps its slot for the next round. -/
theorem Stamps.release (h : Stamps num S r stamp) (hv : Valid S r) {n : ℕ} (hn : n < r.takes)
    (hf : ¬ r.Freed n) :
    Stamps num S (r.release n) (Function.update stamp (n % S) (num (n + S))) := by
  have hwritten := hv.taken_written n hn
  have hactive := hv.active_of_written hwritten hf
  constructor
  · intro m hm hwm
    have hne : m % S ≠ n % S := fun hslot =>
      hwm ((hv.exclusive (hv.active_of_not_written hm hwm) hactive hslot) ▸ hwritten)
    rw [Function.update_of_ne hne]
    exact h.writing m hm hwm
  · intro m hwm hfm
    have hfm' : ¬ r.Freed m := fun hfm' => hfm (Or.inl hfm')
    have hne : m % S ≠ n % S := fun hslot =>
      hfm (Or.inr (hv.exclusive (hv.active_of_written hwm hfm') hactive hslot))
    rw [Function.update_of_ne hne]
    exact h.full m hwm hfm'
  · -- the slot is free for the ticket of the next lap
    intro m hm hc
    by_cases hlap : m = n + S
    · rw [hlap, Nat.add_mod_right, Function.update_self]
    · have hc' : r.Claimable S m := by
        intro u hu
        rcases hc u hu with hfu | hun
        · exact hfu
        · exact absurd (by rw [← hu, hun]) hlap
      rw [Function.update_of_ne (hv.claimable_slot hm hc' hactive)]
      exact h.free m hm hc'

/-- The next producer ticket is in its slot: it can be drawn. -/
theorem Stamps.claimable (h : Stamps num S r stamp) (hsp : Spaced num S) (hS : 2 ≤ S)
    (hstamp : stamp (r.claims % S) = num r.claims) : r.Claimable S r.claims := by
  intro m hm
  by_contra hf
  -- the ticket a lap before would show itself or its successor
  have hslot : m % S = r.claims % S := by rw [← hm, Nat.add_mod_right]
  by_cases hw : r.Written m
  · have hfull := h.full m hw hf
    rw [hslot, hstamp] at hfull
    exact hsp (m + 1) r.claims (by omega) (by omega) hfull.symm
  · have hwriting := h.writing m (by omega) hw
    rw [hslot, hstamp] at hwriting
    exact hsp m r.claims (by omega) (by omega) hwriting.symm

/-- The stamp of the slot of a ticket that is yet to be drawn: the slot is free
for the ticket, or it is still in use by the ticket a lap before. -/
theorem Stamps.next (h : Stamps num S r stamp) {n : ℕ} (hn : r.claims ≤ n)
    (hlap : n < r.claims + S) :
    r.Claimable S n ∧ stamp (n % S) = num n ∨
      ∃ m, m + S = n ∧ ¬ r.Freed m ∧
        (r.Written m ∧ stamp (n % S) = num (m + 1) ∨ ¬ r.Written m ∧ stamp (n % S) = num m) := by
  by_cases hc : r.Claimable S n
  · exact Or.inl ⟨hc, h.free n hn hc⟩
  · simp only [Claimable, not_forall] at hc
    rcases hc with ⟨m, hm, hf⟩
    have hslot : n % S = m % S := by rw [← hm, Nat.add_mod_right]
    refine Or.inr ⟨m, hm, hf, ?_⟩
    rw [hslot]
    by_cases hw : r.Written m
    · exact Or.inl ⟨hw, h.full m hw hf⟩
    · exact Or.inr ⟨hw, h.writing m (by omega) hw⟩

/-- The ticket a slot shows, when one is looked for that was the next to be drawn
at some time: it is behind only if that is so now, with the slot in use. -/
theorem Stamps.shown_claim (h : Stamps num S r stamp) (hv : Valid S r) (hS : 2 ≤ S) {n : ℕ}
    (hn : n ≤ r.claims) :
    ∃ c, stamp (n % S) = num c ∧ r.claims ≤ c + S ∧ c ≤ r.takes + S ∧
      (c < n ↔ r.claims = n ∧ ¬ r.Claimable S n) := by
  rcases exists_next (show 0 < S by omega) hn with ⟨m, hm, hlap, hslot, hnext⟩
  have hclaims := hv.claims_le
  rw [← hslot]
  rcases h.next hm hlap with ⟨hfree, hstamp⟩ | ⟨u, hu, hf, ⟨hw, hstamp⟩ | ⟨hw, hstamp⟩⟩
  · -- free for `m`: nothing older is shown
    refine ⟨m, hstamp, by omega, ?_, by omega, ?_⟩
    · by_cases hlow : S ≤ m
      · have hdrawn := hv.freed_lt (m - S) (hfree (m - S) (by omega))
        omega
      · omega
    · rintro ⟨hcur, hbusy⟩
      have hmn : m = n := by omega
      rw [hmn] at hfree
      exact absurd hfree hbusy
  · refine ⟨u + 1, hstamp, by omega, by omega, ?_, by omega⟩
    intro hlt
    refine ⟨by omega, fun hfree => hf (hfree u (by omega))⟩
  · refine ⟨u, hstamp, by omega, by omega, ?_, by omega⟩
    intro hlt
    refine ⟨by omega, fun hfree => hf (hfree u (by omega))⟩

/-- The same for the tickets of the consumers, whose slots show the ticket
behind theirs once they are written. -/
theorem Stamps.shown_take (h : Stamps num S r stamp) (hv : Valid S r) (hS : 2 ≤ S) {n : ℕ}
    (hn : n ≤ r.takes) :
    ∃ c, stamp (n % S) = num c ∧ r.claims ≤ c + S ∧ c ≤ r.takes + S ∧
      (c < n + 1 ↔ r.takes = n ∧ ¬ r.Written n) := by
  have htakes := hv.takes_le
  have hclaims := hv.claims_le
  rcases exists_next (show 0 < S by omega) (show n ≤ r.claims by omega) with
    ⟨m, hm, hlap, hslot, hnext⟩
  have hundrawn : r.claims ≤ n → ¬ r.Written n := by
    intro hge hw
    have hlt := hv.written_lt n hw
    omega
  -- the ticket a lap before `m` is `n`, or before it, or a lap behind it
  have hprev : ∀ u, u + S = m → u < n ∨ u = n ∨ n + S ≤ u := by
    intro u hu
    rcases Nat.lt_trichotomy u n with hlt | heq | hgt
    · exact Or.inl hlt
    · exact Or.inr (Or.inl heq)
    · refine Or.inr (Or.inr (lap_le_of_lt hgt ?_))
      rw [← hslot, ← hu, Nat.add_mod_right]
  rw [← hslot]
  rcases h.next hm hlap with ⟨hfree, hstamp⟩ | ⟨u, hu, hf, ⟨hw, hstamp⟩ | ⟨hw, hstamp⟩⟩
  · have hdrawn : S ≤ m → m - S < r.takes := fun hlow =>
      hv.freed_lt (m - S) (hfree (m - S) (by omega))
    refine ⟨m, hstamp, by omega, by omega, ?_, ?_⟩
    · intro hlt
      exact ⟨by omega, hundrawn (by omega)⟩
    · rintro ⟨hcur, _⟩
      omega
  · have hprev := hprev u hu
    refine ⟨u + 1, hstamp, by omega, by omega, ?_, ?_⟩
    · intro hlt
      exact ⟨by omega, hundrawn (by omega)⟩
    · rintro ⟨hcur, hwn⟩
      have hun : u ≠ n := by
        rintro rfl
        exact hwn hw
      omega
  · have hprev := hprev u hu
    refine ⟨u, hstamp, by omega, by omega, ?_, by omega⟩
    intro hlt
    have hwn : ¬ r.Written n := by
      rcases hprev with hlt' | rfl | hge
      · exact hundrawn (by omega)
      · exact hw
      · omega
    refine ⟨?_, hwn⟩
    by_contra hne
    exact hwn (hv.taken_written n (by omega))

/-- The ticket behind the next consumer ticket is in its slot: it is written. -/
theorem Stamps.written (h : Stamps num S r stamp) (hv : Valid S r) (hsp : Spaced num S)
    (hS : 2 ≤ S) (hstamp : stamp (r.takes % S) = num (r.takes + 1)) : r.Written r.takes := by
  by_contra hw
  have hnext : num r.takes ≠ num (r.takes + 1) := hsp _ _ (by omega) (by omega)
  -- the slot is being written, is free, or is full from the lap before
  rcases Nat.lt_or_ge r.takes r.claims with hlt | hge
  · exact hnext ((h.writing _ hlt hw).symm.trans hstamp)
  · by_cases hc : r.Claimable S r.takes
    · exact hnext ((h.free _ hge hc).symm.trans hstamp)
    · -- the slot still holds the ticket a lap before
      simp only [Claimable, not_forall] at hc
      rcases hc with ⟨m, hm, hf⟩
      have hfull := h.full m (hv.taken_written m (by omega)) hf
      have hslot : m % S = r.takes % S := by rw [← hm, Nat.add_mod_right]
      rw [hslot, hstamp] at hfull
      exact hsp (m + 1) (r.takes + 1) (by omega) (by omega) hfull.symm

end

/-! ## Contents -/

section
variable {T : Type*} {value : ℕ → Option T} {buffer : ℕ → T}

/-- A slot that is full holds the value of its ticket. -/
def Contents (S : ℕ) (r : Ring) (value : ℕ → Option T) (buffer : ℕ → T) : Prop :=
  ∀ n, r.Written n → ¬ r.Freed n → value n = some (buffer (n % S))

/-- Writing a slot whose ticket is not yet written touches no other value. -/
theorem Contents.write (h : Contents S r value buffer) (hv : Valid S r) {n : ℕ}
    (hn : n < r.claims) (hw : ¬ r.Written n) (v : T) :
    Contents S r value (Function.update buffer (n % S) v) := by
  intro m hwm hf
  have hne : m % S ≠ n % S := fun hslot =>
    hw ((hv.exclusive (hv.active_of_written hwm hf) (hv.active_of_not_written hn hw) hslot) ▸ hwm)
  rw [Function.update_of_ne hne]
  exact h m hwm hf

end

end TicketRing
