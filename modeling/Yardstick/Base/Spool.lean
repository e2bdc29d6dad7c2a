import Yardstick.Base.Framing

/-!
# Spool — records that leave in batches

What a buffered writer is for: records are added to a batch, and batches leave
one after another. When a batch leaves changes nothing about the stream.

A writer of texts carries a spool (`Carries`) when its messages and what it
still holds are the texts of the batches.
-/

/-- The batches that have left and the records held back. -/
structure Spool (ρ : Type*) where
  sent : List (List ρ)
  pending : List ρ

namespace Spool

variable {β ρ : Type*}

/-- All records, in the order they were added. -/
def stream (s : Spool ρ) : List ρ := s.sent.flatten ++ s.pending

/-- Hold one more record back. -/
def put (s : Spool ρ) (r : ρ) : Spool ρ := { s with pending := s.pending ++ [r] }

/-- Let the records that are held back leave as a batch. -/
def flush (s : Spool ρ) : Spool ρ := ⟨s.sent ++ [s.pending], []⟩

/-- Let a record leave as a batch of its own. -/
def send (s : Spool ρ) (r : ρ) : Spool ρ := { s with sent := s.sent ++ [[r]] }

@[simp] theorem stream_put (s : Spool ρ) (r : ρ) : (s.put r).stream = s.stream ++ [r] := by
  simp [put, stream]

@[simp] theorem stream_flush (s : Spool ρ) : s.flush.stream = s.stream := by
  simp [flush, stream]

/-- A record sent on its own is in order only if none is held back. -/
theorem stream_send {s : Spool ρ} (h : s.pending = []) (r : ρ) :
    (s.send r).stream = s.stream ++ [r] := by
  simp [send, stream, h]

/-! ## Texts -/

variable (F : Framing.Format β ρ)

/-- The messages and the held text are those of the spool's records. -/
structure Carries (messages : List (List β)) (held : List β) (s : Spool ρ) : Prop where
  messages_eq : messages = s.sent.map F.join
  held_eq : held = F.join s.pending

variable {F} {messages : List (List β)} {held : List β} {s : Spool ρ}

theorem Carries.put (h : Carries F messages held s) (r : ρ) :
    Carries F messages (held ++ F.text r) (s.put r) where
  messages_eq := h.messages_eq
  held_eq := by simp [Spool.put, h.held_eq]

theorem Carries.flush (h : Carries F messages held s) :
    Carries F (messages ++ [held]) [] s.flush where
  messages_eq := by simp [Spool.flush, h.messages_eq, h.held_eq]
  held_eq := rfl

theorem Carries.send (h : Carries F messages held s) (r : ρ) :
    Carries F (messages ++ [F.text r]) held (s.send r) where
  messages_eq := by simp [Spool.send, h.messages_eq]
  held_eq := h.held_eq

/-- No text held, no record held: every record has a text. -/
theorem Carries.pending_eq_nil (h : Carries F messages [] s) : s.pending = [] :=
  F.join_injective h.held_eq.symm

end Spool
