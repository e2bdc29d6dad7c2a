import Yardstick.SinkSessions

/-!
# SinkBlocks — the memory of the sessions

`CreateSession` asks the allocator for three blocks. When one is refused, it
hands the session, which has pointers into the list but is not in it, to the
`DestroySession` that whole sessions are destroyed by; and that gives back the
session and its buffer, never its table.

* `createSession_null`: a `CreateSession` that returns null changes nothing but
  the memory of the session it has given back;
* `run_lost`: what has been handed out and not given back is the blocks of the
  live sessions, and one block more for each session destroyed;
* `blocks_balanced_iff`: so the accounts are right as long as none is destroyed;
* `createSession_restores`: where only heads of the list are destroyed, a failed
  `CreateSession` leaves the list and all sessions in it as they were.
-/

namespace Yardstick.SinkBlocks

open Chain Runs SinkSessions

variable {α κ : Type*} [DecidableEq α]

/-! ## Runs -/

/-- A `CreateSession`, with what the allocator returns for the session, its
buffer and its table if it is asked, or a `DestroySession`. -/
inductive Act (α κ : Type*) where
  | create (connection : κ) (memory buffer table : Option α)
  | destroy (s : α)

def Act.destroys : Act α κ → Bool
  | .create .. => false
  | .destroy _ => true

/-- The allocator hands out blocks that are not in use. -/
def Granted (k : Sink α κ) (memory buffer table : Option α) : Prop :=
  (memory.toList ++ buffer.toList ++ table.toList).Nodup ∧
    ∀ b ∈ memory.toList ++ buffer.toList ++ table.toList, b ∉ k.blocks

instance (k : Sink α κ) (memory buffer table : Option α) :
    Decidable (Granted k memory buffer table) := by
  unfold Granted
  infer_instance

/-- A session is destroyed once. -/
def step (st : St α κ) : Act α κ → Option (St α κ)
  | .create connection memory buffer table =>
    if Granted st.sink memory buffer table then
      let r := createSession st.sink connection memory buffer table
      some ⟨r.2, r.1.toList ++ st.live⟩
    else none
  | .destroy s =>
    if s ∈ st.live then some ⟨destroySession st.sink s, st.live.erase s⟩ else none

/-- No session comes about exactly if one of the three allocations fails. -/
theorem createSession_null_iff (k : Sink α κ) (c : κ) (memory buffer table : Option α) :
    (createSession k c memory buffer table).1 = none ↔
      memory = none ∨ buffer = none ∨ table = none := by
  cases memory with
  | none => simp [createSession]
  | some s =>
    cases buffer with
    | none => simp [createSession]
    | some b =>
      cases table with
      | none => simp [createSession]
      | some t => simp [createSession]

/-- What a step does: a session that fails, one that is created, or one that is
destroyed. -/
theorem step_cases {st st' : St α κ} {a : Act α κ} (h : step st a = some st') :
    (∃ c memory buffer table, a = .create c memory buffer table ∧
      Granted st.sink memory buffer table ∧
      (createSession st.sink c memory buffer table).1 = none ∧
      st' = ⟨(createSession st.sink c memory buffer table).2, st.live⟩) ∨
    (∃ c s b t, a = .create c (some s) (some b) (some t) ∧
      Granted st.sink (some s) (some b) (some t) ∧
      st' = ⟨created st.sink c s b t, s :: st.live⟩) ∨
    (∃ s, a = .destroy s ∧ s ∈ st.live ∧ st' = ⟨destroySession st.sink s, st.live.erase s⟩) := by
  cases a with
  | create c memory buffer table =>
    obtain ⟨hgranted, hst'⟩ := Option.ite_none_right_eq_some.mp h
    cases hst'
    -- `CreateSession` answers null exactly if one of its blocks is null
    by_cases hnull : (createSession st.sink c memory buffer table).1 = none
    · refine Or.inl ⟨c, memory, buffer, table, rfl, hgranted, hnull, ?_⟩
      rw [hnull]
      rfl
    · rw [createSession_null_iff, not_or, not_or] at hnull
      obtain ⟨s, rfl⟩ := Option.ne_none_iff_exists'.mp hnull.1
      obtain ⟨b, rfl⟩ := Option.ne_none_iff_exists'.mp hnull.2.1
      obtain ⟨t, rfl⟩ := Option.ne_none_iff_exists'.mp hnull.2.2
      exact Or.inr (Or.inl ⟨c, s, b, t, rfl, hgranted, rfl⟩)
  | destroy s =>
    obtain ⟨hs, hst'⟩ := Option.ite_none_right_eq_some.mp h
    cases hst'
    exact Or.inr (Or.inr ⟨s, rfl, hs, rfl⟩)

/-! ## Blocks -/

/-- The blocks of a session. -/
def own (k : Sink α κ) (s : α) : List α :=
  s :: ((k.session s).buffer.toList ++ (k.session s).table.toList)

theorem unlinkSession_blocks (k : Sink α κ) (s : α) : (unlinkSession k s).blocks = k.blocks :=
  unlinkSession_rule (P := fun k' => k'.blocks = k.blocks) s rfl (fun _ _ _ h => h)
    (fun _ _ _ h => h) fun _ _ h => h

/-- The session and its buffer are given back. -/
theorem destroySession_blocks (k : Sink α κ) (s : α) :
    (destroySession k s).blocks = ((k.release (k.session s).buffer).release (some s)).blocks := by
  simp only [destroySession, unlinkSession_buffer]
  cases (k.session s).buffer with
  | none => simp only [Sink.release, unlinkSession_blocks]
  | some b => simp only [Sink.release, unlinkSession_blocks]

theorem destroySession_own (k : Sink α κ) (s u : α) : own (destroySession k s) u = own k u := by
  have htable : ((unlinkSession k s).session u).table = (k.session u).table :=
    unlinkSession_field k s u Session.table (fun _ _ => rfl) fun _ _ => rfl
  simp only [own, destroySession, Sink.release_session, unlinkSession_buffer, htable]

/-! ## A session that does not come about -/

/-- The sink with a session that has memory, and perhaps a buffer, but is not in
the list. -/
def unlisted (k : Sink α κ) (s : α) (x : Session α κ) : Sink α κ :=
  { k with
    session := Function.update k.session s x
    blocks := x.buffer.toList ++ s :: k.blocks }

@[simp] theorem unlisted_self (k : Sink α κ) (s : α) (x : Session α κ) :
    (unlisted k s x).session s = x := Function.update_self ..

theorem unlisted_of_ne (k : Sink α κ) {s u : α} (x : Session α κ) (h : u ≠ s) :
    (unlisted k s x).session u = k.session u := Function.update_of_ne h ..

/-- Both ways out of `CreateSession` destroy such a session again. -/
theorem createSession_unlisted {k : Sink α κ} {c : κ} {s : α} {buffer table : Option α}
    (hnull : (createSession k c (some s) buffer table).1 = none) :
    ∃ x : Session α κ, x.prev = none ∧ x.next = k.sessions ∧
      (createSession k c (some s) buffer table).2 = destroySession (unlisted k s x) s := by
  cases buffer with
  | none =>
    refine ⟨⟨none, k.sessions, c, 0, none, (k.session s).table⟩, rfl, rfl, ?_⟩
    simp [createSession, unlisted, Sink.modify, Sink.allocated]
  | some b =>
    cases table with
    | none =>
      refine ⟨⟨none, k.sessions, c, 0, some b, none⟩, rfl, rfl, ?_⟩
      simp [createSession, unlisted, Sink.modify, Sink.allocated]
    | some t => cases hnull

/-- A `CreateSession` that returns null changes nothing but the memory of the
session it has given back. -/
theorem createSession_null {k : Sink α κ} {c : κ} {memory buffer table : Option α}
    (hhead : ∀ u, k.sessions = some u → memory ≠ some u ∧ (k.session u).prev = none)
    (hnull : (createSession k c memory buffer table).1 = none) :
    ∃ session : α → Session α κ,
      (createSession k c memory buffer table).2 = { k with session := session } ∧
        ∀ u, memory ≠ some u → session u = k.session u := by
  cases memory with
  | none => exact ⟨k.session, rfl, fun _ _ => rfl⟩
  | some s =>
    obtain ⟨x, hprev, hnext, hcreate⟩ := createSession_unlisted hnull
    -- the head has no back link yet to the session it is unlinked from
    have hunlink : unlinkSession (unlisted k s x) s = unlisted k s x := by
      apply unlinkSession_unlisted
      · rw [unlisted_self, hprev]
      · rw [unlisted_self, hnext]
        rfl
      · intro u hu
        obtain ⟨hne, hnull⟩ := hhead u hu
        have hus : u ≠ s := fun heq => hne (congrArg some heq.symm)
        exact ⟨hus, by rw [unlisted_of_ne k x hus, hnull]⟩
    refine ⟨Function.update k.session s x, ?_, ?_⟩
    · simp only [hcreate, destroySession, hunlink, unlisted_self]
      cases hbuffer : x.buffer with
      | none => simp [Sink.release, unlisted, hbuffer]
      | some b => simp [Sink.release, unlisted, hbuffer]
    · intro u hu
      exact Function.update_of_ne (fun heq => hu (congrArg some heq.symm)) ..

/-- Its blocks are back, and the others keep theirs, whatever the list. -/
theorem createSession_null_own {k : Sink α κ} {c : κ} {memory buffer table : Option α}
    (hnull : (createSession k c memory buffer table).1 = none) :
    (createSession k c memory buffer table).2.blocks = k.blocks ∧
      ∀ u, memory ≠ some u → own (createSession k c memory buffer table).2 u = own k u := by
  cases memory with
  | none => exact ⟨rfl, fun _ _ => rfl⟩
  | some s =>
    obtain ⟨x, -, -, hcreate⟩ := createSession_unlisted hnull
    rw [hcreate, destroySession_blocks, unlisted_self]
    constructor
    · cases hbuffer : x.buffer with
      | none => simp [Sink.release, unlisted, hbuffer]
      | some b => simp [Sink.release, unlisted, hbuffer]
    · intro u hu
      have hus : u ≠ s := fun heq => hu (congrArg some heq.symm)
      rw [destroySession_own, own, unlisted_of_ne k x hus, own]

/-! ## Accounts -/

/-- What the allocator has handed out and not been given back is the blocks of
the live sessions, which have three each, and `lost`. -/
structure Accounted (st : St α κ) (lost : List α) : Prop where
  perm : st.sink.blocks.Perm (st.live.flatMap (own st.sink) ++ lost)
  full : ∀ s ∈ st.live, (own st.sink s).length = 3

/-- What a step loses: the table of the session destroyed. -/
def lostBy (k : Sink α κ) : Act α κ → List α
  | .create .. => []
  | .destroy s => (k.session s).table.toList

omit [DecidableEq α] in
/-- A session with three blocks has a buffer and a table. -/
theorem own_full {k : Sink α κ} {s : α} (h : (own k s).length = 3) :
    ∃ b t, (k.session s).buffer = some b ∧ (k.session s).table = some t ∧ own k s = [s, b, t] := by
  unfold own at h ⊢
  cases hbuffer : (k.session s).buffer with
  | none =>
    cases htable : (k.session s).table with
    | none => simp [hbuffer, htable] at h
    | some t => simp [hbuffer, htable] at h
  | some b =>
    cases htable : (k.session s).table with
    | none => simp [hbuffer, htable] at h
    | some t => exact ⟨b, t, rfl, rfl, rfl⟩

section
variable {st st' : St α κ} {lost : List α}

omit [DecidableEq α] in
theorem Accounted.own_mem (h : Accounted st lost) {s b : α} (hs : s ∈ st.live)
    (hb : b ∈ own st.sink s) : b ∈ st.sink.blocks :=
  h.perm.mem_iff.mpr (List.mem_append_left lost (List.mem_flatMap.mpr ⟨s, hs, hb⟩))

omit [DecidableEq α] in
theorem Accounted.live_mem (h : Accounted st lost) {s : α} (hs : s ∈ st.live) :
    s ∈ st.sink.blocks := h.own_mem hs List.mem_cons_self

omit [DecidableEq α] in
/-- Memory that has been granted is of no live session. -/
theorem Accounted.not_granted (h : Accounted st lost) {memory buffer table : Option α}
    (hgranted : Granted st.sink memory buffer table) : ∀ u ∈ st.live, memory ≠ some u := by
  rintro u hu rfl
  exact hgranted.2 u (by simp) (h.live_mem hu)

/-- A session that fails gives back what it got. -/
theorem Accounted.null (h : Accounted st lost) {c : κ} {memory buffer table : Option α}
    (hgranted : Granted st.sink memory buffer table)
    (hnull : (createSession st.sink c memory buffer table).1 = none) :
    Accounted ⟨(createSession st.sink c memory buffer table).2, st.live⟩ lost := by
  obtain ⟨hblocks, hown⟩ := createSession_null_own hnull
  have hlive : ∀ u ∈ st.live, own (createSession st.sink c memory buffer table).2 u =
      own st.sink u := fun u hu => hown u (h.not_granted hgranted u hu)
  constructor
  · show (createSession st.sink c memory buffer table).2.blocks.Perm _
    rw [hblocks, List.flatMap_congr hlive]
    exact h.perm
  · intro s hs
    rw [hlive s hs]
    exact h.full s hs

/-- A session that is created has three blocks more than were out. -/
theorem Accounted.created (h : Accounted st lost) {c : κ} {s b t : α}
    (hgranted : Granted st.sink (some s) (some b) (some t)) :
    Accounted ⟨SinkSessions.created st.sink c s b t, s :: st.live⟩ lost := by
  have hsession := (createSession_done st.sink c s b t).2.2
  have hself : own (SinkSessions.created st.sink c s b t) s = [s, b, t] := by
    rw [own, hsession, Function.update_self]
    rfl
  have hlive : ∀ u ∈ st.live, own (SinkSessions.created st.sink c s b t) u = own st.sink u := by
    intro u hu
    have hus : u ≠ s := fun heq => h.not_granted hgranted u hu (congrArg some heq.symm)
    rw [own, hsession, Function.update_of_ne hus, own]
  constructor
  · show (t :: b :: s :: st.sink.blocks).Perm _
    rw [List.flatMap_cons, hself, List.flatMap_congr hlive]
    exact (List.reverse_perm [s, b, t]).append h.perm
  · intro u hu
    rcases List.mem_cons.mp hu with rfl | hu
    · rw [hself]
      rfl
    · rw [hlive u hu]
      exact h.full u hu

/-- `DestroySession` loses the table. -/
theorem Accounted.destroyed (h : Accounted st lost) {s : α} (hs : s ∈ st.live) :
    Accounted ⟨destroySession st.sink s, st.live.erase s⟩
      ((st.sink.session s).table.toList ++ lost) := by
  obtain ⟨b, t, hbuffer, htable, hown⟩ := own_full (h.full s hs)
  constructor
  · -- of the three blocks of `s` two are given back
    have hlive : (st.live.flatMap (own st.sink)).Perm
        ([s, b, t] ++ (st.live.erase s).flatMap (own st.sink)) := by
      have hflat := (List.perm_cons_erase hs).flatMap_right (own st.sink)
      rwa [List.flatMap_cons, hown] at hflat
    have hblocks : st.sink.blocks.Perm
        (s :: b :: t :: ((st.live.erase s).flatMap (own st.sink) ++ lost)) :=
      h.perm.trans (hlive.append_right lost)
    have herase : (destroySession st.sink s).blocks.Perm
        (t :: ((st.live.erase s).flatMap (own st.sink) ++ lost)) := by
      rw [destroySession_blocks, hbuffer]
      show ((st.sink.blocks.erase b).erase s).Perm _
      rw [List.erase_comm]
      have hrest := (hblocks.erase s).erase b
      rwa [List.erase_cons_head, List.erase_cons_head] at hrest
    rw [htable, List.flatMap_congr fun u _ => destroySession_own st.sink s u]
    exact herase.trans List.perm_middle.symm
  · intro u hu
    rw [destroySession_own]
    exact h.full u (List.mem_of_mem_erase hu)

theorem step_accounted {a : Act α κ} (h : step st a = some st') (hacc : Accounted st lost) :
    Accounted st' (lostBy st.sink a ++ lost) := by
  rcases step_cases h with ⟨c, memory, buffer, table, rfl, hgranted, hnull, rfl⟩ |
    ⟨c, s, b, t, rfl, hgranted, rfl⟩ | ⟨s, rfl, hs, rfl⟩
  · exact hacc.null hgranted hnull
  · exact hacc.created hgranted
  · exact hacc.destroyed hs

/-- A step loses one block, the table, when it destroys a session. -/
theorem step_lost {a : Act α κ} (h : step st a = some st') (hacc : Accounted st lost) :
    (lostBy st.sink a).length = if a.destroys then 1 else 0 := by
  cases a with
  | create c memory buffer table => rfl
  | destroy s =>
    have hs := (Option.ite_none_right_eq_some.mp h).1
    obtain ⟨b, t, -, htable, -⟩ := own_full (hacc.full s hs)
    rw [lostBy, htable]
    rfl

omit [DecidableEq α] in
theorem init_accounted (session : α → Session α κ) (bytes : α → List UInt8) :
    Accounted (init session bytes) [] := by
  constructor
  · exact List.Perm.nil
  · intro s hs
    cases hs

/-- One table is lost for each session destroyed. -/
theorem run_lost {acts : List (Act α κ)} (hrun : run step st acts = some st')
    (hacc : Accounted st lost) : ∃ lost', Accounted st' (lost' ++ lost) ∧
      lost'.length = acts.countP Act.destroys := by
  induction acts generalizing st lost with
  | nil =>
    cases hrun
    exact ⟨[], hacc, rfl⟩
  | cons a acts ih =>
    rcases Option.bind_eq_some_iff.mp hrun with ⟨st1, hst1, hrest⟩
    obtain ⟨lost', hacc', hlength⟩ := ih hrest (step_accounted hst1 hacc)
    refine ⟨lost' ++ lostBy st.sink a, by rwa [List.append_assoc], ?_⟩
    rw [List.length_append, hlength, List.countP_cons, step_lost hst1 hacc]

end

/-- What the allocator has handed out and not been given back is the blocks of
the live sessions. -/
def Balanced (st : St α κ) : Prop := st.sink.blocks.Perm (st.live.flatMap (own st.sink))

instance (st : St α κ) : Decidable (Balanced st) := by
  unfold Balanced
  infer_instance

/-- If the step destroys a session, all blocks of the session are given back. -/
def Released (st : St α κ) (a : Act α κ) : Prop :=
  ∀ s st', a = .destroy s → step st a = some st' → ∀ b ∈ own st.sink s, b ∉ st'.sink.blocks

omit [DecidableEq α] in
/-- The calls are balanced exactly as long as no block is lost. -/
theorem balanced_iff {st : St α κ} {lost : List α} (h : Accounted st lost) :
    Balanced st ↔ lost = [] := by
  constructor
  · intro hbalanced
    have hlength := (hbalanced.symm.trans h.perm).length_eq
    rw [List.length_append] at hlength
    exact List.length_eq_zero_iff.mp (by omega)
  · rintro rfl
    have hperm := h.perm
    rwa [List.append_nil] at hperm

/-- Only a step that destroys nothing gives all blocks back: the table is never
released. -/
theorem released_iff {st st' : St α κ} {a : Act α κ} {lost : List α} (h : step st a = some st')
    (hacc : Accounted st lost) : Released st a ↔ a.destroys = false := by
  cases a with
  | create c memory buffer table => simp [Released, Act.destroys]
  | destroy s =>
    simp only [Act.destroys, reduceCtorEq, iff_false]
    intro hreleased
    have hs := (Option.ite_none_right_eq_some.mp h).1
    obtain ⟨b, t, hbuffer, htable, hown⟩ := own_full (hacc.full s hs)
    -- the table is among the blocks still out
    have hout : t ∈ st'.sink.blocks := by
      rw [(step_accounted h hacc).perm.mem_iff, lostBy, htable]
      simp
    exact hreleased s st' rfl h t (by simp [hown]) hout

/-- After any run, the blocks handed out and not given back are those of the
live sessions exactly if no session has been destroyed; and a session that is
destroyed never gives back all of its own. -/
theorem blocks_balanced_iff (session : α → Session α κ) (bytes : α → List UInt8)
    (acts : List (Act α κ)) (st : St α κ) (hrun : run step (init session bytes) acts = some st) :
    (Balanced st ↔ ∀ a ∈ acts, a.destroys = false) ∧
      (Along step Released (init session bytes) acts ↔ ∀ a ∈ acts, a.destroys = false) := by
  have hinit := init_accounted session bytes
  constructor
  · obtain ⟨lost, hacc, hlength⟩ := run_lost hrun hinit
    rw [List.append_nil] at hacc
    rw [balanced_iff hacc, ← List.length_eq_zero_iff, hlength, List.countP_eq_zero]
    simp
  · have hstep : ∀ (st : St α κ) (a : Act α κ) (st' : St α κ), a.destroys = false →
        step st a = some st' → (∃ lost, Accounted st lost) → ∃ lost, Accounted st' lost := by
      rintro st a st' - h ⟨lost, hacc⟩
      exact ⟨_, step_accounted h hacc⟩
    have hiff : ∀ (st : St α κ) (a : Act α κ) (st' : St α κ), step st a = some st' →
        (∃ lost, Accounted st lost) → (Released st a ↔ a.destroys = false) := by
      rintro st a st' h ⟨lost, hacc⟩
      exact released_iff h hacc
    rw [along_congr step hstep hiff ⟨[], hinit⟩ hrun, along_iff_forall step hrun]

/-- Two connections, one of them without memory for its table. -/
theorem blocks_balanced_open :
    ∃ st, run step (init blank fun _ => [])
      [.create 0 (some 1) (some 2) (some 3), .create 1 (some 4) (some 5) none] = some st ∧
      st.live = [1] ∧ st.sink.blocks = [3, 2, 1] ∧ Balanced st := by
  have hrun : run step (init blank fun _ => [])
      [.create 0 (some 1) (some 2) (some 3), .create 1 (some 4) (some 5) none] =
      some ⟨(createSession (created (init blank fun _ => []).sink 0 1 2 3) 1 (some 4) (some 5)
        none).2, [1]⟩ := rfl
  refine ⟨_, hrun, rfl, rfl, (blocks_balanced_iff _ _ _ _ hrun).1.mpr ?_⟩
  simp [Act.destroys]

/-- A connection that comes and goes: its table stays. -/
theorem blocks_table_lost :
    ∃ st, run step (init blank fun _ => [])
      [.create 0 (some 1) (some 2) (some 3), .destroy 1] = some st ∧
      st.live = [] ∧ st.sink.blocks = [3] ∧ ¬ Balanced st := by
  refine ⟨_, rfl, rfl, rfl, fun hbalanced => ?_⟩
  have hnil := hbalanced.eq_nil
  cases hnil

/-! ## A failed CreateSession -/

/-- The condition on a step: the session destroyed is the head of the list. -/
def HeadFirst (st : St α κ) : Act α κ → Prop
  | .create .. => True
  | .destroy s => st.sink.sessions = some s

/-- The list is the live sessions, whose memory is in use. -/
structure Inv (st : St α κ) : Prop where
  list : SinkSessions.Inv st
  accounted : ∃ lost, Accounted st lost

omit [DecidableEq α] in
/-- The head of the list has no back link and is not memory that is granted. -/
theorem Inv.head {st : St α κ} (h : Inv st) {memory buffer table : Option α}
    (hgranted : Granted st.sink memory buffer table) :
    ∀ u, st.sink.sessions = some u → memory ≠ some u ∧ (st.sink.session u).prev = none := by
  intro u hu
  obtain ⟨lost, hacc⟩ := h.accounted
  have hpath := h.list.path
  rw [hu] at hpath
  have hlive : u ∈ st.live := hpath.head_mem
  exact ⟨hacc.not_granted hgranted u hlive, h.list.prev u hlive⟩

/-- Destroying the head keeps the list and its blocks together. -/
theorem step_inv {st st' : St α κ} {a : Act α κ} (hP : HeadFirst st a) (h : step st a = some st')
    (hinv : Inv st) : Inv st' := by
  obtain ⟨lost, hacc⟩ := hinv.accounted
  refine ⟨?_, _, step_accounted h hacc⟩
  rcases step_cases h with ⟨c, memory, buffer, table, rfl, hgranted, hnull, rfl⟩ |
    ⟨c, s, b, t, rfl, hgranted, rfl⟩ | ⟨s, rfl, hs, rfl⟩
  · -- a CreateSession that returns null: the live sessions are as they were
    obtain ⟨session, hsink, hsame⟩ := createSession_null (hinv.head hgranted) hnull
    have hlive : ∀ u ∈ st.live, session u = st.sink.session u :=
      fun u hu => hsame u (hacc.not_granted hgranted u hu)
    rw [hsink]
    constructor
    · exact hinv.list.path.congr fun u hu => congrArg Session.next (hlive u hu).symm
    · intro u hu
      exact (congrArg Session.prev (hlive u hu)).trans (hinv.list.prev u hu)
  · -- CreateSession
    have hs : s ∉ st.live := fun hs => hacc.not_granted hgranted s hs rfl
    have hstep : SinkSessions.step st (.create c s b t) =
        some ⟨created st.sink c s b t, s :: st.live⟩ := if_neg hs
    have hfirst : SinkSessions.HeadFirst st (.create c s b t) := trivial
    exact SinkSessions.step_inv hfirst hstep hinv.list
  · -- DestroySession of the head
    have hstep : SinkSessions.step st (.destroy s) =
        some ⟨destroySession st.sink s, st.live.erase s⟩ := if_pos hs
    have hfirst : SinkSessions.HeadFirst st (.destroy s) := hP
    exact SinkSessions.step_inv hfirst hstep hinv.list

/-- Where only heads of the list have been destroyed: `CreateSession` returns
null exactly if an allocation fails, and then the head of the list, all sessions
in it, the bytes of their buffers and tables and what has been handed out are as
they were before. -/
theorem createSession_restores (session : α → Session α κ) (bytes : α → List UInt8)
    (acts : List (Act α κ)) (st : St α κ)
    (hfirst : Along step HeadFirst (init session bytes) acts)
    (hrun : run step (init session bytes) acts = some st) (connection : κ)
    (memory buffer table : Option α) (hgranted : Granted st.sink memory buffer table) :
    let r := createSession st.sink connection memory buffer table
    (r.1 = none ↔ memory = none ∨ buffer = none ∨ table = none) ∧
      (r.1 = none → r.2.sessions = st.sink.sessions ∧
        (∀ s ∈ st.live, r.2.session s = st.sink.session s) ∧ r.2.bytes = st.sink.bytes ∧
        r.2.blocks = st.sink.blocks) := by
  intro r
  refine ⟨createSession_null_iff st.sink connection memory buffer table, fun hnull => ?_⟩
  have hinv : Inv st := run_invariant_along step (fun _ _ _ => step_inv) hfirst
    ⟨SinkSessions.init_inv session bytes, [], init_accounted session bytes⟩ hrun
  obtain ⟨lost, hacc⟩ := hinv.accounted
  obtain ⟨session', hsink, hsame⟩ := createSession_null (hinv.head hgranted) hnull
  have hr : r.2 = { st.sink with session := session' } := hsink
  rw [hr]
  exact ⟨rfl, fun s hs => hsame s (hacc.not_granted hgranted s hs), rfl, rfl⟩

/-- Two connections, the newer one closed, and no memory for the buffer of the
next. -/
theorem createSession_restores_noBuffer :
    ∃ st, run step (init blank fun _ => [])
      [.create 0 (some 1) (some 2) (some 3), .create 1 (some 4) (some 5) (some 6),
        .destroy 4] = some st ∧ st.sink.blocks = [6, 3, 2, 1] ∧
      (createSession st.sink 2 (some 4) none none).1 = none ∧
      (createSession st.sink 2 (some 4) none none).2.sessions = some 1 ∧
      (createSession st.sink 2 (some 4) none none).2.blocks = [6, 3, 2, 1] := by
  have hrun : run step (init blank fun _ => [])
      [.create 0 (some 1) (some 2) (some 3), .create 1 (some 4) (some 5) (some 6),
        .destroy 4] = some ⟨destroySession (created (created (init blank fun _ => []).sink
          0 1 2 3) 1 4 5 6) 4, [1]⟩ := rfl
  have hfirst : Along step HeadFirst (init blank fun _ => [])
      [.create 0 (some 1) (some 2) (some 3), .create 1 (some 4) (some 5) (some 6),
        .destroy 4] := by
    refine ⟨trivial, fun st1 hst1 => ⟨trivial, fun st2 hst2 => ⟨?_, fun _ _ => trivial⟩⟩⟩
    cases hst1
    cases hst2
    rfl
  have hrestores := createSession_restores _ _ _ _ hfirst hrun 2 (some 4) none none (by decide)
  have hnull := hrestores.1.mpr (Or.inr (Or.inl rfl))
  obtain ⟨hsessions, -, -, hblocks⟩ := hrestores.2 hnull
  exact ⟨_, hrun, rfl, hnull, hsessions, hblocks⟩

end Yardstick.SinkBlocks
