import Mathlib.Logic.Function.Basic
import Mathlib.Data.List.Nodup
import Yardstick.Base.Chain
import Yardstick.Base.Runs
import Yardstick.SinkSession

/-!
# SinkSessions — the sessions of a WebsocketSink

`WebsocketSink` keeps its sessions in an intrusive list from `_sessions` on,
and looks a session up by walking it. `CreateSession` puts a new session in
front but never sets the `_prev` of the one behind it, so `DestroySession` can
take a session out of the list only at its head; elsewhere the list goes on
through memory that has been released.

* `createSession_done`, `destroySession_links`: what the two calls do to the
  links;
* `findSession_iff`: what the lookup returns on a list that ends;
* `sessions_sound_iff`: the list is right after a run exactly when every session
  destroyed was the head.
-/

namespace Yardstick.SinkSessions

open Chain Runs
open SinkSession (kTableSize)

variable {α κ : Type*} [DecidableEq α]

/-! ## Sessions in memory -/

/-- The fields of a `Session`: `α` are addresses of memory blocks, `κ` are
`WebbyConnection` pointers. -/
structure Session (α κ : Type*) where
  prev : Option α
  next : Option α
  connection : κ
  bufpos : ℕ
  buffer : Option α
  table : Option α

/-- The sink and the memory its sessions live in. `blocks` is what the
allocator has handed out and not been given back; memory that is not in use has
any contents. -/
structure Sink (α κ : Type*) where
  sessions : Option α
  session : α → Session α κ
  bytes : α → List UInt8
  blocks : List α

namespace Sink

/-- The allocator has returned `m`. -/
def allocated (k : Sink α κ) (m : Option α) : Sink α κ := { k with blocks := m.toList ++ k.blocks }

/-- `_allocator(m, 0)`; releasing null does nothing. -/
def release (k : Sink α κ) (m : Option α) : Sink α κ :=
  match m with
  | some b => { k with blocks := k.blocks.erase b }
  | none => k

/-- Write fields of the session at `a`. -/
def modify (k : Sink α κ) (a : α) (f : Session α κ → Session α κ) : Sink α κ :=
  { k with session := Function.update k.session a (f (k.session a)) }

@[simp] theorem release_session (k : Sink α κ) (m : Option α) :
    (k.release m).session = k.session := by cases m <;> rfl

@[simp] theorem release_sessions (k : Sink α κ) (m : Option α) :
    (k.release m).sessions = k.sessions := by cases m <;> rfl

omit [DecidableEq α] in
@[simp] theorem allocated_session (k : Sink α κ) (m : Option α) :
    (k.allocated m).session = k.session := rfl

/-- The successor fields, as the list is followed. -/
def next (k : Sink α κ) (a : α) : Option α := (k.session a).next

end Sink

/-! ## The operations -/

/-- The part of `DestroySession` that takes the session out of the list. -/
def unlinkSession (k : Sink α κ) (s : α) : Sink α κ :=
  -- if (session->_next != nullptr) session->_next->_prev = session->_prev
  let k := match (k.session s).next with
    | some n => k.modify n fun x => { x with prev := (k.session s).prev }
    | none => k
  -- if (session->_prev != nullptr) session->_prev->_next = session->_next
  let k := match (k.session s).prev with
    | some q => k.modify q fun x => { x with next := (k.session s).next }
    | none => k
  -- if (_sessions == session) _sessions = session->_next
  if k.sessions = some s then { k with sessions := (k.session s).next } else k

def destroySession (k : Sink α κ) (s : α) : Sink α κ :=
  let k := unlinkSession k s
  (k.release (k.session s).buffer).release (some s)

/-- `CreateSession`, with what the allocator returns for the session, its
buffer and its table. -/
def createSession (k : Sink α κ) (connection : κ) (memory buffer table : Option α) :
    Option α × Sink α κ :=
  match memory with
  | none => (none, k)
  | some s =>
    let k := (k.allocated (some s)).modify s fun x =>
      { x with next := k.sessions, prev := none, connection := connection, bufpos := 0 }
    let k := (k.allocated buffer).modify s fun x => { x with buffer := buffer }
    if buffer = none then (none, destroySession k s) else
    let k := (k.allocated table).modify s fun x => { x with table := table }
    match table with
    | none => (none, destroySession k s)
    | some t =>
      let k := { k with bytes := Function.update k.bytes t (List.replicate kTableSize 0) }
      (some s, { k with sessions := some s })

section
variable [DecidableEq κ]

/-- The loop of `FindSession`, over at most `fuel` sessions; `none` if it has
not ended by then. -/
def findFrom (k : Sink α κ) (connection : κ) : ℕ → Option α → Option (Option α)
  | _, none => some none
  | 0, some _ => none
  | fuel + 1, some s =>
    if (k.session s).connection = connection then some (some s)
    else findFrom k connection fuel (k.session s).next

def findSession (fuel : ℕ) (k : Sink α κ) (connection : κ) : Option (Option α) :=
  findFrom k connection fuel k.sessions

omit [DecidableEq α] in
/-- On a chain the loop finds the first session of the connection, if it may go
round often enough. -/
theorem findFrom_path {k : Sink α κ} {c : κ} {p : Option α} {l : List α} (h : Path k.next p l)
    {fuel : ℕ} (hfuel : l.length ≤ fuel) :
    findFrom k c fuel p = some (l.find? fun s => (k.session s).connection = c) := by
  induction l generalizing p fuel with
  | nil =>
    rw [path_nil.mp h]
    cases fuel <;> rfl
  | cons s l ih =>
    cases fuel with
    | zero => simp at hfuel
    | succ fuel =>
      have ih' := ih h.2 (by simpa using hfuel)
      rw [h.1, findFrom]
      by_cases hc : (k.session s).connection = c
      · simp [hc]
      · rw [if_neg hc, List.find?_cons_of_neg (by simpa using hc)]
        exact ih'

omit [DecidableEq α] in
/-- Whatever the loop finds on a chain is that session. -/
theorem find_of_findFrom {k : Sink α κ} {c : κ} {p : Option α} {l : List α} {r : Option α}
    (h : Path k.next p l) {fuel : ℕ} (hr : findFrom k c fuel p = some r) :
    l.find? (fun s => (k.session s).connection = c) = r := by
  induction l generalizing p fuel with
  | nil =>
    rw [path_nil.mp h] at hr
    cases fuel <;> exact Option.some.inj hr
  | cons s l ih =>
    rw [h.1] at hr
    cases fuel with
    | zero => cases hr
    | succ fuel =>
      rw [findFrom] at hr
      by_cases hc : (k.session s).connection = c
      · rw [if_pos hc] at hr
        rw [List.find?_cons_of_pos (by simpa using hc)]
        exact Option.some.inj hr
      · rw [if_neg hc] at hr
        rw [List.find?_cons_of_neg (by simpa using hc)]
        exact ih h.2 hr

omit [DecidableEq α] in
/-- On a list that ends, the lookup ends and returns the first session with the
connection. -/
theorem findSession_iff {k : Sink α κ} {c : κ} {l : List α} {r : Option α}
    (h : Path k.next k.sessions l) :
    (∃ fuel, findSession fuel k c = some r) ↔
      l.find? (fun s => (k.session s).connection = c) = r := by
  constructor
  · rintro ⟨fuel, hr⟩
    exact find_of_findFrom h hr
  · intro hr
    exact ⟨l.length, hr ▸ findFrom_path h (Nat.le_refl _)⟩

end

/-! ## What they do to the links -/

/-- A session whose allocations succeed. -/
def created (k : Sink α κ) (connection : κ) (s b t : α) : Sink α κ :=
  (createSession k connection (some s) (some b) (some t)).2

theorem createSession_done (k : Sink α κ) (c : κ) (s b t : α) :
    (createSession k c (some s) (some b) (some t)).1 = some s ∧
    (created k c s b t).sessions = some s ∧
    (created k c s b t).session = Function.update k.session s
      ⟨none, k.sessions, c, 0, some b, some t⟩ := by
  refine ⟨rfl, rfl, ?_⟩
  simp [created, createSession, Sink.modify, Sink.allocated]

/-- A session that is created points to the old head. -/
theorem created_next (k : Sink α κ) (c : κ) (s b t : α) :
    (created k c s b t).next = Function.update k.next s k.sessions := by
  funext a
  unfold Sink.next
  rw [(createSession_done k c s b t).2.2]
  by_cases ha : a = s
  · simp [ha]
  · simp [ha]

/-- A new session has no back link, and the others keep theirs. -/
theorem created_prev {k : Sink α κ} {live : List α} {c : κ} {s b t : α}
    (hprev : ∀ u ∈ live, (k.session u).prev = none) :
    ∀ u ∈ s :: live, ((created k c s b t).session u).prev = none := by
  intro u hu
  rw [(createSession_done k c s b t).2.2]
  by_cases hus : u = s
  · simp [hus]
  · rw [Function.update_of_ne hus]
    rcases List.mem_cons.mp hu with heq | hmem
    · exact absurd heq hus
    · exact hprev u hmem

/-- What a change to one session may keep for all of them: the successor and the
connection, and a back link that is null. -/
def SameLinks (k k' : Sink α κ) : Prop :=
  ∀ a, (k'.session a).next = (k.session a).next ∧
    (k'.session a).connection = (k.session a).connection ∧
    ((k.session a).prev = none → (k'.session a).prev = none)

theorem sameLinks_setPrev (k : Sink α κ) (n : α) :
    SameLinks k (k.modify n fun x => { x with prev := none }) := by
  intro a
  by_cases ha : a = n
  · subst ha
    simp [Sink.modify]
  · simp [Sink.modify, ha]

omit [DecidableEq α] in
theorem SameLinks.next_eq {k k' : Sink α κ} (h : SameLinks k k') : k'.next = k.next :=
  funext fun a => (h a).1

/-- Without a back link, taking a session out of the list changes no successor,
and moves the head only if the session is there. -/
theorem unlinkSession_links {k : Sink α κ} {s : α} (hprev : (k.session s).prev = none) :
    SameLinks k (unlinkSession k s) ∧
    (unlinkSession k s).sessions = if k.sessions = some s then k.next s else k.sessions := by
  -- the only field written is a back link, with the null one of `s`
  obtain ⟨k1, hk1, hsame, hsessions⟩ : ∃ k1 : Sink α κ, (match (k.session s).next with
      | some n => k.modify n fun x => { x with prev := (k.session s).prev }
      | none => k) = k1 ∧ SameLinks k k1 ∧ k1.sessions = k.sessions := by
    cases (k.session s).next with
    | none => exact ⟨k, rfl, fun a => ⟨rfl, rfl, id⟩, rfl⟩
    | some n =>
      rw [hprev]
      exact ⟨_, rfl, sameLinks_setPrev k n, rfl⟩
  have hprev1 : (k1.session s).prev = none := (hsame s).2.2 hprev
  have hnext1 : (k1.session s).next = k.next s := (hsame s).1
  simp only [unlinkSession, hk1, hprev1, hnext1, hsessions]
  split
  · exact ⟨hsame, rfl⟩
  · exact ⟨hsame, hsessions⟩

/-- A session that points at the list without being in it is taken out without a
trace, as the head has no back link. -/
theorem unlinkSession_unlisted {k : Sink α κ} {s : α} (hprev : (k.session s).prev = none)
    (hnext : (k.session s).next = k.sessions)
    (hhead : ∀ u, k.sessions = some u → u ≠ s ∧ (k.session u).prev = none) :
    unlinkSession k s = k := by
  have hsame : (match (k.session s).next with
      | some n => k.modify n fun x => { x with prev := (k.session s).prev }
      | none => k) = k := by
    rw [hnext, hprev]
    cases hsessions : k.sessions with
    | none => rfl
    | some u =>
      -- the back link of the head is null as it is
      have hrecord : { k.session u with prev := none } = k.session u := by
        rw [← (hhead u hsessions).2]
      simp only [Sink.modify, hrecord, Function.update_eq_self]
  have hne : k.sessions ≠ some s := fun heq => (hhead s heq).1 rfl
  simp only [unlinkSession, hsame]
  simp only [hprev, if_neg hne]

/-- A session without a back link is destroyed without changing the links of
others. -/
theorem destroySession_links {k : Sink α κ} {s : α} (hprev : (k.session s).prev = none) :
    SameLinks k (destroySession k s) ∧
    (destroySession k s).sessions = if k.sessions = some s then k.next s else k.sessions := by
  have hunlink := unlinkSession_links hprev
  unfold destroySession
  constructor
  · intro a
    simpa using hunlink.1 a
  · simpa using hunlink.2

/-! ## What else a session holds does not change -/

theorem modify_field {β : Type*} (k : Sink α κ) (a u : α) {f : Session α κ → Session α κ}
    (g : Session α κ → β) (hf : ∀ x, g (f x) = g x) :
    g ((k.modify a f).session u) = g (k.session u) := by
  by_cases hu : u = a
  · subst hu
    simp [Sink.modify, hf]
  · simp [Sink.modify, hu]

/-- What setting a back link, a successor and the head keeps, taking a session
out keeps. -/
theorem unlinkSession_rule {P : Sink α κ → Prop} {k : Sink α κ} (s : α) (hk : P k)
    (hprev : ∀ k a q, P k → P (k.modify a fun x => { x with prev := q }))
    (hnext : ∀ k a n, P k → P (k.modify a fun x => { x with next := n }))
    (hhead : ∀ k p, P k → P { k with sessions := p }) : P (unlinkSession k s) := by
  obtain ⟨k1, hk1, h1⟩ : ∃ k1 : Sink α κ, (match (k.session s).next with
      | some n => k.modify n fun x => { x with prev := (k.session s).prev }
      | none => k) = k1 ∧ P k1 := by
    refine ⟨_, rfl, ?_⟩
    split
    · exact hprev k _ _ hk
    · exact hk
  obtain ⟨k2, hk2, h2⟩ : ∃ k2 : Sink α κ, (match (k1.session s).prev with
      | some q => k1.modify q fun x => { x with next := (k1.session s).next }
      | none => k1) = k2 ∧ P k2 := by
    refine ⟨_, rfl, ?_⟩
    split
    · exact hnext k1 _ _ h1
    · exact h1
  simp only [unlinkSession, hk1, hk2]
  split
  · exact hhead k2 _ h2
  · exact h2

/-- The fields `DestroySession` writes are back links and successors. -/
theorem unlinkSession_field {β : Type*} (k : Sink α κ) (s u : α) (g : Session α κ → β)
    (hprev : ∀ x q, g { x with prev := q } = g x) (hnext : ∀ x n, g { x with next := n } = g x) :
    g ((unlinkSession k s).session u) = g (k.session u) := by
  apply unlinkSession_rule (P := fun k' => g (k'.session u) = g (k.session u)) s rfl
  · intro k' a q hk'
    exact (modify_field k' a u g fun x => hprev x q).trans hk'
  · intro k' a n hk'
    exact (modify_field k' a u g fun x => hnext x n).trans hk'
  · intro k' p hk'
    exact hk'

theorem unlinkSession_connection (k : Sink α κ) (s u : α) :
    ((unlinkSession k s).session u).connection = (k.session u).connection :=
  unlinkSession_field k s u Session.connection (fun _ _ => rfl) fun _ _ => rfl

theorem unlinkSession_buffer (k : Sink α κ) (s u : α) :
    ((unlinkSession k s).session u).buffer = (k.session u).buffer :=
  unlinkSession_field k s u Session.buffer (fun _ _ => rfl) fun _ _ => rfl

/-- The head of the list moves only if it is the session destroyed. -/
theorem unlinkSession_sessions {k : Sink α κ} {s : α} (h : k.sessions ≠ some s) :
    (unlinkSession k s).sessions = k.sessions := by
  obtain ⟨k1, hk1, hsame1⟩ : ∃ k1 : Sink α κ, (match (k.session s).next with
      | some n => k.modify n fun x => { x with prev := (k.session s).prev }
      | none => k) = k1 ∧ k1.sessions = k.sessions := by
    refine ⟨_, rfl, ?_⟩
    split <;> rfl
  obtain ⟨k2, hk2, hsame2⟩ : ∃ k2 : Sink α κ, (match (k1.session s).prev with
      | some q => k1.modify q fun x => { x with next := (k1.session s).next }
      | none => k1) = k2 ∧ k2.sessions = k1.sessions := by
    refine ⟨_, rfl, ?_⟩
    split <;> rfl
  have hsame := hsame2.trans hsame1
  simp only [unlinkSession, hk1, hk2, hsame, if_neg h]

theorem destroySession_connection (k : Sink α κ) (s u : α) :
    ((destroySession k s).session u).connection = (k.session u).connection := by
  simpa [destroySession] using unlinkSession_connection k s u

/-- `CreateSession` returns the memory it was given, with the connection in it,
and leaves the other sessions theirs. -/
theorem createSession_connection (k : Sink α κ) (c : κ) (memory buffer table : Option α) :
    (∀ s, (createSession k c memory buffer table).1 = some s → memory = some s ∧
      ((createSession k c memory buffer table).2.session s).connection = c) ∧
    ∀ u, memory ≠ some u → ((createSession k c memory buffer table).2.session u).connection =
      (k.session u).connection := by
  cases memory with
  | none => simp [createSession]
  | some m =>
    have hother : ∀ u, some m ≠ some u → ∀ (k' : Sink α κ) (f : Session α κ → Session α κ),
        (k'.modify m f).session u = k'.session u := by
      intro u hu k' f
      have hne : u ≠ m := fun heq => hu (congrArg some heq.symm)
      simp [Sink.modify, hne]
    cases buffer with
    | none =>
      -- no buffer: the session is destroyed again
      refine ⟨by simp [createSession], fun u hu => ?_⟩
      simp only [createSession, if_pos, destroySession_connection, Sink.allocated_session,
        hother u hu]
    | some b =>
      cases table with
      | none =>
        -- no table: likewise
        refine ⟨by simp [createSession], fun u hu => ?_⟩
        simp only [createSession, reduceCtorEq, if_false, destroySession_connection,
          Sink.allocated_session, hother u hu]
      | some t =>
        have hdone := createSession_done k c m b t
        constructor
        · intro s hs
          rw [hdone.1] at hs
          cases hs
          refine ⟨rfl, ?_⟩
          show ((created k c m b t).session m).connection = c
          rw [hdone.2.2, Function.update_self]
        · intro u hu
          have hne : u ≠ m := fun heq => hu (congrArg some heq.symm)
          show ((created k c m b t).session u).connection = _
          rw [hdone.2.2, Function.update_of_ne hne]

/-! ## Runs -/

/-- The sink with the sessions created and not yet destroyed, newest first. -/
structure St (α κ : Type*) where
  sink : Sink α κ
  live : List α

/-- A sink without sessions, in a memory of any contents. -/
def init (session : α → Session α κ) (bytes : α → List UInt8) : St α κ :=
  ⟨⟨none, session, bytes, []⟩, []⟩

/-- A `CreateSession` whose allocations return `s`, `b` and `t`, or a
`DestroySession`. -/
inductive Act (α κ : Type*) where
  | create (connection : κ) (s b t : α)
  | destroy (s : α)

/-- The allocator does not hand out the memory of a live session; a session is
destroyed once. -/
def step (st : St α κ) : Act α κ → Option (St α κ)
  | .create connection s b t =>
    if s ∈ st.live then none else some ⟨created st.sink connection s b t, s :: st.live⟩
  | .destroy s =>
    if s ∈ st.live then some ⟨destroySession st.sink s, st.live.erase s⟩ else none

/-- What a step does: a new head, or a session that is destroyed. -/
theorem step_cases {st st' : St α κ} {a : Act α κ} (h : step st a = some st') :
    (∃ c s b t, a = .create c s b t ∧ s ∉ st.live ∧
      st' = ⟨created st.sink c s b t, s :: st.live⟩) ∨
    (∃ s, a = .destroy s ∧ s ∈ st.live ∧ st' = ⟨destroySession st.sink s, st.live.erase s⟩) := by
  cases a with
  | create c s b t =>
    simp only [step] at h
    split at h
    · cases h
    · rename_i hs
      exact Or.inl ⟨c, s, b, t, rfl, hs, (Option.some.inj h).symm⟩
  | destroy s =>
    simp only [step] at h
    split at h
    · rename_i hs
      exact Or.inr ⟨s, rfl, hs, (Option.some.inj h).symm⟩
    · cases h

/-- The chain from `_sessions` ends and visits the live sessions, each once,
and no other. -/
def Sound (st : St α κ) : Prop :=
  ∃ l, Path st.sink.next st.sink.sessions l ∧ l.Nodup ∧ ∀ s, s ∈ l ↔ s ∈ st.live

/-- The condition on a step: the session destroyed is the head of the list. -/
def HeadFirst (st : St α κ) : Act α κ → Prop
  | .create .. => True
  | .destroy s => st.sink.sessions = some s

/-- The list is the live sessions, newest first, and has no back links. -/
structure Inv (st : St α κ) : Prop where
  path : Path st.sink.next st.sink.sessions st.live
  prev : ∀ s ∈ st.live, (st.sink.session s).prev = none

omit [DecidableEq α] in
theorem init_inv (session : α → Session α κ) (bytes : α → List UInt8) :
    Inv (init session bytes) := by
  constructor
  · exact rfl
  · intro s hs
    cases hs

omit [DecidableEq α] in
theorem sound_of_inv {st : St α κ} (h : Inv st) : Sound st :=
  ⟨st.live, h.path, h.path.nodup, fun _ => Iff.rfl⟩

/-- No operation sets a back link. -/
theorem step_prev {st st' : St α κ} {a : Act α κ} (h : step st a = some st')
    (hprev : ∀ s ∈ st.live, (st.sink.session s).prev = none) :
    ∀ s ∈ st'.live, (st'.sink.session s).prev = none := by
  rcases step_cases h with ⟨c, s, b, t, rfl, hs, rfl⟩ | ⟨s, rfl, hs, rfl⟩
  · -- CreateSession
    exact created_prev hprev
  · -- DestroySession copies the null one of the session destroyed
    intro u hu
    exact ((destroySession_links (hprev s hs)).1 u).2.2 (hprev u (List.mem_of_mem_erase hu))

/-- Destroying the head is destroying the first element of a chain. -/
theorem step_inv {st st' : St α κ} {a : Act α κ} (hP : HeadFirst st a) (h : step st a = some st')
    (hinv : Inv st) : Inv st' := by
  refine ⟨?_, step_prev h hinv.prev⟩
  rcases step_cases h with ⟨c, s, b, t, rfl, hs, rfl⟩ | ⟨s, rfl, hs, rfl⟩
  · -- CreateSession: the old list follows the new head
    refine ⟨rfl, ?_⟩
    show Path (created st.sink c s b t).next ((created st.sink c s b t).next s) st.live
    rw [created_next, Function.update_self]
    exact hinv.path.update hs
  · -- DestroySession of the head
    have hhead : st.sink.sessions = some s := hP
    have hlinks := destroySession_links (hinv.prev s hs)
    show Path (destroySession st.sink s).next (destroySession st.sink s).sessions _
    rw [hlinks.1.next_eq, hlinks.2, if_pos hhead]
    cases hlive : st.live with
    | nil =>
      rw [hlive] at hs
      cases hs
    | cons u rest =>
      have hpath := hinv.path
      rw [hlive] at hpath
      have hus : u = s := Option.some.inj (hpath.1.symm.trans hhead)
      subst hus
      rw [List.erase_cons_head]
      exact hpath.2

/-! ## Once wrong, wrong for ever -/

/-- The chain ends and visits live sessions only. -/
def Clean (st : St α κ) : Prop :=
  ∃ l, Path st.sink.next st.sink.sessions l ∧ ∀ s ∈ l, s ∈ st.live

/-- Where the list is wrong: it has no back links, and does not end or leads to
a session that has been destroyed. -/
structure Bad (st : St α κ) : Prop where
  not_clean : ¬ Clean st
  prev : ∀ s ∈ st.live, (st.sink.session s).prev = none

omit [DecidableEq α] in
theorem clean_of_sound {st : St α κ} (h : Sound st) : Clean st := by
  rcases h with ⟨l, hl, -, hmem⟩
  exact ⟨l, hl, fun s hs => (hmem s).mp hs⟩

/-- No operation repairs the list: what it visits afterwards, it visited
before, up to the session created or destroyed. -/
theorem step_bad {st st' : St α κ} {a : Act α κ} (h : step st a = some st') (hbad : Bad st) :
    Bad st' := by
  refine ⟨fun hclean => hbad.not_clean ?_, step_prev h hbad.prev⟩
  rcases hclean with ⟨l, hl, hmem⟩
  rcases step_cases h with ⟨c, s, b, t, rfl, hs, rfl⟩ | ⟨s, rfl, hs, rfl⟩
  · -- CreateSession: the old list is what follows the new head
    cases l with
    | nil => cases hl
    | cons u l =>
      have hus : u = s := (Option.some.inj hl.1).symm
      subst hus
      have hnotin : u ∉ l := (List.nodup_cons.mp hl.nodup).1
      have hrest : Path (Function.update st.sink.next u st.sink.sessions) st.sink.sessions l := by
        have htail := hl.2
        rw [created_next, Function.update_self] at htail
        exact htail
      refine ⟨l, hrest.congr ?_, ?_⟩
      · intro v hv
        have hvu : v ≠ u := fun heq => hnotin (heq ▸ hv)
        rw [Function.update_of_ne hvu]
      · intro v hv
        rcases List.mem_cons.mp (hmem v (List.mem_cons_of_mem u hv)) with heq | hmem'
        · exact absurd (heq ▸ hv) hnotin
        · exact hmem'
  · -- DestroySession: the links are the same, the head may have moved on
    have hlinks := destroySession_links (hbad.prev s hs)
    have hl' : Path st.sink.next (if st.sink.sessions = some s then st.sink.next s
        else st.sink.sessions) l := by
      rw [← hlinks.2, ← hlinks.1.next_eq]
      exact hl
    have hlive : ∀ v ∈ l, v ∈ st.live := fun v hv => List.mem_of_mem_erase (hmem v hv)
    by_cases hhead : st.sink.sessions = some s
    · rw [if_pos hhead] at hl'
      refine ⟨s :: l, ⟨hhead, hl'⟩, ?_⟩
      intro v hv
      rcases List.mem_cons.mp hv with rfl | hv
      · exact hs
      · exact hlive v hv
    · rw [if_neg hhead] at hl'
      exact ⟨l, hl', hlive⟩

/-- A session destroyed elsewhere than at the head stays in the list. -/
theorem break_bad {st st' : St α κ} {a : Act α κ} (hP : ¬ HeadFirst st a)
    (h : step st a = some st') (hinv : Inv st) : Bad st' := by
  refine ⟨?_, step_prev h hinv.prev⟩
  rcases step_cases h with ⟨c, s, b, t, rfl, hs, rfl⟩ | ⟨s, rfl, hs, rfl⟩
  · exact absurd trivial hP
  · rintro ⟨l, hl, hmem⟩
    have hhead : ¬ st.sink.sessions = some s := hP
    have hlinks := destroySession_links (hinv.prev s hs)
    have hl' : Path st.sink.next st.sink.sessions l := by
      rw [← hlinks.1.next_eq]
      have hpath : Path (destroySession st.sink s).next (destroySession st.sink s).sessions l := hl
      rw [hlinks.2, if_neg hhead] at hpath
      exact hpath
    have hlive : l = st.live := hl'.unique hinv.path
    have hs' : s ∈ st.live.erase s := hmem s (hlive ▸ hs)
    exact ((List.Nodup.mem_erase_iff hinv.path.nodup).mp hs').1 rfl

/-- After any run the list of sessions is right exactly when every session that
was destroyed was the head of the list. -/
theorem sessions_sound_iff (session : α → Session α κ) (bytes : α → List UInt8)
    (acts : List (Act α κ)) (st : St α κ) (hrun : run step (init session bytes) acts = some st) :
    Sound st ↔ Along step HeadFirst (init session bytes) acts := by
  constructor
  · intro hsound
    have hnot : ¬ Bad st := fun hbad => hbad.not_clean (clean_of_sound hsound)
    exact along_of_not_bad step Inv Bad (fun _ _ _ => step_inv) (fun _ _ _ => break_bad)
      (fun _ _ _ => step_bad) (init_inv session bytes) hrun hnot
  · intro halong
    exact sound_of_inv
      (run_invariant_along step (fun _ _ _ => step_inv) halong (init_inv session bytes) hrun)

/-- Memory before anything has been written to it. -/
def blank : ℕ → Session ℕ ℕ := fun _ => ⟨none, none, 0, 0, none, none⟩

/-- Two sessions, the newer one destroyed. -/
theorem sessions_sound_newest :
    ∃ st, run step (init blank fun _ => []) [.create 0 1 2 3, .create 1 4 5 6, .destroy 4] =
      some st ∧ st.live = [1] ∧ Sound st := by
  have hrun : run step (init blank fun _ => []) [.create 0 1 2 3, .create 1 4 5 6, .destroy 4] =
      some ⟨destroySession (created (created (init blank fun _ => []).sink 0 1 2 3) 1 4 5 6) 4,
        [1]⟩ := rfl
  refine ⟨_, hrun, rfl, (sessions_sound_iff _ _ _ _ hrun).mpr ?_⟩
  simp [along_cons, step, HeadFirst, init, createSession_done]

/-- Two sessions, the older one destroyed: the list still leads to it. -/
theorem sessions_oldest_destroyed :
    ∃ st, run step (init blank fun _ => []) [.create 0 1 2 3, .create 1 4 5 6, .destroy 1] =
      some st ∧ st.live = [4] ∧ Path st.sink.next st.sink.sessions [4, 1] ∧ ¬ Sound st := by
  have hrun : run step (init blank fun _ => []) [.create 0 1 2 3, .create 1 4 5 6, .destroy 1] =
      some ⟨destroySession (created (created (init blank fun _ => []).sink 0 1 2 3) 1 4 5 6) 1,
        [4]⟩ := rfl
  have hpath : Path (destroySession (created (created (init blank fun _ => []).sink 0 1 2 3)
      1 4 5 6) 1).next (some 4) [4, 1] := ⟨rfl, rfl, rfl⟩
  refine ⟨_, hrun, rfl, hpath, ?_⟩
  rintro ⟨l, hl, -, hmem⟩
  have heq := Path.unique hl hpath
  have hin : 1 ∈ ([4] : List ℕ) := (hmem 1).mp (by simp [heq])
  simp at hin

end Yardstick.SinkSessions
