import Yardstick.SinkSessions

/-!
# SinkClosed — webby_connected and webby_closed

A connection stays open when its session could not be created, and is reported
closed like any other: `webby_closed` destroys whatever session `FindSession`
returns, and does not ask whether there is one. The connections keep their
addresses here; `WebbyServer` is about those that do not.

* `findFrom_segment`: the lookup finds a session that live sessions lead to;
* `closed_right`: in a run in which only such connections are closed,
  `webby_closed` destroys the session of the connection, every time.
-/

namespace Yardstick.SinkClosed

open Chain Runs SinkSessions

variable {α κ : Type*} [DecidableEq α] [DecidableEq κ]

/-! ## The callbacks -/

/-- `webby_closed`. The outer `none` is a loop of `FindSession` that has not
ended within `fuel` sessions, the inner one a `DestroySession` of null. -/
def webbyClosed (fuel : ℕ) (k : Sink α κ) (c : κ) : Option (Option (Sink α κ)) :=
  (findSession fuel k c).map fun found => found.map (destroySession k)

/-- The sink, and the open WebSocket connections, each with the session that was
created for it. -/
structure St (α κ : Type*) where
  sink : Sink α κ
  connections : List (κ × Option α)
  crashed : Bool

/-- A sink without sessions, in a memory of any contents. -/
def init (session : α → Session α κ) (bytes : α → List UInt8) : St α κ :=
  ⟨⟨none, session, bytes, []⟩, [], false⟩

/-- `webby_connected`, with what the allocator returns for the three blocks of
`CreateSession`, or `webby_closed`. -/
inductive Act (α κ : Type*) where
  | connect (connection : κ) (memory buffer table : Option α)
  | close (connection : κ) (fuel : ℕ)

/-- A connection is opened at a free address and closed once; the allocator does
not hand out the memory of a live session. -/
def step (st : St α κ) (act : Act α κ) : Option (St α κ) :=
  if st.crashed then none else
  match act with
  | .connect c memory buffer table =>
    if ∀ e ∈ st.connections, e.1 ≠ c ∧ (e.2 = memory → memory = none) then
      let (session, sink) := createSession st.sink c memory buffer table
      some { st with sink := sink, connections := (c, session) :: st.connections }
    else none
  | .close c fuel =>
    if ∃ e ∈ st.connections, e.1 = c then
      (webbyClosed fuel st.sink c).map fun destroyed =>
        let connections := st.connections.filter fun e => e.1 ≠ c
        match destroyed with
        | some sink => { st with sink := sink, connections := connections }
        | none => { st with crashed := true, connections := connections }
    else none

/-- What a close should do: destroy the session of the connection if there is
one, and nothing otherwise. -/
def Right (st : St α κ) : Act α κ → Prop
  | .connect .. => True
  | .close c _ =>
    (∀ s, (c, some s) ∈ st.connections → ∃ n, ∀ fuel, n ≤ fuel →
      webbyClosed fuel st.sink c = some (some (destroySession st.sink s))) ∧
    ((c, none) ∈ st.connections → ∃ n, ∀ fuel, n ≤ fuel →
      webbyClosed fuel st.sink c = some (some st.sink))

/-- The condition on a step: the connection closed has a session, and only live
sessions are in front of it in the list. -/
def Reached (st : St α κ) : Act α κ → Prop
  | .connect .. => True
  | .close c _ => ∃ s, (c, some s) ∈ st.connections ∧
    ∃ front, Segment st.sink.next st.sink.sessions front (some s) ∧
      ∀ u ∈ front, ∃ c', (c', some u) ∈ st.connections

/-- Connections are told apart by their addresses, and a session has the one of
its connection. -/
structure Inv (st : St α κ) : Prop where
  nodup : (st.connections.map Prod.fst).Nodup
  connection : ∀ c s, (c, some s) ∈ st.connections → (st.sink.session s).connection = c

/-! ## The lookup -/

/-- If the list leads to `s`, and no session in front of it has the same
connection, the lookup ends there. -/
theorem findFrom_segment {k : Sink α κ} {c : κ} {p : Option α} {front : List α} {s : α}
    (h : Segment k.next p front (some s)) (hs : (k.session s).connection = c)
    (hfront : ∀ u ∈ front, (k.session u).connection = c → u = s) {fuel : ℕ}
    (hfuel : front.length < fuel) : findFrom k c fuel p = some (some s) := by
  induction front generalizing p fuel with
  | nil =>
    cases fuel with
    | zero => omega
    | succ fuel =>
      rw [show p = some s from h, findFrom, if_pos hs]
  | cons u front ih =>
    cases fuel with
    | zero => omega
    | succ fuel =>
      rw [h.1, findFrom]
      split
      · rename_i hu
        rw [hfront u List.mem_cons_self hu]
      · rw [List.length_cons] at hfuel
        exact ih h.2 (fun v hv => hfront v (List.mem_cons_of_mem u hv)) (by omega)

/-- Where the loop reaches the session of the connection, it finds that session and
no other one. -/
theorem reached_right {st : St α κ} {act : Act α κ} (hinv : Inv st) (h : Reached st act) :
    Right st act := by
  cases act with
  | connect => trivial
  | close c fuel =>
    rcases h with ⟨s, hs, front, hsegment, hlive⟩
    have hfind : ∀ fuel, front.length + 1 ≤ fuel →
        webbyClosed fuel st.sink c = some (some (destroySession st.sink s)) := by
      intro fuel hfuel
      unfold webbyClosed findSession
      rw [findFrom_segment hsegment (hinv.connection c s hs) ?_ hfuel, Option.map_some,
        Option.map_some]
      -- a live session with this connection is the one created for it
      intro u hu hconnection
      rcases hlive u hu with ⟨c', hc'⟩
      have hcc : c' = c := (hinv.connection c' u hc').symm.trans hconnection
      subst hcc
      have heq := List.inj_on_of_nodup_map hinv.nodup hc' hs rfl
      exact Option.some.inj (Prod.mk.inj heq).2
    have hone : (c, none) ∉ st.connections := by
      intro hnone
      have heq := List.inj_on_of_nodup_map hinv.nodup hnone hs rfl
      cases heq
    refine ⟨fun s' hs' => ⟨front.length + 1, ?_⟩, fun hnone => absurd hnone hone⟩
    have heq := List.inj_on_of_nodup_map hinv.nodup hs' hs rfl
    cases heq
    exact hfind

/-! ## Steps -/

/-- What a step does: a connection that comes, with a session if it got its blocks,
or one that goes. -/
theorem step_cases {st st' : St α κ} {act : Act α κ} (h : step st act = some st') :
    (∃ c memory buffer table, act = .connect c memory buffer table ∧
      (∀ e ∈ st.connections, e.1 ≠ c ∧ (e.2 = memory → memory = none)) ∧
      st' = { st with
        sink := (createSession st.sink c memory buffer table).2
        connections := (c, (createSession st.sink c memory buffer table).1) :: st.connections }) ∨
    (∃ c fuel destroyed, act = .close c fuel ∧ webbyClosed fuel st.sink c = some destroyed ∧
      st'.connections = st.connections.filter (fun e => e.1 ≠ c) ∧
      st'.sink = destroyed.getD st.sink ∧ (st'.crashed = true ↔ destroyed = none)) := by
  unfold step at h
  -- nothing happens behind a crash
  split at h
  · cases h
  · rename_i hcrashed
    cases act with
    | connect c memory buffer table =>
      simp only at h
      split at h
      · rename_i hguard
        exact Or.inl ⟨c, memory, buffer, table, rfl, hguard, (Option.some.inj h).symm⟩
      · cases h
    | close c fuel =>
      simp only at h
      split at h
      · rcases Option.map_eq_some_iff.mp h with ⟨destroyed, hclosed, rfl⟩
        refine Or.inr ⟨c, fuel, destroyed, rfl, hclosed, ?_⟩
        -- `DestroySession` of null crashes
        cases destroyed with
        | none => simp
        | some sink => simpa using hcrashed
      · cases h

theorem webbyClosed_connection {k k' : Sink α κ} {c : κ} {fuel : ℕ}
    (h : webbyClosed fuel k c = some (some k')) (u : α) :
    (k'.session u).connection = (k.session u).connection := by
  rcases Option.map_eq_some_iff.mp h with ⟨found, -, hfound⟩
  rcases Option.map_eq_some_iff.mp hfound with ⟨s, -, rfl⟩
  exact destroySession_connection k s u

/-- Connections keep their own sessions, whatever becomes of the links between
them. -/
theorem step_inv {st st' : St α κ} {act : Act α κ} (h : step st act = some st') (hinv : Inv st) :
    Inv st' := by
  rcases step_cases h with ⟨c, memory, buffer, table, rfl, hguard, rfl⟩ |
    ⟨c, fuel, destroyed, rfl, hclosed, hconnections, hsink, -⟩
  · -- a connection is opened
    have hcreate := createSession_connection st.sink c memory buffer table
    constructor
    · refine List.nodup_cons.mpr ⟨fun hmem => ?_, hinv.nodup⟩
      rcases List.mem_map.mp hmem with ⟨e, he, heq⟩
      exact (hguard e he).1 heq
    · intro c' s hs
      rcases List.mem_cons.mp hs with heq | hold
      · rcases Prod.mk.inj heq with ⟨rfl, hcreated⟩
        exact (hcreate.1 s hcreated.symm).2
      · -- the memory is not that of a session of another connection
        have hne : memory ≠ some s := by
          intro hmemory
          have hnone := (hguard _ hold).2 hmemory.symm
          rw [hmemory] at hnone
          cases hnone
        exact (hcreate.2 s hne).trans (hinv.connection c' s hold)
  · -- a connection is closed
    constructor
    · rw [hconnections]
      exact hinv.nodup.sublist (List.filter_sublist.map Prod.fst)
    · intro c' s hs
      rw [hconnections] at hs
      rw [← hinv.connection c' s (List.mem_of_mem_filter hs), hsink]
      cases destroyed with
      | none => rfl
      | some k' => exact webbyClosed_connection hclosed s

omit [DecidableEq α] [DecidableEq κ] in
theorem init_inv (session : α → Session α κ) (bytes : α → List UInt8) :
    Inv (init session bytes) := by
  constructor
  · exact List.nodup_nil
  · intro c s hs
    cases hs

/-- In a run that closes only connections with a session, and only with live
sessions in front of that one, `webby_closed` destroys the session of the
connection every time, and never the null session. -/
theorem closed_right (session : α → Session α κ) (bytes : α → List UInt8) (acts : List (Act α κ))
    (h : Along step Reached (init session bytes) acts) :
    Along step Right (init session bytes) acts :=
  along_of_invariant step (fun _ _ _ _ hstep hinv => step_inv hstep hinv)
    (fun _ _ hinv hreached => reached_right hinv hreached) (init_inv session bytes) h

/-- Two connections, a third one without memory for its session; the two are
closed, the newer one first. -/
theorem closed_right_two :
    Along step Right (init blank fun _ => [])
      [.connect 0 (some 1) (some 2) (some 3), .connect 1 (some 4) (some 5) (some 6),
        .connect 2 none none none, .close 1 1, .close 0 1] := by
  apply closed_right
  refine (along_cons _).mpr ⟨trivial, fun s hs => ?_⟩
  cases hs
  refine (along_cons _).mpr ⟨trivial, fun s hs => ?_⟩
  cases hs
  refine (along_cons _).mpr ⟨trivial, fun s hs => ?_⟩
  cases hs
  refine (along_cons _).mpr ⟨⟨4, by decide, [], rfl, by simp⟩, fun s hs => ?_⟩
  cases hs
  exact (along_cons _).mpr ⟨⟨1, by decide, [], rfl, by simp⟩, fun s _ => along_nil _ _ s⟩

/-- The session of a connection cannot be created; when the connection is closed,
the null session is destroyed. -/
theorem closed_null :
    ∃ st, run step (init blank fun _ => []) [.connect 0 none none none] = some st ∧
      webbyClosed 0 st.sink 0 = some none ∧ ¬ Right st (.close 0 0) := by
  refine ⟨_, rfl, rfl, ?_⟩
  intro hright
  rcases hright.2 (List.mem_singleton.mpr rfl) with ⟨n, hn⟩
  have hclosed := hn n (Nat.le_refl n)
  cases n <;> cases hclosed

end Yardstick.SinkClosed
