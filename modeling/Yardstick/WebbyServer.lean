import Yardstick.SinkSessions

/-!
# WebbyServer — connections in an array, sessions that point into it

The server keeps its connections in an array and closes the gap when one of
them goes. The sink remembers the connection of a session by the address it had
when the session was created, that is, by a place in the array; nothing tells
the sink when the connections behind a gap move.

* `sound_iff_linked`: what the sink relies on, as facts about the list of
  sessions and the places they point to;
* `step_linked_iff`: which steps of the server keep these facts;
* `server_sound_iff`: all states of a run are right exactly when no connection
  is closed in front of a WebSocket, and a WebSocket only if its session is the
  head of the list.
-/

namespace Yardstick.WebbyServer

open Chain Runs SinkSessions

variable {α : Type*} [DecidableEq α]

/-! ## The server -/

/-- An entry of `srv->connections`: the accept it comes from, and the
`WB_WEBSOCKET` flag. -/
structure Conn where
  id : ℕ
  websocket : Bool
deriving DecidableEq, Repr

/-- The first `connection_count` entries of the array, the sink that listens,
and what the sink is meant to know: which sessions are live, and which
connection each of them was created for. A `WebbyConnection*` is a place in the
array. -/
structure St (α : Type*) where
  connections : List Conn
  accepted : ℕ
  sink : Sink α ℕ
  live : List α
  owner : α → ℕ
  crashed : Bool

def init (session : α → Session α ℕ) (bytes : α → List UInt8) : St α :=
  { connections := [], accepted := 0, sink := ⟨none, session, bytes, []⟩, live := []
    owner := fun _ => 0, crashed := false }

/-- What happens to connections within `WebbyServerUpdate`. -/
inductive Act (α : Type*) where
  /-- `wb_on_incoming` accepts a connection. -/
  | accept
  /-- The connection at a place becomes a WebSocket; `s`, `b` and `t` are what
  the allocator returns for its session. -/
  | upgrade (place : ℕ) (s b t : α)
  /-- The connection at a place is closed; `fuel` bounds the loop of
  `FindSession`, which may not end. -/
  | close (place : ℕ) (fuel : ℕ)

/-- `webby_connected`, called by the server with `&connections[place]`. -/
def webbyConnected (st : St α) (place id : ℕ) (s b t : α) : St α :=
  { st with
    sink := created st.sink place s b t, live := s :: st.live
    owner := Function.update st.owner s id }

/-- `webby_closed`: destroying the null session crashes. -/
def webbyClosed (st : St α) (place fuel : ℕ) : Option (St α) :=
  (findSession fuel st.sink place).map fun found =>
    match found with
    | some s => { st with sink := destroySession st.sink s, live := st.live.erase s }
    | none => { st with crashed := true }

def step (connectionMax : ℕ) (st : St α) (a : Act α) : Option (St α) :=
  if st.crashed then none else
  match a with
  | .accept =>
    if st.connections.length = connectionMax then none
    else some { st with
      connections := st.connections ++ [⟨st.accepted, false⟩], accepted := st.accepted + 1 }
  | .upgrade place s b t =>
    match st.connections[place]? with
    | none => none
    | some c =>
      if c.websocket ∨ s ∈ st.live then none
      else some (webbyConnected
        { st with connections := st.connections.set place { c with websocket := true } }
        place c.id s b t)
  | .close place fuel =>
    match st.connections[place]? with
    | none => none
    | some c =>
      -- ws_closed, then memmove and --connection_count
      (if c.websocket then webbyClosed st place fuel else some st).map fun st =>
        { st with connections := st.connections.eraseIdx place }

/-! ## One call of WebbyServerUpdate -/

/-- What one `WebbyServerUpdate` meets: how many connections come in, which ones
become WebSockets, and which ones are no longer alive (by their ids) when it
gets to closing them. -/
structure Activity (α : Type*) where
  incoming : ℕ
  upgrades : List (ℕ × α × α × α)
  stale : ℕ → Bool
  fuel : ℕ

/-- The closing loop from place `i` on: after a close it stays at the place,
where the next connection now is. -/
def closeStale (act : Activity α) : ℕ → List Conn → List (Act α)
  | _, [] => []
  | i, c :: cs =>
    if act.stale c.id then .close i act.fuel :: closeStale act i cs else closeStale act (i + 1) cs

/-- What comes before the loop: accepts, then the connections one by one. -/
def serve (act : Activity α) : List (Act α) :=
  List.replicate act.incoming .accept ++
    act.upgrades.map fun u => .upgrade u.1 u.2.1 u.2.2.1 u.2.2.2

def webbyServerUpdate (m : ℕ) (act : Activity α) (st : St α) : Option (St α) :=
  (run (step m) st (serve act)).bind fun st =>
    run (step m) st (closeStale act 0 st.connections)

/-- An update is a run of steps, so what holds in every state of every run holds
between updates. -/
theorem exists_run_of_update {m : ℕ} {act : Activity α} {st st' : St α}
    (h : webbyServerUpdate m act st = some st') : ∃ acts, run (step m) st acts = some st' := by
  rcases Option.bind_eq_some_iff.mp h with ⟨st1, hserve, hclose⟩
  refine ⟨serve act ++ closeStale act 0 st1.connections, ?_⟩
  rw [run_append, hserve]
  exact hclose

/-! ## What the sink relies on -/

/-- The sessions the sink visits are the live ones; every live WebSocket has
exactly one session, which `FindSession` returns for the place the connection is
at; and every session points to the connection it was created for. -/
structure Sound (st : St α) : Prop where
  running : st.crashed = false
  visits : ∃ l, Path st.sink.next st.sink.sessions l ∧ ∀ s, s ∈ l ↔ s ∈ st.live
  one : ∀ i c, st.connections[i]? = some c → c.websocket = true →
    ∃ s, (s ∈ st.live ∧ st.owner s = c.id) ∧
      (∀ s', s' ∈ st.live ∧ st.owner s' = c.id → s' = s) ∧
      ∃ fuel, findSession fuel st.sink i = some (some s)
  designates : ∀ s ∈ st.live, ∃ c, st.connections[(st.sink.session s).connection]? = some c ∧
    c.websocket = true ∧ c.id = st.owner s

/-- The condition on a step: a connection is closed only with no WebSocket
behind it, and a WebSocket only if the head of the list of sessions is the
session with its place. -/
def Fits (st : St α) : Act α → Prop
  | .close place _ =>
    (∀ j c, place < j → st.connections[j]? = some c → c.websocket = false) ∧
    ∀ c, st.connections[place]? = some c → c.websocket = true →
      ∃ s, st.sink.sessions = some s ∧ (st.sink.session s).connection = place
  | _ => True

/-- What holds in any case: connections are told apart by their ids, sessions
have no back links. -/
structure Aux (st : St α) : Prop where
  nodup_ids : (st.connections.map Conn.id).Nodup
  ids_lt : ∀ c ∈ st.connections, c.id < st.accepted
  nodup_live : st.live.Nodup
  prev : ∀ s ∈ st.live, (st.sink.session s).prev = none

/-- The same facts by places: `Sound` as an invariant. -/
structure Linked (st : St α) : Prop where
  running : st.crashed = false
  visits : ∃ l, Path st.sink.next st.sink.sessions l ∧ ∀ s, s ∈ l ↔ s ∈ st.live
  designates : ∀ s ∈ st.live, ∃ c, st.connections[(st.sink.session s).connection]? = some c ∧
    c.websocket = true ∧ c.id = st.owner s
  covered : ∀ i c, st.connections[i]? = some c → c.websocket = true →
    ∃ s ∈ st.live, (st.sink.session s).connection = i
  injective : ∀ s ∈ st.live, ∀ s' ∈ st.live,
    (st.sink.session s).connection = (st.sink.session s').connection → s = s'

omit [DecidableEq α] in
/-- One id, one place. -/
theorem Aux.place_eq {st : St α} (h : Aux st) {i j : ℕ} {c c' : Conn}
    (hi : st.connections[i]? = some c) (hj : st.connections[j]? = some c') (hid : c.id = c'.id) :
    i = j := by
  have hlen : i < (st.connections.map Conn.id).length := by
    rw [List.length_map]
    exact (List.getElem?_eq_some_iff.mp hi).1
  refine (List.getElem?_inj hlen h.nodup_ids).mp ?_
  rw [List.getElem?_map, List.getElem?_map, hi, hj, Option.map_some, Option.map_some, hid]

omit [DecidableEq α] in
/-- The lookup at a place ends with the session that has it. -/
theorem Linked.findSession_eq {st : St α} (h : Linked st) {s : α} (hs : s ∈ st.live) {i fuel : ℕ}
    (hi : (st.sink.session s).connection = i) {r : Option α}
    (hr : findSession fuel st.sink i = some r) : r = some s := by
  rcases h.visits with ⟨l, hl, hmem⟩
  have hfind := (findSession_iff hl).mp ⟨fuel, hr⟩
  cases r with
  | none =>
    have hnone := List.find?_eq_none.mp hfind s ((hmem s).mpr hs)
    simp [hi] at hnone
  | some s' =>
    have hconn : (st.sink.session s').connection = i := by
      simpa using List.find?_some hfind
    have hlive : s' ∈ st.live := (hmem s').mp (List.mem_of_find?_eq_some hfind)
    rw [h.injective s' hlive s hs (hconn.trans hi.symm)]

omit [DecidableEq α] in
/-- Every session belongs to its connection exactly when every slot leads to its
own session and back. -/
theorem sound_iff_linked {st : St α} (haux : Aux st) : Sound st ↔ Linked st := by
  constructor
  · intro h
    refine ⟨h.running, h.visits, h.designates, ?_, ?_⟩
    · -- the one session of a WebSocket points to it
      intro i c hi hws
      rcases h.one i c hi hws with ⟨s, ⟨hs, howner⟩, -, -⟩
      rcases h.designates s hs with ⟨c', hc', -, hid⟩
      exact ⟨s, hs, haux.place_eq hc' hi (hid.trans howner)⟩
    · -- two sessions at one place would be two of one WebSocket
      intro s hs s' hs' hconn
      rcases h.designates s hs with ⟨c, hc, hws, hid⟩
      rcases h.designates s' hs' with ⟨c', hc', -, hid'⟩
      rw [← hconn, hc] at hc'
      cases hc'
      rcases h.one _ c hc hws with ⟨u, -, hunique, -⟩
      rw [hunique s ⟨hs, hid.symm⟩, hunique s' ⟨hs', hid'.symm⟩]
  · intro h
    refine ⟨h.running, h.visits, ?_, h.designates⟩
    intro i c hi hws
    rcases h.covered i c hi hws with ⟨s, hs, hconn⟩
    rcases h.designates s hs with ⟨c', hc', -, hid⟩
    rw [hconn, hi] at hc'
    cases hc'
    refine ⟨s, ⟨hs, hid.symm⟩, ?_, ?_⟩
    · rintro s' ⟨hs', howner'⟩
      rcases h.designates s' hs' with ⟨c', hc', -, hid'⟩
      have hplace := haux.place_eq hc' hi (hid'.trans howner')
      exact h.injective s' hs' s hs (hplace.trans hconn.symm)
    · rcases h.visits with ⟨l, hl, hmem⟩
      rcases (findSession_iff (c := i) hl).mpr rfl with ⟨fuel, hfuel⟩
      exact ⟨fuel, by rw [hfuel, h.findSession_eq hs hconn hfuel]⟩

/-! ## Steps -/

/-- What a step does: a connection is accepted, upgraded, or closed, the last with
its session if it has one. -/
theorem step_cases {m : ℕ} {st st' : St α} {a : Act α} (h : step m st a = some st') :
    (a = .accept ∧ st' = { st with
      connections := st.connections ++ [⟨st.accepted, false⟩], accepted := st.accepted + 1 }) ∨
    (∃ i s b t c, a = .upgrade i s b t ∧ st.connections[i]? = some c ∧ c.websocket = false ∧
      s ∉ st.live ∧ st' = webbyConnected
        { st with connections := st.connections.set i { c with websocket := true } } i c.id s b t) ∨
    (∃ i fuel c, a = .close i fuel ∧ st.connections[i]? = some c ∧ c.websocket = false ∧
      st' = { st with connections := st.connections.eraseIdx i }) ∨
    (∃ i fuel c r, a = .close i fuel ∧ st.connections[i]? = some c ∧ c.websocket = true ∧
      findSession fuel st.sink i = some r ∧
      st' = { (match r with
        | some s => { st with sink := destroySession st.sink s, live := st.live.erase s }
        | none => { st with crashed := true }) with
        connections := st.connections.eraseIdx i }) := by
  unfold step at h
  split at h
  · cases h
  · cases a with
    | accept =>
      simp only at h
      split at h
      · cases h
      · exact Or.inl ⟨rfl, (Option.some.inj h).symm⟩
    | upgrade i s b t =>
      simp only at h
      cases hc : st.connections[i]? with
      | none => simp [hc] at h
      | some c =>
        simp only [hc] at h
        split at h
        · cases h
        · -- a connection that is no WebSocket yet
          rename_i hguard
          rw [not_or] at hguard
          right
          left
          exact ⟨i, s, b, t, c, rfl, hc, by simpa using hguard.1, hguard.2,
            (Option.some.inj h).symm⟩
    | close i fuel =>
      simp only at h
      cases hc : st.connections[i]? with
      | none => simp [hc] at h
      | some c =>
        simp only [hc] at h
        right
        right
        -- with a session or without
        cases hws : c.websocket with
        | false =>
          left
          simp only [hws, Bool.false_eq_true, if_false, Option.map_some] at h
          exact ⟨i, fuel, c, rfl, hc, hws, (Option.some.inj h).symm⟩
        | true =>
          right
          simp only [hws, if_true, webbyClosed, Option.map_map] at h
          rcases Option.map_eq_some_iff.mp h with ⟨r, hr, hst⟩
          refine ⟨i, fuel, c, r, rfl, hc, hws, hr, ?_⟩
          rw [← hst]
          cases r <;> rfl

/-- Connections only ever leave, keep their id or get a new one. -/
theorem step_aux {m : ℕ} {st st' : St α} {a : Act α} (h : step m st a = some st') (haux : Aux st)
    (hlinked : Linked st) : Aux st' := by
  rcases step_cases h with ⟨rfl, rfl⟩ | ⟨i, s, b, t, c, rfl, hc, -, hs, rfl⟩ |
    ⟨i, fuel, c, rfl, hc, -, rfl⟩ | ⟨i, fuel, c, r, rfl, hc, hws, hr, rfl⟩
  · -- accept: a new id
    refine ⟨?_, ?_, haux.nodup_live, haux.prev⟩
    · show ((st.connections ++ [(⟨st.accepted, false⟩ : Conn)]).map Conn.id).Nodup
      rw [List.map_append, List.nodup_append]
      refine ⟨haux.nodup_ids, by simp, ?_⟩
      intro id hid id' hid' heq
      rcases List.mem_map.mp hid with ⟨c, hc, rfl⟩
      have hnew : id' = st.accepted := by simpa using hid'
      have hlt := haux.ids_lt c hc
      omega
    · intro c hc
      show c.id < st.accepted + 1
      rcases List.mem_append.mp hc with hc | hc
      · have hlt := haux.ids_lt c hc
        omega
      · rw [List.mem_singleton.mp hc]
        exact Nat.lt_succ_self _
  · -- upgrade: the same ids
    have hids : ((st.connections.set i { c with websocket := true }).map Conn.id) =
        st.connections.map Conn.id := by
      rcases List.getElem?_eq_some_iff.mp hc with ⟨hi, hci⟩
      rw [List.map_set]
      have hid : (st.connections.map Conn.id)[i]? = some c.id := by
        rw [List.getElem?_map, hc, Option.map_some]
      rcases List.getElem?_eq_some_iff.mp hid with ⟨hi', hci'⟩
      show (st.connections.map Conn.id).set i c.id = _
      rw [← hci', List.set_getElem_self]
    refine ⟨?_, ?_, List.nodup_cons.mpr ⟨hs, haux.nodup_live⟩, ?_⟩
    · show ((st.connections.set i { c with websocket := true }).map Conn.id).Nodup
      rw [hids]
      exact haux.nodup_ids
    · intro d hd
      have hmem : d.id ∈ (st.connections.set i { c with websocket := true }).map Conn.id :=
        List.mem_map_of_mem hd
      rw [hids] at hmem
      rcases List.mem_map.mp hmem with ⟨e, he, hid⟩
      exact hid ▸ haux.ids_lt e he
    · exact created_prev haux.prev
  · -- close without a session
    refine ⟨?_, ?_, haux.nodup_live, haux.prev⟩
    · exact haux.nodup_ids.sublist ((List.eraseIdx_sublist _ i).map Conn.id)
    · intro d hd
      exact haux.ids_lt d (List.mem_of_mem_eraseIdx hd)
  · -- close with its session
    rcases hlinked.covered i c hc hws with ⟨s, hs, hconn⟩
    rw [hlinked.findSession_eq hs hconn hr]
    refine ⟨?_, ?_, haux.nodup_live.erase s, ?_⟩
    · exact haux.nodup_ids.sublist ((List.eraseIdx_sublist _ i).map Conn.id)
    · intro d hd
      exact haux.ids_lt d (List.mem_of_mem_eraseIdx hd)
    · intro u hu
      exact ((destroySession_links (haux.prev s hs)).1 u).2.2
        (haux.prev u (List.mem_of_mem_erase hu))

omit [DecidableEq α] in
/-- A new connection is the last one, and has no session. -/
theorem accept_linked {st : St α} (h : Linked st) : Linked { st with
    connections := st.connections ++ [⟨st.accepted, false⟩], accepted := st.accepted + 1 } := by
  refine ⟨h.running, h.visits, ?_, ?_, h.injective⟩
  · intro s hs
    rcases h.designates s hs with ⟨c, hc, hws, hid⟩
    refine ⟨c, ?_, hws, hid⟩
    show (st.connections ++ [_])[_]? = some c
    rw [List.getElem?_append_left (List.getElem?_eq_some_iff.mp hc).1, hc]
  · intro i c hi hws
    have hi' : (st.connections ++ [(⟨st.accepted, false⟩ : Conn)])[i]? = some c := hi
    rcases Nat.lt_or_ge i st.connections.length with hlt | hge
    · rw [List.getElem?_append_left hlt] at hi'
      exact h.covered i c hi' hws
    · -- the new connection is no WebSocket
      rw [List.getElem?_append_right hge] at hi'
      have hnew := List.mem_of_getElem? hi'
      rw [List.mem_singleton.mp hnew] at hws
      cases hws

/-- A connection that is upgraded gets a session of its own, which is put in front
of the list; the others keep theirs. -/
theorem upgrade_linked {st : St α} (h : Linked st) {i : ℕ} {c : Conn}
    (hc : st.connections[i]? = some c) (hplain : c.websocket = false) {s b t : α}
    (hs : s ∉ st.live) : Linked (webbyConnected
      { st with connections := st.connections.set i { c with websocket := true } }
      i c.id s b t) := by
  have hlen : i < st.connections.length := (List.getElem?_eq_some_iff.mp hc).1
  have hsession : (created st.sink i s b t).session = _ := (createSession_done st.sink i s b t).2.2
  -- no session was at this place
  have hfree : ∀ u ∈ st.live, u ≠ s ∧ (st.sink.session u).connection ≠ i := by
    intro u hu
    refine ⟨fun hus => hs (hus ▸ hu), fun hconn => ?_⟩
    rcases h.designates u hu with ⟨c', hc', hws, -⟩
    rw [hconn, hc] at hc'
    cases hc'
    rw [hplain] at hws
    cases hws
  have hplace : ∀ u ∈ st.live, ((created st.sink i s b t).session u).connection =
      (st.sink.session u).connection := by
    intro u hu
    rw [hsession, Function.update_of_ne (hfree u hu).1]
  have hnew : ((created st.sink i s b t).session s).connection = i := by
    rw [hsession, Function.update_self]
  refine ⟨h.running, ?_, ?_, ?_, ?_⟩
  · -- the old list follows the new session
    rcases h.visits with ⟨l, hl, hmem⟩
    have hnotin : s ∉ l := fun hsl => hs ((hmem s).mp hsl)
    refine ⟨s :: l, ⟨rfl, ?_⟩, ?_⟩
    · show Path (created st.sink i s b t).next ((created st.sink i s b t).next s) l
      rw [created_next, Function.update_self]
      exact hl.update hnotin
    · intro u
      show u ∈ s :: l ↔ u ∈ s :: st.live
      rw [List.mem_cons, List.mem_cons, hmem]
  · -- each session points to its connection, the new one to the one upgraded
    intro u hu
    rcases List.mem_cons.mp hu with rfl | hu
    · refine ⟨{ c with websocket := true }, ?_, rfl, ?_⟩
      · show (st.connections.set i _)[((created st.sink i u b t).session u).connection]? = _
        rw [hnew, List.getElem?_set_self hlen]
      · show c.id = Function.update st.owner u c.id u
        rw [Function.update_self]
    · rcases h.designates u hu with ⟨c', hc', hws, hid⟩
      refine ⟨c', ?_, hws, ?_⟩
      · show (st.connections.set i _)[((created st.sink i s b t).session u).connection]? = _
        rw [hplace u hu, List.getElem?_set_ne (hfree u hu).2.symm, hc']
      · show c'.id = Function.update st.owner s c.id u
        rw [Function.update_of_ne (hfree u hu).1, hid]
  · intro j c' hj hws
    have hj' : (st.connections.set i { c with websocket := true })[j]? = some c' := hj
    by_cases hij : i = j
    · exact ⟨s, List.mem_cons_self, hnew.trans hij⟩
    · rw [List.getElem?_set_ne hij] at hj'
      rcases h.covered j c' hj' hws with ⟨u, hu, hconn⟩
      exact ⟨u, List.mem_cons_of_mem s hu, (hplace u hu).trans hconn⟩
  · -- no other session is at the place of the new one
    intro u hu v hv hconn
    have hconn' : ((created st.sink i s b t).session u).connection =
        ((created st.sink i s b t).session v).connection := hconn
    rcases List.mem_cons.mp hu with hus | hu'
    · rcases List.mem_cons.mp hv with hvs | hv'
      · exact hus.trans hvs.symm
      · rw [hus, hnew, hplace v hv'] at hconn'
        exact absurd hconn'.symm (hfree v hv').2
    · rcases List.mem_cons.mp hv with hvs | hv'
      · rw [hvs, hnew, hplace u hu'] at hconn'
        exact absurd hconn' (hfree u hu').2
      · rw [hplace u hu', hplace v hv'] at hconn'
        exact h.injective u hu' v hv' hconn'

omit [DecidableEq α] in
/-- A session that points to its connection before and after a connection is
closed points in front of it. -/
theorem lt_of_designates_eraseIdx {st : St α} (haux : Aux st) {i j : ℕ} {c c' : Conn}
    (hj : st.connections[j]? = some c) (hj' : (st.connections.eraseIdx i)[j]? = some c')
    (hid : c'.id = c.id) : j < i := by
  by_contra hge
  rw [List.getElem?_eraseIdx_of_ge (Nat.le_of_not_lt hge)] at hj'
  have hplace := haux.place_eq hj' hj hid
  omega

omit [DecidableEq α] in
/-- If the sessions that stay still point to their connections, no WebSocket was
behind the one closed. -/
theorem no_websocket_behind {st : St α} (haux : Aux st) (h : Linked st) {i : ℕ} (live : List α)
    (hlive : ∀ s ∈ st.live, (st.sink.session s).connection ≠ i → s ∈ live)
    (hdesignates : ∀ s ∈ live, ∃ c,
      (st.connections.eraseIdx i)[(st.sink.session s).connection]? = some c ∧
      c.websocket = true ∧ c.id = st.owner s) :
    ∀ j c, i < j → st.connections[j]? = some c → c.websocket = false := by
  intro j c hij hj
  by_contra hws
  rcases h.covered j c hj (by simpa using hws) with ⟨s, hs, hconn⟩
  have hmem : s ∈ live := hlive s hs (by omega)
  rcases hdesignates s hmem with ⟨c', hc', -, hid'⟩
  rcases h.designates s hs with ⟨d, hd, -, hid⟩
  have hlt := lt_of_designates_eraseIdx haux hd hc' (hid'.trans hid.symm)
  omega

omit [DecidableEq α] in
/-- With no WebSocket behind the connection closed, the sessions that are not
its own keep their connections. -/
theorem keep_designates {st : St α} (h : Linked st) {i : ℕ}
    (hbehind : ∀ j c, i < j → st.connections[j]? = some c → c.websocket = false) {s : α}
    (hs : s ∈ st.live) (hconn : (st.sink.session s).connection ≠ i) :
    ∃ c, (st.connections.eraseIdx i)[(st.sink.session s).connection]? = some c ∧
      c.websocket = true ∧ c.id = st.owner s := by
  rcases h.designates s hs with ⟨c, hc, hws, hid⟩
  -- only what is in front of the place closed stays where it was
  rcases Nat.lt_trichotomy (st.sink.session s).connection i with hlt | heq | hgt
  · exact ⟨c, by rw [List.getElem?_eraseIdx_of_lt hlt, hc], hws, hid⟩
  · exact absurd heq hconn
  · rw [hbehind _ c hgt hc] at hws
    cases hws

omit [DecidableEq α] in
/-- The WebSockets that are left stand where they stood. -/
theorem keep_covered {st : St α} (h : Linked st) {i j : ℕ} {c : Conn}
    (hbehind : ∀ j c, i < j → st.connections[j]? = some c → c.websocket = false)
    (hj : (st.connections.eraseIdx i)[j]? = some c) (hws : c.websocket = true) :
    j < i ∧ ∃ s ∈ st.live, (st.sink.session s).connection = j := by
  rcases Nat.lt_or_ge j i with hlt | hge
  · rw [List.getElem?_eraseIdx_of_lt hlt] at hj
    exact ⟨hlt, h.covered j c hj hws⟩
  · rw [List.getElem?_eraseIdx_of_ge hge] at hj
    rw [hbehind (j + 1) c (by omega) hj] at hws
    cases hws

omit [DecidableEq α] in
/-- Closing a connection without a session moves those behind it, and their
sessions still point to the old slots. -/
theorem close_plain_iff {st : St α} (haux : Aux st) (h : Linked st) {i fuel : ℕ} {c : Conn}
    (hc : st.connections[i]? = some c) (hplain : c.websocket = false) :
    Linked { st with connections := st.connections.eraseIdx i } ↔ Fits st (.close i fuel) := by
  -- no session is at the place closed
  have hfree : ∀ s ∈ st.live, (st.sink.session s).connection ≠ i := by
    intro s hs hconn
    rcases h.designates s hs with ⟨c', hc', hws, -⟩
    rw [hconn, hc] at hc'
    cases hc'
    rw [hplain] at hws
    cases hws
  constructor
  · intro h'
    refine ⟨no_websocket_behind haux h st.live (fun s hs _ => hs) h'.designates, ?_⟩
    intro c' hc' hws
    rw [hc] at hc'
    cases hc'
    rw [hplain] at hws
    cases hws
  · rintro ⟨hbehind, -⟩
    refine ⟨h.running, h.visits, ?_, ?_, h.injective⟩
    · intro s hs
      exact keep_designates h hbehind hs (hfree s hs)
    · intro j d hj hws
      exact (keep_covered h hbehind hj hws).2

/-- Without one of them the live sessions are still those visited exactly if
that one was the head of the list: with no back links, only there
`DestroySession` finds the link to change. -/
theorem visits_destroySession_iff {st : St α} (haux : Aux st) (h : Linked st) {s : α}
    (hs : s ∈ st.live) :
    (∃ l, Path (destroySession st.sink s).next (destroySession st.sink s).sessions l ∧
      ∀ u, u ∈ l ↔ u ∈ st.live.erase s) ↔ st.sink.sessions = some s := by
  obtain ⟨hsame, hsessions⟩ := destroySession_links (haux.prev s hs)
  have hother : ∀ u, u ∈ st.live.erase s ↔ u ≠ s ∧ u ∈ st.live :=
    fun u => List.Nodup.mem_erase_iff haux.nodup_live
  rcases h.visits with ⟨l, hl, hmem⟩
  rw [hsame.next_eq, hsessions]
  constructor
  · -- were the session elsewhere in the list, it would still be visited
    rintro ⟨l', hl', hmem'⟩
    by_contra hhead
    rw [if_neg hhead] at hl'
    have hin : s ∈ l' := hl'.unique hl ▸ (hmem s).mpr hs
    exact ((hother s).mp ((hmem' s).mp hin)).1 rfl
  · intro hhead
    rw [if_pos hhead]
    cases l with
    | nil =>
      rw [path_nil.mp hl] at hhead
      cases hhead
    | cons v l =>
      have hvs : v = s := Option.some.inj (hl.1.symm.trans hhead)
      subst hvs
      refine ⟨l, hl.2, fun u => ?_⟩
      have hnotin : v ∉ l := (List.nodup_cons.mp hl.nodup).1
      rw [hother, ← hmem, List.mem_cons]
      constructor
      · intro hu
        exact ⟨fun huv => hnotin (huv ▸ hu), Or.inr hu⟩
      · rintro ⟨huv, heq | hu⟩
        · exact absurd heq huv
        · exact hu

omit [DecidableEq α] in
/-- The head of the list is the session of the connection it points to. -/
theorem Linked.head_eq {st : St α} (h : Linked st) {s u : α} (hs : s ∈ st.live)
    (hu : st.sink.sessions = some u)
    (hconn : (st.sink.session u).connection = (st.sink.session s).connection) : u = s := by
  rcases h.visits with ⟨l, hl, hmem⟩
  rw [hu] at hl
  exact h.injective u ((hmem u).mp hl.head_mem) s hs hconn

/-- Likewise with a session, which goes first. -/
theorem close_websocket_iff {st : St α} (haux : Aux st) (h : Linked st) {i fuel : ℕ} {c : Conn}
    (hc : st.connections[i]? = some c) (hws : c.websocket = true) {s : α} (hs : s ∈ st.live)
    (hconn : (st.sink.session s).connection = i) :
    Linked { st with
      sink := destroySession st.sink s, live := st.live.erase s
      connections := st.connections.eraseIdx i } ↔ Fits st (.close i fuel) := by
  have hplace : ∀ u, ((destroySession st.sink s).session u).connection =
      (st.sink.session u).connection :=
    fun u => ((destroySession_links (haux.prev s hs)).1 u).2.1
  have hother : ∀ u, u ∈ st.live.erase s ↔ u ≠ s ∧ u ∈ st.live :=
    fun u => List.Nodup.mem_erase_iff haux.nodup_live
  have hne : ∀ u ∈ st.live, (st.sink.session u).connection ≠ i ↔ u ≠ s := by
    intro u hu
    refine ⟨fun hui hus => hui (hus ▸ hconn), fun hus hui => hus ?_⟩
    exact h.injective u hu s hs (hui.trans hconn.symm)
  constructor
  · intro h'
    constructor
    · -- the other sessions point where they did, so nothing may have moved up
      refine no_websocket_behind haux h (st.live.erase s) ?_ ?_
      · intro u hu hui
        exact (hother u).mpr ⟨(hne u hu).mp hui, hu⟩
      · intro u hu
        have hdes : ∃ c,
            (st.connections.eraseIdx i)[((destroySession st.sink s).session u).connection]? =
              some c ∧ c.websocket = true ∧ c.id = st.owner u := h'.designates u hu
        rw [hplace u] at hdes
        exact hdes
    · -- the list that is left is that of the others only if `s` was the head
      intro c' _ _
      exact ⟨s, (visits_destroySession_iff haux h hs).mp h'.visits, hconn⟩
  · rintro ⟨hbehind, hfirst⟩
    obtain ⟨u, hu, hui⟩ := hfirst c hc hws
    have hhead : st.sink.sessions = some s := by
      rw [hu, h.head_eq hs hu (hui.trans hconn.symm)]
    refine ⟨h.running, (visits_destroySession_iff haux h hs).mpr hhead, ?_, ?_, ?_⟩
    · intro u hu
      rcases (hother u).mp hu with ⟨hus, hul⟩
      show ∃ c, (st.connections.eraseIdx i)[((destroySession st.sink s).session u).connection]? =
        some c ∧ _
      rw [hplace u]
      exact keep_designates h hbehind hul ((hne u hul).mpr hus)
    · intro j d hj hwsd
      rcases keep_covered h hbehind hj hwsd with ⟨hji, u, hu, huj⟩
      refine ⟨u, (hother u).mpr ⟨(hne u hu).mp (by omega), hu⟩, ?_⟩
      exact (hplace u).trans huj
    · intro u hu v hv huv
      have huv' : (st.sink.session u).connection = (st.sink.session v).connection := by
        rw [← hplace u, ← hplace v]
        exact huv
      exact h.injective u ((hother u).mp hu).2 v ((hother v).mp hv).2 huv'

/-- From a state that is linked, a step leads to one exactly when it fits. -/
theorem step_linked_iff {m : ℕ} {st st' : St α} {a : Act α} (h : step m st a = some st')
    (haux : Aux st) (hlinked : Linked st) : Linked st' ↔ Fits st a := by
  rcases step_cases h with ⟨rfl, rfl⟩ | ⟨i, s, b, t, c, rfl, hc, hplain, hs, rfl⟩ |
    ⟨i, fuel, c, rfl, hc, hplain, rfl⟩ | ⟨i, fuel, c, r, rfl, hc, hws, hr, rfl⟩
  · -- accept and upgrade fit in any state
    exact iff_of_true (accept_linked hlinked) trivial
  · -- upgrade
    exact iff_of_true (upgrade_linked hlinked hc hplain hs) trivial
  · -- a plain connection is closed
    exact close_plain_iff haux hlinked hc hplain
  · -- a WebSocket is closed
    rcases hlinked.covered i c hc hws with ⟨s, hs, hconn⟩
    rw [hlinked.findSession_eq hs hconn hr]
    exact close_websocket_iff haux hlinked hc hws hs hconn

omit [DecidableEq α] in
/-- A server without connections is linked. -/
theorem init_linked (session : α → Session α ℕ) (bytes : α → List UInt8) :
    Aux (init session bytes) ∧ Linked (init session bytes) := by
  constructor
  · constructor
    · exact List.nodup_nil
    · intro c hc
      cases hc
    · exact List.nodup_nil
    · intro s hs
      cases hs
  · constructor
    · rfl
    · exact ⟨[], rfl, fun s => Iff.rfl⟩
    · intro s hs
      cases hs
    · intro i c hi
      cases hi
    · intro s hs
      cases hs

/-- The sink's view of the connections is right in every state of a run exactly
when every connection that was closed fitted: no WebSocket behind it, and, if it
was one, its session the head of the list. -/
theorem server_sound_iff (m : ℕ) (session : α → Session α ℕ) (bytes : α → List UInt8)
    (acts : List (Act α)) (st : St α) (hrun : run (step m) (init session bytes) acts = some st) :
    (∀ pre st', pre <+: acts → run (step m) (init session bytes) pre = some st' → Sound st') ↔
      Along (step m) Fits (init session bytes) acts := by
  rcases init_linked session bytes with ⟨haux, hlinked⟩
  have haux' : ∀ (st : St α) a st', step m st a = some st' → Aux st → Sound st → Aux st' :=
    fun st a st' h haux hsound => step_aux h haux ((sound_iff_linked haux).mp hsound)
  have hstep : ∀ (st : St α) a st', step m st a = some st' → Aux st → Sound st →
      (Sound st' ↔ Fits st a) := by
    intro st a st' h haux hsound
    have hl := (sound_iff_linked haux).mp hsound
    rw [sound_iff_linked (step_aux h haux hl)]
    exact step_linked_iff h haux hl
  exact always_iff_along (step m) haux' hstep haux ((sound_iff_linked haux).mpr hlinked) hrun

/-- Two WebSockets, the newer one closed first. -/
theorem server_sound_newest :
    ∃ st, run (step 4) (init blank fun _ => [])
        [.accept, .accept, .upgrade 0 1 2 3, .upgrade 1 4 5 6, .close 1 9] = some st ∧
      st.connections = [⟨0, true⟩] ∧ st.live = [1] ∧ Sound st := by
  obtain ⟨st, hrun, hconns, hlive⟩ : ∃ st, run (step 4) (init blank fun _ => [])
      [.accept, .accept, .upgrade 0 1 2 3, .upgrade 1 4 5 6, .close 1 9] = some st ∧
      st.connections = [⟨0, true⟩] ∧ st.live = [1] := ⟨_, rfl, rfl, rfl⟩
  refine ⟨st, hrun, hconns, hlive, ?_⟩
  refine (server_sound_iff 4 _ _ _ _ hrun).mpr ?_ _ _ (List.prefix_refl _) hrun
  refine ⟨trivial, fun st hst => ⟨trivial, fun st' hst' => ⟨trivial, fun st'' hst'' =>
    ⟨trivial, fun st3 hst3 => ⟨?_, fun _ _ => trivial⟩⟩⟩⟩⟩
  cases hst
  cases hst'
  cases hst''
  cases hst3
  constructor
  · intro j c hj hc
    have hlen := (List.getElem?_eq_some_iff.mp hc).1
    have hlen' : j < 2 := hlen
    omega
  · intro c _ _
    exact ⟨4, rfl, rfl⟩

/-- A plain connection closed in front of a WebSocket: the session still points
to the place its connection has left, and when that closes too, the null session
is destroyed. -/
theorem server_plain_closed_first :
    ∃ st, run (step 4) (init blank fun _ => [])
        [.accept, .accept, .upgrade 1 4 5 6, .close 0 9] = some st ∧
      st.connections = [⟨1, true⟩] ∧ st.live = [4] ∧ (st.sink.session 4).connection = 1 ∧
      ¬ Sound st ∧ ∃ st', step 4 st (.close 0 9) = some st' ∧ st'.crashed = true := by
  refine ⟨_, rfl, rfl, rfl, rfl, ?_, _, rfl, rfl⟩
  intro hsound
  rcases hsound.designates 4 List.mem_cons_self with ⟨c, hc, -⟩
  cases hc

end Yardstick.WebbyServer
