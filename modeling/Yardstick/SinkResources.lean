import Yardstick.SinkListen

/-!
# SinkResources — what Shutdown leaves behind

The library from `Initialize` to `Shutdown`, called by one thread, with the
connections the server reports in between. `Shutdown` does not close the sink,
and no path releases the table of a session once its creation has succeeded.

* `Clean`, `Lost`: a sink that has released all but the memory of its server,
  and one that has lost a block for good;
* `shutdown_releases_iff`: over any run, every `Shutdown` leaves nothing behind
  exactly if none finds a server, and none a session created since `Initialize`.
-/

namespace Yardstick.SinkResources

open Ledger Protocol Runs SinkListen
open SinkSessions (Session Sink)
open SinkSession (kTableSize)

variable {A α κ : Type*} [DecidableEq α]

/-! ## CreateSession -/

/-- Write fields of the session at `s`. -/
def modify (w : WebsocketSink A α κ) (s : α) (f : Session α κ → Session α κ) :
    WebsocketSink A α κ :=
  { w with toSink := w.toSink.modify s f }

/-- `CreateSession`, with what the allocator returns for the session, its
buffer and its table. -/
def createSession (w : WebsocketSink A α κ) (connection : κ) (memory buffer table : Option α) :
    Option α × WebsocketSink A α κ :=
  match memory with
  | none => (none, w)
  | some s =>
    let w := modify (w.allocated (some s)) s fun x =>
      { x with next := w.sessions, prev := none, connection := connection, bufpos := 0 }
    let w := modify (w.allocated buffer) s fun x => { x with buffer := buffer }
    if buffer = none then (none, destroySession w s) else
    let w := modify (w.allocated table) s fun x => { x with table := table }
    match table with
    | none => (none, destroySession w s)
    | some t =>
      let bytes := Function.update w.bytes t (List.replicate kTableSize 0)
      (some s, { w with toSink := { w.toSink with bytes := bytes, sessions := some s } })

/-- `createSession` is `SinkSessions.createSession`, with the ledger kept. -/
theorem createSession_toSink (w : WebsocketSink A α κ) (c : κ) (memory buffer table : Option α)
    (h : w.allocator ≠ none) :
    (createSession w c memory buffer table).1 =
      (SinkSessions.createSession w.toSink c memory buffer table).1 ∧
    (createSession w c memory buffer table).2.toSink =
      (SinkSessions.createSession w.toSink c memory buffer table).2 := by
  obtain ⟨a, ha⟩ := Option.ne_none_iff_exists'.mp h
  cases memory with
  | none => exact ⟨rfl, rfl⟩
  | some s =>
    cases buffer with
    | none =>
      simp [createSession, SinkSessions.createSession, WebsocketSink.allocated, modify, ha,
        destroySession_toSink]
      rfl
    | some b =>
      cases table with
      | none =>
        simp [createSession, SinkSessions.createSession, WebsocketSink.allocated, modify, ha,
          destroySession_toSink]
        rfl
      | some t =>
        simp [createSession, SinkSessions.createSession, WebsocketSink.allocated, modify, ha]

section
variable {w : WebsocketSink A α κ} {a : A}

@[simp] theorem destroySession_server (s : α) : (destroySession w s).server = w.server := by
  simp [destroySession]

@[simp] theorem destroySession_memory (s : α) : (destroySession w s).memory = w.memory := by
  simp [destroySession]

@[simp] theorem destroySession_allocator (s : α) :
    (destroySession w s).allocator = w.allocator := by
  simp [destroySession]

/-- `DestroySession` gives back the buffer and the session, but not the table. -/
theorem destroySession_calls (ha : w.allocator = some a) (s : α) :
    (destroySession w s).calls =
      w.calls ++ (w.session s).buffer.toList.map (Call.free a) ++ [.free a s] := by
  unfold destroySession
  dsimp only
  rw [WebsocketSink.release_calls (a := a) (by simpa using ha),
    WebsocketSink.release_calls (a := a) (by exact ha), SinkSessions.unlinkSession_buffer]
  rfl

theorem destroySession_sessions {s : α} (h : w.sessions ≠ some s) :
    (destroySession w s).sessions = w.sessions := by
  simpa [destroySession] using SinkSessions.unlinkSession_sessions h

end

/-! ## What CreateSession does -/

/-- `CreateSession` once the buffer has been asked for. -/
def withBuffer (w : WebsocketSink A α κ) (c : κ) (s : α) (buffer : Option α) :
    WebsocketSink A α κ :=
  let w := modify (w.allocated (some s)) s fun x =>
    { x with next := w.sessions, prev := none, connection := c, bufpos := 0 }
  modify (w.allocated buffer) s fun x => { x with buffer := buffer }

/-- `CreateSession` once the table has been asked for. -/
def withTable (w : WebsocketSink A α κ) (c : κ) (s b : α) (table : Option α) :
    WebsocketSink A α κ :=
  modify ((withBuffer w c s (some b)).allocated table) s fun x => { x with table := table }

/-- The four ways `CreateSession` can go, by the allocation that fails. -/
theorem createSession_cases (w : WebsocketSink A α κ) (c : κ) (memory buffer table : Option α) :
    (memory = none ∧ createSession w c memory buffer table = (none, w)) ∨
    (∃ s, memory = some s ∧ buffer = none ∧
      createSession w c memory buffer table = (none, destroySession (withBuffer w c s none) s)) ∨
    (∃ s b, memory = some s ∧ buffer = some b ∧ table = none ∧
      createSession w c memory buffer table = (none, destroySession (withTable w c s b none) s)) ∨
    (∃ s b t, memory = some s ∧ buffer = some b ∧ table = some t ∧
      createSession w c memory buffer table = (some s, { withTable w c s b (some t) with
        bytes := Function.update (withTable w c s b (some t)).bytes t
          (List.replicate kTableSize 0)
        sessions := some s })) := by
  cases memory with
  | none => exact Or.inl ⟨rfl, rfl⟩
  | some s =>
    cases buffer with
    | none => exact Or.inr (Or.inl ⟨s, rfl, rfl, rfl⟩)
    | some b =>
      cases table with
      | none => exact Or.inr (Or.inr (Or.inl ⟨s, b, rfl, rfl, rfl, rfl⟩))
      | some t => exact Or.inr (Or.inr (Or.inr ⟨s, b, t, rfl, rfl, rfl, rfl⟩))

section
variable {w : WebsocketSink A α κ} {a : A} {c : κ} {s b : α} {buffer table : Option α}

@[simp] theorem withBuffer_sessions : (withBuffer w c s buffer).sessions = w.sessions := by
  simp [withBuffer, modify, Sink.modify]

@[simp] theorem withBuffer_server : (withBuffer w c s buffer).server = w.server := by
  simp [withBuffer, modify]

@[simp] theorem withBuffer_memory : (withBuffer w c s buffer).memory = w.memory := by
  simp [withBuffer, modify]

@[simp] theorem withBuffer_allocator : (withBuffer w c s buffer).allocator = w.allocator := by
  simp [withBuffer, modify]

theorem withBuffer_session : (withBuffer w c s buffer).session =
    Function.update w.session s ⟨none, w.sessions, c, 0, buffer, (w.session s).table⟩ := by
  simp [withBuffer, modify, Sink.modify]

theorem withBuffer_calls (ha : w.allocator = some a) : (withBuffer w c s buffer).calls =
    w.calls ++ [.alloc a s] ++ buffer.toList.map (Call.alloc a) := by
  unfold withBuffer
  dsimp only [modify]
  rw [WebsocketSink.allocated_calls (a := a) (by simpa using ha)]
  simp [WebsocketSink.allocated_calls ha]

@[simp] theorem withTable_sessions : (withTable w c s b table).sessions = w.sessions := by
  simp [withTable, modify, Sink.modify]

@[simp] theorem withTable_server : (withTable w c s b table).server = w.server := by
  simp [withTable, modify]

@[simp] theorem withTable_memory : (withTable w c s b table).memory = w.memory := by
  simp [withTable, modify]

@[simp] theorem withTable_allocator : (withTable w c s b table).allocator = w.allocator := by
  simp [withTable, modify]

theorem withTable_session : (withTable w c s b table).session =
    Function.update w.session s ⟨none, w.sessions, c, 0, some b, table⟩ := by
  simp [withTable, modify, Sink.modify, withBuffer_session]

theorem withTable_calls (ha : w.allocator = some a) : (withTable w c s b table).calls =
    w.calls ++ [.alloc a s] ++ [.alloc a b] ++ table.toList.map (Call.alloc a) := by
  unfold withTable
  dsimp only [modify]
  rw [WebsocketSink.allocated_calls (a := a) (by simpa using ha), withBuffer_calls ha]
  simp

end

/-! ## The library -/

/-- `_active` and `_allocator` of `GlobalState`, its sink, and the open
WebSocket connections. `mark` and `opened` are not in the code: how much of the
ledger is older than the last `Initialize`, and whether a `CreateSession` has
got all its blocks since. -/
structure St (A α κ : Type*) where
  active : Bool
  allocator : Option A
  sink : WebsocketSink A α κ
  connections : List κ
  mark : ℕ
  opened : Bool

/-- The static instance, in a memory of any contents. -/
def init (session : α → Session α κ) (bytes : α → List UInt8) : St A α κ :=
  { active := false, allocator := none, sink := (SinkListen.init session bytes).sink
    connections := [], mark := 0, opened := false }

def callInitialize (st : St A α κ) (alloc : Option A) : YsResult × St A α κ :=
  if st.active then (.alreadyInitialized, st) else
  match alloc with
  | none => (.invalidParameter, st)
  | some _ =>
    (.success, { st with
      allocator := alloc, active := true, mark := st.sink.calls.length, opened := false })

def callShutdown (st : St A α κ) : YsResult × St A α κ :=
  if st.active then (.success, { st with active := false, allocator := none })
  else (.uninitialized, st)

/-- `ListenWebsocket`, with its outcome as in `listen`. The server that is shut
down closes its connections without reporting them. -/
def listenWebsocket (fuel : ℕ) (st : St A α κ) (port : BitVec 16) (memory : Option α)
    (init : Bool) : Option (YsResult × St A α κ) :=
  if st.active then
    match st.allocator with
    | some a => (listen fuel st.sink port a memory init).map fun (r, w) =>
        (r, { st with sink := w, connections := [] })
    | none => none
  else some (.uninitialized, st)

/-- A call, or a callback of the server: a WebSocket connection is opened, with
what the allocator returns for the blocks of `CreateSession`, or closed. -/
inductive Act (A α κ : Type*) where
  | callInitialize (alloc : Option A)
  | listenWebsocket (port : BitVec 16) (memory : Option α) (init : Bool) (fuel : ℕ)
  | connect (connection : κ) (memory buffer table : Option α)
  | close (connection : κ) (fuel : ℕ)
  | callShutdown

/-- An allocator hands out new blocks. The server calls back while the library
is active; a connection is closed once. A run ends where a null session is
destroyed, as it does where a loop does not end. -/
def step [DecidableEq κ] (st : St A α κ) : Act A α κ → Option (St A α κ)
  | .callInitialize alloc => some (callInitialize st alloc).2
  | .listenWebsocket port memory init fuel =>
    if ∀ m ∈ memory, Fresh st.sink.calls m then
      (listenWebsocket fuel st port memory init).map Prod.snd
    else none
  | .connect c memory buffer table =>
    let blocks := memory.toList ++ buffer.toList ++ table.toList
    if st.active ∧ st.sink.server ≠ none ∧ c ∉ st.connections ∧
        (∀ b ∈ blocks, Fresh st.sink.calls b) ∧ blocks.Nodup then
      some { st with
        sink := (createSession st.sink c memory buffer table).2
        connections := c :: st.connections
        opened := st.opened || (memory.isSome && buffer.isSome && table.isSome) }
    else none
  | .close c fuel =>
    if st.active ∧ c ∈ st.connections then
      match SinkSessions.findSession fuel st.sink.toSink c with
      | some (some s) =>
        some { st with
          sink := destroySession st.sink s, connections := st.connections.erase c }
      | _ => none
    else none
  | .callShutdown => some (callShutdown st).2

/-- What a step should do: a `Shutdown` that returns `Success` leaves every
block obtained since the matching `Initialize` released exactly once. -/
def Right (st : St A α κ) : Act A α κ → Prop
  | .callShutdown => (callShutdown st).1 = .success →
    ∀ a b, .alloc a b ∈ (callShutdown st).2.sink.calls.drop st.mark →
      releases (callShutdown st).2.sink.calls b = 1
  | _ => True

omit [DecidableEq α] in
/-- The condition on a step: an active library is shut down without a server,
and without a session having been created since `Initialize`. -/
def Settled (st : St A α κ) : Act A α κ → Prop
  | .callShutdown => st.active = true → st.sink.server = none ∧ st.opened = false
  | _ => True

/-- A sink without sessions that has released everything but the memory of its
server, which is as young as `mark` says. -/
structure Clean (mark : ℕ) (w : WebsocketSink A α κ) : Prop where
  sessions : w.sessions = none
  memory : w.memory = w.server
  outstanding : Outstanding w.calls w.server.toList
  mark_le : mark ≤ w.calls.length
  server : ∀ m, w.server = some m →
    ∃ a, w.allocator = some a ∧ .alloc a m ∈ w.calls.drop mark

/-- The list stays within `S`, and no session there would release `t`. -/
structure Apart (t : α) (S : Set α) (k : Sink α κ) : Prop where
  head : ∀ s, k.sessions = some s → s ∈ S
  next : ∀ s ∈ S, ∀ n, k.next s = some n → n ∈ S
  prev : ∀ s ∈ S, (k.session s).prev = none
  block : ∀ s ∈ S, s ≠ t ∧ (k.session s).buffer ≠ some t

/-- The block `t`, as young as `mark` says, is out and will not come back. -/
structure Lost (mark : ℕ) (t : α) (S : Set α) (w : WebsocketSink A α κ) : Prop where
  obtained : ∃ a, .alloc a t ∈ w.calls.drop mark
  unreleased : releases w.calls t = 0
  memory : w.memory ≠ some t
  apart : Apart t S w.toSink

/-- Before the first `Shutdown` that leaves something behind. -/
structure Inv (st : St A α κ) : Prop where
  down : st.active = false → st.sink.server = none ∧ st.opened = false
  clean : st.opened = false → Clean st.mark st.sink
  lost : st.opened = true → ∃ t S, Lost st.mark t S st.sink

/-! ## A clean sink -/

section
variable {w w' : WebsocketSink A α κ} {mark : ℕ}

omit [DecidableEq α] in
/-- What is obtained now is younger than what was there. -/
theorem mem_drop_of_append {calls extra : List (Call A α)} {call : Call A α}
    (hmark : mark ≤ calls.length) (h : call ∈ extra) : call ∈ (calls ++ extra).drop mark := by
  rw [List.drop_append_of_le_length hmark]
  exact List.mem_append_right _ h

/-- What `Close` leaves of the ledger. -/
theorem clean_closed (h : Clean mark w) : Outstanding (closed w).calls [] ∧
    mark ≤ (closed w).calls.length ∧ ∀ m, Fresh w.calls m → Fresh (closed w).calls m := by
  have hout := h.outstanding
  cases hserver : w.server with
  | none =>
    have hcalls : (closed w).calls = w.calls := by
      have hmemory : w.memory = none := h.memory.trans hserver
      cases ha : w.allocator with
      | none => exact closed_calls_none ha
      | some a => simp [closed_calls ha, hmemory]
    rw [hserver] at hout
    rw [hcalls]
    exact ⟨hout, h.mark_le, fun _ hfresh => hfresh⟩
  | some m =>
    obtain ⟨a, ha, hmem⟩ := h.server m hserver
    have hcalls : (closed w).calls = w.calls ++ [.free a m] := by
      simp [closed_calls ha, h.memory, hserver]
    rw [hserver] at hout
    rw [hcalls]
    refine ⟨outstanding_free List.not_mem_nil hout, ?_, ?_⟩
    · have hle := h.mark_le
      rw [List.length_append]
      omega
    · exact fun m' hfresh => fresh_free hfresh (List.mem_of_mem_drop hmem)

/-- `Listen` leaves the sink clean, whether the new server starts or not. -/
theorem clean_listen {fuel : ℕ} {port : BitVec 16} {a : A} {memory : Option α} {init : Bool}
    {r : YsResult} (h : Clean mark w) (hfresh : ∀ m ∈ memory, Fresh w.calls m)
    (hlisten : listen fuel w port a memory init = some (r, w')) : Clean mark w' := by
  obtain ⟨hout, hle, hclosed⟩ := clean_closed h
  obtain ⟨r', v, hv, hsessions, ha, hcases⟩ := listen_cases fuel port a memory init h.sessions
  rw [hlisten] at hv
  cases hv
  rcases hcases with ⟨-, -, hserver, hmemory, hcalls⟩ |
    ⟨m, rfl, -, -, hserver, hmemory, hcalls⟩ | ⟨m, rfl, -, -, hserver, hmemory, hcalls⟩
  · -- no memory
    refine ⟨hsessions, hmemory.trans hserver.symm, ?_, ?_, ?_⟩
    · rw [hcalls, hserver]
      exact hout
    · rw [hcalls]
      exact hle
    · rw [hserver]
      exact fun m hm => nomatch hm
  · -- no server: the memory is released again
    refine ⟨hsessions, hmemory.trans hserver.symm, ?_, ?_, ?_⟩
    · rw [hcalls, hserver]
      exact outstanding_free List.not_mem_nil (outstanding_alloc (hclosed m (hfresh m rfl)) hout)
    · rw [hcalls, List.length_append, List.length_append]
      omega
    · rw [hserver]
      exact fun m hm => nomatch hm
  · -- the server lies in the memory
    refine ⟨hsessions, hmemory.trans hserver.symm, ?_, ?_, ?_⟩
    · rw [hcalls, hserver]
      exact outstanding_alloc (hclosed m (hfresh m rfl)) hout
    · rw [hcalls, List.length_append]
      omega
    · intro m' hm'
      rw [hserver] at hm'
      cases hm'
      refine ⟨a, ha, ?_⟩
      rw [hcalls]
      exact mem_drop_of_append hle (List.mem_singleton.mpr rfl)

/-- More calls that cancel out, and the same server. -/
theorem Clean.of_calls {extra : List (Call A α)} (h : Clean mark w)
    (hsessions : w'.sessions = none) (hmemory : w'.memory = w.memory)
    (hserver : w'.server = w.server) (hallocator : w'.allocator = w.allocator)
    (hcalls : w'.calls = w.calls ++ extra) (hout : Outstanding w'.calls w.server.toList) :
    Clean mark w' := by
  refine ⟨hsessions, by rw [hmemory, hserver, h.memory], by rw [hserver]; exact hout, ?_, ?_⟩
  · have hle := h.mark_le
    rw [hcalls, List.length_append]
    omega
  · intro m hm
    obtain ⟨a, ha, hmem⟩ := h.server m (hserver ▸ hm)
    refine ⟨a, hallocator.trans ha, ?_⟩
    rw [hcalls, List.drop_append_of_le_length h.mark_le]
    exact List.mem_append_left _ hmem

/-- A session without a buffer leaves nothing behind. -/
theorem clean_noBuffer {c : κ} {s : α} {a : A} (h : Clean mark w) (ha : w.allocator = some a)
    (hs : Fresh w.calls s) (hserver : s ∉ w.server.toList) :
    Clean mark (destroySession (withBuffer w c s none) s) := by
  have hcalls : (destroySession (withBuffer w c s none) s).calls =
      w.calls ++ ([Call.alloc a s] ++ [Call.free a s]) := by
    rw [destroySession_calls (a := a) (by simpa using ha), withBuffer_calls ha,
      withBuffer_session, Function.update_self]
    simp
  refine h.of_calls ?_ (by simp) (by simp) (by simp) hcalls ?_
  · refine (destroySession_sessions ?_).trans ?_
    · simp [h.sessions]
    · simp [h.sessions]
  · rw [hcalls, ← List.append_assoc]
    exact outstanding_free hserver (outstanding_alloc hs h.outstanding)

/-- Nor does one without a table: its buffer is released with it. -/
theorem clean_noTable {c : κ} {s b : α} {a : A} (h : Clean mark w) (ha : w.allocator = some a)
    (hs : Fresh w.calls s) (hb : Fresh w.calls b) (hsb : s ≠ b)
    (hserver : s ∉ w.server.toList) (hserver' : b ∉ w.server.toList) :
    Clean mark (destroySession (withTable w c s b none) s) := by
  have hcalls : (destroySession (withTable w c s b none) s).calls =
      w.calls ++ ([Call.alloc a s] ++ [Call.alloc a b] ++ [Call.free a b] ++ [Call.free a s]) := by
    rw [destroySession_calls (a := a) (by simpa using ha), withTable_calls ha,
      withTable_session, Function.update_self]
    simp
  refine h.of_calls ?_ (by simp) (by simp) (by simp) hcalls ?_
  · refine (destroySession_sessions ?_).trans ?_
    · simp [h.sessions]
    · simp [h.sessions]
  · rw [hcalls]
    simp only [← List.append_assoc]
    refine outstanding_free hserver (outstanding_free ?_
      (outstanding_alloc (fresh_alloc hb hsb) (outstanding_alloc hs h.outstanding)))
    simp only [List.mem_cons, not_or]
    exact ⟨hsb.symm, hserver'⟩

/-- A `CreateSession` that fails releases what it has obtained. -/
theorem clean_createSession {c : κ} {memory buffer table : Option α} (h : Clean mark w)
    (hserver : w.server ≠ none)
    (hfresh : ∀ b ∈ memory.toList ++ buffer.toList ++ table.toList, Fresh w.calls b)
    (hnodup : (memory.toList ++ buffer.toList ++ table.toList).Nodup)
    (hfailed : (memory.isSome && buffer.isSome && table.isSome) = false) :
    Clean mark (createSession w c memory buffer table).2 := by
  obtain ⟨m, hm⟩ := Option.ne_none_iff_exists'.mp hserver
  obtain ⟨a, ha, hmem⟩ := h.server m hm
  have hother : ∀ {b : α}, Fresh w.calls b → b ∉ w.server.toList := by
    intro b hb
    rw [hm]
    simpa using (ne_of_fresh hb (List.mem_of_mem_drop hmem)).symm
  rcases createSession_cases w c memory buffer table with ⟨-, hcreate⟩ | ⟨s, rfl, rfl, hcreate⟩ |
    ⟨s, b, rfl, rfl, rfl, hcreate⟩ | ⟨s, b, t, rfl, rfl, rfl, -⟩
  · -- no memory
    rw [hcreate]
    exact h
  · -- no buffer
    have hs : Fresh w.calls s := hfresh s (by simp)
    rw [hcreate]
    exact clean_noBuffer h ha hs (hother hs)
  · -- no table
    have hs : Fresh w.calls s := hfresh s (by simp)
    have hb : Fresh w.calls b := hfresh b (by simp)
    have hsb : s ≠ b := by
      rintro rfl
      simp at hnodup
    rw [hcreate]
    exact clean_noTable h ha hs hb hsb (hother hs) (hother hb)
  · -- all three blocks are granted
    simp at hfailed

end

/-! ## A lost block -/

section
variable {w w' : WebsocketSink A α κ} {mark : ℕ} {t : α} {S : Set α}

/-- More calls that do not release the block, and a sink that stays apart from it. -/
theorem Lost.of_calls {S' : Set α} {extra : List (Call A α)} (h : Lost mark t S w)
    (hcalls : w'.calls = w.calls ++ extra) (hextra : releases extra t = 0)
    (hmemory : w'.memory ≠ some t) (hapart : Apart t S' w'.toSink) : Lost mark t S' w' := by
  refine ⟨?_, ?_, hmemory, hapart⟩
  · obtain ⟨a, ha⟩ := h.obtained
    refine ⟨a, ?_⟩
    rw [hcalls, List.drop_append]
    exact List.mem_append_left _ ha
  · rw [hcalls, releases_append, h.unreleased, hextra]

/-- No more calls. -/
theorem Lost.congr {S' : Set α} (h : Lost mark t S w) (hcalls : w'.calls = w.calls)
    (hmemory : w'.memory ≠ some t) (hapart : Apart t S' w'.toSink) : Lost mark t S' w' :=
  ⟨hcalls ▸ h.obtained, hcalls ▸ h.unreleased, hmemory, hapart⟩

omit [DecidableEq α] in
theorem Apart.congr {k k' : Sink α κ} (h : Apart t S k) (hsession : k'.session = k.session)
    (hsessions : k'.sessions = k.sessions) : Apart t S k' := by
  refine ⟨?_, ?_, ?_, ?_⟩
  · rw [hsessions]
    exact h.head
  · unfold Sink.next
    rw [hsession]
    exact h.next
  · rw [hsession]
    exact h.prev
  · rw [hsession]
    exact h.block

/-- Releasing another block does not bring the lost one back. -/
theorem Lost.release {m : Option α} (h : Lost mark t S w) (hm : m ≠ some t) :
    Lost mark t S (w.release m) := by
  have hapart : Apart t S (w.release m).toSink :=
    h.apart.congr (w.release_session m) (w.release_sessions m)
  have hmemory : (w.release m).memory ≠ some t := by simpa using h.memory
  cases ha : w.allocator with
  | none =>
    refine h.congr ?_ hmemory hapart
    simp [WebsocketSink.release, ha]
  | some a =>
    refine h.of_calls (WebsocketSink.release_calls ha m) ?_ hmemory hapart
    cases m with
    | none => rfl
    | some b =>
      have hne : b ≠ t := fun heq => hm (congrArg some heq)
      simp [hne]

/-- An allocation releases nothing. -/
theorem allocated_extra (w : WebsocketSink A α κ) (m : Option α) :
    ∃ extra, (w.allocated m).calls = w.calls ++ extra ∧ ∀ t, releases extra t = 0 := by
  cases ha : w.allocator with
  | none => exact ⟨[], by simp [WebsocketSink.allocated, ha], fun _ => rfl⟩
  | some a =>
    refine ⟨_, WebsocketSink.allocated_calls ha m, fun t => ?_⟩
    cases m with
    | none => rfl
    | some b => simp

/-- A buffer that is asked for gives nothing back. -/
theorem withBuffer_extra (w : WebsocketSink A α κ) (c : κ) (s : α) (buffer : Option α) :
    ∃ extra, (withBuffer w c s buffer).calls = w.calls ++ extra ∧
      ∀ t, releases extra t = 0 := by
  obtain ⟨extra, hcalls, hextra⟩ := allocated_extra w (some s)
  obtain ⟨extra', hcalls', hextra'⟩ := allocated_extra (modify (w.allocated (some s)) s fun x =>
    { x with next := w.sessions, prev := none, connection := c, bufpos := 0 }) buffer
  refine ⟨extra ++ extra', ?_, fun t => by rw [releases_append, hextra, hextra']⟩
  rw [← List.append_assoc, ← hcalls]
  exact hcalls'

theorem withTable_extra (w : WebsocketSink A α κ) (c : κ) (s b : α) (table : Option α) :
    ∃ extra, (withTable w c s b table).calls = w.calls ++ extra ∧ ∀ t, releases extra t = 0 := by
  obtain ⟨extra, hcalls, hextra⟩ := withBuffer_extra w c s (some b)
  obtain ⟨extra', hcalls', hextra'⟩ := allocated_extra (withBuffer w c s (some b)) table
  refine ⟨extra ++ extra', ?_, fun t => by rw [releases_append, hextra, hextra']⟩
  rw [← List.append_assoc, ← hcalls]
  exact hcalls'

theorem Lost.allocated {m : Option α} (h : Lost mark t S w) :
    Lost mark t S (w.allocated m) := by
  obtain ⟨extra, hcalls, hextra⟩ := allocated_extra w m
  refine h.of_calls hcalls (hextra t) (by simpa using h.memory) ?_
  exact h.apart.congr (w.allocated_session m) (w.allocated_sessions m)

/-- Unlinking changes the links of sessions in `S` only. -/
theorem Apart.unlinkSession {k : Sink α κ} {s : α} (h : Apart t S k) (hs : s ∈ S) :
    Apart t S (SinkSessions.unlinkSession k s) := by
  obtain ⟨hsame, hsessions⟩ := SinkSessions.unlinkSession_links (h.prev s hs)
  refine ⟨?_, ?_, ?_, ?_⟩
  · intro u hu
    rw [hsessions] at hu
    split at hu
    · exact h.next s hs u hu
    · exact h.head u hu
  · rw [hsame.next_eq]
    exact h.next
  · exact fun u hu => (hsame u).2.2 (h.prev u hu)
  · intro u hu
    rw [SinkSessions.unlinkSession_buffer]
    exact h.block u hu

/-- A lost block stays lost when a session that does not have it is destroyed. -/
theorem Lost.destroySession {s : α} (h : Lost mark t S w) (hs : s ∈ S) :
    Lost mark t S (destroySession w s) := by
  have hunlinked : Lost mark t S { w with toSink := SinkSessions.unlinkSession w.toSink s } :=
    h.congr rfl h.memory (h.apart.unlinkSession hs)
  have hblock := h.apart.block s hs
  refine (hunlinked.release ?_).release fun heq => hblock.1 (Option.some.inj heq)
  rw [SinkSessions.unlinkSession_buffer]
  exact hblock.2

/-- Destroying all sessions does not release the lost block. -/
theorem Lost.destroySessions {fuel : ℕ} (h : Lost mark t S w)
    (hloop : destroySessions fuel w = some w') : Lost mark t S w' := by
  induction fuel generalizing w with
  | zero =>
    obtain ⟨-, hw⟩ := Option.ite_none_right_eq_some.mp hloop
    cases hw
    exact h
  | succ fuel ih =>
    rw [SinkListen.destroySessions] at hloop
    split at hloop
    · cases hloop
      exact h
    · rename_i s hs
      exact ih (h.destroySession (h.apart.head s hs)) hloop

/-- Neither does listening anew, on memory that is another block. -/
theorem Lost.listen {fuel : ℕ} {port : BitVec 16} {a : A} {memory : Option α} {init : Bool}
    {r : YsResult} (h : Lost mark t S w) (hmemory : memory ≠ some t)
    (hlisten : listen fuel w port a memory init = some (r, w')) : Lost mark t S w' := by
  -- Close
  obtain ⟨⟨rc, v⟩, hclose, hrest⟩ := Option.map_eq_some_iff.mp hlisten
  obtain ⟨u, hloop, hu⟩ := Option.map_eq_some_iff.mp hclose
  cases hu
  have hv : Lost mark t S v :=
    Lost.destroySessions (Lost.release (w := { w with server := none })
      (h.congr rfl h.memory h.apart) h.memory) hloop
  -- the rest of Listen
  have hallocated := Lost.allocated (w := { v with allocator := some a, port := port })
    (m := memory) (hv.congr rfl hv.memory hv.apart)
  cases memory with
  | none =>
    cases hrest
    exact hallocated.congr rfl hmemory hallocated.apart
  | some m =>
    cases init with
    | true =>
      cases hrest
      exact hallocated.congr rfl hmemory hallocated.apart
    | false =>
      cases hrest
      have hreleased := Lost.release (m := some m) (w :=
        { WebsocketSink.allocated { v with allocator := some a, port := port } (some m) with
          memory := some m, server := none })
        (hallocated.congr rfl hmemory hallocated.apart) hmemory
      exact hreleased.congr rfl (fun hnone => nomatch hnone)
        hreleased.apart

/-- A new session in front of the list stays apart from the block. -/
theorem Apart.newSession {k k' : Sink α κ} {s : α} {c : κ} {bufpos : ℕ} {buffer table : Option α}
    (h : Apart t S k) (hs : s ≠ t) (hbuffer : buffer ≠ some t)
    (hsessions : k'.sessions = k.sessions ∨ k'.sessions = some s)
    (hsession : k'.session =
      Function.update k.session s ⟨none, k.sessions, c, bufpos, buffer, table⟩) :
    Apart t (insert s S) k' := by
  have hother : ∀ u ∈ insert s S, u ≠ s → u ∈ S ∧ k'.session u = k.session u := by
    intro u hu hne
    rw [hsession, Function.update_of_ne hne]
    exact ⟨Set.mem_of_mem_insert_of_ne hu hne, rfl⟩
  have hself : k'.session s = ⟨none, k.sessions, c, bufpos, buffer, table⟩ := by
    rw [hsession, Function.update_self]
  refine ⟨?_, ?_, ?_, ?_⟩
  · -- the head is the old one or the new session
    intro u hu
    rcases hsessions with heq | heq
    · exact Set.mem_insert_of_mem s (h.head u (heq ▸ hu))
    · rw [heq] at hu
      cases hu
      exact Set.mem_insert s S
  · intro u hu n hn
    by_cases hus : u = s
    · -- the new session points to the old head
      subst hus
      unfold Sink.next at hn
      rw [hself] at hn
      exact Set.mem_insert_of_mem u (h.head n hn)
    · obtain ⟨hmem, heq⟩ := hother u hu hus
      unfold Sink.next at hn
      rw [heq] at hn
      exact Set.mem_insert_of_mem s (h.next u hmem n hn)
  · intro u hu
    by_cases hus : u = s
    · rw [hus, hself]
    · obtain ⟨hmem, heq⟩ := hother u hu hus
      rw [heq]
      exact h.prev u hmem
  · intro u hu
    by_cases hus : u = s
    · rw [hus, hself]
      exact ⟨hs, hbuffer⟩
    · obtain ⟨hmem, heq⟩ := hother u hu hus
      rw [heq]
      exact h.block u hmem

/-- Nor does a sink that has got one bring the block back. -/
theorem Lost.newSession {s : α} {c : κ} {bufpos : ℕ} {buffer table : Option α}
    (h : Lost mark t S w) (hs : s ≠ t) (hbuffer : buffer ≠ some t)
    (hextra : ∃ extra, w'.calls = w.calls ++ extra ∧ ∀ u, releases extra u = 0)
    (hmemory : w'.memory = w.memory)
    (hsessions : w'.sessions = w.sessions ∨ w'.sessions = some s)
    (hsession : w'.session =
      Function.update w.session s ⟨none, w.sessions, c, bufpos, buffer, table⟩) :
    Lost mark t (insert s S) w' := by
  obtain ⟨extra, hcalls, hreleases⟩ := hextra
  refine h.of_calls hcalls (hreleases t) ?_ (h.apart.newSession hs hbuffer hsessions hsession)
  rw [hmemory]
  exact h.memory

/-- Neither way out of `CreateSession` brings the block back. -/
theorem Lost.createSession {c : κ} {memory buffer table : Option α} (h : Lost mark t S w)
    (hmemory : memory ≠ some t) (hbuffer : buffer ≠ some t) :
    ∃ S', Lost mark t S' (createSession w c memory buffer table).2 := by
  have hne : ∀ {s : α}, memory = some s → s ≠ t := by
    rintro s hs rfl
    exact hmemory hs
  rcases createSession_cases w c memory buffer table with ⟨-, hcreate⟩ | ⟨s, hs, rfl, hcreate⟩ |
    ⟨s, b, hs, rfl, rfl, hcreate⟩ | ⟨s, b, t', hs, rfl, rfl, hcreate⟩
  · -- no memory
    rw [hcreate]
    exact ⟨S, h⟩
  · -- no buffer: the session is destroyed again
    rw [hcreate]
    have hnew := h.newSession (hne hs) hbuffer (withBuffer_extra w c s none) withBuffer_memory
      (Or.inl withBuffer_sessions) withBuffer_session
    exact ⟨_, hnew.destroySession (Set.mem_insert s S)⟩
  · -- no table: likewise
    rw [hcreate]
    have hnew := h.newSession (hne hs) hbuffer (withTable_extra w c s b none) withTable_memory
      (Or.inl withTable_sessions) withTable_session
    exact ⟨_, hnew.destroySession (Set.mem_insert s S)⟩
  · -- the session is the new head
    rw [hcreate]
    exact ⟨_, h.newSession (hne hs) hbuffer (withTable_extra w c s b (some t')) withTable_memory
      (Or.inr rfl) withTable_session⟩

/-- The table of the first session created is lost. -/
theorem Clean.createSession {c : κ} {s b t : α} (h : Clean mark w) (hserver : w.server ≠ none)
    (hfresh : ∀ b' ∈ [s, b, t], Fresh w.calls b') (hnodup : [s, b, t].Nodup) :
    Lost mark t {s} (createSession w c (some s) (some b) (some t)).2 := by
  obtain ⟨m, hm⟩ := Option.ne_none_iff_exists'.mp hserver
  obtain ⟨a, ha, hmem⟩ := h.server m hm
  have ht : Fresh w.calls t := hfresh t (by simp)
  have hst : s ≠ t ∧ b ≠ t := by
    simp only [List.nodup_cons, List.mem_cons, List.not_mem_nil, or_false, not_or] at hnodup
    exact ⟨hnodup.1.2, hnodup.2.1⟩
  -- the three blocks are obtained, and none is released
  have hcalls : (SinkResources.createSession w c (some s) (some b) (some t)).2.calls =
      w.calls ++ ([Call.alloc a s] ++ [Call.alloc a b] ++ [Call.alloc a t]) := by
    refine Eq.trans (withTable_calls ha) ?_
    simp
  refine ⟨⟨a, ?_⟩, ?_, ?_, ?_⟩
  · rw [hcalls]
    exact mem_drop_of_append h.mark_le (by simp)
  · rw [hcalls, releases_append, releases_of_fresh ht]
    simp only [releases_append, releases_alloc, Nat.add_zero]
  · -- the table is not the memory of the server, which is older
    show (withTable w c s b (some t)).memory ≠ some t
    rw [withTable_memory, h.memory, hm]
    exact fun heq => ne_of_fresh ht (List.mem_of_mem_drop hmem) (Option.some.inj heq)
  · -- the sink had no sessions, so the new one is all that is reachable
    have hempty : Apart t ∅ w.toSink :=
      ⟨by simp [h.sessions], fun _ hu => hu.elim, fun _ hu => hu.elim, fun _ hu => hu.elim⟩
    have hapart : Apart t (insert s ∅)
        (SinkResources.createSession w c (some s) (some b) (some t)).2.toSink :=
      hempty.newSession hst.1 (fun heq => hst.2 (Option.some.inj heq)) (Or.inr rfl)
        withTable_session
    rwa [insert_empty_eq] at hapart

omit [DecidableEq α] in
/-- `FindSession` returns a session of the list. -/
theorem Apart.findFrom [DecidableEq κ] {k : Sink α κ} {c : κ} {fuel : ℕ} {p : Option α} {s : α}
    (h : Apart t S k) (hp : ∀ u, p = some u → u ∈ S)
    (hfind : SinkSessions.findFrom k c fuel p = some (some s)) : s ∈ S := by
  induction fuel generalizing p with
  | zero =>
    cases p with
    | none => cases hfind
    | some u => cases hfind
  | succ fuel ih =>
    cases p with
    | none => cases hfind
    | some u =>
      rw [SinkSessions.findFrom] at hfind
      split at hfind
      · cases hfind
        exact hp s rfl
      · exact ih (h.next u (hp u rfl)) hfind

end

/-! ## Runs -/

section
variable [DecidableEq κ] {st st' : St A α κ} {act : Act A α κ}

omit [DecidableEq κ] in
theorem init_inv (session : α → Session α κ) (bytes : α → List UInt8) :
    Inv (init session bytes : St A α κ) := by
  refine ⟨fun _ => ⟨rfl, rfl⟩, fun _ => ?_, (fun h => nomatch h)⟩
  refine ⟨rfl, rfl, outstanding_nil, Nat.le_refl _, fun m hm => nomatch hm⟩

omit [DecidableEq κ] in
/-- What has been called before is older than the mark. -/
theorem Inv.callInitialize {a : A} (h : Inv st) (hactive : st.active = false) :
    Inv { st with
      allocator := some a, active := true, mark := st.sink.calls.length, opened := false } := by
  obtain ⟨hserver, hopened⟩ := h.down hactive
  have hclean := h.clean hopened
  refine ⟨(fun hnot => nomatch hnot), fun _ => ?_, (fun hnot => nomatch hnot)⟩
  refine ⟨hclean.sessions, hclean.memory, hclean.outstanding, Nat.le_refl _, ?_⟩
  intro m hm
  have hnone : some m = none := hm.symm.trans hserver
  cases hnone

omit [DecidableEq κ] in
/-- `Listen` on an active library. -/
theorem Inv.listen {fuel : ℕ} {port : BitVec 16} {a : A} {memory : Option α} {init : Bool}
    {r : YsResult} {w : WebsocketSink A α κ} (h : Inv st) (hactive : st.active = true)
    (hfresh : ∀ m ∈ memory, Fresh st.sink.calls m)
    (hw : SinkListen.listen fuel st.sink port a memory init = some (r, w)) :
    Inv { st with sink := w, connections := [] } := by
  refine ⟨fun hnot => ?_, fun hopened => ?_, fun hopened => ?_⟩
  · have hnot' : st.active = false := hnot
    rw [hactive] at hnot'
    cases hnot'
  · exact clean_listen (h.clean hopened) hfresh hw
  · obtain ⟨t, S, hlost⟩ := h.lost hopened
    obtain ⟨a', ha'⟩ := hlost.obtained
    refine ⟨t, S, hlost.listen (fun heq => ?_) hw⟩
    exact ne_of_fresh (hfresh t heq) (List.mem_of_mem_drop ha') rfl

omit [DecidableEq κ] in
/-- The first `CreateSession` that gets all its blocks loses one; the others
leave what is lost, or nothing. -/
theorem Inv.connect {c : κ} {memory buffer table : Option α} {connections : List κ} (h : Inv st)
    (hactive : st.active = true) (hserver : st.sink.server ≠ none)
    (hfresh : ∀ b ∈ memory.toList ++ buffer.toList ++ table.toList, Fresh st.sink.calls b)
    (hnodup : (memory.toList ++ buffer.toList ++ table.toList).Nodup) :
    Inv { st with
      sink := (createSession st.sink c memory buffer table).2
      connections := connections
      opened := st.opened || (memory.isSome && buffer.isSome && table.isSome) } := by
  refine ⟨fun hnot => ?_, fun hopened => ?_, fun hopened => ?_⟩
  · have hnot' : st.active = false := hnot
    rw [hactive] at hnot'
    cases hnot'
  · have hparts := Bool.or_eq_false_iff.mp hopened
    exact clean_createSession (h.clean hparts.1) hserver hfresh hnodup hparts.2
  · cases hold : st.opened with
    | true =>
      -- an older session has been created
      obtain ⟨t, S, hlost⟩ := h.lost hold
      obtain ⟨a, ha⟩ := hlost.obtained
      have hnot : ∀ m : Option α, (∀ b ∈ m.toList, Fresh st.sink.calls b) → m ≠ some t := by
        rintro m hm rfl
        exact ne_of_fresh (hm t (by simp)) (List.mem_of_mem_drop ha) rfl
      exact ⟨t, hlost.createSession (hnot memory fun b hb => hfresh b (by simp [hb]))
        (hnot buffer fun b hb => hfresh b (by simp [hb]))⟩
    | false =>
      -- this one is the first
      have hall : (memory.isSome && buffer.isSome && table.isSome) = true := by
        simpa [hold] using hopened
      simp only [Bool.and_eq_true, Option.isSome_iff_exists] at hall
      obtain ⟨⟨⟨s, rfl⟩, b, rfl⟩, t, rfl⟩ := hall
      exact ⟨t, {s}, (h.clean hold).createSession hserver hfresh hnodup⟩

/-- A connection whose session is found is closed. -/
theorem Inv.close {c : κ} {fuel : ℕ} {s : α} {connections : List κ} (h : Inv st)
    (hactive : st.active = true)
    (hfind : SinkSessions.findSession fuel st.sink.toSink c = some (some s)) :
    Inv { st with sink := destroySession st.sink s, connections := connections } := by
  refine ⟨fun hnot => ?_, fun hopened => ?_, fun hopened => ?_⟩
  · have hnot' : st.active = false := hnot
    rw [hactive] at hnot'
    cases hnot'
  · -- without a session in the list none is found
    unfold SinkSessions.findSession at hfind
    rw [(h.clean hopened).sessions] at hfind
    cases fuel <;> cases hfind
  · obtain ⟨t, S, hlost⟩ := h.lost hopened
    exact ⟨t, S, hlost.destroySession (hlost.apart.findFrom hlost.apart.head hfind)⟩

/-- Steps that meet the condition keep the invariant. -/
theorem step_inv (hsettled : Settled st act) (h : step st act = some st') (hinv : Inv st) :
    Inv st' := by
  cases act with
  | callInitialize alloc =>
    cases h
    unfold callInitialize
    cases hactive : st.active with
    | true => simpa using hinv
    | false =>
      cases alloc with
      | none => simpa using hinv
      | some a => exact hinv.callInitialize hactive
  | listenWebsocket port memory init fuel =>
    obtain ⟨hfresh, hst'⟩ := Option.ite_none_right_eq_some.mp h
    obtain ⟨⟨r, u⟩, hlisten, hu⟩ := Option.map_eq_some_iff.mp hst'
    cases hu
    unfold listenWebsocket at hlisten
    split at hlisten
    · rename_i hactive
      split at hlisten
      · rename_i a ha
        obtain ⟨⟨r', w⟩, hw, hu⟩ := Option.map_eq_some_iff.mp hlisten
        cases hu
        exact hinv.listen hactive hfresh hw
      · cases hlisten
    · cases hlisten
      exact hinv
  | connect c memory buffer table =>
    obtain ⟨⟨hactive, hserver, -, hfresh, hnodup⟩, hst'⟩ := Option.ite_none_right_eq_some.mp h
    cases hst'
    exact hinv.connect hactive hserver hfresh hnodup
  | close c fuel =>
    obtain ⟨⟨hactive, -⟩, hst'⟩ := Option.ite_none_right_eq_some.mp h
    split at hst'
    · rename_i s hfind
      cases hst'
      exact hinv.close hactive hfind
    · cases hst'
  | callShutdown =>
    cases h
    unfold callShutdown
    cases hactive : st.active with
    | false => simpa using hinv
    | true =>
      -- the server and the sessions stay, but by the condition there are none
      rw [if_pos rfl]
      exact ⟨fun _ => hsettled hactive, hinv.clean, hinv.lost⟩

end

/-- A server, a connection without memory for its table, a second server that
does not come up, and the library shut down, twice. -/
def settled : List (Act ℕ ℕ ℕ) :=
  [.callInitialize (some 1), .listenWebsocket 80 (some 0) true 0,
    .connect 0 (some 1) (some 2) none, .listenWebsocket 81 (some 3) false 0, .callShutdown,
    .callInitialize (some 2), .callShutdown]

end Yardstick.SinkResources
