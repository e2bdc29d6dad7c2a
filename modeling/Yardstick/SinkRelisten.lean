import Yardstick.SinkBlocks
import Yardstick.SinkResources

/-!
# SinkRelisten — ListenWebsocket beside the background thread

`ListenWebsocket` works on the sink under `_stateLock`, the background thread
under `_threadsLock` or no lock. Here every step of `Listen` and of the `Close`
it begins with, every visit of a session in `WriteEvent` or `Flush`, and every
advance to the next session is a step of its own, and `Update` is one. The
library is active throughout, and the allocators hand out any block that is not
out, also one that has been released before.

* `listenRun_listen`: left alone, the steps of a call are those of `Listen`;
* `Safe`: what the background thread uses has not been released by `Close`;
* `Clear`: the condition, that `Close` and the walks over the list stay apart.
-/

namespace Yardstick.SinkRelisten

open Chain Runs SinkListen
open SinkSessions (Session Sink)
open SinkBlocks (Granted own)
open SinkResources (createSession)

variable {A α : Type*} [DecidableEq α]

/-- A `WebbyConnection` pointer: the memory of the server it lies in, and where
in there. -/
abbrev Connection (α : Type*) := α × ℕ

/-! ## The call of ListenWebsocket -/

/-- The arguments of `Listen`. -/
structure Call (A : Type*) where
  port : BitVec 16
  allocator : A

/-- The next step of `Listen`; it begins with those of `Close`, up to
`testSessions`, which is the test of its loop, and then `DestroySession`. -/
inductive Stage (α : Type*) where
  | shutdownServer
  | clearServer
  | releaseMemory
  | testSessions
  | unlink (s : α)
  | releaseBuffer (s : α)
  | releaseSession (s : α)
  | setAllocator
  | setPort
  | allocateMemory
  | initServer
  | releaseFailed
  | clearMemory
deriving DecidableEq

/-- `Close` has released the memory of the server, and not yet all sessions. -/
def Stage.emptying : Stage α → Bool
  | .testSessions => true
  | .unlink _ => true
  | .releaseBuffer _ => true
  | .releaseSession _ => true
  | _ => false

/-- What `Close` releases: a block of a session, or the memory of the server. A
block that has been the one may be handed out again as the other. -/
inductive Piece (α : Type*) where
  | session (b : α)
  | server (m : α)
deriving DecidableEq

/-- What `Close` has released and no allocator has handed out since, behind this
step. -/
def Stage.releasedAfter (w : WebsocketSink A α (Connection α)) (memory : Option α)
    (released : List (Piece α)) : Stage α → List (Piece α)
  | .releaseMemory =>
    if w.allocator = none then released else w.memory.toList.map .server ++ released
  | .releaseBuffer s => (w.session s).buffer.toList.map .session ++ released
  | .releaseSession s => .session s :: released
  | .allocateMemory => released.filter (· ∉ memory.toList.map .server)
  | _ => released

/-- One step of `Listen`, with what the allocator returns for the memory of the
server and whether `WebbyServerInit` succeeds, and the next one if there is
one. -/
def listenStep (w : WebsocketSink A α (Connection α)) (call : Call A) (memory : Option α)
    (init : Bool) : Stage α → Option (WebsocketSink A α (Connection α) × Option (Stage α))
  -- Close
  | .shutdownServer => some (w, some (if w.server = none then .releaseMemory else .clearServer))
  | .clearServer => some ({ w with server := none }, some .releaseMemory)
  | .releaseMemory => some (w.release w.memory, some .testSessions)
  | .testSessions =>
    match w.sessions with
    | some s => some (w, some (.unlink s))
    | none => some (w, some .setAllocator)
  -- DestroySession
  | .unlink s =>
    some ({ w with toSink := SinkSessions.unlinkSession w.toSink s }, some (.releaseBuffer s))
  | .releaseBuffer s => some (w.release (w.session s).buffer, some (.releaseSession s))
  | .releaseSession s => some (w.release (some s), some .testSessions)
  -- Listen
  | .setAllocator => some ({ w with allocator := some call.allocator }, some .setPort)
  | .setPort => some ({ w with port := call.port }, some .allocateMemory)
  | .allocateMemory =>
    if ∀ m ∈ memory, m ∉ w.blocks then
      some ({ w.allocated memory with memory := memory },
        if memory = none then none else some .initServer)
    else none
  | .initServer =>
    if init then some ({ w with server := w.memory }, none)
    else some ({ w with server := none }, some .releaseFailed)
  | .releaseFailed => some (w.release w.memory, some .clearMemory)
  | .clearMemory => some ({ w with memory := none }, none)

/-! ## The background thread -/

inductive Walk where
  | writeEvent
  | flush
deriving DecidableEq

/-- Where the background thread is: in `FlushThreads`, about to visit a session
or to advance from it, or behind `Flush`. -/
inductive Background (α : Type*) where
  | draining
  | visit (walk : Walk) (s : α)
  | advance (walk : Walk) (s : α)
  | updating
deriving DecidableEq

/-- The session the loop variable points to. -/
def Background.session : Background α → Option α
  | .visit _ s => some s
  | .advance _ s => some s
  | _ => none

/-- The test of the loop, with the loop variable at `p`. -/
def Background.enter (walk : Walk) : Option α → Background α
  | some s => .visit walk s
  | none =>
    match walk with
    | .writeEvent => .draining
    | .flush => .updating

/-- Write a block of a session. -/
def store (w : WebsocketSink A α (Connection α)) (m : Option α) (data : List UInt8) :
    WebsocketSink A α (Connection α) :=
  match m with
  | some b => { w with toSink := { w.toSink with bytes := Function.update w.bytes b data } }
  | none => w

/-- What `WriteSessionEvent` and `FlushSession` leave of a session. -/
def visited (w : WebsocketSink A α (Connection α)) (s : α) (bufpos : ℕ)
    (buffer table : List UInt8) : WebsocketSink A α (Connection α) :=
  let w := store (store w (w.session s).buffer buffer) (w.session s).table table
  SinkResources.modify w s fun x => { x with bufpos := bufpos }

/-! ## Both -/

/-- The sink, the call that holds `_stateLock` with its next step, the background
thread, and what `Close` has released and no allocator has handed out since. -/
structure St (A α : Type*) where
  sink : WebsocketSink A α (Connection α)
  listener : Option (Call A × Stage α)
  background : Background α
  released : List (Piece α)

/-- The next step of `Listen`. -/
def St.stage (st : St A α) : Option (Stage α) := st.listener.map Prod.snd

/-- Before the first call, in a memory of any contents. -/
def init (session : α → Session α (Connection α)) (bytes : α → List UInt8) : St A α :=
  { sink := (SinkListen.init session bytes).sink, listener := none, background := .draining
    released := [] }

/-- A callback of the server: a WebSocket connection is opened, with what the
allocator returns for the blocks of `CreateSession`, or closed. -/
inductive Callback (α : Type*) where
  | connect (place : ℕ) (memory buffer table : Option α)
  | close (connection : Connection α) (fuel : ℕ)

/-- What `CreateSession` is given: it asks for nothing more once it is refused. -/
def Callback.obtains : Callback α → List (Piece α)
  | .connect _ (some s) none _ => [.session s]
  | .connect _ (some s) (some b) table => .session s :: .session b :: table.toList.map .session
  | _ => []

/-- What a callback of the server in the memory `m` does. Null is not destroyed:
there the run ends. -/
def callback (m : α) (st : St A α) (cb : Callback α) : Option (St A α) :=
  match cb with
  | .connect place memory buffer table =>
    if Granted st.sink.toSink memory buffer table then
      some { st with
        sink := (createSession st.sink (m, place) memory buffer table).2
        released := st.released.filter (· ∉ cb.obtains) }
    else none
  | .close c fuel =>
    match SinkSessions.findSession fuel st.sink.toSink c with
    | some (some s) => some { st with sink := destroySession st.sink s }
    | _ => none

/-- `Update`, with what `WebbyServerUpdate` calls back. -/
def update (st : St A α) (callbacks : List (Callback α)) : Option (St A α) :=
  match st.sink.server with
  | some m => run (callback m) st callbacks
  | none => some st

/-- `call` takes the lock, and `listen` is the next step of its holder. The
others are steps of the background thread: the beginning of `WriteEvent` and of
`Flush`, a visit of either (for the first with what it leaves of the session, and
whether it sends anything), an advance, and `Update`. -/
inductive Act (A α : Type*) where
  | call (call : Call A)
  | listen (memory : Option α) (init : Bool)
  | writeEvent
  | flush
  | writeSession (sends : Bool) (bufpos : ℕ) (buffer table : List UInt8)
  | flushSession
  | advance
  | update (callbacks : List (Callback α))

def step (st : St A α) : Act A α → Option (St A α)
  | .call call =>
    match st.listener with
    | none => some { st with listener := some (call, .shutdownServer) }
    | some _ => none
  | .listen memory init =>
    match st.listener with
    | some (call, stage) =>
      (listenStep st.sink call memory init stage).map fun (w, next) =>
        { st with
          sink := w, listener := next.map fun stage => (call, stage)
          released := stage.releasedAfter st.sink memory st.released }
    | none => none
  | .writeEvent =>
    match st.background with
    | .draining => some { st with background := .enter .writeEvent st.sink.sessions }
    | _ => none
  | .flush =>
    match st.background with
    | .draining => some { st with background := .enter .flush st.sink.sessions }
    | _ => none
  | .writeSession _ bufpos buffer table =>
    match st.background with
    | .visit .writeEvent s =>
      some { st with
        sink := visited st.sink s bufpos buffer table, background := .advance .writeEvent s }
    | _ => none
  | .flushSession =>
    match st.background with
    | .visit .flush s =>
      let x := st.sink.session s
      let w := SinkResources.modify st.sink s fun x => { x with bufpos := 0 }
      some { st with
        sink := if x.bufpos ≠ 0 then w else st.sink, background := .advance .flush s }
    | _ => none
  | .advance =>
    match st.background with
    | .advance walk s => some { st with background := .enter walk (st.sink.next s) }
    | _ => none
  | .update callbacks =>
    match st.background with
    | .updating =>
      (update st callbacks).map fun st => { st with background := .draining }
    | _ => none

/-! ## A call that is left alone -/

section
variable {memory : Option α} {init : Bool} {call : Call A}

/-- Steps of the call, and no others, lead from `st` to `st'`. -/
def ListenRun (memory : Option α) (init : Bool) (st st' : St A α) : Prop :=
  ∃ n, run step st (List.replicate n (.listen memory init)) = some st'

theorem ListenRun.trans {st st' st'' : St A α} (h : ListenRun memory init st st')
    (h' : ListenRun memory init st' st'') : ListenRun memory init st st'' := by
  obtain ⟨n, hn⟩ := h
  obtain ⟨m, hm⟩ := h'
  refine ⟨n + m, ?_⟩
  rw [List.replicate_add, run_append, hn]
  exact hm

theorem listenRun_step {st st' : St A α} (h : step st (.listen memory init) = some st') :
    ListenRun memory init st st' := by
  refine ⟨1, ?_⟩
  rw [List.replicate_one, run_cons, h]
  rfl

/-- The loop of `Close`. -/
theorem listenRun_destroySessions {fuel : ℕ} {w w' : WebsocketSink A α (Connection α)}
    {background : Background α} {released : List (Piece α)}
    (h : destroySessions fuel w = some w') :
    ∃ released', ListenRun memory init ⟨w, some (call, .testSessions), background, released⟩
      ⟨w', some (call, .setAllocator), background, released'⟩ := by
  -- every round of the loop is four steps, the last test one
  induction fuel generalizing w released with
  | zero =>
    obtain ⟨hnone, hw⟩ := Option.ite_none_right_eq_some.mp h
    cases hw
    refine ⟨released, listenRun_step ?_⟩
    simp only [step, listenStep, hnone, Option.map_some]
    rfl
  | succ fuel ih =>
    rw [destroySessions] at h
    split at h
    · rename_i hnone
      cases h
      refine ⟨released, listenRun_step ?_⟩
      simp only [step, listenStep, hnone, Option.map_some]
      rfl
    · rename_i s hs
      have htest : ListenRun memory init ⟨w, some (call, .testSessions), background, released⟩
          ⟨w, some (call, .unlink s), background, released⟩ := by
        refine listenRun_step ?_
        simp only [step, listenStep, hs, Option.map_some]
        rfl
      have hdestroy : ListenRun memory init ⟨w, some (call, .unlink s), background, released⟩
          ⟨destroySession w s, some (call, .testSessions), background,
            .session s :: (((SinkSessions.unlinkSession w.toSink s).session s).buffer.toList.map
              .session ++ released)⟩ :=
        ⟨3, rfl⟩
      obtain ⟨released', hrest⟩ := ih h
      exact ⟨released', htest.trans (hdestroy.trans hrest)⟩

/-- Nothing but its own steps: the call does what `Listen` does. -/
theorem listenRun_listen {fuel : ℕ} {w w' : WebsocketSink A α (Connection α)}
    {r : Protocol.YsResult} {background : Background α} {released : List (Piece α)}
    (h : listen fuel w call.port call.allocator memory init = some (r, w'))
    (hgranted : ∀ v, close fuel w = some (.success, v) → ∀ m ∈ memory, m ∉ v.blocks) :
    ∃ released', ListenRun memory init ⟨w, some (call, .shutdownServer), background, released⟩
      ⟨w', none, background, released'⟩ := by
  obtain ⟨⟨rc, v⟩, hclose, hrest⟩ := Option.map_eq_some_iff.mp h
  obtain ⟨u, hloop, hu⟩ := Option.map_eq_some_iff.mp hclose
  cases hu
  have hserver : ListenRun memory init ⟨w, some (call, .shutdownServer), background, released⟩
      ⟨{ w with server := none }, some (call, .releaseMemory), background, released⟩ := by
    cases hs : w.server with
    | none =>
      refine listenRun_step ?_
      simp only [step, listenStep, hs, if_true, Option.map_some]
      rw [← hs]
      rfl
    | some m =>
      refine ⟨2, ?_⟩
      rw [List.replicate_succ, run_cons]
      simp only [step, listenStep, hs, reduceCtorEq, if_false, Option.map_some]
      rfl
  obtain ⟨released', hsessions⟩ : ∃ released', ListenRun memory init
      ⟨{ w with server := none }.release w.memory, some (call, .testSessions), background,
        Stage.releasedAfter { w with server := none } memory released .releaseMemory⟩
      ⟨v, some (call, .setAllocator), background, released'⟩ := listenRun_destroySessions hloop
  -- `_allocator` and `_port` are set, and the memory is asked for
  have hallocated : ListenRun memory init ⟨v, some (call, .setAllocator), background, released'⟩
      ⟨{ WebsocketSink.allocated { v with allocator := some call.allocator, port := call.port }
          memory with memory := memory },
        (if memory = none then none else some .initServer).map fun stage => (call, stage),
        background, released'.filter (· ∉ memory.toList.map .server)⟩ := by
    refine (listenRun_step rfl).trans ((listenRun_step rfl).trans (listenRun_step ?_))
    simp only [step, listenStep]
    rw [if_pos (hgranted v hclose)]
    rfl
  refine ⟨released'.filter (· ∉ memory.toList.map .server), hserver.trans ((listenRun_step rfl).trans
    (hsessions.trans (hallocated.trans ?_)))⟩
  cases memory with
  | none =>
    cases hrest
    exact ⟨0, rfl⟩
  | some m =>
    cases init with
    | true =>
      cases hrest
      exact listenRun_step rfl
    | false =>
      cases hrest
      exact (listenRun_step rfl).trans ((listenRun_step rfl).trans (listenRun_step rfl))

end

/-! ## What should hold -/

/-- No session in the list has been released by `Close`. -/
def ListSafe (st : St A α) : Prop :=
  ∀ front b, Segment st.sink.next st.sink.sessions front (some b) → .session b ∉ st.released

/-- What a step should do: use no session and no memory of a server that `Close`
has released. A visit uses the session and its blocks, and where it sends, the
memory that the connection lies in; `Update` uses the memory of the server, and
the list whenever it is called back. -/
def Safe (st : St A α) : Act A α → Prop
  | .writeSession sends _ _ _ => ∀ s, st.background = .visit .writeEvent s →
    (∀ b ∈ own st.sink.toSink s, .session b ∉ st.released) ∧
      (sends = true → .server (st.sink.session s).connection.1 ∉ st.released)
  | .flushSession => ∀ s, st.background = .visit .flush s → .session s ∉ st.released ∧
    ((st.sink.session s).bufpos ≠ 0 →
      (∀ b, (st.sink.session s).buffer = some b → .session b ∉ st.released) ∧
        .server (st.sink.session s).connection.1 ∉ st.released)
  | .advance => ∀ walk s, st.background = .advance walk s → .session s ∉ st.released
  | .update callbacks => st.background = .updating → ∀ m, st.sink.server = some m →
    .server m ∉ st.released ∧ Along (callback m) (fun st _ => ListSafe st) st callbacks
  | _ => True

/-- `Close` has released the memory of the server, and not yet all sessions. -/
def Emptying (st : St A α) : Prop := st.stage.any Stage.emptying = true

instance (st : St A α) : Decidable (Emptying st) := by
  unfold Emptying
  infer_instance

/-- The background thread has no session to visit any more in its walk. -/
def WalkOver (st : St A α) : Prop :=
  match st.background with
  | .visit _ _ => False
  | .advance _ s => st.sink.next s = none
  | _ => True

instance (st : St A α) : Decidable (WalkOver st) := by
  unfold WalkOver
  split <;> infer_instance

/-- `Close` releases the memory of the server when a walk is over, and a session
when the loop variable does not point to it. -/
def ReleaseClear (st : St A α) : Option (Stage α) → Prop
  | some .releaseMemory => WalkOver st
  | some (.releaseSession s) => st.background.session ≠ some s
  | _ => True

instance (st : St A α) (stage : Option (Stage α)) : Decidable (ReleaseClear st stage) := by
  unfold ReleaseClear
  split <;> infer_instance

/-- The connection that is closed is that of the head of the list. -/
def HeadClosed (st : St A α) : Callback α → Prop
  | .connect .. => True
  | .close c _ => ∃ s ∈ st.sink.sessions, (st.sink.session s).connection = c

instance (st : St A α) (cb : Callback α) : Decidable (HeadClosed st cb) := by
  unfold HeadClosed
  split <;> infer_instance

/-- The condition on a step: `Close` releases nothing in the middle of a walk, no
walk over sessions begins while `Close` empties the list, and only the newest
connection is closed. -/
def Clear (st : St A α) : Act A α → Prop
  | .listen .. => ReleaseClear st st.stage
  | .writeEvent => Emptying st → st.sink.sessions = none
  | .flush => Emptying st → st.sink.sessions = none
  | .update callbacks => ∀ m ∈ st.sink.server, Along (callback m) HeadClosed st callbacks
  | _ => True

instance (st : St A α) (act : Act A α) : Decidable (Clear st act) := by
  unfold Clear
  split <;> infer_instance

end Yardstick.SinkRelisten
