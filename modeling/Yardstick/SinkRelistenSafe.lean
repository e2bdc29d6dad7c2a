import Yardstick.SinkRelistenList

/-!
# SinkRelistenSafe — no use of what Close has released

The two threads together. While `Close` empties the list no session is left to
be visited, so whatever session the background thread is about to visit is in
the list; and it advances from a session in the list, or from the one that is
being destroyed, but not from one that has been.

* `listenStep_inv`: a step of `Listen`, stage by stage;
* `step_inv`: a step of either thread;
* `relisten_safe`: along every run whose steps meet the condition, the background
  thread uses nothing that `Close` has released.
-/

namespace Yardstick.SinkRelisten

open Chain Runs SinkListen
open SinkSessions (Session Sink)
open SinkBlocks (own)

variable {A α : Type*} [DecidableEq α]

/-! ## The invariant -/

/-- What holds before a step of `Listen`, or outside of it. -/
def StageInv (w : WebsocketSink A α (Connection α)) (released : List (Piece α)) (l : List α) :
    Option (Stage α) → Prop
  | none => MemoryKept w released l
  | some .shutdownServer => MemoryKept w released l
  | some .clearServer => MemoryKept w released l
  | some .releaseMemory => w.server = none ∧ MemoryKept w released l
  | some .testSessions => w.server = none
  | some (.unlink s) => w.server = none ∧ w.sessions = some s
  | some (.releaseBuffer s) => w.server = none ∧ Detached w released l s (own w.toSink s)
  | some (.releaseSession s) => w.server = none ∧ Detached w released l s [s]
  | some .setAllocator => w.server = none ∧ l = []
  | some .setPort => w.server = none ∧ l = [] ∧ w.allocator ≠ none
  | some .allocateMemory => w.server = none ∧ l = [] ∧ w.allocator ≠ none
  | some .initServer => w.server = none ∧ l = [] ∧ w.allocator ≠ none ∧ MemoryKept w released l
  | some .releaseFailed => w.server = none ∧ l = []
  | some .clearMemory => w.server = none ∧ l = []

/-- The background thread is at a session of the list, or at the one that is
being destroyed; and while the list is being emptied, it visits none. -/
structure Inv (st : St A α) (l : List α) : Prop where
  listed : Listed st.sink st.released l
  server : ∀ m, st.sink.server = some m → st.sink.memory = some m ∧ st.sink.allocator ≠ none
  stage : StageInv st.sink st.released l st.stage
  background : ∀ u, st.background.session = some u → u ∈ l ∨
    st.stage = some (.releaseBuffer u) ∨ st.stage = some (.releaseSession u)
  idle : Emptying st → WalkOver st

section
variable {w w' : WebsocketSink A α (Connection α)} {released : List (Piece α)} {l : List α}

/-! ## Steps of Listen -/

/-- What holds behind a step of `Listen`. No session has left the list `l` but the
one to be destroyed next. -/
structure ListenKept (w : WebsocketSink A α (Connection α)) (released : List (Piece α))
    (l l' : List α) (next : Option (Stage α)) : Prop where
  listed : Listed w released l'
  server : ∀ m, w.server = some m → w.memory = some m ∧ w.allocator ≠ none
  stage : StageInv w released l' next
  stay : ∀ u ∈ l, u ∈ l' ∨ next = some (.releaseBuffer u)

omit [DecidableEq α] in
/-- The list is as it was, and there is no server. -/
theorem Listed.kept {next : Option (Stage α)} (h : Listed w released l) (hnone : w.server = none)
    (hstage : StageInv w released l next) : ListenKept w released l l next := by
  refine ⟨h, fun m hm => ?_, hstage, fun u hu => Or.inl hu⟩
  rw [hnone] at hm
  cases hm

omit [DecidableEq α] in
/-- Where there are no sessions, nothing else matters. -/
theorem listed_nil (h : w.sessions = none) : Listed w released [] := by
  have hnone : ∀ {P : α → Prop}, ∀ u ∈ ([] : List α), P u := fun u hu => (List.not_mem_nil hu).elim
  exact ⟨h, hnone, List.nodup_nil, hnone, hnone, hnone⟩

/-- `Close` gives the memory of the server back. -/
theorem Listed.releaseMemory {memory : Option α} (h : Listed w released l)
    (hkept : MemoryKept w released l) :
    Listed (w.release w.memory) (Stage.releasedAfter w memory released .releaseMemory) l := by
  refine h.release (fun m hm => (hkept m hm).2.1) fun b hb hmem => ?_
  simp only [Stage.releasedAfter] at hmem
  split at hmem
  · exact h.unreleased b hb hmem
  · rcases List.mem_append.mp hmem with hnew | hold
    · simp at hnew
    · exact h.unreleased b hb hold

/-- The test for sessions leads to the head of the list, or out of the loop. -/
theorem Listed.testSessions {call : Call A} {memory : Option α} {init : Bool}
    {next : Option (Stage α)} (hl : Listed w released l) (hnone : w.server = none)
    (h : listenStep w call memory init .testSessions = some (w', next)) :
    ListenKept w' released l l next := by
  simp only [listenStep] at h
  split at h
  · rename_i s hs
    cases h
    exact hl.kept hnone ⟨hnone, hs⟩
  · rename_i hs
    cases h
    have hpath := hl.path
    rw [hs] at hpath
    cases l with
    | nil => exact hl.kept hnone ⟨hnone, rfl⟩
    | cons u l => cases hpath.1

/-- The session is the first of the list, and leaves it. -/
theorem Listed.unlinkHead {s : α} (hl : Listed w released l) (hnone : w.server = none)
    (hs : w.sessions = some s) :
    ∃ l', ListenKept { w with toSink := SinkSessions.unlinkSession w.toSink s } released l l'
      (some (.releaseBuffer s)) := by
  have hpath := hl.path
  rw [hs] at hpath
  cases l with
  | nil => cases hpath
  | cons u l =>
    have hus : u = s := Option.some.inj hpath.1.symm
    subst hus
    obtain ⟨htail, hdetached⟩ := hl.unlink
    have hstage : StageInv { w with toSink := SinkSessions.unlinkSession w.toSink u } released l
        (some (.releaseBuffer u)) := ⟨hnone, hdetached⟩
    have hkept := htail.kept hnone hstage
    refine ⟨l, hkept.listed, hkept.server, hkept.stage, fun v hv => ?_⟩
    rcases List.mem_cons.mp hv with rfl | hv
    · exact Or.inr rfl
    · exact Or.inl hv

/-- `Close` releases the buffer of the session that has left the list. -/
theorem Listed.releaseBuffer {s : α} (h : Listed w released l)
    (hdetached : Detached w released l s (own w.toSink s)) (memory : Option α) :
    let released' := Stage.releasedAfter w memory released (.releaseBuffer s)
    Listed (w.release (w.session s).buffer) released' l ∧
      Detached (w.release (w.session s).buffer) released' l s [s] := by
  have hbuffer : ∀ b, Piece.session b ∈ (w.session s).buffer.toList.map Piece.session →
      b ∈ (w.session s).buffer := by
    intro b hb
    simpa using hb
  constructor
  · refine h.release (fun b hb => (hdetached.apart b (buffer_mem_own hb)).1) fun b hb hmem => ?_
    rcases List.mem_append.mp hmem with hnew | hold
    · exact (hdetached.apart b (buffer_mem_own (hbuffer b hnew))).1 hb
    · exact h.unreleased b hb hold
  · refine Detached.release ⟨hdetached.next, List.nodup_singleton s, fun b hb => ?_⟩
    rw [List.mem_singleton.mp hb]
    obtain ⟨hout, hunreleased⟩ := hdetached.apart s (self_mem_own _ s)
    refine ⟨hout, fun hmem => ?_⟩
    rcases List.mem_append.mp hmem with hnew | hold
    · -- the session is not its own buffer
      exact (List.nodup_cons.mp hdetached.nodup).1
        (List.mem_append_left _ (Option.mem_toList.mpr (hbuffer s hnew)))
    · exact hunreleased hold

/-- `Close` releases the session itself. -/
theorem Listed.releaseSession {s : α} {memory : Option α} (h : Listed w released l)
    (hdetached : Detached w released l s [s]) :
    Listed (w.release (some s)) (Stage.releasedAfter w memory released (.releaseSession s)) l := by
  have hs := (hdetached.apart s (List.mem_singleton.mpr rfl)).1
  refine h.release (fun b hb => ?_) fun b hb hmem => ?_
  · rwa [← Option.mem_some_iff.mp hb]
  · rcases List.mem_cons.mp hmem with heq | hold
    · cases heq
      exact hs hb
    · exact h.unreleased b hb hold

omit [DecidableEq α] in
theorem Listed.sessions_nil (h : Listed w released []) : w.sessions = none := path_nil.mp h.path

/-- New memory for the server, in a block that was not out. -/
theorem Listed.serverMemory {call : Call A} {memory : Option α} {init : Bool}
    {next : Option (Stage α)} (hl : Listed w released []) (hnone : w.server = none)
    (hallocator : w.allocator ≠ none)
    (h : listenStep w call memory init .allocateMemory = some (w', next)) :
    ListenKept w' (Stage.releasedAfter w memory released .allocateMemory) [] [] next := by
  obtain ⟨hgranted, hw⟩ := Option.ite_none_right_eq_some.mp h
  cases hw
  obtain ⟨a, ha⟩ := Option.ne_none_iff_exists'.mp hallocator
  have hnone' : (w.allocated memory).server = none := by simp [hnone]
  refine (listed_nil ?_).kept hnone' ?_
  · show (w.allocated memory).sessions = none
    rw [w.allocated_sessions memory, hl.sessions_nil]
  · cases memory with
    | none =>
      intro m hm
      cases hm
    | some m =>
      refine ⟨hnone', rfl, by simp [ha], fun m' hm' => ?_⟩
      cases hm'
      refine ⟨?_, List.not_mem_nil, fun hmem => ?_⟩
      · show m ∈ (w.allocated (some m)).blocks
        simp [WebsocketSink.allocated, ha, Sink.allocated]
      · -- it is handed out again
        simpa using (List.mem_filter.mp hmem).2

/-- A step of `Listen`, stage by stage. -/
theorem listenStep_inv {call : Call A} {memory : Option α} {init : Bool} {stage : Stage α}
    {next : Option (Stage α)} (hl : Listed w released l)
    (hserver : ∀ m, w.server = some m → w.memory = some m ∧ w.allocator ≠ none)
    (hstage : StageInv w released l (some stage))
    (h : listenStep w call memory init stage = some (w', next)) :
    ∃ l', ListenKept w' (stage.releasedAfter w memory released) l l' next := by
  cases stage with
  | shutdownServer =>
    cases h
    refine ⟨l, hl, hserver, ?_, fun u hu => Or.inl hu⟩
    split
    · rename_i hnone
      exact ⟨hnone, hstage⟩
    · exact hstage
  | clearServer =>
    cases h
    have hl' : Listed { w with server := none } released l := hl.same rfl rfl rfl rfl
    exact ⟨l, hl'.kept rfl ⟨rfl, hstage⟩⟩
  | releaseMemory =>
    cases h
    have hnone : (w.release w.memory).server = none := by simp [hstage.1]
    exact ⟨l, (hl.releaseMemory hstage.2).kept hnone hnone⟩
  | testSessions => exact ⟨l, hl.testSessions hstage h⟩
  | unlink s =>
    cases h
    exact hl.unlinkHead hstage.1 hstage.2
  | releaseBuffer s =>
    cases h
    obtain ⟨hnone, hdetached⟩ := hstage
    have hnone' : (w.release (w.session s).buffer).server = none := by simp [hnone]
    obtain ⟨hl', hdetached'⟩ := hl.releaseBuffer hdetached memory
    exact ⟨l, hl'.kept hnone' ⟨hnone', hdetached'⟩⟩
  | releaseSession s =>
    cases h
    obtain ⟨hnone, hdetached⟩ := hstage
    have hnone' : (w.release (some s)).server = none := by simp [hnone]
    exact ⟨l, (hl.releaseSession hdetached).kept hnone' hnone'⟩
  | setAllocator =>
    cases h
    have hl' : Listed { w with allocator := some call.allocator } released l :=
      hl.same rfl rfl rfl rfl
    exact ⟨l, hl'.kept hstage.1 ⟨hstage.1, hstage.2, by simp⟩⟩
  | setPort =>
    cases h
    have hl' : Listed { w with port := call.port } released l := hl.same rfl rfl rfl rfl
    exact ⟨l, hl'.kept hstage.1 ⟨hstage.1, hstage.2.1, hstage.2.2⟩⟩
  | allocateMemory =>
    obtain ⟨hnone, rfl, hallocator⟩ := hstage
    exact ⟨[], hl.serverMemory hnone hallocator h⟩
  | initServer =>
    obtain ⟨hnone, rfl, hallocator, hkept⟩ := hstage
    cases init with
    | true =>
      cases h
      exact ⟨[], hl.same rfl rfl rfl rfl, fun m hm => ⟨hm, hallocator⟩, hkept,
        fun u hu => Or.inl hu⟩
    | false =>
      -- the server is forgotten again, and its memory is next
      cases h
      have hl' : Listed { w with server := none } released [] := hl.same rfl rfl rfl rfl
      exact ⟨[], hl'.kept rfl ⟨rfl, rfl⟩⟩
  | releaseFailed =>
    obtain ⟨hnone, rfl⟩ := hstage
    cases h
    have hnone' : (w.release w.memory).server = none := by simp [hnone]
    have hsessions : (w.release w.memory).sessions = none := by simp [hl.sessions_nil]
    exact ⟨[], (listed_nil hsessions).kept hnone' ⟨hnone', rfl⟩⟩
  | clearMemory =>
    obtain ⟨hnone, rfl⟩ := hstage
    cases h
    have hl' : Listed { w with memory := none } released [] := listed_nil hl.sessions_nil
    refine ⟨[], hl'.kept hnone ?_⟩
    intro m hm
    cases hm

/-- No step of `Listen` writes a successor. -/
theorem listenStep_next {call : Call A} {memory : Option α} {init : Bool} {stage : Stage α}
    {next : Option (Stage α)} (hl : Listed w released l)
    (hstage : StageInv w released l (some stage))
    (h : listenStep w call memory init stage = some (w', next)) (u : α) :
    w'.next u = w.next u := by
  have hrelease : ∀ m, (w.release m).next u = w.next u := by
    intro m
    rw [Sink.next, Sink.next, w.release_session m]
  cases stage with
  | releaseMemory =>
    cases h
    exact hrelease _
  | testSessions =>
    simp only [listenStep] at h
    split at h <;> cases h <;> rfl
  | unlink s =>
    cases h
    -- the head has no back link, so nothing is written in front of it
    have hpath := hl.path
    rw [hstage.2] at hpath
    exact (alike_unlinkSession (hl.prev s hpath.head_mem) u).next
  | releaseBuffer s =>
    cases h
    exact hrelease _
  | releaseSession s =>
    cases h
    exact hrelease _
  | allocateMemory =>
    obtain ⟨-, hw⟩ := Option.ite_none_right_eq_some.mp h
    cases hw
    show (w.allocated memory).next u = w.next u
    rw [Sink.next, Sink.next, w.allocated_session memory]
  | initServer =>
    cases init <;> cases h <;> rfl
  | releaseFailed =>
    cases h
    exact hrelease _
  | _ =>
    cases h
    rfl

/-- `Close` begins to empty the list when it has released the memory. -/
theorem listenStep_emptying {call : Call A} {memory : Option α} {init : Bool}
    {stage : Stage α} {next : Option (Stage α)}
    (h : listenStep w call memory init stage = some (w', next))
    (hnext : next.any Stage.emptying = true) :
    stage = .releaseMemory ∨ stage.emptying = true := by
  cases stage with
  | releaseMemory => exact Or.inl rfl
  | testSessions => exact Or.inr rfl
  | unlink s => exact Or.inr rfl
  | releaseBuffer s => exact Or.inr rfl
  | releaseSession s => exact Or.inr rfl
  | shutdownServer =>
    cases h
    split at hnext <;> cases hnext
  | allocateMemory =>
    obtain ⟨-, hw⟩ := Option.ite_none_right_eq_some.mp h
    cases hw
    split at hnext <;> cases hnext
  | initServer => cases init <;> cases h <;> cases hnext
  | _ =>
    cases h
    cases hnext

end

/-! ## Steps of the background thread -/

omit [DecidableEq α] in
@[simp] theorem Background.enter_session (walk : Walk) (p : Option α) :
    (Background.enter walk p).session = p := by
  cases p with
  | some s => rfl
  | none => cases walk <;> rfl

/-- A sink that differs only in what the sessions hold. -/
structure SameList (w w' : WebsocketSink A α (Connection α)) : Prop where
  sessions : w'.sessions = w.sessions
  alike : ∀ u, Alike (w.session u) (w'.session u)
  memory : w'.memory = w.memory
  server : w'.server = w.server
  allocator : w'.allocator = w.allocator
  blocks : w'.blocks = w.blocks

omit [DecidableEq α] in
theorem sameList_refl (w : WebsocketSink A α (Connection α)) : SameList w w :=
  ⟨rfl, fun _ => alike_refl _, rfl, rfl, rfl, rfl⟩

omit [DecidableEq α] in
theorem SameList.trans {w w' w'' : WebsocketSink A α (Connection α)} (h : SameList w w')
    (h' : SameList w' w'') : SameList w w'' :=
  ⟨h'.sessions.trans h.sessions, fun u => (h.alike u).trans (h'.alike u),
    h'.memory.trans h.memory, h'.server.trans h.server, h'.allocator.trans h.allocator,
    h'.blocks.trans h.blocks⟩

/-- `_bufpos` is nothing the list depends on. -/
theorem sameList_setBufpos (w : WebsocketSink A α (Connection α)) (s : α) (bufpos : ℕ) :
    SameList w (SinkResources.modify w s fun x => { x with bufpos := bufpos }) := by
  refine ⟨rfl, fun u => ?_, rfl, rfl, rfl, rfl⟩
  have hfield : ∀ {β : Type _} (g : Session α (Connection α) → β),
      (∀ x, g { x with bufpos := bufpos } = g x) →
      g ((w.toSink.modify s fun x => { x with bufpos := bufpos }).session u) =
        g (w.session u) := fun g hg => SinkSessions.modify_field w.toSink s u g hg
  refine ⟨hfield Session.next fun _ => rfl, hfield Session.connection fun _ => rfl,
    hfield Session.buffer fun _ => rfl, hfield Session.table fun _ => rfl, fun hprev => ?_⟩
  rw [← hprev]
  exact hfield Session.prev fun _ => rfl

/-- A visit writes the blocks of the session and `_bufpos`. -/
theorem sameList_visited (w : WebsocketSink A α (Connection α)) (s : α) (bufpos : ℕ)
    (buffer table : List UInt8) : SameList w (visited w s bufpos buffer table) := by
  have hstore : ∀ (v : WebsocketSink A α (Connection α)) (m : Option α) (data : List UInt8),
      SameList v (store v m data) := by
    intro v m data
    cases m with
    | none => exact sameList_refl v
    | some b => exact ⟨rfl, fun _ => alike_refl _, rfl, rfl, rfl, rfl⟩
  exact ((hstore w _ buffer).trans (hstore _ _ table)).trans (sameList_setBufpos _ s bufpos)

omit [DecidableEq α] in
/-- A visit changes nothing that the stage of `Listen` depends on. -/
theorem StageInv.congr {w w' : WebsocketSink A α (Connection α)} {released : List (Piece α)}
    {l : List α} {stage : Option (Stage α)} (h : StageInv w released l stage)
    (hsame : SameList w w') : StageInv w' released l stage := by
  have hown : l.flatMap (own w'.toSink) = l.flatMap (own w.toSink) :=
    flatMap_own fun u _ => hsame.alike u
  have hkept : MemoryKept w released l → MemoryKept w' released l := by
    intro hk m hm
    rw [hsame.blocks, hown]
    exact hk m (hsame.memory ▸ hm)
  have hdetached : ∀ {s : α} {blocks : List α}, Detached w released l s blocks →
      Detached w' released l s blocks := by
    intro s blocks hd
    refine ⟨?_, hd.nodup, hown ▸ hd.apart⟩
    rw [hsame.sessions, ← hd.next]
    exact (hsame.alike s).next
  have hserver := hsame.server
  have hallocator := hsame.allocator
  -- each step of `Close` and `Listen` stands by the server, the list and the memory
  cases stage with
  | none => exact hkept h
  | some stage =>
    cases stage with
    | shutdownServer => exact hkept h
    | clearServer => exact hkept h
    | releaseMemory => exact ⟨hserver.trans h.1, hkept h.2⟩
    | testSessions => exact hserver.trans h
    | unlink s => exact ⟨hserver.trans h.1, hsame.sessions.trans h.2⟩
    | releaseBuffer s =>
      refine ⟨hserver.trans h.1, ?_⟩
      rw [(hsame.alike s).own_eq]
      exact hdetached h.2
    | releaseSession s => exact ⟨hserver.trans h.1, hdetached h.2⟩
    | setAllocator => exact ⟨hserver.trans h.1, h.2⟩
    | setPort => exact ⟨hserver.trans h.1, h.2.1, hallocator ▸ h.2.2⟩
    | allocateMemory => exact ⟨hserver.trans h.1, h.2.1, hallocator ▸ h.2.2⟩
    | initServer => exact ⟨hserver.trans h.1, h.2.1, hallocator ▸ h.2.2.1, hkept h.2.2.2⟩
    | releaseFailed => exact ⟨hserver.trans h.1, h.2⟩
    | clearMemory => exact ⟨hserver.trans h.1, h.2⟩

omit [DecidableEq α] in
/-- Where there is a server, its memory is kept, and `Close` is not emptying the
list. -/
theorem StageInv.of_server {w : WebsocketSink A α (Connection α)} {released : List (Piece α)}
    {l : List α} {stage : Option (Stage α)} {m : α} (h : StageInv w released l stage)
    (hm : w.server = some m) : MemoryKept w released l ∧ stage.any Stage.emptying = false ∧
      ∀ (w' : WebsocketSink A α (Connection α)) (released' : List (Piece α)) (l' : List α),
        MemoryKept w' released' l' → StageInv w' released' l' stage := by
  have hnot : ∀ {P : Prop}, w.server = none → P := by
    intro P hnone
    rw [hnone] at hm
    cases hm
  cases stage with
  | none => exact ⟨h, rfl, fun _ _ _ hk => hk⟩
  | some stage =>
    cases stage with
    | shutdownServer => exact ⟨h, rfl, fun _ _ _ hk => hk⟩
    | clearServer => exact ⟨h, rfl, fun _ _ _ hk => hk⟩
    | testSessions => exact hnot h
    | _ => exact hnot h.1

omit [DecidableEq α] in
/-- While the list is not being emptied and is not empty, the memory of the server
is kept. -/
theorem StageInv.memory_kept {w : WebsocketSink A α (Connection α)} {released : List (Piece α)}
    {l : List α} {stage : Option (Stage α)} (h : StageInv w released l stage) (hl : l ≠ [])
    (hnot : stage.any Stage.emptying = false) : MemoryKept w released l := by
  cases stage with
  | none => exact h
  | some stage =>
    -- ahead of the loop the memory is there, and behind it the list is empty
    cases stage with
    | shutdownServer => exact h
    | clearServer => exact h
    | releaseMemory => exact h.2
    | testSessions => cases hnot
    | unlink u => cases hnot
    | releaseBuffer u => cases hnot
    | releaseSession u => cases hnot
    | setAllocator => exact absurd h.2 hl
    | setPort => exact absurd h.2.1 hl
    | allocateMemory => exact absurd h.2.1 hl
    | initServer => exact h.2.2.2
    | releaseFailed => exact absurd h.2 hl
    | clearMemory => exact absurd h.2 hl

section
variable {st st' : St A α} {l : List α}

omit [DecidableEq α] in
theorem not_emptying_iff : ¬ Emptying st ↔ st.stage.any Stage.emptying = false := by
  simp [Emptying]

omit [DecidableEq α] in
/-- The session about to be visited is in the list, and `Close` is not emptying
that. -/
theorem Inv.visited_mem {walk : Walk} {s : α} (h : Inv st l) (hs : st.background = .visit walk s) :
    s ∈ l ∧ ¬ Emptying st := by
  have hnot : ¬ Emptying st := by
    intro hemptying
    have hover := h.idle hemptying
    rw [WalkOver, hs] at hover
    exact hover
  refine ⟨?_, hnot⟩
  rw [Emptying] at hnot
  rcases h.background s (by rw [hs]; rfl) with hmem | hbuffer | hsession
  · exact hmem
  · rw [hbuffer] at hnot
    exact absurd rfl hnot
  · rw [hsession] at hnot
    exact absurd rfl hnot

omit [DecidableEq α] in
/-- A visit of the background thread, which then is about to advance. -/
theorem Inv.visited {walk : Walk} {s : α} {w : WebsocketSink A α (Connection α)} (h : Inv st l)
    (hs : st.background = .visit walk s) (hsame : SameList st.sink w) :
    Inv { st with sink := w, background := .advance walk s } l := by
  obtain ⟨hmem, hnot⟩ := h.visited_mem hs
  refine ⟨?_, ?_, h.stage.congr hsame, ?_, fun hemptying => absurd hemptying hnot⟩
  · refine h.listed.congr hsame.sessions (fun u _ => hsame.alike u) hsame.memory (fun b hb => ?_)
      h.listed.unreleased
    rw [hsame.blocks]
    exact h.listed.out b hb
  · intro m hm
    show w.memory = some m ∧ w.allocator ≠ none
    rw [hsame.memory, hsame.allocator]
    exact h.server m (hsame.server ▸ hm)
  · intro u hu
    rw [← Option.some.inj hu]
    exact Or.inl hmem

omit [DecidableEq α] in
/-- The loop variable is set to a session of the list, or to null. -/
theorem Inv.enter {walk : Walk} {p : Option α} (h : Inv st l) (hp : ∀ u, p = some u → u ∈ l)
    (hidle : Emptying st → p = none) : Inv { st with background := .enter walk p } l := by
  refine ⟨h.listed, h.server, h.stage, fun u hu => Or.inl (hp u ?_), fun hemptying => ?_⟩
  · rw [← hu]
    exact (Background.enter_session walk p).symm
  · rw [WalkOver, hidle hemptying]
    cases walk <;> trivial

omit [DecidableEq α] in
theorem Inv.head_mem (h : Inv st l) (u : α) (hu : st.sink.sessions = some u) : u ∈ l := by
  have hpath := h.listed.path
  rw [hu] at hpath
  exact hpath.head_mem

omit [DecidableEq α] in
/-- The background thread advances within the list, also from the session that
is being destroyed. -/
theorem Inv.next_mem {s : α} (h : Inv st l) (hs : st.background.session = some s) (u : α)
    (hu : st.sink.next s = some u) : u ∈ l := by
  have hstage := h.stage
  rcases h.background s hs with hmem | hbuffer | hsession
  · exact h.listed.path.next_mem hmem hu
  · rw [hbuffer] at hstage
    exact h.head_mem u (hstage.2.next ▸ hu)
  · rw [hsession] at hstage
    exact h.head_mem u (hstage.2.next ▸ hu)

omit [DecidableEq α] in
theorem Inv.served {m : α} (h : Inv st l) (hm : st.sink.server = some m) : Served m st l := by
  obtain ⟨hmemory, hallocator⟩ := h.server m hm
  exact ⟨h.listed, (h.stage.of_server hm).1, hallocator, hmemory, hm⟩

/-- A callback of the server concerns the sink alone. -/
theorem callback_threads {m : α} {cb : Callback α} (h : callback m st cb = some st') :
    st'.listener = st.listener ∧ st'.background = st.background := by
  cases cb with
  | connect place memory buffer table =>
    obtain ⟨-, hst'⟩ := Option.ite_none_right_eq_some.mp h
    cases hst'
    exact ⟨rfl, rfl⟩
  | close c fuel =>
    simp only [callback] at h
    split at h
    · cases h
      exact ⟨rfl, rfl⟩
    · cases h

theorem callbacks_threads {m : α} {cbs : List (Callback α)}
    (h : run (callback m) st cbs = some st') :
    st'.listener = st.listener ∧ st'.background = st.background := by
  have hstep : ∀ (s : St A α) (cb : Callback α) (s' : St A α), callback m s cb = some s' →
      s.listener = st.listener ∧ s.background = st.background →
      s'.listener = st.listener ∧ s'.background = st.background := by
    rintro s cb s' hcb ⟨hlistener, hbackground⟩
    obtain ⟨hl, hb⟩ := callback_threads hcb
    exact ⟨hl.trans hlistener, hb.trans hbackground⟩
  exact run_invariant _ hstep ⟨rfl, rfl⟩ h

/-- `Update`, whose callbacks come while there is a server. -/
theorem Inv.update {callbacks : List (Callback α)} (h : Inv st l)
    (hclear : Clear st (.update callbacks)) (hst' : update st callbacks = some st') :
    ∃ l', Inv { st' with background := .draining } l' := by
  unfold SinkRelisten.update at hst'
  cases hserver : st.sink.server with
  | none =>
    rw [hserver] at hst'
    cases hst'
    exact ⟨l, h.listed, h.server, h.stage, fun u hu => (nomatch hu), fun _ => trivial⟩
  | some m =>
    rw [hserver] at hst'
    obtain ⟨l', hserved⟩ := (h.served hserver).callbacks (hclear m hserver) hst'
    have hstage : st'.stage = st.stage := congrArg (Option.map Prod.snd) (callbacks_threads hst').1
    refine ⟨l', hserved.listed, fun m' hm' => ?_, ?_, fun u hu => (nomatch hu), fun _ => trivial⟩
    · have hmm : m = m' := Option.some.inj (hserved.server.symm.trans hm')
      exact ⟨hmm ▸ hserved.memory, hserved.allocator⟩
    · show StageInv st'.sink st'.released l' st'.stage
      rw [hstage]
      exact (h.stage.of_server hserver).2.2 _ _ _ hserved.kept

/-! ## A step -/

/-- A step of `Listen` beside the background thread. -/
theorem Inv.listen {w : WebsocketSink A α (Connection α)} {call : Call A} {memory : Option α}
    {init : Bool} {stage : Stage α} {next : Option (Stage α)} (h : Inv st l)
    (hclear : Clear st (.listen memory init)) (hlistener : st.listener = some (call, stage))
    (hstep : listenStep st.sink call memory init stage = some (w, next)) :
    ∃ l', Inv { st with
      sink := w, listener := next.map fun stage => (call, stage)
      released := stage.releasedAfter st.sink memory st.released } l' := by
  have hst : st.stage = some stage := by rw [St.stage, hlistener, Option.map_some]
  have hstage := h.stage
  rw [hst] at hstage
  obtain ⟨l', hl', hserver, hstage', hstay⟩ := listenStep_inv h.listed h.server hstage hstep
  have hnext : St.stage { st with
      sink := w, listener := next.map fun stage => (call, stage)
      released := stage.releasedAfter st.sink memory st.released } = next := by
    cases next <;> rfl
  have hrelease : ReleaseClear st st.stage := hclear
  rw [hst] at hrelease
  refine ⟨l', hl', hserver, by rwa [hnext], fun u hu => ?_, fun hemptying => ?_⟩
  · rw [hnext]
    rcases h.background u hu with hmem | hold | hold
    · rcases hstay u hmem with hin | hout
      · exact Or.inl hin
      · exact Or.inr (Or.inl hout)
    · -- its buffer is released, and the session is next
      have hstageu : stage = .releaseBuffer u := Option.some.inj (hst.symm.trans hold)
      subst hstageu
      cases hstep
      exact Or.inr (Or.inr rfl)
    · -- the session is released, and the background thread is not at it
      have hstageu : stage = .releaseSession u := Option.some.inj (hst.symm.trans hold)
      subst hstageu
      exact absurd hu hrelease
  · -- the walk was over when the memory was released, or is so since
    rw [Emptying, hnext] at hemptying
    have hover : WalkOver st := by
      rcases listenStep_emptying hstep hemptying with rfl | htrue
      · exact hrelease
      · exact h.idle (by rw [Emptying, hst]; exact htrue)
    revert hover
    simp only [WalkOver]
    cases st.background with
    | advance walk s =>
      intro hover
      exact (listenStep_next h.listed hstage hstep s).trans hover
    | _ => exact id

/-- A step that meets the condition. -/
theorem step_inv {act : Act A α} (hclear : Clear st act) (hstep : step st act = some st')
    (h : ∃ l, Inv st l) : ∃ l, Inv st' l := by
  obtain ⟨l, h⟩ := h
  cases act with
  | call call =>
    simp only [step] at hstep
    split at hstep
    · rename_i hlistener
      cases hstep
      have hstage := h.stage
      rw [St.stage, hlistener] at hstage
      -- no call is in `Close`, so the background thread is at a session of the list
      refine ⟨l, h.listed, h.server, hstage, fun u hu => ?_,
        fun hemptying => (Bool.false_ne_true hemptying).elim⟩
      rcases h.background u hu with hmem | hold | hold
      · exact Or.inl hmem
      · simp [St.stage, hlistener] at hold
      · simp [St.stage, hlistener] at hold
    · cases hstep
  | listen memory init =>
    simp only [step] at hstep
    split at hstep
    · rename_i call stage hlistener
      obtain ⟨⟨w, next⟩, hw, hst'⟩ := Option.map_eq_some_iff.mp hstep
      cases hst'
      exact h.listen hclear hlistener hw
    · cases hstep
  | writeEvent =>
    simp only [step] at hstep
    split at hstep
    · cases hstep
      exact ⟨l, h.enter h.head_mem hclear⟩
    · cases hstep
  | flush =>
    simp only [step] at hstep
    split at hstep
    · cases hstep
      exact ⟨l, h.enter h.head_mem hclear⟩
    · cases hstep
  | writeSession sends bufpos buffer table =>
    simp only [step] at hstep
    split at hstep
    · rename_i s hs
      cases hstep
      exact ⟨l, h.visited hs (sameList_visited st.sink s bufpos buffer table)⟩
    · cases hstep
  | flushSession =>
    simp only [step] at hstep
    split at hstep
    · rename_i s hs
      cases hstep
      refine ⟨l, h.visited hs ?_⟩
      split
      · exact sameList_setBufpos st.sink s 0
      · exact sameList_refl st.sink
    · cases hstep
  | advance =>
    simp only [step] at hstep
    split at hstep
    · rename_i walk s hs
      cases hstep
      refine ⟨l, h.enter (h.next_mem (by rw [hs]; rfl)) fun hemptying => ?_⟩
      -- there the walk ends
      have hover := h.idle hemptying
      rwa [WalkOver, hs] at hover
    · cases hstep
  | update callbacks =>
    simp only [step] at hstep
    split at hstep
    · obtain ⟨st1, hst1, hst'⟩ := Option.map_eq_some_iff.mp hstep
      cases hst'
      exact h.update hclear hst1
    · cases hstep

/-! ## What the background thread uses -/

omit [DecidableEq α] in
/-- The session that the background thread is at has not been released. -/
theorem Inv.session_safe {s : α} (h : Inv st l) (hs : st.background.session = some s) :
    .session s ∉ st.released := by
  have hstage := h.stage
  rcases h.background s hs with hin | hbuffer | hreleased
  · exact h.listed.unreleased s (mem_own_of_mem hin (self_mem_own _ s))
  · rw [hbuffer] at hstage
    exact (hstage.2.apart s (self_mem_own _ s)).2
  · rw [hreleased] at hstage
    exact (hstage.2.apart s (List.mem_singleton.mpr rfl)).2

omit [DecidableEq α] in
/-- Of a session that is visited no block has been released, nor the memory that
its connection lies in. -/
theorem Inv.visit_safe {walk : Walk} {s : α} (h : Inv st l) (hs : st.background = .visit walk s) :
    (∀ b ∈ own st.sink.toSink s, .session b ∉ st.released) ∧
      .server (st.sink.session s).connection.1 ∉ st.released := by
  obtain ⟨hmem, hnot⟩ := h.visited_mem hs
  refine ⟨fun b hb => h.listed.unreleased b (mem_own_of_mem hmem hb), ?_⟩
  have hkept := h.stage.memory_kept (List.ne_nil_of_mem hmem) (not_emptying_iff.mp hnot)
  exact (hkept _ (h.listed.home s hmem)).2.2

/-- A step that meets the condition uses nothing that `Close` has released. -/
theorem use_safe {act : Act A α} (h : Inv st l) (hclear : Clear st act) : Safe st act := by
  cases act with
  | writeSession sends bufpos buffer table =>
    intro s hs
    obtain ⟨hblocks, hconnection⟩ := h.visit_safe hs
    exact ⟨hblocks, fun _ => hconnection⟩
  | flushSession =>
    intro s hs
    obtain ⟨hblocks, hconnection⟩ := h.visit_safe hs
    exact ⟨hblocks s (self_mem_own _ s),
      fun _ => ⟨fun b hb => hblocks b (buffer_mem_own hb), hconnection⟩⟩
  | advance =>
    intro walk s hs
    exact h.session_safe (by rw [hs]; rfl)
  | update callbacks =>
    intro _ m hserver
    have hserved := h.served hserver
    exact ⟨(hserved.kept m hserved.memory).2.2, hserved.list_safe (hclear m hserver)⟩
  | _ => trivial

/-! ## Runs -/

omit [DecidableEq α] in
theorem init_inv (session : α → Session α (Connection α)) (bytes : α → List UInt8) :
    Inv (init session bytes : St A α) [] :=
  ⟨listed_nil rfl, fun _ hm => (nomatch hm), fun _ hm => (nomatch hm), fun _ hu => (nomatch hu),
    fun hemptying => (nomatch hemptying)⟩

/-- Along every run whose steps meet the condition the background thread uses no
session, no block of one and no memory of a server that `Close` has released. -/
theorem relisten_safe (session : α → Session α (Connection α)) (bytes : α → List UInt8)
    (acts : List (Act A α)) (h : Along step Clear (init session bytes) acts) :
    Along step Safe (init session bytes) acts :=
  along_of_invariant step (fun _ _ _ hclear hstep hinv => step_inv hclear hstep hinv)
    (fun _ _ hinv hclear => hinv.elim fun _ h => use_safe h hclear)
    ⟨[], init_inv session bytes⟩ h

end

/-- Memory before anything has been written to it. -/
def blank : ℕ → Session ℕ (Connection ℕ) := fun _ => ⟨none, none, (0, 0), 0, none, none⟩

/-- A server in the block 0, with a session in the block 1 that has something to
send. -/
def connected : List (Act ℕ ℕ) :=
  [.call ⟨80, 1⟩] ++ List.replicate 5 (.listen none false) ++
  [.listen (some 0) false, .listen none true, .flush,
    .update [.connect 0 (some 1) (some 2) (some 3)], .writeEvent, .writeSession false 17 [] [],
    .advance]

/-- The server is replaced, and its blocks are used again. The background thread
is at the end of a walk when `Close` releases the memory. -/
def replaced : List (Act ℕ ℕ) :=
  connected ++ [.flush, .flushSession, .call ⟨81, 1⟩] ++ List.replicate 3 (.listen none false) ++
  [.advance, .update []] ++ List.replicate 7 (.listen none false) ++
  [.listen (some 1) false, .listen none true, .flush,
    .update [.connect 0 (some 2) (some 0) (some 4), .close (1, 0) 1]]

theorem relisten_safe_replaced : (run step (init blank fun _ => []) replaced).isSome ∧
    Along step Safe (init blank fun _ => []) replaced :=
  ⟨by decide, relisten_safe blank (fun _ => []) replaced (by decide)⟩

/-- The server is replaced while the background thread is about to flush the
session; it then flushes one that `Close` has released. -/
theorem relisten_visited :
    ∃ st st', run step (init blank fun _ => [])
      (connected ++ [.flush, .call ⟨81, 1⟩] ++ List.replicate 7 (.listen none false)) = some st ∧
      step st .flushSession = some st' ∧ ¬ Safe st .flushSession := by
  refine ⟨_, _, rfl, rfl, fun hsafe => ?_⟩
  exact (hsafe 1 rfl).1 (by decide)

end Yardstick.SinkRelisten
