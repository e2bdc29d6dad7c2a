import Yardstick.SinkRelisten

/-!
# SinkRelistenList — the list of sessions while a sink listens

What `Listen`, `Close` and the callbacks of the server do to the list of
sessions, as long as only its head is taken out. A block that has been released
may come back as a block of another session or as the memory of another server.

* `Listed`: the list, with blocks that are out, each of one session, and not
  released by `Close`;
* `Listed.unlink`, `Listed.release`: the steps of `DestroySession`;
* `Served.callback`: what a callback of the server leaves.
-/

namespace Yardstick.SinkRelisten

open Chain Runs SinkListen
open SinkSessions (Session Sink)
open SinkBlocks (Granted own)

variable {A α : Type*} [DecidableEq α]

/-! ## The list -/

/-- The list visits the sessions of `l`. Their blocks are out, each is of one of
them, and none has been released by `Close`; the connections of the sessions lie
in the memory of the server. -/
structure Listed (w : WebsocketSink A α (Connection α)) (released : List (Piece α))
    (l : List α) : Prop where
  path : Path w.next w.sessions l
  prev : ∀ u ∈ l, (w.session u).prev = none
  nodup : (l.flatMap (own w.toSink)).Nodup
  out : ∀ b ∈ l.flatMap (own w.toSink), b ∈ w.blocks
  unreleased : ∀ b ∈ l.flatMap (own w.toSink), .session b ∉ released
  home : ∀ u ∈ l, w.memory = some (w.session u).connection.1

/-- The memory of the server is out, is no block of a session, and has not been
released by `Close`. -/
def MemoryKept (w : WebsocketSink A α (Connection α)) (released : List (Piece α)) (l : List α) :
    Prop :=
  ∀ m, w.memory = some m →
    m ∈ w.blocks ∧ m ∉ l.flatMap (own w.toSink) ∧ .server m ∉ released

/-- `s` is out of the list, and the given blocks of it are not released. -/
structure Detached (w : WebsocketSink A α (Connection α)) (released : List (Piece α))
    (l : List α) (s : α) (blocks : List α) : Prop where
  next : w.next s = w.sessions
  nodup : blocks.Nodup
  apart : ∀ b ∈ blocks, b ∉ l.flatMap (own w.toSink) ∧ .session b ∉ released

/-- `y` has the links, the connection and the blocks of `x`. -/
structure Alike {κ : Type*} (x y : Session α κ) : Prop where
  next : y.next = x.next
  connection : y.connection = x.connection
  buffer : y.buffer = x.buffer
  table : y.table = x.table
  prev : x.prev = none → y.prev = none

omit [DecidableEq α] in
theorem alike_refl {κ : Type*} (x : Session α κ) : Alike x x := ⟨rfl, rfl, rfl, rfl, id⟩

omit [DecidableEq α] in
theorem Alike.trans {κ : Type*} {x y z : Session α κ} (h : Alike x y) (h' : Alike y z) :
    Alike x z :=
  ⟨h'.next.trans h.next, h'.connection.trans h.connection, h'.buffer.trans h.buffer,
    h'.table.trans h.table, h'.prev ∘ h.prev⟩

/-- `DestroySession` takes a session without a back link out of the list. -/
theorem alike_unlinkSession {κ : Type*} {k : Sink α κ} {s : α} (hprev : (k.session s).prev = none)
    (u : α) : Alike (k.session u) ((SinkSessions.unlinkSession k s).session u) := by
  obtain ⟨hnext, hconnection, hback⟩ := (SinkSessions.unlinkSession_links hprev).1 u
  exact ⟨hnext, hconnection, SinkSessions.unlinkSession_buffer k s u,
    SinkSessions.unlinkSession_field k s u Session.table (fun _ _ => rfl)
      fun _ _ => rfl, hback⟩

omit [DecidableEq α] in
theorem Alike.own_eq {κ : Type*} {k k' : Sink α κ} {u : α}
    (h : Alike (k.session u) (k'.session u)) : own k' u = own k u := by
  rw [own, own, h.buffer, h.table]

omit [DecidableEq α] in
theorem flatMap_own {κ : Type*} {k k' : Sink α κ} {l : List α}
    (h : ∀ u ∈ l, Alike (k.session u) (k'.session u)) : l.flatMap (own k') = l.flatMap (own k) :=
  List.flatMap_congr fun u hu => (h u hu).own_eq

section
variable {w w' : WebsocketSink A α (Connection α)} {released : List (Piece α)} {l : List α}

omit [DecidableEq α] in
theorem self_mem_own (k : Sink α (Connection α)) (u : α) : u ∈ own k u := List.mem_cons_self

omit [DecidableEq α] in
theorem mem_own_of_mem {k : Sink α (Connection α)} {b u : α} (hu : u ∈ l) (hb : b ∈ own k u) :
    b ∈ l.flatMap (own k) :=
  List.mem_flatMap.mpr ⟨u, hu, hb⟩

omit [DecidableEq α] in
theorem buffer_mem_own {k : Sink α (Connection α)} {b u : α} (hb : b ∈ (k.session u).buffer) :
    b ∈ own k u :=
  List.mem_cons_of_mem u (List.mem_append_left _ (Option.mem_toList.mpr hb))

omit [DecidableEq α] in
/-- Nothing that the list depends on has changed. -/
theorem Listed.congr {released' : List (Piece α)} (h : Listed w released l)
    (hsessions : w'.sessions = w.sessions)
    (halike : ∀ u ∈ l, Alike (w.session u) (w'.session u)) (hmemory : w'.memory = w.memory)
    (hout : ∀ b ∈ l.flatMap (own w.toSink), b ∈ w'.blocks)
    (hreleased : ∀ b ∈ l.flatMap (own w.toSink), .session b ∉ released') :
    Listed w' released' l := by
  have hown := flatMap_own halike
  refine ⟨?_, fun u hu => (halike u hu).prev (h.prev u hu), ?_, ?_, ?_, ?_⟩
  · rw [hsessions]
    exact h.path.congr fun u hu => (halike u hu).next.symm
  · rw [hown]
    exact h.nodup
  · rw [hown]
    exact hout
  · rw [hown]
    exact hreleased
  · intro u hu
    rw [hmemory, (halike u hu).connection]
    exact h.home u hu

omit [DecidableEq α] in
/-- Where the sessions have not changed either. -/
theorem Listed.same (h : Listed w released l) (hsession : w'.session = w.session)
    (hsessions : w'.sessions = w.sessions) (hmemory : w'.memory = w.memory)
    (hblocks : w'.blocks = w.blocks) : Listed w' released l := by
  refine h.congr hsessions (fun u _ => ?_) hmemory (fun b hb => ?_) h.unreleased
  · rw [hsession]
    exact alike_refl _
  · rw [hblocks]
    exact h.out b hb

/-! ## The steps of DestroySession -/

/-- A block that is not released stays out. -/
theorem mem_release_blocks {m : Option α} {b : α} (hb : b ∈ w.blocks) (hm : m ≠ some b) :
    b ∈ (w.release m).blocks := by
  unfold WebsocketSink.release
  split
  · rename_i a b' _
    have hne : b ≠ b' := fun heq => hm (congrArg some heq.symm)
    exact (List.mem_erase_of_ne hne).mpr hb
  · exact hb

/-- A block is released that is of no session of the list. -/
theorem Listed.release {m : Option α} {released' : List (Piece α)} (h : Listed w released l)
    (hm : ∀ b ∈ m, b ∉ l.flatMap (own w.toSink))
    (hreleased : ∀ b ∈ l.flatMap (own w.toSink), .session b ∉ released') :
    Listed (w.release m) released' l := by
  refine h.congr (w.release_sessions m) (fun u _ => ?_) (w.release_memory m) (fun b hb => ?_)
    hreleased
  · rw [w.release_session m]
    exact alike_refl _
  · exact mem_release_blocks (h.out b hb) fun heq => hm b heq hb

/-- What has left the list has nothing to do with a block that is released. -/
theorem Detached.release {s : α} {blocks : List α} {m : Option α}
    (h : Detached w released l s blocks) : Detached (w.release m) released l s blocks := by
  have hsession := w.release_session m
  have hown : l.flatMap (own (w.release m).toSink) = l.flatMap (own w.toSink) :=
    flatMap_own fun u _ => by
      rw [hsession]
      exact alike_refl _
  refine ⟨?_, h.nodup, ?_⟩
  · unfold Sink.next
    rw [hsession, w.release_sessions m]
    exact h.next
  · rw [hown]
    exact h.apart

/-- The memory of the server is kept when another block is released. -/
theorem MemoryKept.release {m : Option α} (h : MemoryKept w released l)
    (hm : ∀ b ∈ m, w.memory ≠ some b) : MemoryKept (w.release m) released l := by
  have hown : l.flatMap (own (w.release m).toSink) = l.flatMap (own w.toSink) :=
    flatMap_own fun u _ => by
      rw [w.release_session m]
      exact alike_refl _
  intro m' hm'
  rw [w.release_memory m] at hm'
  obtain ⟨hout, hapart, hreleased⟩ := h m' hm'
  refine ⟨mem_release_blocks hout fun heq => hm m' heq hm', ?_, hreleased⟩
  rwa [hown]

/-- The first session leaves the list; its blocks are not those of the others. -/
theorem Listed.unlink {s : α} (h : Listed w released (s :: l)) :
    Listed { w with toSink := SinkSessions.unlinkSession w.toSink s } released l ∧
      Detached { w with toSink := SinkSessions.unlinkSession w.toSink s } released l s
        (own (SinkSessions.unlinkSession w.toSink s) s) := by
  have hprev := h.prev s List.mem_cons_self
  have halike := fun v => alike_unlinkSession hprev v
  have hsessions : (SinkSessions.unlinkSession w.toSink s).sessions = w.next s := by
    rw [(SinkSessions.unlinkSession_links hprev).2, if_pos h.path.1]
  have hblocks := SinkBlocks.unlinkSession_blocks w.toSink s
  obtain ⟨hnodup, hout, hunreleased⟩ := And.intro h.nodup (And.intro h.out h.unreleased)
  rw [List.flatMap_cons] at hnodup hout hunreleased
  have hparts := List.nodup_append.mp hnodup
  -- the rest is a list by itself
  have hrest : Listed { w with toSink := { w.toSink with sessions := w.next s } } released l :=
    ⟨h.path.2, fun u hu => h.prev u (List.mem_cons_of_mem s hu), hparts.2.1,
      fun b hb => hout b (List.mem_append_right _ hb),
      fun b hb => hunreleased b (List.mem_append_right _ hb),
      fun u hu => h.home u (List.mem_cons_of_mem s hu)⟩
  constructor
  · refine hrest.congr hsessions (fun v _ => halike v) rfl (fun b hb => ?_) hrest.unreleased
    show b ∈ (SinkSessions.unlinkSession w.toSink s).blocks
    rw [hblocks]
    exact hrest.out b hb
  · -- what leaves has no block in common with the rest
    rw [(halike s).own_eq]
    refine ⟨(halike s).next.trans hsessions.symm, hparts.1, fun b hb => ?_⟩
    rw [flatMap_own (k := w.toSink) fun v _ => halike v]
    exact ⟨fun hmem => hparts.2.2 b hb b hmem rfl, hunreleased b (List.mem_append_left _ hb)⟩

/-- The memory of the server is no block of the session that leaves either. -/
theorem MemoryKept.unlink {s : α} (h : MemoryKept w released (s :: l))
    (hprev : (w.session s).prev = none) :
    MemoryKept { w with toSink := SinkSessions.unlinkSession w.toSink s } released l := by
  intro m hm
  obtain ⟨hout, hapart, hreleased⟩ := h m hm
  rw [List.flatMap_cons, List.mem_append, not_or] at hapart
  refine ⟨?_, ?_, hreleased⟩
  · show m ∈ (SinkSessions.unlinkSession w.toSink s).blocks
    rwa [SinkBlocks.unlinkSession_blocks]
  · rw [flatMap_own (k := w.toSink) fun v _ => alike_unlinkSession hprev v]
    exact hapart.2

/-- `DestroySession` of the head. -/
theorem Listed.destroySession {s : α} (h : Listed w released (s :: l))
    (hkept : MemoryKept w released (s :: l)) :
    Listed (destroySession w s) released l ∧ MemoryKept (destroySession w s) released l := by
  have hprev := h.prev s List.mem_cons_self
  obtain ⟨hlisted, hdetached⟩ := h.unlink
  have hown := (alike_unlinkSession hprev s).own_eq
  have hmemory : ∀ b ∈ own (SinkSessions.unlinkSession w.toSink s) s, w.memory ≠ some b := by
    intro b hb heq
    rw [hown] at hb
    exact (hkept b heq).2.1 (mem_own_of_mem List.mem_cons_self hb)
  have hbuffer : ∀ b ∈ ((SinkSessions.unlinkSession w.toSink s).session s).buffer,
      b ∈ own (SinkSessions.unlinkSession w.toSink s) s := fun b hb => buffer_mem_own hb
  have hself : ∀ b ∈ some s, b ∈ own (SinkSessions.unlinkSession w.toSink s) s := by
    intro b hb
    obtain rfl := Option.mem_some_iff.mp hb
    exact self_mem_own _ _
  -- the buffer is released, and then the session
  have hfirst := hlisted.release (fun b hb => (hdetached.apart b (hbuffer b hb)).1)
    hlisted.unreleased
  have hkept1 := (hkept.unlink hprev).release fun b hb => hmemory b (hbuffer b hb)
  constructor
  · refine hfirst.release (fun b hb => ?_) hfirst.unreleased
    exact (hdetached.release.apart b (hself b hb)).1
  · refine hkept1.release fun b hb => ?_
    rw [WebsocketSink.release_memory]
    exact hmemory b (hself b hb)

/-! ## CreateSession -/

omit [DecidableEq α] in
/-- Blocks that are granted are of no session of the list. -/
theorem Listed.not_own {memory buffer table : Option α} (h : Listed w released l)
    (hgranted : Granted w.toSink memory buffer table) {b : α}
    (hb : b ∈ memory.toList ++ buffer.toList ++ table.toList) :
    b ∉ l.flatMap (own w.toSink) := fun hmem => hgranted.2 b hb (h.out b hmem)

omit [DecidableEq α] in
theorem Listed.not_granted {memory buffer table : Option α} (h : Listed w released l)
    (hgranted : Granted w.toSink memory buffer table) {u : α} (hu : u ∈ l) : memory ≠ some u := by
  rintro rfl
  exact h.not_own hgranted (by simp) (mem_own_of_mem hu (self_mem_own _ u))

/-- A session that does not come about. -/
theorem Listed.create_null {c : Connection α} {memory buffer table : Option α}
    {released' : List (Piece α)} (h : Listed w released l) (hkept : MemoryKept w released l)
    (hgranted : Granted w.toSink memory buffer table)
    (hnull : (SinkSessions.createSession w.toSink c memory buffer table).1 = none)
    (hsink : w'.toSink = (SinkSessions.createSession w.toSink c memory buffer table).2)
    (hmemory : w'.memory = w.memory) (hreleased : ∀ x ∈ released', x ∈ released) :
    Listed w' released' l ∧ MemoryKept w' released' l := by
  -- no block that is granted is the head, so `CreateSession` does not touch it
  have hhead : ∀ u, w.sessions = some u → memory ≠ some u ∧ (w.session u).prev = none := by
    intro u hu
    have hpath := h.path
    rw [hu] at hpath
    exact ⟨h.not_granted hgranted hpath.head_mem, h.prev u hpath.head_mem⟩
  obtain ⟨session, hcreate, hsame⟩ := SinkBlocks.createSession_null hhead hnull
  rw [hcreate] at hsink
  have halike : ∀ u ∈ l, Alike (w.session u) (w'.session u) := by
    intro u hu
    rw [hsink, ← hsame u (h.not_granted hgranted hu)]
    exact alike_refl _
  have hblocks : w'.blocks = w.blocks := by rw [hsink]
  constructor
  · refine h.congr (by rw [hsink]) halike hmemory (fun b hb => ?_)
      fun b hb hmem => h.unreleased b hb (hreleased _ hmem)
    rw [hblocks]
    exact h.out b hb
  · intro m hm
    obtain ⟨hout, hapart, hnot⟩ := hkept m (hmemory ▸ hm)
    rw [flatMap_own halike, hblocks]
    exact ⟨hout, hapart, fun hmem => hnot (hreleased _ hmem)⟩

/-- A session with three blocks that were not out becomes the head of the list. -/
theorem Listed.create {c : Connection α} {s b t : α} (h : Listed w released l)
    (hkept : MemoryKept w released l) (hgranted : Granted w.toSink (some s) (some b) (some t))
    (hhome : w.memory = some c.1) (hsink : w'.toSink = SinkSessions.created w.toSink c s b t)
    (hmemory : w'.memory = w.memory) {released' : List (Piece α)}
    (hreleased : ∀ x ∈ released', x ∈ released)
    (hobtained : ∀ x ∈ [s, b, t], Piece.session x ∉ released') :
    Listed w' released' (s :: l) ∧ MemoryKept w' released' (s :: l) := by
  obtain ⟨-, hsessions, hsession⟩ := SinkSessions.createSession_done w.toSink c s b t
  rw [← hsink] at hsessions hsession
  have hblocks : w'.blocks = t :: b :: s :: w.blocks := by
    rw [hsink]
    rfl
  have hnew : ∀ x ∈ [s, b, t], x ∉ w.blocks := fun x hx => hgranted.2 x (by simpa using hx)
  have hne : ∀ u ∈ l, u ≠ s := fun u hu heq =>
    h.not_granted hgranted hu (congrArg some heq.symm)
  have halike : ∀ u ∈ l, Alike (w.session u) (w'.session u) := by
    intro u hu
    rw [hsession, Function.update_of_ne (hne u hu)]
    exact alike_refl _
  have hself : w'.session s = ⟨none, w.sessions, c, 0, some b, some t⟩ := by
    rw [hsession, Function.update_self]
  have hflat : (s :: l).flatMap (own w'.toSink) = [s, b, t] ++ l.flatMap (own w.toSink) := by
    rw [List.flatMap_cons, flatMap_own halike, own, hself]
    rfl
  have hrest : Listed { w' with toSink := { w'.toSink with sessions := w.sessions } } released' l :=
    h.congr rfl halike hmemory (fun x hx => by simp [hblocks, h.out x hx])
      fun x hx hmem => h.unreleased x hx (hreleased _ hmem)
  refine ⟨⟨⟨hsessions, ?_⟩, ?_, ?_, ?_, ?_, ?_⟩, fun m hm => ?_⟩
  · have hnext : w'.next s = w.sessions := congrArg Session.next hself
    rw [hnext]
    exact hrest.path
  · intro u hu
    rcases List.mem_cons.mp hu with rfl | hu
    · rw [hself]
    · exact hrest.prev u hu
  · -- the new blocks are distinct, and were not out before
    rw [hflat]
    refine List.nodup_append.mpr ⟨by simpa using hgranted.1, h.nodup, ?_⟩
    rintro x hx y hy rfl
    exact hnew x hx (h.out x hy)
  · rw [hflat, hblocks]
    intro x hx
    rcases List.mem_append.mp hx with hx | hx
    · simp at hx ⊢
      tauto
    · simp [h.out x hx]
  · rw [hflat]
    intro x hx
    rcases List.mem_append.mp hx with hx | hx
    · exact hobtained x hx
    · exact fun hmem => h.unreleased x hx (hreleased _ hmem)
  · intro u hu
    rcases List.mem_cons.mp hu with rfl | hu
    · rw [hmemory, hself, hhome]
    · exact hrest.home u hu
  · obtain ⟨hout, hapart, hnot⟩ := hkept m (hmemory ▸ hm)
    rw [hflat, hblocks]
    refine ⟨by simp [hout], ?_, fun hmem => hnot (hreleased _ hmem)⟩
    intro hmem
    rcases List.mem_append.mp hmem with hx | hx
    · exact hnew m hx hout
    · exact hapart hx

end

/-! ## The callbacks -/

/-- The server lies in `m`, and there is a list. -/
structure Served (m : α) (st : St A α) (l : List α) : Prop where
  listed : Listed st.sink st.released l
  kept : MemoryKept st.sink st.released l
  allocator : st.sink.allocator ≠ none
  memory : st.sink.memory = some m
  server : st.sink.server = some m

/-- `CreateSession` does not touch the server. -/
theorem createSession_rest (w : WebsocketSink A α (Connection α)) (c : Connection α)
    (memory buffer table : Option α) :
    let r := (SinkResources.createSession w c memory buffer table).2
    r.memory = w.memory ∧ r.server = w.server ∧ r.allocator = w.allocator := by
  rcases SinkResources.createSession_cases w c memory buffer table with ⟨-, hcreate⟩ |
    ⟨s, -, -, hcreate⟩ | ⟨s, b, -, -, -, hcreate⟩ | ⟨s, b, t, -, -, -, hcreate⟩
  all_goals simp [hcreate]

section
variable {st st' : St A α} {m : α} {l : List α}

/-- A callback that closes none but the newest connection. -/
theorem Served.callback {cb : Callback α} (h : Served m st l) (hclear : HeadClosed st cb)
    (hcb : callback m st cb = some st') : ∃ l', Served m st' l' := by
  cases cb with
  | connect place memory buffer table =>
    obtain ⟨hgranted, hst'⟩ := Option.ite_none_right_eq_some.mp hcb
    cases hst'
    obtain ⟨hmemory, hserver, hallocator⟩ := createSession_rest st.sink (m, place) memory buffer
      table
    obtain ⟨-, hsink⟩ := SinkResources.createSession_toSink st.sink (m, place) memory buffer table
      h.allocator
    have hsubset : ∀ x ∈ st.released.filter
        (· ∉ (Callback.connect place memory buffer table).obtains), x ∈ st.released :=
      fun x hx => List.mem_of_mem_filter hx
    by_cases hnull : (SinkSessions.createSession st.sink.toSink (m, place) memory buffer table).1 =
        none
    · obtain ⟨hlisted, hkept⟩ := h.listed.create_null h.kept hgranted hnull hsink hmemory hsubset
      exact ⟨l, hlisted, hkept, hallocator ▸ h.allocator, hmemory.trans h.memory,
        hserver.trans h.server⟩
    · -- all three allocations have succeeded
      rw [SinkBlocks.createSession_null_iff, not_or, not_or] at hnull
      obtain ⟨s, rfl⟩ := Option.ne_none_iff_exists'.mp hnull.1
      obtain ⟨b, rfl⟩ := Option.ne_none_iff_exists'.mp hnull.2.1
      obtain ⟨t, rfl⟩ := Option.ne_none_iff_exists'.mp hnull.2.2
      obtain ⟨hlisted, hkept⟩ := h.listed.create h.kept hgranted h.memory hsink hmemory hsubset
        fun x hx hmem => by
          have hnot := (List.mem_filter.mp hmem).2
          simp [Callback.obtains] at hx hnot
          tauto
      exact ⟨s :: l, hlisted, hkept, hallocator ▸ h.allocator, hmemory.trans h.memory,
        hserver.trans h.server⟩
  | close c fuel =>
    obtain ⟨s, hs, hc⟩ := hclear
    simp only [SinkRelisten.callback] at hcb
    split at hcb
    · rename_i u hfind
      cases hcb
      -- the lookup ends at the head
      have hpath := h.listed.path
      have hlookup := SinkSessions.find_of_findFrom hpath hfind
      cases l with
      | nil =>
        rw [path_nil.mp hpath] at hs
        cases hs
      | cons v l =>
        have hvs : v = s := Option.some.inj (hpath.1.symm.trans hs)
        subst hvs
        rw [List.find?_cons_of_pos (by simpa using hc)] at hlookup
        cases hlookup
        obtain ⟨hlisted, hkept⟩ := h.listed.destroySession h.kept
        exact ⟨l, hlisted, hkept, by simpa using h.allocator, by simpa using h.memory,
          by simpa using h.server⟩
    · cases hcb

theorem served_step (s : St A α) (cb : Callback α) (s' : St A α) (hclear : HeadClosed s cb)
    (hcb : SinkRelisten.callback m s cb = some s') (h : ∃ l, Served m s l) :
    ∃ l, Served m s' l := by
  obtain ⟨l, h⟩ := h
  exact h.callback hclear hcb

theorem Served.callbacks {cbs : List (Callback α)} (h : Served m st l)
    (hclear : Along (SinkRelisten.callback m) HeadClosed st cbs)
    (hrun : run (SinkRelisten.callback m) st cbs = some st') : ∃ l, Served m st' l :=
  run_invariant_along _ served_step hclear ⟨l, h⟩ hrun

/-- The list may be followed at every callback. -/
theorem Served.list_safe {cbs : List (Callback α)} (h : Served m st l)
    (hclear : Along (SinkRelisten.callback m) HeadClosed st cbs) :
    Along (SinkRelisten.callback m) (fun st _ => ListSafe st) st cbs := by
  refine along_of_invariant _ served_step (fun s _ hs _ => ?_) ⟨l, h⟩ hclear
  obtain ⟨l', hs⟩ := hs
  intro front b hsegment
  exact hs.listed.unreleased b
    (mem_own_of_mem (hs.listed.path.segment_mem hsegment) (self_mem_own _ b))

end

end Yardstick.SinkRelisten
