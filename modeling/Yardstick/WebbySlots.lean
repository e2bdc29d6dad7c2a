import Mathlib
import Yardstick.Base.Compaction
import Yardstick.WebbyServer

/-!
# WebbySlots — what the connections of the server own

`WebbyServerInit` gives each entry of the connection array two buffers in the
memory of the server, and `wb_on_incoming` gives it a socket. Both are in the
entry that `memmove` copies when `WebbyServerUpdate` closes the gap a connection
leaves.

* `buffers_apart_iff`: no two connections ever share a byte of a buffer exactly
  when their number stays below what it was when one was closed in front of
  others;
* `sockets_owned_iff`: every accepted socket is owned by one connection or has
  been closed once, exactly when a socket that cannot be configured finds an
  entry that owns none;
* `connections_refined`: the array holds the list of connections.
-/

namespace Yardstick.WebbySlots

open Compaction Runs WebbyServer

/-! ## The memory of the server -/

/-- The sizes that `WebbyServerMemoryNeeded` computes with, and the place of the
array of one connection at the end of a `WebbyServer`. -/
structure Layout where
  serverSize : ℕ
  connectionsAt : ℕ
  connectionSize : ℕ
  connectionMax : ℕ
  requestBufferSize : ℕ
  ioBufferSize : ℕ
  connection_fits : connectionsAt + connectionSize ≤ serverSize

/-- `WB_ALIGN_ARB` for a power of two, where clearing the low bits is
subtracting the remainder. -/
def wbAlign (x a : ℕ) : ℕ := x + (a - 1) - (x + (a - 1)) % a

theorem le_wbAlign (x : ℕ) : x ≤ wbAlign x 16 := by
  unfold wbAlign
  omega

namespace Layout

def buffersAt (l : Layout) : ℕ :=
  wbAlign l.serverSize 16 + wbAlign ((l.connectionMax - 1) * l.connectionSize) 16

/-- `WebbyServerMemoryNeeded`. -/
def memoryNeeded (l : Layout) : ℕ :=
  l.buffersAt + l.connectionMax * l.requestBufferSize + l.connectionMax * l.ioBufferSize

def arrayEnd (l : Layout) : ℕ := l.connectionsAt + l.connectionMax * l.connectionSize

/-- The array ends in front of the buffers. -/
theorem arrayEnd_le (l : Layout) (h : 0 < l.connectionMax) : l.arrayEnd ≤ l.buffersAt := by
  have hfits := l.connection_fits
  have hserver := le_wbAlign l.serverSize
  have hothers := le_wbAlign ((l.connectionMax - 1) * l.connectionSize)
  have hmax : l.connectionMax * l.connectionSize =
      l.connectionSize + (l.connectionMax - 1) * l.connectionSize := by
    rw [← Nat.succ_pred_eq_of_pos h, Nat.succ_mul, Nat.add_comm]
    rfl
  unfold arrayEnd buffersAt
  omega

end Layout

/-! ## The array -/

/-- An entry: where its two buffers are, its socket (`none` for
`WB_INVALID_SOCKET`), and what the sink sees of it. -/
structure Slot where
  headerData : ℕ
  ioData : ℕ
  socket : Option ℕ
  conn : Conn

namespace Slot

/-- The bytes of its buffers. -/
def bytes (l : Layout) (s : Slot) : Set ℕ :=
  Set.Ico s.headerData (s.headerData + l.requestBufferSize) ∪
    Set.Ico s.ioData (s.ioData + l.ioBufferSize)

def buffers (s : Slot) : ℕ × ℕ := (s.headerData, s.ioData)

end Slot

/-- The array with `connection_count`, the number of sockets accepted and the
sockets closed. Accepted sockets are numbered from 1; the `memset` of
`WebbyServerInit` leaves 0. `limit` is not in the code: it is the number of
connections there may be without two of them having the same buffers. -/
structure St where
  slots : List Slot
  count : ℕ
  accepted : ℕ
  closed : List ℕ
  limit : ℕ

/-- The loop of `WebbyServerInit`, for `n` more entries. -/
def initSlots (l : Layout) : ℕ → ℕ → List Slot
  | 0, _ => []
  | n + 1, buffer =>
    ⟨buffer, buffer + l.requestBufferSize, some 0, ⟨0, false⟩⟩ ::
      initSlots l n (buffer + l.requestBufferSize + l.ioBufferSize)

def init (l : Layout) : St :=
  { slots := initSlots l l.connectionMax l.buffersAt, count := 0, accepted := 0, closed := []
    limit := l.connectionMax }

inductive Act where
  /-- `wb_on_incoming`; `false` if the socket cannot be configured. -/
  | accept (configured : Bool)
  | upgrade (place : ℕ)
  /-- `wb_close_client` and the `memmove` behind it. -/
  | close (place : ℕ)

/-- The entry of a new connection. Only a socket that was configured is stored. -/
def filled (st : St) (configured : Bool) (s : Slot) : Slot :=
  { s with
    socket := if configured then some (st.accepted + 1) else s.socket
    conn := ⟨st.accepted, false⟩ }

def step (l : Layout) (st : St) : Act → Option St
  | .accept configured =>
    if st.count = l.connectionMax then none
    else
      st.slots[st.count]?.map fun s => { st with
        slots := st.slots.set st.count (filled st configured s)
        count := st.count + 1
        accepted := st.accepted + 1
        closed := if configured then st.closed else (st.accepted + 1) :: st.closed }
  | .upgrade place =>
    if place < st.count then
      st.slots[place]?.map fun s => { st with
        slots := st.slots.set place { s with conn := { s.conn with websocket := true } } }
    else none
  | .close place =>
    if place < st.count then
      st.slots[place]?.map fun s => { st with
        slots := move (st.slots.set place { s with
          socket := none, conn := { s.conn with websocket := false } })
          place (place + 1) (st.count - place - 1)
        count := st.count - 1
        closed := s.socket.toList ++ st.closed
        limit := if place + 1 < st.count then st.count - 1 else st.limit }
    else none

/-! ## What a step does -/

/-- The entries in use. -/
def used (st : St) : List Slot := st.slots.take st.count

/-- The lengths fit. -/
structure Sized (l : Layout) (st : St) : Prop where
  length : st.slots.length = l.connectionMax
  count_le : st.count ≤ l.connectionMax

/-- A slot that is replaced by one with its buffers. -/
theorem map_set_buffers {slots : List Slot} {place : ℕ} {s s' : Slot}
    (hs : slots[place]? = some s) (hbuffers : s'.buffers = s.buffers) :
    (slots.set place s').map Slot.buffers = slots.map Slot.buffers := by
  rw [List.map_set, hbuffers]
  apply List.ext_getElem?
  intro i
  rw [List.getElem?_set]
  split
  · rename_i heq
    subst heq
    obtain ⟨hlt, rfl⟩ := List.getElem?_eq_some_iff.mp hs
    simp [hlt]
  · rfl

/-- A new connection takes the entry behind those in use. -/
theorem accept_cases {l : Layout} {st st' : St} {configured : Bool}
    (h : step l st (.accept configured) = some st') :
    ∃ s, st.slots[st.count]? = some s ∧ used st' = used st ++ [filled st configured s] ∧
      st'.slots.length = st.slots.length ∧
      st'.slots.map Slot.buffers = st.slots.map Slot.buffers ∧
      st.count ≠ l.connectionMax ∧ st'.count = st.count + 1 ∧ st'.accepted = st.accepted + 1 ∧
      st'.closed = (if configured then st.closed else (st.accepted + 1) :: st.closed) ∧
      st'.limit = st.limit := by
  rw [step] at h
  split at h
  · cases h
  · rename_i hmax
    rcases Option.map_eq_some_iff.mp h with ⟨s, hs, rfl⟩
    obtain ⟨hlt, -⟩ := List.getElem?_eq_some_iff.mp hs
    refine ⟨s, hs, ?_, List.length_set, map_set_buffers hs rfl, hmax, rfl, rfl, rfl, rfl⟩
    rw [used, used, List.take_add_one, List.take_set_of_le (Nat.le_refl _),
      List.getElem?_set_self hlt]
    rfl

/-- What an upgrade does: it marks one slot in use, and moves none. -/
theorem upgrade_cases {l : Layout} {st st' : St} {place : ℕ}
    (h : step l st (.upgrade place) = some st') :
    ∃ s, (used st)[place]? = some s ∧
      used st' = (used st).set place { s with conn := { s.conn with websocket := true } } ∧
      st'.slots.length = st.slots.length ∧
      st'.slots.map Slot.buffers = st.slots.map Slot.buffers ∧ st'.count = st.count ∧
      st'.accepted = st.accepted ∧ st'.closed = st.closed ∧ st'.limit = st.limit := by
  rw [step] at h
  split at h
  · rename_i hplace
    rcases Option.map_eq_some_iff.mp h with ⟨s, hs, rfl⟩
    refine ⟨s, ?_, ?_, List.length_set, map_set_buffers hs rfl, rfl, rfl, rfl, rfl⟩
    · rw [used, List.getElem?_take_of_lt hplace, hs]
    · rw [used, used, List.take_set]
  · cases h

/-- A connection that goes leaves the others in order, and its entry behind them. -/
theorem close_cases {l : Layout} {st st' : St} (hsized : Sized l st) {place : ℕ}
    (h : step l st (.close place) = some st') :
    ∃ s, (used st)[place]? = some s ∧ place < st.count ∧ used st' = (used st).eraseIdx place ∧
      st'.slots.length = st.slots.length ∧
      st'.slots.map Slot.buffers =
        move (st.slots.map Slot.buffers) place (place + 1) (st.count - place - 1) ∧
      st'.count = st.count - 1 ∧ st'.accepted = st.accepted ∧
      st'.closed = s.socket.toList ++ st.closed ∧
      st'.limit = if place + 1 < st.count then st.count - 1 else st.limit := by
  rw [step] at h
  split at h
  · rename_i hplace
    rcases Option.map_eq_some_iff.mp h with ⟨s, hs, rfl⟩
    -- the slots in use are within the array
    have hcount : st.count ≤ st.slots.length := by
      rw [hsized.length]
      exact hsized.count_le
    refine ⟨s, ?_, hplace, ?_, ?_, ?_, rfl, rfl, rfl, rfl⟩
    · rw [used, List.getElem?_take_of_lt hplace, hs]
    · rw [used, used]
      dsimp only
      rw [take_move hplace (by rw [List.length_set]; exact hcount), List.take_set,
        List.eraseIdx_set_eq]
    · rw [length_move hplace (by rw [List.length_set]; exact hcount), List.length_set]
    · rw [map_move]
      congr 1
      exact map_set_buffers hs rfl
  · cases h

/-- No step changes how many slots there are. -/
theorem step_sized {l : Layout} {st st' : St} {a : Act} (h : step l st a = some st')
    (hsized : Sized l st) : Sized l st' := by
  have hcount := hsized.count_le
  cases a with
  | accept configured =>
    rcases accept_cases h with ⟨s, -, -, hlength, -, hmax, hcount', -⟩
    exact ⟨hlength.trans hsized.length, by omega⟩
  | upgrade place =>
    rcases upgrade_cases h with ⟨s, -, -, hlength, -, hcount', -⟩
    exact ⟨hlength.trans hsized.length, by omega⟩
  | close place =>
    rcases close_cases hsized h with ⟨s, -, -, -, hlength, -, hcount', -⟩
    exact ⟨hlength.trans hsized.length, by omega⟩

theorem length_initSlots (l : Layout) (n buffer : ℕ) : (initSlots l n buffer).length = n := by
  induction n generalizing buffer with
  | zero => rfl
  | succ n ih => rw [initSlots, List.length_cons, ih]

theorem init_sized (l : Layout) : Sized l (init l) :=
  ⟨length_initSlots l _ _, Nat.zero_le _⟩

/-! ## Buffers -/

/-- The `k`th pair of buffers. -/
def pair (l : Layout) (k : ℕ) : ℕ × ℕ :=
  let start := l.buffersAt + k * (l.requestBufferSize + l.ioBufferSize)
  (start, start + l.requestBufferSize)

/-- The places handed out follow one another in the memory. -/
theorem initSlots_pairs (l : Layout) (n k : ℕ) :
    (initSlots l n (l.buffersAt + k * (l.requestBufferSize + l.ioBufferSize))).map Slot.buffers =
      (List.range' k n).map (pair l) := by
  induction n generalizing k with
  | zero => rfl
  | succ n ih =>
    have hnext : l.buffersAt + k * (l.requestBufferSize + l.ioBufferSize) + l.requestBufferSize +
        l.ioBufferSize = l.buffersAt + (k + 1) * (l.requestBufferSize + l.ioBufferSize) := by
      rw [Nat.succ_mul]
      omega
    rw [initSlots, List.map_cons, hnext, ih, List.range'_succ, List.map_cons]
    rfl

/-- The two buffers of a pair are one range. -/
theorem bytes_pair {l : Layout} {s : Slot} {k : ℕ} (h : s.buffers = pair l k) :
    s.bytes l = Set.Ico (l.buffersAt + k * (l.requestBufferSize + l.ioBufferSize))
      (l.buffersAt + (k + 1) * (l.requestBufferSize + l.ioBufferSize)) := by
  obtain ⟨hheader, hio⟩ := Prod.ext_iff.mp h
  have hnext : l.buffersAt + k * (l.requestBufferSize + l.ioBufferSize) + l.requestBufferSize +
      l.ioBufferSize = l.buffersAt + (k + 1) * (l.requestBufferSize + l.ioBufferSize) := by
    rw [Nat.succ_mul]
    omega
  rw [Slot.bytes, show s.headerData = _ from hheader, show s.ioData = _ from hio]
  dsimp only [pair]
  rw [Set.Ico_union_Ico_eq_Ico (Nat.le_add_right _ _) (Nat.le_add_right _ _), hnext]

/-- Buffers that were handed out at two places overlap only if they are the same.
-/
theorem disjoint_pairs {l : Layout} (hsize : 0 < l.requestBufferSize + l.ioBufferSize)
    {s t : Slot} {i j : ℕ} (hs : s.buffers = pair l i) (ht : t.buffers = pair l j) :
    Disjoint (s.bytes l) (t.bytes l) ↔ s.buffers ≠ t.buffers := by
  have hne : s.buffers ≠ t.buffers ↔ i ≠ j := by
    rw [hs, ht]
    constructor
    · rintro h rfl
      exact h rfl
    · intro h heq
      have hstart := (Prod.ext_iff.mp heq).1
      exact h (Nat.eq_of_mul_eq_mul_right hsize (Nat.add_left_cancel hstart))
  rw [hne, bytes_pair hs, bytes_pair ht, Set.Ico_disjoint_Ico]
  constructor
  · rintro hle rfl
    rw [Nat.min_self, Nat.max_self, Nat.succ_mul] at hle
    omega
  · intro h
    rcases Nat.lt_or_gt_of_ne h with hlt | hlt
    · have hmul := Nat.mul_le_mul_right (l.requestBufferSize + l.ioBufferSize) (Nat.succ_le_of_lt hlt)
      exact le_trans (min_le_left _ _)
        (le_trans (Nat.add_le_add_left hmul _) (le_max_right _ _))
    · have hmul := Nat.mul_le_mul_right (l.requestBufferSize + l.ioBufferSize) (Nat.succ_le_of_lt hlt)
      exact le_trans (min_le_right _ _)
        (le_trans (Nat.add_le_add_left hmul _) (le_max_left _ _))

/-- The buffers of the entries are those handed out at the start, and the first
`limit` entries have different ones. -/
structure Handed (l : Layout) (st : St) : Prop where
  sized : Sized l st
  pairs : ∀ bs ∈ st.slots.map Slot.buffers, ∃ k < l.connectionMax, bs = pair l k
  usable : Usable (st.slots.map Slot.buffers) st.limit

/-- The buffers of the connections are in the memory of the server, behind the
array, and no byte is in those of two connections. -/
structure Apart (l : Layout) (st : St) : Prop where
  within : ∀ s ∈ used st, s.bytes l ⊆ Set.Ico l.arrayEnd l.memoryNeeded
  disjoint : (used st).Pairwise fun s t => Disjoint (s.bytes l) (t.bytes l)

theorem Handed.pair_of_used {l : Layout} {st : St} (h : Handed l st) {s : Slot} (hs : s ∈ used st) :
    ∃ k < l.connectionMax, s.buffers = pair l k :=
  h.pairs _ (List.mem_map_of_mem (List.mem_of_mem_take hs))

/-- The buffers of a connection lie behind the array and within the memory. -/
theorem Handed.within {l : Layout} {st : St} (h : Handed l st) {s : Slot} (hs : s ∈ used st) :
    s.bytes l ⊆ Set.Ico l.arrayEnd l.memoryNeeded := by
  rcases h.pair_of_used hs with ⟨k, hk, hbuffers⟩
  rw [bytes_pair hbuffers]
  apply Set.Ico_subset_Ico
  · exact le_trans (l.arrayEnd_le (Nat.zero_lt_of_lt hk)) (Nat.le_add_right _ _)
  · have hmul := Nat.mul_le_mul_right (l.requestBufferSize + l.ioBufferSize) (Nat.succ_le_of_lt hk)
    rw [Layout.memoryNeeded, Nat.add_assoc, ← Nat.mul_add]
    exact Nat.add_le_add_left hmul _

/-- The buffers in use are apart as long as no more are in use than were left at
the last close. -/
theorem apart_iff {l : Layout} (hsize : 0 < l.requestBufferSize + l.ioBufferSize) {st : St}
    (h : Handed l st) : Apart l st ↔ st.count ≤ st.limit := by
  have hcount : st.count ≤ (st.slots.map Slot.buffers).length := by
    rw [List.length_map, h.sized.length]
    exact h.sized.count_le
  have hiff : ((used st).Pairwise fun s t => Disjoint (s.bytes l) (t.bytes l)) ↔
      (used st).Pairwise fun s t => s.buffers ≠ t.buffers := by
    apply List.Pairwise.iff_of_mem
    intro s t hs ht
    rcases h.pair_of_used hs with ⟨i, -, hi⟩
    rcases h.pair_of_used ht with ⟨j, -, hj⟩
    exact disjoint_pairs hsize hi hj
  rw [← h.usable.nodup_iff hcount, ← List.map_take, List.Nodup, List.pairwise_map]
  constructor
  · intro hapart
    exact hiff.mp hapart.disjoint
  · intro hne
    exact ⟨fun s hs => h.within hs, hiff.mpr hne⟩

theorem mem_of_mem_move {α : Type*} {x : α} {l : List α} {dst src len : ℕ}
    (h : x ∈ move l dst src len) : x ∈ l := by
  rcases List.mem_append.mp h with hmem | hmem
  · rcases List.mem_append.mp hmem with hmem | hmem
    · exact List.mem_of_mem_take hmem
    · exact List.mem_of_mem_drop (List.mem_of_mem_take hmem)
  · exact List.mem_of_mem_drop hmem

/-- Each step keeps the buffers at places of their own, but for the copies that a
close leaves behind. -/
theorem step_handed {l : Layout} (hsize : 0 < l.requestBufferSize + l.ioBufferSize) {st st' : St}
    {a : Act} (h : step l st a = some st') (hhanded : Handed l st) (hapart : Apart l st) :
    Handed l st' := by
  have hsized := step_sized h hhanded.sized
  cases a with
  | accept configured =>
    rcases accept_cases h with ⟨s, -, -, -, hbuffers, -, -, -, -, hlimit⟩
    refine ⟨hsized, ?_, ?_⟩
    · rw [hbuffers]
      exact hhanded.pairs
    · rw [hbuffers, hlimit]
      exact hhanded.usable
  | upgrade place =>
    rcases upgrade_cases h with ⟨s, -, -, -, hbuffers, -, -, -, hlimit⟩
    refine ⟨hsized, ?_, ?_⟩
    · rw [hbuffers]
      exact hhanded.pairs
    · rw [hbuffers, hlimit]
      exact hhanded.usable
  | close place =>
    rcases close_cases hhanded.sized h with ⟨s, -, hplace, -, -, hbuffers, -, -, -, hlimit⟩
    -- the `memmove` copies the buffers along
    refine ⟨hsized, ?_, ?_⟩
    · rw [hbuffers]
      intro bs hbs
      exact hhanded.pairs bs (mem_of_mem_move hbs)
    · rw [hbuffers, hlimit]
      exact hhanded.usable.close hplace ((apart_iff hsize hhanded).mp hapart)

/-- `WebbyServerInit` hands out a place to each slot. -/
theorem init_handed {l : Layout} (hsize : 0 < l.requestBufferSize + l.ioBufferSize) :
    Handed l (init l) := by
  have hbuffers : (init l).slots.map Slot.buffers = (List.range l.connectionMax).map (pair l) := by
    have hpairs := initSlots_pairs l l.connectionMax 0
    rw [Nat.zero_mul, Nat.add_zero, ← List.range_eq_range'] at hpairs
    exact hpairs
  refine ⟨init_sized l, ?_, ?_⟩
  · rw [hbuffers]
    intro bs hbs
    rcases List.mem_map.mp hbs with ⟨k, hk, rfl⟩
    exact ⟨k, List.mem_range.mp hk, rfl⟩
  · rw [hbuffers]
    have hlength : ((List.range l.connectionMax).map (pair l)).length = l.connectionMax := by
      rw [List.length_map, List.length_range]
    refine ⟨hlength.ge, ?_, fun hlt => absurd hlt (by rw [hlength]; exact Nat.lt_irrefl _)⟩
    rw [show (init l).limit = l.connectionMax from rfl, List.take_of_length_le hlength.le]
    apply List.nodup_range.map
    intro i j hij
    have hstart := (Prod.ext_iff.mp hij).1
    exact Nat.eq_of_mul_eq_mul_right hsize (Nat.add_left_cancel hstart)

/-- A connection is accepted only below the limit: never as many at a time as
when one was closed in front of others. -/
def Below (st : St) : Act → Prop
  | .accept _ => st.count < st.limit
  | _ => True

instance (st : St) : (a : Act) → Decidable (Below st a)
  | .accept _ => inferInstanceAs (Decidable (st.count < st.limit))
  | .upgrade _ => isTrue trivial
  | .close _ => isTrue trivial

/-- Only an accept beyond that limit puts shared buffers to use. -/
theorem step_apart_iff {l : Layout} (hsize : 0 < l.requestBufferSize + l.ioBufferSize) {st st' : St}
    {a : Act} (h : step l st a = some st') (hhanded : Handed l st) (hapart : Apart l st) :
    Apart l st' ↔ Below st a := by
  have hhanded' := step_handed hsize h hhanded hapart
  have hle := (apart_iff hsize hhanded).mp hapart
  rw [apart_iff hsize hhanded']
  cases a with
  | accept configured =>
    rcases accept_cases h with ⟨s, -, -, -, -, -, hcount, -, -, hlimit⟩
    rw [hcount, hlimit]
    exact Iff.rfl
  | upgrade place =>
    rcases upgrade_cases h with ⟨s, -, -, -, -, hcount, -, -, hlimit⟩
    rw [hcount, hlimit]
    exact iff_of_true hle trivial
  | close place =>
    rcases close_cases hhanded.sized h with ⟨s, -, hplace, -, -, -, hcount, -, -, hlimit⟩
    rw [hcount, hlimit]
    refine iff_of_true ?_ trivial
    split
    · exact Nat.le_refl _
    · omega

/-- In every state of a run no two connections share a byte of a buffer exactly
when each connection is accepted below the limit. -/
theorem buffers_apart_iff {l : Layout} (hsize : 0 < l.requestBufferSize + l.ioBufferSize)
    {acts : List Act} {st : St} (hrun : run (step l) (init l) acts = some st) :
    (∀ pre t, pre <+: acts → run (step l) (init l) pre = some t → Apart l t) ↔
      Along (step l) Below (init l) acts :=
  always_iff_along (step l) (fun _ _ _ h hhanded hapart => step_handed hsize h hhanded hapart)
    (fun _ _ _ h hhanded hapart => step_apart_iff hsize h hhanded hapart) (init_handed hsize)
    ⟨by simp [used, init], by simp [used, init]⟩ hrun

/-- The server of the sink, with the sizes of a 64-bit build. -/
def sinkLayout : Layout := ⟨1272, 104, 1160, 4, 2048, 8192, by decide⟩

/-- Of two connections the first is closed; then there is another one. -/
theorem buffers_shared :
    ¬ ∀ pre t, pre <+: [.accept true, .accept true, .close 0, .accept true] →
      run (step sinkLayout) (init sinkLayout) pre = some t → Apart sinkLayout t := by
  intro hall
  have hbelow := (buffers_apart_iff (l := sinkLayout) (by decide) rfl).mp hall
  revert hbelow
  decide

/-! ## Sockets -/

def sockets (st : St) : List ℕ := (used st).filterMap Slot.socket

/-- Every socket accepted is owned by one connection, or it has been closed once;
no other is. -/
def Owned (st : St) : Prop := (sockets st ++ st.closed).Perm (List.range' 1 st.accepted)

/-- What has been closed once `WebbyServerShutdown` closes the sockets of all
connections. -/
def webbyServerShutdown (st : St) : List ℕ := sockets st ++ st.closed

theorem sockets_accept {st st' : St} {s : Slot} (hused : used st' = used st ++ [s]) :
    sockets st' = sockets st ++ s.socket.toList := by
  rw [sockets, hused, List.filterMap_append, sockets]
  cases hs : s.socket <;> simp [hs]

/-- Closing a connection moves its socket to the closed ones. -/
theorem sockets_close {st st' : St} {place : ℕ} {s : Slot} (hs : (used st)[place]? = some s)
    (hused : used st' = (used st).eraseIdx place) :
    (sockets st).Perm (s.socket.toList ++ sockets st') := by
  obtain ⟨hlt, rfl⟩ := List.getElem?_eq_some_iff.mp hs
  have hperm := (List.getElem_cons_eraseIdx_perm hlt).symm.filterMap Slot.socket
  rw [sockets, sockets, hused]
  refine hperm.trans (List.Perm.of_eq ?_)
  cases hsocket : (used st)[place].socket <;> simp [hsocket]

/-- An upgrade keeps the sockets. -/
theorem sockets_upgrade {st st' : St} {place : ℕ} {s s' : Slot} (hs : (used st)[place]? = some s)
    (hused : used st' = (used st).set place s') (hsocket : s'.socket = s.socket) :
    sockets st' = sockets st := by
  obtain ⟨hlt, rfl⟩ := List.getElem?_eq_some_iff.mp hs
  have hset : (used st).set place s' =
      (used st).take place ++ s' :: (used st).drop (place + 1) := by
    rw [List.set_eq_take_append_cons_drop, if_pos hlt]
  have hsplit : used st =
      (used st).take place ++ (used st)[place] :: (used st).drop (place + 1) := by
    rw [List.cons_getElem_drop_succ, List.take_append_drop]
  rw [sockets, hused, hset, sockets]
  conv => rhs; rw [hsplit]
  simp only [List.filterMap_append, List.filterMap_cons, hsocket]

/-- A socket that cannot be configured finds an entry that owns none: the
connection that had it was the last one when it was closed. -/
def Vacant (st : St) : Act → Prop
  | .accept false => ∀ s ∈ st.slots[st.count]?, s.socket = none
  | _ => True

instance (st : St) : (a : Act) → Decidable (Vacant st a)
  | .accept false => inferInstanceAs (Decidable (∀ s ∈ st.slots[st.count]?, s.socket = none))
  | .accept true => isTrue trivial
  | .upgrade _ => isTrue trivial
  | .close _ => isTrue trivial

/-- The step that may close a socket it does not own is an accept that fails in a
slot with a stale socket. -/
theorem step_owned_iff {l : Layout} {st st' : St} {a : Act} (h : step l st a = some st')
    (hsized : Sized l st) (howned : Owned st) : Owned st' ↔ Vacant st a := by
  have hlength := howned.length_eq
  rw [List.length_append, List.length_range'] at hlength
  cases a with
  | accept configured =>
    rcases accept_cases h with ⟨s, hs, hused, -, -, -, -, haccepted, hclosed, -⟩
    have hsockets := sockets_accept hused
    rw [Owned, haccepted, hclosed, hsockets, List.range'_1_concat, Nat.add_comm 1]
    cases configured with
    | true =>
      refine iff_of_true ?_ trivial
      have hnew : (filled st true s).socket.toList = [st.accepted + 1] := rfl
      rw [hnew, if_pos rfl, List.append_assoc]
      refine List.Perm.trans ?_ (howned.append_right _)
      rw [List.append_assoc]
      exact List.perm_append_comm.append_left _
    | false =>
      have hstale : (filled st false s).socket.toList = s.socket.toList := rfl
      rw [hstale, if_neg (by simp)]
      constructor
      · intro hperm t ht
        obtain rfl := Option.some.inj (hs.symm.trans ht)
        -- one socket more would be owned than there are
        have hlength' := hperm.length_eq
        simp only [List.length_append, List.length_cons, List.length_nil,
          List.length_range'] at hlength'
        cases hsocket : s.socket with
        | none => rfl
        | some socket =>
          rw [hsocket, Option.toList_some, List.length_singleton] at hlength'
          omega
      · intro hvacant
        rw [hvacant s hs, Option.toList_none, List.append_nil]
        refine List.Perm.trans ?_ (howned.append_right _)
        rw [List.append_assoc]
        exact (List.perm_append_singleton _ _).symm.append_left _
  | upgrade place =>
    rcases upgrade_cases h with ⟨s, hs, hused, -, -, -, haccepted, hclosed, -⟩
    have hsockets := sockets_upgrade hs hused rfl
    rw [Owned, haccepted, hclosed, hsockets]
    exact iff_of_true howned trivial
  | close place =>
    rcases close_cases hsized h with ⟨s, hs, -, hused, -, -, -, haccepted, hclosed, -⟩
    have hsockets := sockets_close hs hused
    rw [Owned, haccepted, hclosed]
    refine iff_of_true ?_ trivial
    refine List.Perm.trans ?_ howned
    refine List.Perm.trans ?_ (hsockets.append_right _).symm
    rw [← List.append_assoc]
    exact List.perm_append_comm.append_right _

/-- In every state of a run each socket accepted is owned by one connection or
closed once exactly when sockets that cannot be configured find entries that own
none. Then `WebbyServerShutdown` closes every socket once. -/
theorem sockets_owned_iff (l : Layout) {acts : List Act} {st : St}
    (hrun : run (step l) (init l) acts = some st) :
    ((∀ pre t, pre <+: acts → run (step l) (init l) pre = some t → Owned t) ↔
      Along (step l) Vacant (init l) acts) ∧
    (Along (step l) Vacant (init l) acts →
      (webbyServerShutdown st).Perm (List.range' 1 st.accepted)) := by
  have hinit : Owned (init l) := by simp [Owned, sockets, used, init]
  have hiff : (∀ pre t, pre <+: acts → run (step l) (init l) pre = some t → Owned t) ↔
      Along (step l) Vacant (init l) acts :=
    always_iff_along (step l) (fun _ _ _ h hsized _ => step_sized h hsized)
      (fun _ _ _ h hsized howned => step_owned_iff h hsized howned) (init_sized l) hinit hrun
  exact ⟨hiff, fun halong => hiff.mpr halong acts st (List.prefix_refl acts) hrun⟩

/-- Of two connections the first is closed; then one cannot be configured, and
the socket of the second is closed with it. -/
theorem socket_closed_early :
    ¬ ∀ pre t, pre <+: [.accept true, .accept true, .close 0, .accept false] →
      run (step sinkLayout) (init sinkLayout) pre = some t → Owned t := by
  intro hall
  have hvacant := (sockets_owned_iff sinkLayout rfl).1.mp hall
  revert hvacant
  decide

/-! ## The list of connections -/

section Connections

variable {α : Type*}

/-- What the array sees of what happens to the connections. -/
def ofServer : WebbyServer.Act α → Act
  | .accept => .accept true
  | .upgrade place _ _ _ => .upgrade place
  | .close place _ => .close place

/-- The entries in use are the connections. -/
structure Holds (l : Layout) (ws : WebbyServer.St α) (st : St) : Prop where
  sized : Sized l st
  connections : (used st).map Slot.conn = ws.connections
  accepted : st.accepted = ws.accepted

/-- A connection of the list is found at its place in the array. -/
theorem Holds.get {l : Layout} {ws : WebbyServer.St α} {st : St} (h : Holds l ws st) {place : ℕ}
    {c : Conn} (hc : ws.connections[place]? = some c) :
    place < st.count ∧ ∃ s, st.slots[place]? = some s ∧ s.conn = c := by
  rw [← h.connections, List.getElem?_map] at hc
  rcases Option.map_eq_some_iff.mp hc with ⟨s, hs, rfl⟩
  obtain ⟨hlt, hget⟩ := List.getElem?_eq_some_iff.mp hs
  rw [used, List.length_take] at hlt
  refine ⟨by omega, s, ?_, rfl⟩
  rw [← hs, used, List.getElem?_take_of_lt (by omega)]

theorem length_connections {l : Layout} {ws : WebbyServer.St α} {st : St} (h : Holds l ws st) :
    ws.connections.length = st.count := by
  have hcount := h.sized.count_le
  rw [← h.connections, List.length_map, used, List.length_take, h.sized.length,
    Nat.min_eq_left hcount]

/-- An accept at the level of the list is one of the array. -/
theorem accept_holds {l : Layout} {ws : WebbyServer.St α} {st : St} (h : Holds l ws st)
    (hmax : ws.connections.length ≠ l.connectionMax) :
    ∃ st', step l st (.accept true) = some st' ∧ Holds l { ws with
      connections := ws.connections ++ [⟨ws.accepted, false⟩], accepted := ws.accepted + 1 } st' := by
  rw [length_connections h] at hmax
  have hlt : st.count < st.slots.length := by
    have hcount := h.sized.count_le
    rw [h.sized.length]
    omega
  have hst : ∃ st', step l st (.accept true) = some st' := by
    rw [step, if_neg hmax, List.getElem?_eq_getElem hlt]
    exact ⟨_, rfl⟩
  rcases hst with ⟨st', hst⟩
  rcases accept_cases hst with ⟨s, -, hused, -, -, -, -, haccepted, -⟩
  refine ⟨st', hst, step_sized hst h.sized, ?_, ?_⟩
  · rw [hused, List.map_append, h.connections, ← h.accepted]
    rfl
  · rw [haccepted, h.accepted]

/-- So is an upgrade. -/
theorem upgrade_holds {l : Layout} {ws : WebbyServer.St α} {st : St} (h : Holds l ws st)
    {place : ℕ} {c : Conn} (hc : ws.connections[place]? = some c) :
    ∃ st', step l st (.upgrade place) = some st' ∧
      (used st').map Slot.conn = ws.connections.set place { c with websocket := true } ∧
      st'.accepted = ws.accepted := by
  rcases h.get hc with ⟨hplace, s, hs, rfl⟩
  have hst : ∃ st', step l st (.upgrade place) = some st' := by
    rw [step, if_pos hplace, hs]
    exact ⟨_, rfl⟩
  rcases hst with ⟨st', hst⟩
  rcases upgrade_cases hst with ⟨s', hs', hused, -, -, -, haccepted, -⟩
  rw [used, List.getElem?_take_of_lt hplace, hs] at hs'
  obtain rfl := Option.some.inj hs'
  refine ⟨st', hst, ?_, ?_⟩
  · rw [hused, List.map_set, h.connections]
  · rw [haccepted, h.accepted]

/-- And a close, which moves the slots behind it. -/
theorem close_holds {l : Layout} {ws : WebbyServer.St α} {st : St} (h : Holds l ws st)
    {place : ℕ} {c : Conn} (hc : ws.connections[place]? = some c) :
    ∃ st', step l st (.close place) = some st' ∧
      (used st').map Slot.conn = ws.connections.eraseIdx place ∧ st'.accepted = ws.accepted := by
  rcases h.get hc with ⟨hplace, s, hs, -⟩
  have hst : ∃ st', step l st (.close place) = some st' := by
    rw [step, if_pos hplace, hs]
    exact ⟨_, rfl⟩
  rcases hst with ⟨st', hst⟩
  rcases close_cases h.sized hst with ⟨s', -, -, hused, -, -, -, haccepted, -⟩
  refine ⟨st', hst, ?_, ?_⟩
  · rw [hused, ← h.connections, List.eraseIdx_map]
  · rw [haccepted, h.accepted]

variable [DecidableEq α]

theorem webbyClosed_connections {ws ws' : WebbyServer.St α} {place fuel : ℕ}
    (h : webbyClosed ws place fuel = some ws') :
    ws'.connections = ws.connections ∧ ws'.accepted = ws.accepted := by
  rcases Option.map_eq_some_iff.mp h with ⟨found, -, rfl⟩
  cases found with
  | none => exact ⟨rfl, rfl⟩
  | some s => exact ⟨rfl, rfl⟩

/-- The array can follow every step of the list. -/
theorem step_holds {l : Layout} {ws ws' : WebbyServer.St α} {st : St} {a : WebbyServer.Act α}
    (h : Holds l ws st) (hstep : WebbyServer.step l.connectionMax ws a = some ws') :
    ∃ st', step l st (ofServer a) = some st' ∧ Holds l ws' st' := by
  unfold WebbyServer.step at hstep
  split at hstep
  · cases hstep
  · cases a with
    | accept =>
      dsimp only at hstep
      split at hstep
      · cases hstep
      · rename_i hmax
        cases hstep
        exact accept_holds h hmax
    | upgrade place s b t =>
      dsimp only at hstep
      split at hstep
      · cases hstep
      · rename_i c hc
        split at hstep
        · cases hstep
        · cases hstep
          rcases upgrade_holds h hc with ⟨st', hst, hconnections, haccepted⟩
          exact ⟨st', hst, step_sized hst h.sized, hconnections, haccepted⟩
    | close place fuel =>
      dsimp only at hstep
      split at hstep
      · cases hstep
      · rename_i c hc
        rcases Option.map_eq_some_iff.mp hstep with ⟨closed, hclosed, rfl⟩
        -- the sink leaves the connections alone
        have hsame : closed.connections = ws.connections ∧ closed.accepted = ws.accepted := by
          split at hclosed
          · exact webbyClosed_connections hclosed
          · cases hclosed
            exact ⟨rfl, rfl⟩
        rcases close_holds h hc with ⟨st', hst, hconnections, haccepted⟩
        refine ⟨st', hst, step_sized hst h.sized, ?_, ?_⟩
        · rw [hconnections, ← hsame.1]
        · rw [haccepted, ← hsame.2]

/-- Whatever the connections of the server do, the array holds them in order. -/
theorem connections_refined (l : Layout) (session : α → SinkSessions.Session α ℕ)
    (bytes : α → List UInt8) {acts : List (WebbyServer.Act α)} {ws : WebbyServer.St α}
    (hrun : run (WebbyServer.step l.connectionMax) (WebbyServer.init session bytes) acts =
      some ws) :
    ∃ st, run (step l) (init l) (acts.map ofServer) = some st ∧
      (used st).map Slot.conn = ws.connections ∧ st.accepted = ws.accepted := by
  rcases run_simulate _ (R := Holds l) (fun _ _ _ _ h hstep => step_holds h hstep)
    ⟨init_sized l, by simp [used, init, WebbyServer.init], rfl⟩ hrun with ⟨st, hst, hholds⟩
  exact ⟨st, hst, hholds.connections, hholds.accepted⟩

end Connections

theorem connections_refined_one :
    ∃ st, run (step sinkLayout) (init sinkLayout)
        (([.accept, .accept, .close 0 0] : List (WebbyServer.Act ℕ)).map ofServer) = some st ∧
      (used st).map Slot.conn = [⟨1, false⟩] ∧ st.accepted = 2 := by
  let start : WebbyServer.St ℕ :=
    WebbyServer.init (fun _ => ⟨none, none, 0, 0, none, none⟩) fun _ => []
  have hrun : run (WebbyServer.step sinkLayout.connectionMax) start
      [.accept, .accept, .close 0 0] =
      some { start with connections := [⟨1, false⟩], accepted := 2 } := rfl
  exact connections_refined sinkLayout _ _ hrun

end Yardstick.WebbySlots
