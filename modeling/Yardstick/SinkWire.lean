import Yardstick.SinkSession
import Yardstick.WebbyMessages

/-!
# SinkWire — from the events of a session to the bytes on its socket and back

The messages of a session leave through a WebSocket connection, each between
`WebbyBeginSocketFrame` and `WebbyEndSocketFrame` and in one or more writes. The
viewer takes the frames apart, puts the messages together and decodes them.

* `runOps_small`: no message of a session is longer than a string event;
* `viewer_reads_session`: the bytes on the socket, received as messages and
  decoded, are the header and the events of the session, up to what its buffer
  still holds.
-/

namespace Yardstick.SinkWire

open LittleEndian PointerHash Protocol Wire EventReader RoundTrip SinkSession
open SocketFrames (Message delivered)
open WebbyConnection (Connection)
open WebbyFrames (WEBBY_WS_OP_BINARY_FRAME)

variable {p : PtrSize} {σ : Type*}

/-! ## The size of a message -/

/-- No message is longer than the event of the longest string. -/
def SmallMessages (s : Session) : Prop :=
  ∀ message ∈ s.connection.messages, message.length ≤ 65542

/-- The call keeps the messages of a session in good order short. -/
def Small (s : Session) (out : YsResult × Session) : Prop :=
  ∀ sp, Valid s sp → SmallMessages s → SmallMessages out.2

theorem Small.refl (s : Session) : Small s (.success, s) := fun _ _ h => h

/-- Two steps with small messages in a row. -/
theorem Small.ysTry {s : Session} {out : YsResult × Session} {rs : List Record} {table : Table}
    {next : Session → YsResult × Session} (happ : Appends s out rs table) (h : Small s out)
    (hnext : Small out.2 (next out.2)) : Small s (ysTry out next) := by
  intro sp hsp hsmall
  rcases happ sp hsp with ⟨hresult, -, sp', hsp', -⟩
  unfold SinkSession.ysTry
  rw [if_pos hresult]
  exact hnext sp' hsp' (h sp hsp hsmall)

/-- A flush sends what is buffered, which is at most `kBufSize` bytes. -/
theorem flushSession_small (s : Session) : Small s (flushSession s) := by
  intro sp hsp hsmall
  unfold flushSession
  split
  · -- the message is what was buffered
    intro message hmem
    have hmessages : message ∈ s.connection.messages ∨ message = s.buffer.take s.bufpos := by
      simpa [SinkSession.webbyBeginSocketFrame, SinkSession.webbyWrite,
        SinkSession.webbyEndSocketFrame] using hmem
    rcases hmessages with hold | rfl
    · exact hsmall message hold
    · have hle := hsp.bufpos_le
      have hpos : (s.buffer.take s.bufpos).length ≤ s.bufpos := by
        rw [List.length_take]
        exact Nat.min_le_left _ _
      unfold kBufSize at hle
      omega
  · exact hsmall

theorem makeRoom_small (s : Session) (size : ℕ) : Small s (makeRoom s size) := by
  unfold makeRoom
  split
  · exact flushSession_small s
  · exact Small.refl s

/-- What is encoded into the buffer is sent in pieces no larger than that. -/
theorem encodeIntoBuffer_small (s : Session) (ev : EventData p) :
    Small s (encodeIntoBuffer s ev) := by
  intro sp hsp hsmall
  have hconnection : (encodeIntoBuffer s ev).2.connection = s.connection := by
    unfold encodeIntoBuffer SinkSession.ysTry
    dsimp only
    split <;> rfl
  rw [SmallMessages, hconnection]
  exact hsmall

/-- A string goes into the buffer, or out as a message of its own. -/
theorem storeString_small (s : Session) (str : CString p) : Small s (storeString s str) := by
  unfold storeString
  split
  · exact encodeIntoBuffer_small s _
  · intro sp hsp hsmall message hmem
    rw [sendString_messages] at hmem
    rcases List.mem_append.mp hmem with hold | hnew
    · exact hsmall message hold
    · -- a tag, a handle, a length, and the text
      obtain rfl := List.mem_singleton.mp hnew
      have hlen := (BitVec.ofNat 16 str.text.length).isLt
      simp [stringRecord, Record.text, Record.tag, Record.body]
      omega

/-- So are strings. -/
theorem writeSessionString_small (s : Session) (str : CString p) :
    Small s (writeSessionString s str) := by
  unfold writeSessionString
  split
  · apply Small.ysTry (makeRoom_appends s _) (makeRoom_small s _)
    apply Small.ysTry (storeString_appends str (makeRoom_room s _)) (storeString_small _ str)
    exact fun _ _ h => h
  · exact Small.refl s

/-- And all the strings of an event. -/
theorem writeSessionStrings_small (s : Session) (ev : EventData p) :
    Small s (writeSessionStrings s ev) := by
  have htwo : ∀ name file : CString p, Small s
      (SinkSession.ysTry (writeSessionString s name) fun s => writeSessionString s file) := by
    intro name file
    exact Small.ysTry (writeSessionString_appends s name) (writeSessionString_small s name)
      (writeSessionString_small _ file)
  cases ev with
  | region line name file begin end' => exact htwo name file
  | counterSet line name file time value => exact htwo name file
  | counterAdd name amount => exact writeSessionString_small s name
  | _ => exact Small.refl s

theorem writeSessionEvent_small (s : Session) (ev : EventData p) :
    Small s (writeSessionEvent s ev) := by
  unfold writeSessionEvent
  apply Small.ysTry (writeSessionStrings_appends s ev) (writeSessionStrings_small s ev)
  apply Small.ysTry (makeRoom_appends _ _) (makeRoom_small _ _)
  exact encodeIntoBuffer_small _ ev

/-- No call makes a long message. -/
theorem runOps_small (ops : List (SinkSession.Op p)) {s : Session} {sp : Spool Record}
    (h : Valid s sp) (hsmall : SmallMessages s) : SmallMessages (SinkSession.runOps s ops) := by
  induction ops generalizing s sp with
  | nil => exact hsmall
  | cons op ops ih =>
    cases op with
    | write ev =>
      rcases emitted_record ev with ⟨r, hr, -, hsize⟩
      rcases writeSessionEvent_appends s hr hsize sp h with ⟨-, -, sp1, hsp1, -⟩
      exact ih hsp1 (writeSessionEvent_small s ev.val sp h hsmall)
    | flush =>
      rcases flushSession_appends s sp h with ⟨-, -, sp1, hsp1, -⟩
      exact ih hsp1 (flushSession_small s sp h hsmall)

/-- The messages of a session that starts with its header. -/
theorem session_small (memory : Vector UInt8 kBufSize) (frequency start : BitVec 64)
    (ops : List (SinkSession.Op p)) :
    SmallMessages (SinkSession.runOps (openSession p memory frequency start) ops) := by
  have hrecord : ofEvent (.header frequency start : EventData p) =
      some (.header frequency start) := rfl
  have hempty : SmallMessages (createSession memory) := by
    intro message hmem
    cases hmem
  have hvalid := createSession_valid memory
  rcases writeSessionEvent_appends (createSession memory) hrecord (by simp [encodeSize, kBufSize])
    _ hvalid with ⟨-, -, sp, hsp, -⟩
  exact runOps_small ops hsp (writeSessionEvent_small _ _ _ hvalid hempty)

/-! ## What the viewer reads -/

/-- The stream of a session, decoded: without strings it is the header and the
events written. -/
theorem stream_events (frequency start : BitVec 64) (evs : List (Emitted p)) :
    (((Record.header frequency start :: output emptyTable evs).map (ofRecord id)).filter
      fun ev => !ev.isString).map some =
      viewOf (.header frequency start : EventData p) :: evs.map fun ev => viewOf ev.val := by
  have hfilter : (fun ev : YsEvent ℕ (BitVec 64) => !ev.isString) ∘ ofRecord id =
      fun r => !r.isString := by
    funext r
    simp
  have hout := output_filter emptyTable evs
  have hsome : ∀ rs : List Record, (rs.map (ofRecord id)).map some =
      (rs.map some).map (Option.map (ofRecord id)) := by
    intro rs
    simp
  rw [List.filter_map, hfilter, List.filter_cons_of_pos (by rfl), List.map_cons, List.map_cons,
    hsome, hout, List.map_map]
  congr 1
  exact List.map_congr_left fun ev _ => (viewOf_eq ev.val).symm

theorem messagesBeforePong_map (writes : List (List (List UInt8))) :
    WebbyMessages.messagesBeforePong (writes.map (.message WEBBY_WS_OP_BINARY_FRAME)) =
      writes.map fun pieces => ⟨WEBBY_WS_OP_BINARY_FRAME, pieces.flatten⟩ := by
  induction writes with
  | nil => rfl
  | cons pieces writes ih => simp [WebbyMessages.messagesBeforePong, ih]

/-- Pieces of short messages are short. -/
theorem sendable_of_small {s : Session} (h : SmallMessages s) {writes : List (List (List UInt8))}
    (hwrites : writes.map List.flatten = s.connection.messages) :
    ∀ op ∈ writes.map (WebbyMessages.Op.message WEBBY_WS_OP_BINARY_FRAME), op.Sendable := by
  intro op hop
  rcases List.mem_map.mp hop with ⟨pieces, hpieces, rfl⟩
  have hmessage := h pieces.flatten (hwrites ▸ List.mem_map_of_mem hpieces)
  refine ⟨rfl, fun piece hpiece => ?_⟩
  have hle : piece.length ≤ pieces.flatten.length :=
    (List.sublist_flatten_of_mem hpiece).length_le
  omega

/-- What a viewer receives of a session whose messages are written in any pieces
and sent in any portions: binary messages, which decode to the stream. -/
theorem received_stream {s : Session} {sp : Spool Record} (hvalid : Valid s sp)
    (hsmall : SmallMessages s) {c : Connection σ} (h : WebbyMessages.Idle c [])
    {writes : List (List (List UInt8))}
    (hwrites : writes.map List.flatten = s.connection.messages)
    (halive : (WebbyMessages.runOps c
      (writes.map (.message WEBBY_WS_OP_BINARY_FRAME))).alive = true) :
    let received := delivered false
      (WebbyMessages.runOps c (writes.map (.message WEBBY_WS_OP_BINARY_FRAME))).socket.sent
    (∀ message ∈ received, message.opcode = WEBBY_WS_OP_BINARY_FRAME) ∧
    (received.map Message.payload ++ [s.buffer.take s.bufpos]).flatMap decode =
      sp.stream.map (ofRecord id) := by
  intro received
  have hops := sendable_of_small hsmall hwrites
  have hnone : WebbyMessages.Op.pong ∉ writes.map (.message WEBBY_WS_OP_BINARY_FRAME) := by simp
  have hreceived : received = writes.map fun pieces =>
      ⟨WEBBY_WS_OP_BINARY_FRAME, pieces.flatten⟩ := by
    have hidle := WebbyMessages.runOps_idle h hops hnone halive
    rw [messagesBeforePong_map, List.nil_append] at hidle
    exact hidle.carries.delivered_eq
  have hpayloads : received.map Message.payload = s.connection.messages := by
    rw [hreceived, List.map_map, ← hwrites]
    rfl
  constructor
  · intro message hmem
    rw [hreceived] at hmem
    rcases List.mem_map.mp hmem with ⟨pieces, -, rfl⟩
    rfl
  · -- what is received and what is held are the batches of the session
    rw [hpayloads, show s.connection.messages ++ [s.buffer.take s.bufpos] = chunks s from rfl,
      hvalid.decode_eq]

/-- The messages of a session leave through a connection, written in any pieces
and sent in any portions. While the connection is alive, the viewer receives
binary messages; decoded in order, and with what the session still buffers
behind them, they are its header and the events written, up to strings. -/
theorem viewer_reads_session (memory : Vector UInt8 kBufSize) (frequency start : BitVec 64)
    (ops : List (SinkSession.Op p)) {c : Connection σ} (h : WebbyMessages.Idle c [])
    (writes : List (List (List UInt8)))
    (hwrites : writes.map List.flatten =
      (SinkSession.runOps (openSession p memory frequency start) ops).connection.messages)
    (halive : (WebbyMessages.runOps c
      (writes.map (.message WEBBY_WS_OP_BINARY_FRAME))).alive = true) :
    let s := SinkSession.runOps (openSession p memory frequency start) ops
    let received := delivered false
      (WebbyMessages.runOps c (writes.map (.message WEBBY_WS_OP_BINARY_FRAME))).socket.sent
    (∀ message ∈ received, message.opcode = WEBBY_WS_OP_BINARY_FRAME) ∧
    (((received.map Message.payload ++ [s.buffer.take s.bufpos]).flatMap decode).filter
        fun ev => !ev.isString).map some =
      viewOf (.header frequency start : EventData p) ::
        (written ops).map fun ev => viewOf ev.val := by
  intro s received
  rcases session_valid memory frequency start ops with ⟨sp, hvalid, hstream⟩
  obtain ⟨hbinary, hdecoded⟩ := received_stream hvalid
    (session_small memory frequency start ops) h hwrites halive
  refine ⟨hbinary, ?_⟩
  rw [hdecoded, hstream]
  exact stream_events frequency start (written ops)

/-- A session with one tick, its messages written at once. -/
theorem viewer_reads_tick :
    let ops : List (SinkSession.Op .four) := [.write ⟨.tick 7, rfl⟩, .flush]
    let s := SinkSession.runOps (openSession .four (Vector.replicate kBufSize 0) 1000 5) ops
    let received := delivered false (WebbyMessages.runOps
      (WebbyMessages.upgraded ⟨2048, 8192⟩ () ⟨[], .silent, false, [], [some 3], []⟩)
      ((s.connection.messages.map fun message => [message]).map
        (.message WEBBY_WS_OP_BINARY_FRAME))).socket.sent
    (∀ message ∈ received, message.opcode = WEBBY_WS_OP_BINARY_FRAME) ∧
    (((received.map Message.payload ++ [s.buffer.take s.bufpos]).flatMap decode).filter
        fun ev => !ev.isString).map some =
      [viewOf (.header 1000 5 : EventData .four), viewOf (.tick 7 : EventData .four)] := by
  intro ops
  apply viewer_reads_session (Vector.replicate kBufSize 0) 1000 5 ops
    (WebbyMessages.upgraded_idle ⟨2048, 8192⟩ () rfl)
  · rw [List.map_map]
    exact (List.map_congr_left fun message _ => List.flatten_singleton).trans (List.map_id _)
  · rw [WebbyMessages.runOps_healthy rfl]
    · rfl
    · exact ⟨by simp [WebbyMessages.upgraded, WebbyConnection.onIncoming],
        by simp [WebbyMessages.upgraded, WebbyConnection.onIncoming]⟩

end Yardstick.SinkWire
