import Yardstick.WebbyOutput

/-!
# WebbyMessages — what the peer of a WebSocket receives

A message goes out between `WebbyBeginSocketFrame` and `WebbyEndSocketFrame`:
each `WebbyWrite` in between sends a frame that is not final, and the end sends
an empty final one. A ping is answered with `websocket_pong`, whose three bytes
are the header and the first payload byte of a final continuation frame with a
payload of ten bytes.

* `sendMessage_idle`: whatever the pieces a message is written in, and
  however few bytes each `send` takes, a connection that is still alive has sent
  frames that make up the message;
* `delivered_runOps`: over any run, the peer receives exactly the messages sent
  before the first ping is answered.
-/

namespace Yardstick.WebbyMessages

open SocketFrames WebbyConnection WebbyFrames WebbyOutput

variable {σ : Type*}

/-- A connection that has been upgraded on the given socket. -/
def upgraded (limits : Limits) (user : σ) (socket : Socket) : Connection σ :=
  { onIncoming limits (blankSlot user) socket with websocket := true, state := .websocket }

/-! ## The calls of a user -/

/-- A message written in pieces. The user looks at no result. -/
def sendMessage (c : Connection σ) (opcode : Fin 16) (pieces : List (List UInt8)) : Connection σ :=
  let c := (webbyBeginSocketFrame c (UInt8.ofNat opcode.val)).2
  let c := pieces.foldl (fun c piece => (webbyWrite c piece).2) c
  (webbyEndSocketFrame c).2

/-- `case WEBBY_WS_OP_PING` of `wb_update_client`. -/
def answerPing (c : Connection σ) : Connection σ :=
  let r := sendFully c.socket websocketPong
  { c with socket := r.2, alive := c.alive && r.1 }

/-- What is sent on a WebSocket. -/
inductive Op where
  | message (opcode : Fin 16) (pieces : List (List UInt8))
  | pong

def applyOp (c : Connection σ) : Op → Connection σ
  | .message opcode pieces => sendMessage c opcode pieces
  | .pong => answerPing c

def runOps (c : Connection σ) (ops : List Op) : Connection σ := ops.foldl applyOp c

/-- The messages up to the first answer to a ping. -/
def messagesBeforePong : List Op → List Message
  | .message opcode pieces :: ops => ⟨opcode, pieces.flatten⟩ :: messagesBeforePong ops
  | .pong :: _ => []
  | [] => []

/-- The opcode begins a message, and the length of every piece is an `int`. -/
def Op.Sendable : Op → Prop
  | .message opcode pieces =>
    isData opcode = true ∧ ∀ piece ∈ pieces, piece.length < 2 ^ 31
  | .pong => True

/-! ## One frame -/

/-- A piece as a frame of its own. -/
def pieceFrame (opcode : Fin 16) (piece : List UInt8) (h : piece.length < 2 ^ 31) : Frame :=
  ⟨false, opcode, none, piece, by omega⟩

/-- The frame with which a message ends. -/
def endFrame (opcode : Fin 16) : Frame := ⟨true, opcode, none, [], Nat.two_pow_pos 63⟩

/-- A write that leaves the connection alive has sent one frame, of which the
message goes on. -/
theorem webbyWrite_frame {c : Connection σ} (hwebsocket : c.websocket = true) {opcode : Fin 16}
    (hopcode : c.wsOpcode = UInt8.ofNat opcode.val) {piece : List UInt8}
    (hpiece : piece.length < 2 ^ 31) (halive : (webbyWrite c piece).2.alive = true) :
    c.alive = true ∧
    (webbyWrite c piece).2.socket.sent = c.socket.sent ++ (pieceFrame opcode piece hpiece).text ∧
    (webbyWrite c piece).2.wsOpcode = 0 ∧ (webbyWrite c piece).2.websocket = true := by
  -- the length of the piece, as an `int`
  have hsize : (BitVec.ofNat 32 piece.length).toInt.toNat = piece.length := by
    rw [BitVec.toInt_eq_toNat_of_lt (by rw [BitVec.toNat_ofNat]; omega), BitVec.toNat_ofNat]
    omega
  have hheader := makeWebsocketHeader_eq (pieceFrame opcode piece hpiece) rfl hpiece
  have htext : (pieceFrame opcode piece hpiece).text =
      (pieceFrame opcode piece hpiece).header ++ piece := rfl
  have hheader' : makeWebsocketHeader (UInt8.ofNat opcode.val) (BitVec.ofNat 32 piece.length) false =
      (pieceFrame opcode piece hpiece).header := hheader
  unfold webbyWrite at halive ⊢
  rw [if_pos hwebsocket] at halive ⊢
  simp only [hopcode, hheader', hsize, List.take_length] at halive ⊢
  -- a send that fails ends the connection
  split at halive
  · cases halive
  · rename_i hfirst
    split at halive
    · cases halive
    · rename_i hsecond
      rw [if_neg hfirst, if_neg hsecond, sendFully_sent (by simpa using hsecond),
        sendFully_sent (by simpa using hfirst), htext, List.append_assoc]
      exact ⟨halive, rfl, rfl, hwebsocket⟩

theorem wbSetBlocking_sent (s : Socket) (blocking : Bool) :
    (wbSetBlocking s blocking).2.sent = s.sent := by
  unfold wbSetBlocking
  split <;> rfl

/-- Changing the mode of the socket sends nothing, and can only take the
connection out of service. -/
theorem switchMode_frame (c : Connection σ) (blocking : Bool) (edge count : ℤ) :
    let r := switchMode c blocking edge count
    r.2.socket.sent = c.socket.sent ∧ r.2.wsOpcode = c.wsOpcode ∧
    r.2.websocket = c.websocket ∧ (r.2.alive = true → c.alive = true) := by
  unfold switchMode
  split
  · dsimp only
    split
    · exact ⟨wbSetBlocking_sent c.socket blocking, rfl, rfl, id⟩
    · exact ⟨wbSetBlocking_sent c.socket blocking, rfl, rfl, nofun⟩
  · exact ⟨rfl, rfl, rfl, id⟩

/-! ## One message -/

/-- The messages that have gone out are complete. -/
structure Idle (c : Connection σ) (messages : List Message) : Prop where
  websocket : c.websocket = true
  carries : Carries false c.socket.sent ⟨none, messages⟩

/-- A message with the given opcode has begun, and `payload` of it has gone
out. -/
structure Sending (c : Connection σ) (opcode : Fin 16) (messages : List Message)
    (payload : List UInt8) : Prop where
  websocket : c.websocket = true
  midway : ∃ next r, c.wsOpcode = UInt8.ofNat next.val ∧ Carries false c.socket.sent r ∧
    Midway opcode messages next payload r

theorem webbyBeginSocketFrame_frame (c : Connection σ) (opcode : UInt8) :
    (webbyBeginSocketFrame c opcode).2.socket.sent = c.socket.sent ∧
    ((webbyBeginSocketFrame c opcode).2.alive = true → c.alive = true) := by
  obtain ⟨hsent, -, -, halive⟩ :=
    switchMode_frame { c with wsOpcode := opcode } true 0 (c.blockingCount + 1)
  exact ⟨hsent, halive⟩

/-- A message has begun, and nothing of it has been sent yet. -/
theorem webbyBeginSocketFrame_sending {c : Connection σ} {messages : List Message}
    (h : Idle c messages) (opcode : Fin 16) :
    Sending (webbyBeginSocketFrame c (UInt8.ofNat opcode.val)).2 opcode messages [] := by
  obtain ⟨hsent, hop, hwebsocket, -⟩ :=
    switchMode_frame { c with wsOpcode := UInt8.ofNat opcode.val } true 0 (c.blockingCount + 1)
  constructor
  · exact hwebsocket.trans h.websocket
  · refine ⟨opcode, ⟨none, messages⟩, hop, ?_, .fresh⟩
    rw [webbyBeginSocketFrame, makeConnectionBlocking, hsent]
    exact h.carries

/-- A piece is a frame of its own behind those already sent. -/
theorem webbyWrite_sending {c : Connection σ} {opcode : Fin 16} {messages : List Message}
    {payload piece : List UInt8} (hdata : isData opcode = true)
    (h : Sending c opcode messages payload) (hpiece : piece.length < 2 ^ 31)
    (halive : (webbyWrite c piece).2.alive = true) :
    Sending (webbyWrite c piece).2 opcode messages (payload ++ piece) := by
  rcases h.midway with ⟨next, r, hop, hcarries, hmidway⟩
  obtain ⟨-, hsent, hop', hwebsocket⟩ := webbyWrite_frame h.websocket hop hpiece halive
  rcases hmidway.more (f := pieceFrame next piece hpiece) hdata rfl rfl rfl with
    ⟨r', hreceive, hmidway'⟩
  refine ⟨hwebsocket, 0, r', hop', ?_, hmidway'⟩
  rw [hsent]
  exact hcarries.frame hreceive

/-- A connection that is alive after a write was so before. -/
theorem webbyWrite_alive {c : Connection σ} {data : List UInt8}
    (h : (webbyWrite c data).2.alive = true) : c.alive = true := by
  unfold webbyWrite at h
  dsimp only at h
  split at h
  · split at h
    · cases h
    · split at h
      · cases h
      · exact h
  · -- wb_push leaves the flag alone
    have hpush : ∀ (c : Connection σ) (data : List UInt8), (wbPush c data).2.alive = c.alive := by
      intro c data
      unfold wbPush
      dsimp only
      split <;> rfl
    split at h
    · rwa [hpush, hpush, hpush] at h
    · rwa [hpush] at h

theorem writePieces_alive {c : Connection σ} {pieces : List (List UInt8)}
    (h : (pieces.foldl (fun c piece => (webbyWrite c piece).2) c).alive = true) :
    c.alive = true := by
  induction pieces generalizing c with
  | nil => exact h
  | cons piece pieces ih => exact webbyWrite_alive (ih h)

/-- The pieces of a message go out one after the other. -/
theorem writePieces_sending {c : Connection σ} {opcode : Fin 16} {messages : List Message}
    {payload : List UInt8} {pieces : List (List UInt8)} (hdata : isData opcode = true)
    (h : Sending c opcode messages payload) (hpieces : ∀ piece ∈ pieces, piece.length < 2 ^ 31)
    (halive : (pieces.foldl (fun c piece => (webbyWrite c piece).2) c).alive = true) :
    Sending (pieces.foldl (fun c piece => (webbyWrite c piece).2) c) opcode messages
      (payload ++ pieces.flatten) := by
  induction pieces generalizing c payload with
  | nil => simpa using h
  | cons piece pieces ih =>
    have hfirst := webbyWrite_sending hdata h (hpieces piece List.mem_cons_self)
      (writePieces_alive halive)
    have hrest := ih hfirst (fun q hq => hpieces q (List.mem_cons_of_mem piece hq)) halive
    rwa [List.append_assoc] at hrest

/-- The end of a message is an empty last frame. -/
theorem webbyEndSocketFrame_idle {c : Connection σ} {opcode : Fin 16} {messages : List Message}
    {payload : List UInt8} (hdata : isData opcode = true) (h : Sending c opcode messages payload)
    (halive : (webbyEndSocketFrame c).2.alive = true) :
    Idle (webbyEndSocketFrame c).2 (messages ++ [⟨opcode, payload⟩]) := by
  rcases h.midway with ⟨next, r, hop, hcarries, hmidway⟩
  have hheader : makeWebsocketHeader c.wsOpcode 0 true = (endFrame next).text := by
    rw [hop, Frame.text, ← makeWebsocketHeader_eq (endFrame next) rfl (by simp [endFrame])]
    exact (List.append_nil _).symm
  unfold webbyEndSocketFrame at halive ⊢
  rw [hheader] at halive ⊢
  obtain ⟨hsent, -, hwebsocket, hbefore⟩ := switchMode_frame
    { c with
      socket := (sendFully c.socket (endFrame next).text).2
      alive := c.alive && (sendFully c.socket (endFrame next).text).1 }
    false 1 (c.blockingCount - 1)
  have hok : (sendFully c.socket (endFrame next).text).1 = true :=
    (Bool.and_eq_true_iff.mp (hbefore halive)).2
  have hreceive : receive false r (endFrame next) =
      some ⟨none, messages ++ [⟨opcode, payload ++ []⟩]⟩ := hmidway.last hdata rfl rfl rfl
  constructor
  · exact hwebsocket.trans h.websocket
  · dsimp only at hsent ⊢
    rw [makeConnectionNonblocking, hsent, sendFully_sent hok]
    simpa [endFrame] using hcarries.frame hreceive

theorem webbyEndSocketFrame_alive {c : Connection σ}
    (h : (webbyEndSocketFrame c).2.alive = true) : c.alive = true :=
  (Bool.and_eq_true_iff.mp ((switchMode_frame _ false 1 _).2.2.2 h)).1

theorem sendMessage_alive {c : Connection σ} {opcode : Fin 16} {pieces : List (List UInt8)}
    (h : (sendMessage c opcode pieces).alive = true) : c.alive = true := by
  have hwritten := webbyEndSocketFrame_alive h
  have hbegun := writePieces_alive hwritten
  exact (webbyBeginSocketFrame_frame c _).2 hbegun

/-- A connection that is alive after a message has sent it. -/
theorem sendMessage_idle {c : Connection σ} {opcode : Fin 16} {messages : List Message}
    {pieces : List (List UInt8)} (h : Idle c messages)
    (hop : (Op.message opcode pieces).Sendable)
    (halive : (sendMessage c opcode pieces).alive = true) :
    Idle (sendMessage c opcode pieces) (messages ++ [⟨opcode, pieces.flatten⟩]) := by
  obtain ⟨hdata, hpieces⟩ := hop
  have hbegun := webbyBeginSocketFrame_sending h opcode
  have hwritten := writePieces_sending hdata hbegun hpieces (webbyEndSocketFrame_alive halive)
  exact webbyEndSocketFrame_idle hdata hwritten halive

/-! ## Runs -/

theorem applyOp_alive {c : Connection σ} {op : Op} (h : (applyOp c op).alive = true) :
    c.alive = true := by
  cases op with
  | message opcode pieces => exact sendMessage_alive h
  | pong => exact (Bool.and_eq_true_iff.mp h).1

theorem runOps_alive {c : Connection σ} {ops : List Op} (h : (runOps c ops).alive = true) :
    c.alive = true := by
  induction ops generalizing c with
  | nil => exact h
  | cons op ops ih => exact applyOp_alive (ih h)

/-! ### On a socket without failures -/

/-- On a healthy socket the mode can be switched, and no connection is given up. -/
theorem switchMode_healthy {c : Connection σ} (h : Healthy c.socket) (blocking : Bool)
    (edge count : ℤ) :
    let r := switchMode c blocking edge count
    r.1 = true ∧ r.2.alive = c.alive ∧ Healthy r.2.socket := by
  unfold switchMode
  split
  · obtain ⟨hok, hsocket⟩ := wbSetBlocking_healthy h blocking
    dsimp only
    rw [if_pos hok]
    exact ⟨rfl, rfl, hsocket⟩
  · exact ⟨rfl, rfl, h⟩

/-- Writing on a WebSocket whose sends do not fail. -/
theorem webbyWrite_healthy {c : Connection σ} (hwebsocket : c.websocket = true)
    (h : Healthy c.socket) (data : List UInt8) :
    (webbyWrite c data).2.alive = c.alive ∧ (webbyWrite c data).2.websocket = true ∧
    Healthy (webbyWrite c data).2.socket := by
  unfold webbyWrite
  rw [if_pos hwebsocket]
  dsimp only
  obtain ⟨hfirst, hs⟩ := sendFully_healthy h
    (makeWebsocketHeader c.wsOpcode (BitVec.ofNat 32 data.length) false)
  obtain ⟨hsecond, hs'⟩ := sendFully_healthy hs
    (data.take (BitVec.ofNat 32 data.length).toInt.toNat)
  rw [if_neg (by simp [hfirst]), if_neg (by simp [hsecond])]
  exact ⟨rfl, hwebsocket, hs'⟩

/-- On such a socket nothing that is sent ends the connection. -/
theorem applyOp_healthy {c : Connection σ} (hwebsocket : c.websocket = true)
    (h : Healthy c.socket) (op : Op) :
    (applyOp c op).alive = c.alive ∧ (applyOp c op).websocket = true ∧
    Healthy (applyOp c op).socket := by
  cases op with
  | message opcode pieces =>
    -- the pieces: induction, with the connection as it is behind each
    have hpieces : ∀ c : Connection σ, c.websocket = true → Healthy c.socket →
        (pieces.foldl (fun c piece => (webbyWrite c piece).2) c).alive = c.alive ∧
        (pieces.foldl (fun c piece => (webbyWrite c piece).2) c).websocket = true ∧
        Healthy (pieces.foldl (fun c piece => (webbyWrite c piece).2) c).socket := by
      induction pieces with
      | nil => exact fun c hw hs => ⟨rfl, hw, hs⟩
      | cons piece pieces ih =>
        intro c hw hs
        obtain ⟨halive, hw', hs'⟩ := webbyWrite_healthy hw hs piece
        rw [← halive]
        exact ih _ hw' hs'
    have hbegin := switchMode_healthy
      (c := { c with wsOpcode := UInt8.ofNat opcode.val }) h true 0 (c.blockingCount + 1)
    have hbegin' := switchMode_frame { c with wsOpcode := UInt8.ofNat opcode.val } true 0
      (c.blockingCount + 1)
    obtain ⟨halive, hw, hs⟩ := hpieces (webbyBeginSocketFrame c (UInt8.ofNat opcode.val)).2
      (hbegin'.2.2.1.trans hwebsocket) hbegin.2.2
    generalize hc1 : pieces.foldl (fun c piece => (webbyWrite c piece).2)
      (webbyBeginSocketFrame c (UInt8.ofNat opcode.val)).2 = c1 at halive hw hs
    have happly : applyOp c (.message opcode pieces) = (webbyEndSocketFrame c1).2 := by
      rw [← hc1]
      rfl
    -- the end of the message, and the mode taken back
    obtain ⟨hok, hsent⟩ := sendFully_healthy hs (makeWebsocketHeader c1.wsOpcode 0 true)
    have hend := switchMode_healthy (c := { c1 with
      socket := (sendFully c1.socket (makeWebsocketHeader c1.wsOpcode 0 true)).2
      alive := c1.alive && (sendFully c1.socket (makeWebsocketHeader c1.wsOpcode 0 true)).1 }) hsent
      false 1 (c1.blockingCount - 1)
    have hend' := switchMode_frame { c1 with
      socket := (sendFully c1.socket (makeWebsocketHeader c1.wsOpcode 0 true)).2
      alive := c1.alive && (sendFully c1.socket (makeWebsocketHeader c1.wsOpcode 0 true)).1 }
      false 1 (c1.blockingCount - 1)
    rw [happly]
    refine ⟨?_, hend'.2.2.1.trans hw, hend.2.2⟩
    calc (webbyEndSocketFrame c1).2.alive
        = (c1.alive && (sendFully c1.socket (makeWebsocketHeader c1.wsOpcode 0 true)).1) :=
          hend.2.1
      _ = c1.alive := by rw [hok, Bool.and_true]
      _ = c.alive := halive.trans hbegin.2.1
  | pong =>
    obtain ⟨hok, hs⟩ := sendFully_healthy h websocketPong
    exact ⟨by simp [applyOp, answerPing, hok], hwebsocket, hs⟩

/-- A connection whose socket does not fail stays alive. -/
theorem runOps_healthy {c : Connection σ} (hwebsocket : c.websocket = true)
    (h : Healthy c.socket) (ops : List Op) : (runOps c ops).alive = c.alive := by
  induction ops generalizing c with
  | nil => rfl
  | cons op ops ih =>
    obtain ⟨halive, hw, hs⟩ := applyOp_healthy hwebsocket h op
    rw [← halive]
    exact ih hw hs

/-- What has been sent only grows. -/
theorem applyOp_grows (c : Connection σ) (op : Op) :
    c.socket.sent <+: (applyOp c op).socket.sent := by
  cases op with
  | message opcode pieces =>
    have hpieces : ∀ (c : Connection σ), c.socket.sent <+:
        (pieces.foldl (fun c piece => (webbyWrite c piece).2) c).socket.sent := by
      induction pieces with
      | nil => exact fun c => List.prefix_rfl
      | cons piece pieces ih => exact fun c => (webbyWrite_grows c piece).trans (ih _)
    have hend : ∀ (c : Connection σ), c.socket.sent <+: (webbyEndSocketFrame c).2.socket.sent := by
      intro c
      rw [webbyEndSocketFrame, makeConnectionNonblocking, (switchMode_frame _ _ _ _).1]
      exact sendFully_grows _ _
    rw [← (webbyBeginSocketFrame_frame c (UInt8.ofNat opcode.val)).1]
    exact (hpieces _).trans (hend _)
  | pong => exact sendFully_grows _ _

theorem runOps_grows (c : Connection σ) (ops : List Op) :
    c.socket.sent <+: (runOps c ops).socket.sent := by
  induction ops generalizing c with
  | nil => exact List.prefix_rfl
  | cons op ops ih => exact (applyOp_grows c op).trans (ih _)

/-- Behind the answer to a ping no frame is accepted: it reads as one that
continues a message, and no message has begun. -/
theorem pong_refused (messages : List Message) (more : List UInt8) (f : Frame) (rest : List UInt8)
    (h : parseFrame (websocketPong ++ more) = some (f, rest)) :
    receive false ⟨none, messages⟩ f = none := by
  have htext := text_of_parseFrame _ f rest h
  rw [Frame.text, Frame.header] at htext
  simp only [websocketPong, List.cons_append, List.cons.injEq] at htext
  obtain ⟨hhead, hsecond, -⟩ := htext
  -- a first byte of 0x80 is a last frame with the opcode 0, which continues nothing
  have hopcode : f.opcode = 0 := by
    have hnat := f.head_toNat
    rw [← hhead] at hnat
    have h128 : (0x80 : UInt8).toNat = 128 := rfl
    have hlt := f.opcode.isLt
    apply Fin.ext
    show f.opcode.val = 0
    split at hnat <;> omega
  -- the second byte is below 128, so there is no key
  have hkey : f.key.isSome = false := by
    have hnat := f.second_toNat
    rw [← hsecond] at hnat
    have h10 : WEBBY_WS_OP_PONG.toNat = 10 := rfl
    cases hmasked : f.key.isSome with
    | false => rfl
    | true =>
      rw [hmasked, if_pos rfl] at hnat
      omega
  have h0 : isReserved 0 = false ∧ isControl 0 = false := ⟨rfl, rfl⟩
  simp [receive, hkey, hopcode, h0]

/-- Messages without a ping in between leave nothing half sent. -/
theorem runOps_idle {c : Connection σ} {messages : List Message} (h : Idle c messages)
    {ops : List Op} (hops : ∀ op ∈ ops, op.Sendable) (hpong : Op.pong ∉ ops)
    (halive : (runOps c ops).alive = true) :
    Idle (runOps c ops) (messages ++ messagesBeforePong ops) := by
  induction ops generalizing c messages with
  | nil => simpa [runOps, messagesBeforePong] using h
  | cons op ops ih =>
    cases op with
    | message opcode pieces =>
      have hidle := sendMessage_idle h (hops _ List.mem_cons_self) (runOps_alive halive)
      have hrest := ih hidle (fun q hq => hops q (List.mem_cons_of_mem _ hq))
        (fun hmem => hpong (List.mem_cons_of_mem _ hmem)) halive
      rwa [List.append_assoc] at hrest
    | pong => exact absurd List.mem_cons_self hpong

/-- A run in which a ping is answered: at that point the messages before it have
gone out, and the answer is next on the wire. -/
theorem runOps_pong {c : Connection σ} {messages : List Message} (h : Idle c messages)
    {ops : List Op} (hops : ∀ op ∈ ops, op.Sendable) (hpong : Op.pong ∈ ops)
    (halive : (runOps c ops).alive = true) :
    ∃ bs more, (runOps c ops).socket.sent = bs ++ (websocketPong ++ more) ∧
      Carries false bs ⟨none, messages ++ messagesBeforePong ops⟩ := by
  induction ops generalizing c messages with
  | nil => cases hpong
  | cons op ops ih =>
    cases op with
    | message opcode pieces =>
      have hidle := sendMessage_idle h (hops _ List.mem_cons_self) (runOps_alive halive)
      rcases ih hidle (fun q hq => hops q (List.mem_cons_of_mem _ hq))
        (by simpa using hpong) halive with ⟨bs, more, hsent, hcarries⟩
      rw [List.append_assoc] at hcarries
      exact ⟨bs, more, hsent, hcarries⟩
    | pong =>
      have hok : (sendFully c.socket websocketPong).1 = true :=
        (Bool.and_eq_true_iff.mp (runOps_alive (c := answerPing c) halive)).2
      rcases runOps_grows (answerPing c) ops with ⟨more, hmore⟩
      refine ⟨c.socket.sent, more, ?_, ?_⟩
      · rw [← List.append_assoc, ← sendFully_sent hok]
        exact hmore.symm
      · simpa [messagesBeforePong] using h.carries

/-- Whatever is sent on a connection, in whatever pieces and with however short
sends: as long as it is alive the peer has received the messages sent before the
first ping was answered, and nothing else; and what it gets is frames it accepts
just when no ping was answered. -/
theorem delivered_runOps {c : Connection σ} {messages : List Message} (h : Idle c messages)
    {ops : List Op} (hops : ∀ op ∈ ops, op.Sendable) (halive : (runOps c ops).alive = true) :
    delivered false (runOps c ops).socket.sent = messages ++ messagesBeforePong ops ∧
    ((∃ r, Carries false (runOps c ops).socket.sent r) ↔ Op.pong ∉ ops) := by
  by_cases hpong : Op.pong ∈ ops
  · rcases runOps_pong h hops hpong halive with ⟨bs, more, hsent, hcarries⟩
    have hrefused := pong_refused (messages ++ messagesBeforePong ops) more
    rw [hsent]
    refine ⟨hcarries.delivered _ hrefused, ?_⟩
    constructor
    · rintro ⟨r, hall⟩
      rcases hcarries.next (by simp [websocketPong]) hall with ⟨f, rest, hparse, haccepted⟩
      exact absurd (hrefused f rest hparse) haccepted
    · intro hnone
      exact absurd hpong hnone
  · have hidle := runOps_idle h hops hpong halive
    exact ⟨hidle.carries.delivered_eq, fun _ => hpong, fun _ => ⟨_, hidle.carries⟩⟩

theorem upgraded_idle (limits : Limits) (user : σ) {socket : Socket} (h : socket.sent = []) :
    Idle (upgraded limits user socket) [] where
  websocket := rfl
  carries := by
    show Carries false socket.sent _
    rw [h]
    exact Carries.nil

/-- A message, a ping, and another message, the first send taking one byte. -/
theorem delivered_two_messages :
    let c := upgraded ⟨2048, 8192⟩ () ⟨[], .silent, false, [], [some 1], []⟩
    let ops := [.message 2 [[1], [2, 3]], .pong, .message 2 [[4]]]
    delivered false (runOps c ops).socket.sent = [⟨2, [1, 2, 3]⟩] ∧
    ((∃ r, Carries false (runOps c ops).socket.sent r) ↔ Op.pong ∉ ops) := by
  apply delivered_runOps (upgraded_idle ⟨2048, 8192⟩ () rfl)
  · simp [Op.Sendable, isData]
  · rw [runOps_healthy rfl]
    · rfl
    · exact ⟨by simp [upgraded, onIncoming], by simp [upgraded, onIncoming]⟩

end Yardstick.WebbyMessages
