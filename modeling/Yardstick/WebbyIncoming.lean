import Yardstick.WebbyUpdate

/-!
# WebbyIncoming — frames that come in

On a WebSocket `wb_update_client` fills the I/O buffer, scans the header of a
frame, lets the callback read the payload with `WebbyRead`, and discards what it
did not read. Then `reset_connection` empties the buffer, whatever is in it.

* `takeFrame_serves`: a frame that has come in is handed to the callback, which
  gets its payload without the mask, however it is cut into reads;
* `frame_in_sync_iff`: the next frame is found behind it exactly when the buffer
  held nothing of that frame;
* `frames_served`: frames with a pause between them are all handled, in order,
  whatever other pauses there are, if the callback reads no further than each.
-/

namespace Yardstick.WebbyIncoming

open SocketFrames WebbyConnection WebbyFrames WebbyOutput WebbyUpdate

variable {σ : Type*}

/-! ## Callbacks that read -/

/-- What a frame callback does: it reads bytes, looks at them and reads more; in
the end it changes what `user_data` points to and returns. -/
inductive Reading (σ : Type*) where
  | done (ok : Bool) (user : σ)
  | read (len : ℕ) (next : Option (List UInt8) → Reading σ)

namespace Reading

def run : Reading σ → Connection σ → Option (Bool × Connection σ)
  | done ok user, c => some (ok, { c with user := user })
  | read len next, c => (webbyRead c len).bind fun r => (next r.1).run r.2

/-- What it makes of a payload, if it reads no further than that. -/
def apply : Reading σ → List UInt8 → Option (Bool × σ)
  | done ok user, _ => some (ok, user)
  | read len next, payload =>
    if len ≤ payload.length then (next (some (payload.take len))).apply (payload.drop len)
    else none

end Reading

theorem unmasked_length (c : Connection σ) (bs : List UInt8) :
    (unmasked c bs).length = bs.length := by
  unfold unmasked
  split <;> simp

theorem unmasked_take (c : Connection σ) (bs : List UInt8) (len : ℕ) :
    unmasked c (bs.take len) = (unmasked c bs).take len := by
  unfold unmasked
  split
  · exact mask_take _ _ _ _
  · rfl

/-- The mask goes on where the last read has stopped. -/
theorem unmasked_drop (c : Connection σ) (bs : List UInt8) (len : ℕ) :
    unmasked (taken c len) (bs.drop len) = (unmasked c bs).drop len := by
  show (if c.websocket && c.wsFrame.masked then
    mask c.wsFrame.maskKey (c.bodyBytesRead + len) (bs.drop len) else bs.drop len) = _
  unfold unmasked
  split
  · exact mask_drop _ _ _ _
  · rfl

/-- A callback that reads no further than the payload gets the payload. -/
theorem run_payload {program : Reading σ} {c : Connection σ} (h : Buffered c)
    (hblocking : c.socket.blocking = true) {bs rest : List UInt8} (hunread : unread c = bs ++ rest)
    {ok : Bool} {user : σ} (happly : program.apply (unmasked c bs) = some (ok, user)) :
    ∃ n ≤ bs.length, program.run c = some (ok, { taken c n with user := user }) := by
  induction program generalizing c bs with
  | done ok' user' =>
    obtain ⟨rfl, rfl⟩ : ok' = ok ∧ user' = user := by simpa [Reading.apply] using happly
    exact ⟨0, Nat.zero_le _, by simp [Reading.run, taken, behind]⟩
  | read len next ih =>
    rw [Reading.apply, unmasked_length] at happly
    split at happly
    · rename_i hle
      -- the read stays within the payload, so it returns at once
      have hall : len ≤ (unread c).length := by
        rw [hunread, List.length_append]
        omega
      have hbytes : (unread c).take len = bs.take len := by
        rw [hunread, List.take_append_of_le_length hle]
      have hrest : unread (taken c len) = bs.drop len ++ rest := by
        rw [unread_taken h, hunread, List.drop_append_of_le_length hle]
      rw [← unmasked_drop c bs len, ← unmasked_take, ← hbytes] at happly
      rcases ih _ (taken_buffered h len) hblocking hrest happly with ⟨n, hn, hrun⟩
      rw [List.length_drop] at hn
      refine ⟨len + n, by omega, ?_⟩
      rw [Reading.run, webbyRead_spec h hblocking hall, Option.bind_some]
      dsimp only
      rw [hrun, taken_taken]
    · cases happly

/-! ## One frame -/

/-- A WebSocket between two frames or in the middle of one, whose peer keeps the
connection open: behind what arrives the socket stays silent, and no call on it
fails. -/
structure Listening (limits : Limits) (c : Connection σ) : Prop where
  state : c.state = .websocket
  websocket : c.websocket = true
  alive : c.alive = true
  ending : c.socket.ending = .silent
  blocking : c.socket.blocking = false
  count : c.blockingCount = 0
  healthy : Healthy c.socket
  header : c.headerBodyLeft = 0
  max : c.ioBuf.max = limits.ioBufferSize

/-- The first round of an update takes the flag of a new connection away. -/
theorem Listening.fresh {limits : Limits} {c : Connection σ} (h : Listening limits c) :
    Listening limits { c with fresh := false } :=
  ⟨h.state, h.websocket, h.alive, h.ending, h.blocking, h.count, h.healthy, h.header, h.max⟩

/-- More of a frame comes into the buffer. -/
theorem Listening.filled {limits : Limits} {c : Connection σ} (h : Listening limits c)
    (data : List UInt8) (as : List (Option UInt8)) :
    Listening limits { c with
      ioBuf := { c.ioBuf with data := data }
      socket := { c.socket with arrivals := as } } :=
  ⟨h.state, h.websocket, h.alive, h.ending, h.blocking, h.count,
    ⟨h.healthy.sends, h.healthy.modes⟩, h.header, h.max⟩

/-- What a frame makes of what `user_data` points to; `none` if the callback
fails or reads too far. -/
def outcome (program : σ → WsFrame → Reading σ) (f : Frame) (user : σ) (frame : WsFrame) :
    Option σ :=
  if frame.opcode = WEBBY_WS_OP_PING then some user
  else
    match (program user frame).apply f.payload with
    | some (true, user') => some user'
    | _ => none

/-- What is sent for a frame. -/
def reply (frame : WsFrame) : List UInt8 :=
  if frame.opcode = WEBBY_WS_OP_PING then websocketPong else []

/-- What the loop has done with a frame: `c'` waits for the next one, at the
given arrivals. -/
structure Served (limits : Limits) (f : Frame) (user : σ) (arrivals : List (Option UInt8))
    (c c' : Connection σ) : Prop where
  listening : Listening limits c'
  data : c'.ioBuf.data = []
  user_eq : c'.user = user
  frame : c'.wsFrame = scanned f c.wsFrame
  sent : c'.socket.sent = c.socket.sent ++ reply (scanned f c.wsFrame)
  arrivals_eq : c'.socket.arrivals = arrivals

theorem payloadLength_scanned {f : Frame} (h : f.payload.length < 2 ^ 31) (old : WsFrame) :
    (scanned f old).payloadLength.toInt = f.payload.length := by
  have hnat : (BitVec.ofNat 32 f.payload.length).toNat = f.payload.length := by
    rw [BitVec.toNat_ofNat, Nat.mod_eq_of_lt (by omega)]
  show (BitVec.ofNat 32 f.payload.length).toInt = _
  rw [BitVec.toInt_eq_toNat_cond, hnat, if_pos (by omega)]

/-- The payload as it travels is read without its mask. -/
theorem unmasked_payload {c : Connection σ} {f : Frame} {old : WsFrame}
    (hwebsocket : c.websocket = true) (hframe : c.wsFrame = scanned f old)
    (hread : c.bodyBytesRead = 0) : unmasked c (maskedPayload f.key f.payload) = f.payload := by
  have hpayload := maskedPayload_maskedPayload f.key f.payload
  unfold unmasked
  rw [hwebsocket, hframe, hread]
  cases hkey : f.key with
  | none => simp [scanned, hkey, maskedPayload]
  | some key =>
    have hmasked : (scanned f old).masked = true := by simp [scanned, hkey]
    have hmaskKey : (scanned f old).maskKey = key := by simp [scanned, hkey]
    rw [hkey] at hpayload
    rw [hmasked, hmaskKey, Bool.and_self, if_pos rfl]
    exact hpayload

/-- The callback, or the answer to a ping. -/
theorem handleFrame_serves {config : Config σ} {program : σ → WsFrame → Reading σ}
    (hconfig : ∀ c frame, config.wsFrame c frame = (program c.user frame).run c)
    {c : Connection σ} {f : Frame} {old : WsFrame} {rest : List UInt8} {user : σ}
    (hbuffered : Buffered c) (hblocking : c.socket.blocking = true) (hhealthy : Healthy c.socket)
    (halive : c.alive = true)
    (hunread : unread c = maskedPayload f.key f.payload ++ rest)
    (hunmasked : unmasked c (maskedPayload f.key f.payload) = f.payload)
    (hclose : (scanned f old).opcode ≠ WEBBY_WS_OP_CLOSE)
    (houtcome : outcome program f c.user (scanned f old) = some user) :
    ∃ n sendResults, n ≤ f.payload.length ∧ (∀ result ∈ sendResults, ∃ n, result = some (n + 1)) ∧
      handleFrame config (scanned f old) c = some (true, { taken c n with
        user := user
        socket := { (taken c n).socket with
          sendResults := sendResults, sent := c.socket.sent ++ reply (scanned f old) } }) := by
  unfold handleFrame
  rw [if_neg hclose]
  unfold outcome at houtcome
  unfold reply
  -- a ping is answered, and nothing of it is read
  by_cases hping : (scanned f old).opcode = WEBBY_WS_OP_PING
  · rw [if_pos hping] at houtcome ⊢
    obtain rfl := Option.some.inj houtcome
    rcases sendFully_all hhealthy websocketPong with ⟨results, hresults, hsend⟩
    refine ⟨0, results, Nat.zero_le _, hresults, ?_⟩
    rw [hsend, if_pos hping]
    simp [taken, behind, halive]
  · -- any other frame goes to the callback
    rw [if_neg hping] at houtcome ⊢
    rw [if_neg hping]
    split at houtcome
    · rename_i user' happly
      obtain rfl := Option.some.inj houtcome
      rw [← hunmasked] at happly
      rcases run_payload hbuffered hblocking hunread happly with ⟨n, hn, hrun⟩
      rw [maskedPayload_length] at hn
      refine ⟨n, c.socket.sendResults, hn, hhealthy.sends, ?_⟩
      rw [hconfig, hrun]
      simp [taken]
    · cases houtcome

/-- What the callback left is discarded. -/
theorem discardRest_serves {c : Connection σ} {f : Frame} {old : WsFrame}
    (hbuffered : Buffered c) (hblocking : c.socket.blocking = true)
    (hframe : c.wsFrame = scanned f old) (hlen : f.payload.length < 2 ^ 31)
    (hread : c.bodyBytesRead ≤ f.payload.length)
    (hunread : f.payload.length - c.bodyBytesRead ≤ (unread c).length) :
    discardRest c = some (true, taken c (f.payload.length - c.bodyBytesRead)) := by
  unfold discardRest
  rw [hframe, payloadLength_scanned hlen]
  split
  · have hcount : ((f.payload.length : ℤ) - c.bodyBytesRead).toNat =
        f.payload.length - c.bodyBytesRead := by omega
    rw [hcount, discardIncomingData_spec hbuffered hblocking hunread]
    rfl
  · have hnone : f.payload.length - c.bodyBytesRead = 0 := by omega
    rw [hnone]
    simp [taken, behind]

/-- The connection as the callback finds it: `data` is in the buffer and begins
with the header of the frame, and the socket waits. -/
def entered (c : Connection σ) (f : Frame) (data : List UInt8) (as : List (Option UInt8))
    (modes : List Bool) : Connection σ :=
  { c with
    ioBuf := { c.ioBuf with data := data }
    socket := { c.socket with arrivals := as, blocking := true, modeResults := modes }
    wsFrame := scanned f c.wsFrame
    bodyBytesRead := 0
    ioDataLeft := data.length - f.header.length
    blockingCount := 1 }

/-- Behind the header the payload is unread, masked, and then what follows the
frame. -/
theorem unread_entered {limits : Limits} {c : Connection σ} (h : Listening limits c) {f : Frame}
    {data rest : List UInt8} {as : List (Option UInt8)}
    (hstream : data ++ as.reduceOption = f.text ++ rest) (hheader : f.header.length ≤ data.length)
    (modes : List Bool) :
    unread (entered c f data as modes) = maskedPayload f.key f.payload ++ rest := by
  have hdrop : (data ++ as.reduceOption).drop f.header.length =
      maskedPayload f.key f.payload ++ rest := by
    rw [hstream, Frame.text, List.append_assoc, List.drop_left]
  rw [List.drop_append_of_le_length hheader] at hdrop
  have hback : data.length - (data.length - f.header.length) = f.header.length := by omega
  unfold unread entered
  dsimp only [Socket.coming]
  rw [h.header, hback, Nat.sub_zero, List.drop_length, List.nil_append, hdrop]

/-- What is left behind the header is in the buffer. -/
theorem entered_buffered {limits : Limits} {c : Connection σ} (h : Listening limits c) (f : Frame)
    (data : List UInt8) (as : List (Option UInt8)) (modes : List Bool) :
    Buffered (entered c f data as modes) where
  header_le := by
    show c.headerBodyLeft ≤ _
    rw [h.header]
    exact Nat.zero_le _
  io_le := Nat.sub_le _ _

/-- What a buffer holds is the beginning of the stream. -/
theorem buffered_initial {data rest : List UInt8} {as : List (Option UInt8)} {text : List UInt8}
    (hstream : data ++ as.reduceOption = text ++ rest) :
    data = (text ++ rest).take data.length := by
  rw [← hstream, List.take_left]

/-- Once the header of a frame is buffered, the socket waits and the frame is
dealt with. -/
theorem takeFrame_enters {config : Config σ} {c : Connection σ} (h : Listening config.limits c)
    {f : Frame} {fill : Fill} {data rest : List UInt8} {as : List (Option UInt8)}
    (hfill : wbFillBuffer c.ioBuf c.socket =
      some (fill, { c.ioBuf with data := data }, { c.socket with arrivals := as }))
    (hok : fill ≠ .error) (hstream : data ++ as.reduceOption = f.text ++ rest)
    (hheader : f.header.length ≤ data.length) :
    ∃ modes, (∀ result ∈ modes, result = true) ∧
      takeFrame config c =
        (handleFrame config (scanned f c.wsFrame) (entered c f data as modes)).bind fun h =>
          if h.1 = false then some (.stop h.2)
          else
            (discardRest h.2).map fun d =>
              if d.1 = false then .stop d.2
              else
                let n := makeConnectionNonblocking d.2
                if n.1 = false then .stop n.2
                else .again { resetConnection config.limits n.2 with state := .websocket } := by
  -- the header that is found is that of the frame
  have hscan : scanWebsocketFrame { c.ioBuf with data := data } c.wsFrame =
      some (scanned f c.wsFrame) := by
    rw [buffered_initial hstream, scanWebsocketFrame_text, if_neg (by omega)]
  -- the payload is read on a socket that waits
  rcases makeConnectionBlocking_first (c := { c with
      ioBuf := { c.ioBuf with data := data }
      socket := { c.socket with arrivals := as }
      wsFrame := scanned f c.wsFrame
      bodyBytesRead := 0
      ioDataLeft := data.length - f.header.length })
    h.healthy.modes h.count with ⟨modes, hmodes, hblocking⟩
  have hentered : makeConnectionBlocking { c with
      ioBuf := { c.ioBuf with data := data }
      socket := { c.socket with arrivals := as }
      wsFrame := scanned f c.wsFrame
      bodyBytesRead := 0
      ioDataLeft := data.length - (scanned f c.wsFrame).headerSize } =
      (true, entered c f data as modes) := hblocking
  refine ⟨modes, hmodes, ?_⟩
  rw [takeFrame, hfill, Option.bind_some]
  dsimp only
  rw [if_neg hok, hscan]
  dsimp only
  rw [hentered, if_neg (by simp)]

/-- A frame whose header has come in is handed to the callback, and the loop
goes on behind its last byte or behind the last byte buffered. -/
theorem takeFrame_serves {config : Config σ} {program : σ → WsFrame → Reading σ}
    (hconfig : ∀ c frame, config.wsFrame c frame = (program c.user frame).run c)
    {c : Connection σ} (h : Listening config.limits c) {f : Frame} {rest : List UInt8} {user : σ}
    (hlen : f.payload.length < 2 ^ 31)
    (hclose : (scanned f c.wsFrame).opcode ≠ WEBBY_WS_OP_CLOSE)
    (houtcome : outcome program f c.user (scanned f c.wsFrame) = some user)
    {fill : Fill} {data : List UInt8} {as : List (Option UInt8)}
    (hfill : wbFillBuffer c.ioBuf c.socket =
      some (fill, { c.ioBuf with data := data }, { c.socket with arrivals := as }))
    (hok : fill ≠ .error) (hstream : data ++ as.reduceOption = f.text ++ rest)
    (hheader : f.header.length ≤ data.length) :
    ∃ c', takeFrame config c = some (.again c') ∧
      Served config.limits f user (behind (f.text.length - data.length) as) c c' := by
  rcases takeFrame_enters h hfill hok hstream hheader with ⟨modes, hmodes, hround⟩
  have hunread := unread_entered h hstream hheader modes
  have hbuffered := entered_buffered h f data as modes
  -- the callback reads some of it
  rcases handleFrame_serves hconfig hbuffered rfl ⟨h.healthy.sends, hmodes⟩ h.alive hunread
    (unmasked_payload h.websocket rfl rfl) hclose houtcome with ⟨n, results, hn, hresults, hhandle⟩
  let d : Connection σ := { taken (entered c f data as modes) n with
    user := user
    socket := { (taken (entered c f data as modes) n).socket with
      sendResults := results
      sent := c.socket.sent ++ reply (scanned f c.wsFrame) } }
  have hhandle' : handleFrame config (scanned f c.wsFrame) (entered c f data as modes) =
      some (true, d) := hhandle
  have hread : d.bodyBytesRead = n := Nat.zero_add n
  have hleft : unread d = (maskedPayload f.key f.payload ++ rest).drop n := by
    rw [← hunread, ← unread_taken hbuffered]
    rfl
  -- and the rest is discarded
  have hdiscard : discardRest d = some (true, taken d (f.payload.length - n)) := by
    have hbuffered' := taken_buffered hbuffered n
    have hdiscard' := discardRest_serves (c := d) (f := f) ⟨hbuffered'.header_le, hbuffered'.io_le⟩
      rfl rfl hlen (by rw [hread]; exact hn) (by
        rw [hread, hleft, List.length_drop, List.length_append, maskedPayload_length]
        omega)
    rw [hread] at hdiscard'
    exact hdiscard'
  rcases makeConnectionNonblocking_last (c := taken d (f.payload.length - n)) hmodes rfl with
    ⟨modes', hmodes', hnonblocking⟩
  have harrivals : (taken d (f.payload.length - n)).socket.arrivals =
      behind (f.text.length - data.length) as := by
    have htaken := congrArg (fun c : Connection σ => c.socket.arrivals)
      (taken_taken (entered c f data as modes) n (f.payload.length - n))
    have hcount : n + (f.payload.length - n) - (entered c f data as modes).headerBodyLeft -
        (entered c f data as modes).ioDataLeft = f.text.length - data.length := by
      have hlength : f.text.length = f.header.length + f.payload.length := by simp [Frame.text]
      have hheaderLeft : (entered c f data as modes).headerBodyLeft = 0 := h.header
      have hioLeft : (entered c f data as modes).ioDataLeft = data.length - f.header.length := rfl
      rw [hheaderLeft, hioLeft]
      omega
    rw [← hcount]
    exact htaken
  refine ⟨{ resetConnection config.limits { taken d (f.payload.length - n) with
      socket := { (taken d (f.payload.length - n)).socket with
        blocking := false, modeResults := modes' }
      blockingCount := 0 } with state := .websocket }, ?_, ?_⟩
  · rw [hround, hhandle', Option.bind_some, if_neg (by simp), hdiscard, Option.map_some,
      if_neg (by simp)]
    dsimp only
    rw [hnonblocking, if_neg (by simp)]
  · exact {
      listening := ⟨rfl, h.websocket, h.alive, h.ending, rfl, rfl, ⟨hresults, hmodes'⟩, rfl, rfl⟩
      data := rfl
      user_eq := rfl
      frame := rfl
      sent := rfl
      arrivals_eq := harrivals }

/-- A frame whose header is not complete is left in the buffer. -/
theorem takeFrame_waits {config : Config σ} {c : Connection σ} {fill : Fill} {data : List UInt8}
    {as : List (Option UInt8)}
    (hfill : wbFillBuffer c.ioBuf c.socket =
      some (fill, { c.ioBuf with data := data }, { c.socket with arrivals := as }))
    (hok : fill ≠ .error) (hscan : scanWebsocketFrame { c.ioBuf with data := data } c.wsFrame = none) :
    takeFrame config c = some (.stop { c with
      ioBuf := { c.ioBuf with data := data }, socket := { c.socket with arrivals := as } }) := by
  rw [takeFrame, hfill, Option.bind_some]
  dsimp only
  rw [if_neg hok, hscan]

/-- What the fill of the buffer leaves, on a connection that stays open. -/
theorem fill_listening {limits : Limits} {c : Connection σ} (h : Listening limits c) :
    ∃ fill bs as, wbFillBuffer c.ioBuf c.socket =
        some (fill, { c.ioBuf with data := c.ioBuf.data ++ bs }, { c.socket with arrivals := as }) ∧
      Filled (limits.ioBufferSize - c.ioBuf.data.length) c.socket.arrivals fill bs as := by
  rcases wbFillBuffer_open c.ioBuf h.blocking h.ending with ⟨fill, bs, as, hfill, hfilled⟩
  rw [h.max] at hfilled
  exact ⟨fill, bs, as, hfill, hfilled⟩

/-! ## Frames with a pause between them -/

/-- What the frames make of what `user_data` points to, one after another. -/
def outcomes (program : σ → WsFrame → Reading σ) : List Frame → σ → WsFrame → Option σ
  | [], user, _ => some user
  | f :: fs, user, old =>
    (outcome program f user (scanned f old)).bind fun user => outcomes program fs user (scanned f old)

/-- A pong for each ping. -/
def pongs (frames : List Frame) : List UInt8 :=
  frames.flatMap fun f => if UInt8.ofNat f.opcode.val = WEBBY_WS_OP_PING then websocketPong else []

theorem header_le_text (f : Frame) : f.header.length ≤ f.text.length := by
  rw [Frame.text, List.length_append]
  exact Nat.le_add_right _ _

theorem header_pos (f : Frame) : 0 < f.header.length := by
  rw [header_length]
  omega

theorem text_ne (f : Frame) : f.text ≠ [] := List.cons_ne_nil _ _

/-- Two bytes, eight of length and four of the key at most. -/
theorem header_le (f : Frame) : f.header.length ≤ 14 := by
  have hbytes : (lengthBytes f.payload.length).length ≤ 8 := by
    unfold lengthBytes
    split
    · simp
    · split
      · simp
      · simp
  rw [header_length]
  split
  · omega
  · omega

/-- The connection is in step with the frames that are still to come. -/
structure InStep (config : Config σ) (program : σ → WsFrame → Reading σ) (user : σ)
    (sent : List UInt8) (frames : List Frame) (c : Connection σ) : Prop where
  listening : Listening config.limits c
  stream : c.ioBuf.data ++ c.socket.coming = frames.flatMap Frame.text
  part : ∀ f ∈ frames.head?, c.ioBuf.data.length < f.header.length
  apart : Apart c.ioBuf.data.length (frames.map Frame.text) c.socket.arrivals
  lengths : ∀ f ∈ frames, f.payload.length < 2 ^ 31
  open_ : ∀ f ∈ frames, f.opcode ≠ 8
  outcomes_eq : outcomes program frames c.user c.wsFrame = some user
  sent_eq : c.socket.sent ++ pongs frames = sent

theorem opcode_scanned {f : Frame} (h : f.opcode ≠ 8) (old : WsFrame) :
    (scanned f old).opcode ≠ WEBBY_WS_OP_CLOSE := by
  have hall : ∀ opcode : Fin 16, opcode ≠ 8 → UInt8.ofNat opcode.val ≠ WEBBY_WS_OP_CLOSE := by
    decide
  exact hall f.opcode h

/-- A connection that is in step has something to receive as long as a frame is
still to come. -/
theorem InStep.coming {config : Config σ} {program : σ → WsFrame → Reading σ} {user : σ}
    {sent : List UInt8} {frames : List Frame} {c : Connection σ}
    (h : InStep config program user sent frames c) (hnil : c.socket.arrivals = []) :
    frames = [] := by
  cases frames with
  | nil => rfl
  | cons f fs =>
    have hpart := h.part f rfl
    have htext := header_le_text f
    have hstream := h.stream
    rw [Socket.coming, hnil, List.flatMap_cons] at hstream
    have hlength := congrArg List.length (show c.ioBuf.data ++ [] = _ from hstream)
    simp only [List.length_append, List.length_nil] at hlength
    omega

/-- Behind a frame that has been served the connection is in step with those that
follow. -/
theorem InStep.served {config : Config σ} {program : σ → WsFrame → Reading σ} {user user' : σ}
    {sent : List UInt8} {f : Frame} {fs : List Frame} {c c' : Connection σ}
    {as : List (Option UInt8)} (h : InStep config program user sent (f :: fs) c)
    (hserved : Served config.limits f user' as c c')
    (houtcomes : outcomes program fs user' (scanned f c.wsFrame) = some user)
    (hapart : Apart 0 (fs.map Frame.text) as)
    (hrest : as.reduceOption = fs.flatMap Frame.text) : InStep config program user sent fs c' := by
  refine ⟨hserved.listening, ?_, fun g _ => ?_, ?_,
    fun g hg => h.lengths g (List.mem_cons_of_mem _ hg),
    fun g hg => h.open_ g (List.mem_cons_of_mem _ hg), ?_, ?_⟩
  · rw [hserved.data, Socket.coming, hserved.arrivals_eq, List.nil_append, hrest]
  · rw [hserved.data]
    exact header_pos g
  · rw [hserved.data, hserved.arrivals_eq]
    exact hapart
  · rw [hserved.user_eq, hserved.frame]
    exact houtcomes
  · rw [hserved.sent, ← h.sent_eq, List.append_assoc]
    rfl

/-- One round of the loop waits for the rest of a header, or serves a frame. -/
theorem takeFrame_inStep {config : Config σ} {program : σ → WsFrame → Reading σ}
    (hconfig : ∀ c frame, config.wsFrame c frame = (program c.user frame).run c)
    (hbuffer : 14 ≤ config.limits.ioBufferSize) {user : σ} {sent : List UInt8}
    {frames : List Frame} {c : Connection σ} (h : InStep config program user sent frames c) :
    (∃ c', takeFrame config c = some (.stop c') ∧ InStep config program user sent frames c' ∧
      (frames = [] ∨ c'.socket.arrivals.length < c.socket.arrivals.length)) ∨
    ∃ f fs c', frames = f :: fs ∧ takeFrame config c = some (.again c') ∧
      InStep config program user sent fs c' ∧
      c'.socket.arrivals.length ≤ c.socket.arrivals.length := by
  rcases fill_listening h.listening with ⟨fill, bs, as, hfill, hfilled⟩
  have hcoming : c.ioBuf.data ++ bs ++ as.reduceOption = frames.flatMap Frame.text := by
    rw [← h.stream, List.append_assoc, Socket.coming, hfilled.coming]
  -- a connection that has only filled its buffer
  have hfilling := h.listening.filled (c.ioBuf.data ++ bs) as
  cases frames with
  | nil =>
    left
    have hnil : c.ioBuf.data ++ bs = [] := (List.append_eq_nil_iff.mp hcoming).1
    refine ⟨_, takeFrame_waits hfill hfilled.ok (by rw [hnil]; rfl), ?_, Or.inl rfl⟩
    exact ⟨hfilling, hcoming, by simp, trivial, h.lengths, h.open_, h.outcomes_eq, h.sent_eq⟩
  | cons f fs =>
    have hpart := h.part f rfl
    have htext := header_le_text f
    obtain ⟨hle, hapart, hapart', hrest⟩ := h.apart.fill (by simp [text_ne]) (by omega) hfilled
      (by rw [hcoming, List.flatMap_cons, List.flatMap_def])
    rw [List.flatMap_cons] at hcoming
    by_cases hheader : (c.ioBuf.data ++ bs).length < f.header.length
    · left
      have hscan : scanWebsocketFrame { c.ioBuf with data := c.ioBuf.data ++ bs } c.wsFrame =
          none := by
        rw [buffered_initial hcoming, scanWebsocketFrame_text, if_pos hheader]
      refine ⟨_, takeFrame_waits hfill hfilled.ok hscan, ?_, Or.inr ?_⟩
      · refine ⟨hfilling, hcoming, ?_, hapart (by omega), h.lengths, h.open_, h.outcomes_eq,
          h.sent_eq⟩
        intro f' hf'
        obtain rfl := Option.mem_some_iff.mp hf'
        exact hheader
      · -- there are bytes to come, and room for them
        apply hfilled.progress
        · intro hnil
          exact absurd (h.coming hnil) (List.cons_ne_nil _ _)
        · have := header_le f
          omega
    · right
      rcases Option.bind_eq_some_iff.mp h.outcomes_eq with ⟨user', houtcome, houtcomes⟩
      rcases takeFrame_serves hconfig h.listening (h.lengths f List.mem_cons_self)
        (opcode_scanned (h.open_ f List.mem_cons_self) c.wsFrame) houtcome hfill hfilled.ok hcoming
        (by omega) with ⟨c', htake, hserved⟩
      rw [← List.flatMap_def] at hrest
      refine ⟨f, fs, c', rfl, htake, h.served hserved houtcomes hapart' hrest, ?_⟩
      rw [hserved.arrivals_eq]
      exact le_trans (length_behind_le _ _) hfilled.rest_le

/-- Frames with a pause behind each of them are all handled, in order and once,
whatever other pauses there are: on a socket that works, with no close among
them and a callback that succeeds on each within its payload. -/
theorem frames_served {config : Config σ} {program : σ → WsFrame → Reading σ}
    (hconfig : ∀ c frame, config.wsFrame c frame = (program c.user frame).run c)
    (hbuffer : 14 ≤ config.limits.ioBufferSize) {c : Connection σ}
    (h : Listening config.limits c) (hempty : c.ioBuf.data = []) {frames : List Frame}
    (hstream : c.socket.coming = frames.flatMap Frame.text)
    (hapart : Apart 0 (frames.map Frame.text) c.socket.arrivals)
    (hlengths : ∀ f ∈ frames, f.payload.length < 2 ^ 31) (hopen : ∀ f ∈ frames, f.opcode ≠ 8)
    {user : σ} (houtcomes : outcomes program frames c.user c.wsFrame = some user)
    {n : ℕ} (hn : c.socket.arrivals.length ≤ n) :
    ∃ enough c', (∀ fuel, enough ≤ fuel → updates config fuel n c = some c') ∧ c'.user = user ∧
      c'.socket.sent = c.socket.sent ++ pongs frames ∧ c'.socket.coming = [] ∧
      Listening config.limits c' := by
  have hinit : InStep config program user (c.socket.sent ++ pongs frames) frames c :=
    { listening := h
      stream := by rw [hempty, hstream, List.nil_append]
      part := fun f _ => by
        rw [hempty]
        exact header_pos f
      apart := by
        rw [hempty]
        exact hapart
      lengths := hlengths
      open_ := hopen
      outcomes_eq := houtcomes
      sent_eq := rfl }
  -- the state does not change on the way
  have hround : ∀ fs d, InStep config program user (c.socket.sent ++ pongs frames) fs d →
      loopRound config d = takeFrame config d := fun fs d hd => by rw [loopRound, hd.listening.state]
  rcases updates_all (P := InStep config program user (c.socket.sent ++ pongs frames))
    (fun fs d hd => by
      rcases takeFrame_inStep hconfig hbuffer hd with ⟨d', htake, hrest⟩ |
        ⟨f, fs', d', heq, htake, hrest⟩
      · exact Or.inl ⟨d', (hround fs d hd).trans htake, hrest⟩
      · exact Or.inr ⟨f, fs', d', 1, heq,
          fun fuel => updateLoop_again ((hround fs d hd).trans htake) fuel, hrest⟩)
    (fun fs d hd => ⟨hd.listening.fresh, hd.stream, hd.part, hd.apart, hd.lengths, hd.open_,
      hd.outcomes_eq, hd.sent_eq⟩)
    (fun fs d hd => hd.coming) hinit (Or.inr hn) with ⟨enough, c', hrun, hdone⟩
  -- with no frame left, everything has been handled and answered
  refine ⟨enough, c', hrun, ?_, ?_, ?_, hdone.listening⟩
  · exact Option.some.inj hdone.outcomes_eq
  · rw [← hdone.sent_eq]
    exact (List.append_nil _).symm
  · exact (List.append_eq_nil_iff.mp hdone.stream).2

/-- A callback that keeps the payloads. -/
def recording (user : List (List UInt8)) (frame : WsFrame) : Reading (List (List UInt8)) :=
  .read frame.payloadLength.toNat fun bytes =>
    match bytes with
    | some bytes => .done true (user ++ [bytes])
    | none => .done false user

def recorder : Config (List (List UInt8)) :=
  { limits := ⟨2048, 64⟩
    websockets := true
    dispatch := fun c => some (false, c)
    wsConnect := none
    wsConnected := fun c => some c
    wsFrame := fun c frame => (recording c.user frame).run c }

def hello : Frame :=
  ⟨true, ⟨1, Nat.le_of_ble_eq_true rfl⟩, none, [104, 105], Nat.le_of_ble_eq_true rfl⟩

def ping : Frame :=
  ⟨true, ⟨9, Nat.le_of_ble_eq_true rfl⟩, some ⟨#[1, 2, 3, 4], rfl⟩, [], Nat.le_of_ble_eq_true rfl⟩

/-- A WebSocket at which these bytes will arrive. -/
def opened (arrivals : List (Option UInt8)) : Connection (List (List UInt8)) :=
  { blankSlot [] with
    alive := true
    websocket := true
    state := .websocket
    socket := ⟨arrivals, .silent, false, [], [some 1], []⟩
    ioBuf := ⟨64, []⟩ }

theorem opened_listening (arrivals : List (Option UInt8)) :
    Listening recorder.limits (opened arrivals) where
  state := rfl
  websocket := rfl
  alive := rfl
  ending := rfl
  blocking := rfl
  count := rfl
  healthy := ⟨by simp [opened], by simp [opened]⟩
  header := rfl
  max := rfl

def twoFrames : List (Option UInt8) :=
  [some 129, none, some 2, some 104, none, some 105, none, some 137, some 128, some 1, some 2,
    some 3, some 4]

/-- The text is recorded, the ping answered, and nothing is left. -/
theorem frames_served_two :
    ∃ enough c', (∀ fuel, enough ≤ fuel → updates recorder fuel 13 (opened twoFrames) = some c') ∧
      c'.user = [[104, 105]] ∧ c'.socket.sent = (opened twoFrames).socket.sent ++ pongs [hello, ping] ∧
      c'.socket.coming = [] ∧ Listening recorder.limits c' := by
  have hapart : Apart 0 ([hello, ping].map Frame.text) twoFrames := by
    refine ⟨?_, ?_, trivial⟩
    · intro b
      show some none ≠ some (some b)
      simp
    · intro b
      show none ≠ some (some b)
      simp
  exact frames_served (fun _ _ => rfl) (by decide) (opened_listening twoFrames) rfl rfl hapart
    (by decide) (by decide) rfl (by decide)

/-! ## Frames without a pause -/

/-- The connection is in step with its peer behind a frame exactly when it had
buffered nothing that follows the frame. -/
theorem frame_in_sync_iff {config : Config σ} {program : σ → WsFrame → Reading σ}
    (hconfig : ∀ c frame, config.wsFrame c frame = (program c.user frame).run c)
    {c : Connection σ} (h : Listening config.limits c) {f : Frame} {rest : List UInt8} {user : σ}
    (hlen : f.payload.length < 2 ^ 31)
    (hclose : (scanned f c.wsFrame).opcode ≠ WEBBY_WS_OP_CLOSE)
    (houtcome : outcome program f c.user (scanned f c.wsFrame) = some user)
    (hstream : c.ioBuf.data ++ c.socket.coming = f.text ++ rest)
    {fill : Fill} {buf : Buffer} {socket : Socket}
    (hfill : wbFillBuffer c.ioBuf c.socket = some (fill, buf, socket))
    (hheader : f.header.length ≤ buf.data.length) :
    ∃ c', takeFrame config c = some (.again c') ∧ Listening config.limits c' ∧ c'.user = user ∧
      (c'.ioBuf.data ++ c'.socket.coming = rest ↔ buf.data.length ≤ f.text.length) := by
  rcases fill_listening h with ⟨fill', bs, as, hfill', hfilled⟩
  obtain ⟨rfl, rfl, rfl⟩ := by simpa using hfill.symm.trans hfill'
  have hstream' : c.ioBuf.data ++ bs ++ as.reduceOption = f.text ++ rest := by
    rw [← hstream, List.append_assoc, Socket.coming, hfilled.coming]
  rcases takeFrame_serves hconfig h hlen hclose houtcome hfill' hfilled.ok hstream' hheader with
    ⟨c', htake, hserved⟩
  refine ⟨c', htake, hserved.listening, hserved.user_eq, ?_⟩
  have hcoming : c'.socket.coming =
      as.reduceOption.drop (f.text.length - (c.ioBuf.data ++ bs).length) := by
    rw [Socket.coming, hserved.arrivals_eq, reduceOption_behind]
  rw [hserved.data, hcoming, List.nil_append]
  constructor
  · intro heq
    -- otherwise too few bytes are left
    have htotal := congrArg List.length hstream'
    have hlength := congrArg List.length heq
    simp only [List.length_append, List.length_drop] at htotal hlength ⊢
    omega
  · intro hle
    exact drop_stream hstream' hle

theorem frame_in_sync_two :
    ∃ c', takeFrame recorder (opened ((hello.text ++ ping.text).map some)) = some (.again c') ∧
      Listening recorder.limits c' ∧ c'.user = [[104, 105]] ∧
      (c'.ioBuf.data ++ c'.socket.coming = ping.text ↔
        (hello.text ++ ping.text).length ≤ hello.text.length) := by
  have hstream : (opened ((hello.text ++ ping.text).map some)).ioBuf.data ++
      (opened ((hello.text ++ ping.text).map some)).socket.coming = hello.text ++ ping.text := rfl
  have hfill : wbFillBuffer (opened ((hello.text ++ ping.text).map some)).ioBuf
      (opened ((hello.text ++ ping.text).map some)).socket =
      some (.ok, ⟨64, hello.text ++ ping.text⟩, ⟨[], .silent, false, [], [some 1], []⟩) := rfl
  exact frame_in_sync_iff (f := hello) (fun _ _ => rfl) (opened_listening _) (by decide) (by decide)
    rfl hstream hfill (by decide)

end Yardstick.WebbyIncoming
