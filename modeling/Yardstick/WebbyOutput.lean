import Yardstick.WebbyFrames

/-!
# WebbyOutput — bytes out of a connection

`WebbyWrite` has three ways to write: a WebSocket frame, a chunk of a chunked
response, or plain bytes. The last two go through `wb_push`, which collects
bytes in the I/O buffer and sends it whenever it is full.

* `wbPush_wrote`: whatever the size of the buffer and the way the bytes are
  cut into pushes, what has been sent and what is buffered are the bytes pushed,
  in order;
* `sendLoop_sends`: a `send_fully` that succeeds has sent everything, and one
  that fails an initial part.
-/

namespace Yardstick.WebbyOutput

open SocketFrames WebbyConnection WebbyFrames

variable {σ : Type*}

/-! ## The buffer -/

/-- `wb_flush`: a buffer that could not be sent stays as it is. -/
def wbFlush (buf : Buffer) (s : Socket) : Bool × Buffer × Socket :=
  if buf.data ≠ [] then
    let r := sendFully s buf.data
    if r.1 then (true, { buf with data := [] }, r.2) else (false, buf, r.2)
  else (true, { buf with data := [] }, s)

/-- The loop of `wb_push`. It goes round at most three times: `fuel` is not
reached as long as no more is buffered than fits. -/
def pushLoop : ℕ → Buffer → Socket → List UInt8 → Bool × Buffer × Socket
  | 0, buf, s, _ => (true, buf, s)
  | fuel + 1, buf, s, data =>
    if data = [] then (true, buf, s)
    else
      let space := buf.max - buf.data.length
      let rest := data.drop space
      let buf := { buf with data := buf.data ++ data.take space }
      if buf.data.length = buf.max then
        let r := wbFlush buf s
        if r.1 = false then r
        else if rest.length ≥ buf.max then
          let q := sendFully r.2.2 rest
          (q.1, r.2.1, q.2)
        else pushLoop fuel r.2.1 r.2.2 rest
      else pushLoop fuel buf s rest

/-- `wb_push`, whose length is an `int`: 0 flushes, and nothing is written when
it is negative. -/
def wbPush (c : Connection σ) (data : List UInt8) : Bool × Connection σ :=
  let len := BitVec.ofNat 32 data.length
  if c.state ≠ .serve then (false, c)
  else
    let r :=
      if len = 0 then wbFlush c.ioBuf c.socket
      else pushLoop (data.length + 1) c.ioBuf c.socket (data.take len.toInt.toNat)
    (r.1, { c with ioBuf := r.2.1, socket := r.2.2 })

/-! ## Writing -/

def crlf : Text := [13, 10]

/-- `%x` and `%d` of a number that is not negative. -/
def digits (base n : ℕ) : Text := (Nat.toDigits base n).map fun d => UInt8.ofNat d.toNat

/-- `WebbyWrite`; its length becomes an `int`. -/
def webbyWrite (c : Connection σ) (data : List UInt8) : Bool × Connection σ :=
  let len := BitVec.ofNat 32 data.length
  if c.websocket then
    let header := makeWebsocketHeader c.wsOpcode len false
    -- continuation packages from here on out
    let c := { c with wsOpcode := WEBBY_WS_OP_CONTINUATION }
    let r := sendFully c.socket header
    if r.1 = false then (false, { c with socket := r.2, alive := false })
    else
      let q := sendFully r.2 (data.take len.toInt.toNat)
      if q.1 = false then (false, { c with socket := q.2, alive := false })
      else (true, { c with socket := q.2 })
  else if c.chunkedResponse then
    let r := wbPush c (digits 16 len.toNat ++ crlf)
    let q := wbPush r.2 data
    wbPush q.2 crlf
  else wbPush c data

/-- `WebbyPrintf`: the text goes through a buffer of 1024 bytes, which ends with
a zero byte, and as many bytes are written as the whole text has. `none` when
these are more than the buffer has. -/
def webbyPrintf (c : Connection σ) (text : Text) : Option (Bool × Connection σ) :=
  if text.length < 1024 then some (webbyWrite c text)
  else if text.length = 1024 then some (webbyWrite c (text.take 1023 ++ [0]))
  else none

/-! ## Frames -/

def webbyBeginSocketFrame (c : Connection σ) (opcode : UInt8) : Bool × Connection σ :=
  makeConnectionBlocking { c with wsOpcode := opcode }

def webbyEndSocketFrame (c : Connection σ) : Bool × Connection σ :=
  let r := sendFully c.socket (makeWebsocketHeader c.wsOpcode 0 true)
  makeConnectionNonblocking { c with socket := r.2, alive := c.alive && r.1 }

/-! ## Responses -/

def wbStatusText (statusCode : ℕ) : Text :=
  ascii <| match statusCode with
  | 100 => "Continue"
  | 101 => "Switching Protocols"
  | 200 => "OK"
  | 201 => "Created"
  | 202 => "Accepted"
  | 203 => "Non-Authoritative Information"
  | 204 => "No Content"
  | 205 => "Reset Content"
  | 206 => "Partial Content"
  | 300 => "Multiple Choices"
  | 301 => "Moved Permanently"
  | 302 => "Found"
  | 303 => "See Other"
  | 304 => "Not Modified"
  | 305 => "Use Proxy"
  | 307 => "Temporary Redirect"
  | 400 => "Bad Request"
  | 401 => "Unauthorized"
  | 402 => "Payment Required"
  | 403 => "Forbidden"
  | 404 => "Not Found"
  | 405 => "Method Not Allowed"
  | 406 => "Not Acceptable"
  | 407 => "Proxy Authentication Required"
  | 408 => "Request Time-out"
  | 409 => "Conflict"
  | 410 => "Gone"
  | 411 => "Length Required"
  | 412 => "Precondition Failed"
  | 413 => "Request Entity Too Large"
  | 414 => "Request-URI Too Large"
  | 415 => "Unsupported Media Type"
  | 416 => "Requested range not satisfiable"
  | 417 => "Expectation Failed"
  | 500 => "Internal Server Error"
  | 501 => "Not Implemented"
  | 502 => "Bad Gateway"
  | 503 => "Service Unavailable"
  | 504 => "Gateway Time-out"
  | 505 => "HTTP Version not supported"
  | _ => "Unknown"

/-- The printfs of a list of texts, none of whose results is looked at. -/
def printAll (c : Connection σ) : List Text → Option (Connection σ)
  | [] => some c
  | text :: texts => (webbyPrintf c text).bind fun r => printAll r.2 texts

/-- A header of the response whose value closes the connection. -/
def closes (header : Text × Text) : Bool :=
  sameText header.1 (ascii "Connection") && sameText header.2 (ascii "close")

/-- The lines of `WebbyBeginResponse` in front of the empty one, `closing` when
the client asks for the connection to be closed and the headers do not say it. -/
def responseLines (statusCode : ℕ) (contentLength : Option ℕ) (headers : List (Text × Text))
    (closing : Bool) : List Text :=
  [ascii "HTTP/1.1 " ++ digits 10 statusCode ++ ascii " " ++ wbStatusText statusCode ++ crlf,
    match contentLength with
    | some n => ascii "Content-Length: " ++ digits 10 n ++ crlf
    | none => ascii "Transfer-Encoding: chunked" ++ crlf,
    ascii "Server: Webby" ++ crlf] ++
  headers.map (fun header => header.1 ++ ascii ": " ++ header.2 ++ crlf) ++
  if closing then [ascii "Connection: close" ++ crlf] else []

/-- `WebbyBeginResponse`; a negative `content_length` is `none`. -/
def webbyBeginResponse (c : Connection σ) (statusCode : ℕ) (contentLength : Option ℕ)
    (headers : List (Text × Text)) : Option (Bool × Connection σ) :=
  (if (c.bodyBytesRead : ℤ) < c.request.contentLength then
    discardIncomingData c (c.request.contentLength - c.bodyBytesRead).toNat
  else some (true, c)).bind fun r =>
    if r.1 = false then some (false, { r.2 with alive := false })
    else
      let c := { r.2 with closeAfterResponse := r.2.closeAfterResponse || headers.any closes }
      let wanted :=
        match webbyFindHeader c (ascii "Connection") with
        | some value => sameText (ascii "close") value
        | none => false
      let closing := !c.closeAfterResponse && wanted
      let c := { c with closeAfterResponse := c.closeAfterResponse || closing }
      (printAll c (responseLines statusCode contentLength headers closing ++ [crlf])).map fun c =>
        (true, { c with chunkedResponse := c.chunkedResponse || contentLength.isNone })

/-- `WebbyEndResponse`. -/
def webbyEndResponse (c : Connection σ) : Connection σ :=
  let c :=
    if c.chunkedResponse then
      { (wbPush c ([48] ++ crlf ++ crlf)).2 with chunkedResponse := false }
    else c
  (wbPush c []).2

/-! ## What is sent -/

/-- A `send_fully` that succeeds has sent everything; otherwise a part of it. -/
theorem sendLoop_sends (results : List (Option ℕ)) (data : List UInt8) :
    (sendLoop results data).2.2 <+: data ∧
      ((sendLoop results data).1 = true → (sendLoop results data).2.2 = data) := by
  induction results generalizing data with
  | nil => cases data <;> simp [sendLoop]
  | cons result results ih =>
    cases data with
    | nil => simp [sendLoop]
    | cons b data =>
      cases result with
      | none => simp [sendLoop]
      | some n =>
        rw [sendLoop]
        split
        · simp
        · obtain ⟨hinitial, hall⟩ := ih ((b :: data).drop n)
          constructor
          · -- the first n bytes, then what goes out of the rest
            rcases hinitial with ⟨left, hleft⟩
            refine ⟨left, ?_⟩
            dsimp only
            rw [List.append_assoc, hleft, List.take_append_drop]
          · intro hok
            dsimp only at hok ⊢
            rw [hall hok, List.take_append_drop]

theorem sendFully_sent {s : Socket} {data : List UInt8} (h : (sendFully s data).1 = true) :
    (sendFully s data).2.sent = s.sent ++ data := by
  rw [sendFully] at h ⊢
  rw [(sendLoop_sends s.sendResults data).2 h]

/-- What has been sent only grows. -/
theorem sendFully_grows (s : Socket) (data : List UInt8) :
    s.sent <+: (sendFully s data).2.sent := List.prefix_append _ _

/-- A flush only adds to what has been sent. -/
theorem wbFlush_grows (buf : Buffer) (s : Socket) : s.sent <+: (wbFlush buf s).2.2.sent := by
  unfold wbFlush
  split
  · dsimp only
    split
    · exact sendFully_grows s buf.data
    · exact sendFully_grows s buf.data
  · exact List.prefix_rfl

/-- What has gone out stays: the loop of `wb_push` only sends more. -/
theorem pushLoop_grows (fuel : ℕ) (buf : Buffer) (s : Socket) (data : List UInt8) :
    s.sent <+: (pushLoop fuel buf s data).2.2.sent := by
  induction fuel generalizing buf s data with
  | zero => exact List.prefix_rfl
  | succ fuel ih =>
    rw [pushLoop]
    split
    · exact List.prefix_rfl
    · dsimp only
      split
      · have hflush := wbFlush_grows
          { buf with data := buf.data ++ data.take (buf.max - buf.data.length) } s
        split
        · exact hflush
        · split
          · exact hflush.trans (sendFully_grows _ _)
          · exact hflush.trans (ih _ _ _)
      · exact ih _ _ _

/-- So does a push. -/
theorem wbPush_grows (c : Connection σ) (data : List UInt8) :
    c.socket.sent <+: (wbPush c data).2.socket.sent := by
  unfold wbPush
  dsimp only
  split
  · exact List.prefix_rfl
  · split
    · exact wbFlush_grows _ _
    · exact pushLoop_grows _ _ _ _

/-- And so does every write. -/
theorem webbyWrite_grows (c : Connection σ) (data : List UInt8) :
    c.socket.sent <+: (webbyWrite c data).2.socket.sent := by
  unfold webbyWrite
  dsimp only
  split
  · split
    · exact sendFully_grows _ _
    · split
      · exact (sendFully_grows _ _).trans (sendFully_grows _ _)
      · exact (sendFully_grows _ _).trans (sendFully_grows _ _)
  · split
    · exact ((wbPush_grows _ _).trans (wbPush_grows _ _)).trans (wbPush_grows _ _)
    · exact wbPush_grows _ _

/-! ## Sockets on which nothing fails -/

/-- Every `send` takes some bytes, and no change of the mode fails. -/
structure Healthy (s : Socket) : Prop where
  sends : ∀ result ∈ s.sendResults, ∃ n, result = some (n + 1)
  modes : ∀ result ∈ s.modeResults, result = true

/-- Sends that take at least a byte each come to an end. -/
theorem sendLoop_healthy {results : List (Option ℕ)}
    (h : ∀ result ∈ results, ∃ n, result = some (n + 1)) (data : List UInt8) :
    (sendLoop results data).1 = true ∧
      ∀ result ∈ (sendLoop results data).2.1, ∃ n, result = some (n + 1) := by
  induction results generalizing data with
  | nil => cases data <;> simp [sendLoop]
  | cons result results ih =>
    cases data with
    | nil => exact ⟨rfl, h⟩
    | cons b data =>
      rcases h result List.mem_cons_self with ⟨n, rfl⟩
      rw [sendLoop, if_neg (Nat.succ_ne_zero n)]
      exact ih (fun r hr => h r (List.mem_cons_of_mem _ hr)) _

theorem sendFully_healthy {s : Socket} (h : Healthy s) (data : List UInt8) :
    (sendFully s data).1 = true ∧ Healthy (sendFully s data).2 := by
  obtain ⟨hok, hrest⟩ := sendLoop_healthy h.sends data
  exact ⟨hok, hrest, h.modes⟩

/-- On a healthy socket everything is sent, in as many calls as it takes. -/
theorem sendFully_all {s : Socket} (h : Healthy s) (data : List UInt8) :
    ∃ sendResults, (∀ result ∈ sendResults, ∃ n, result = some (n + 1)) ∧
      sendFully s data = (true, { s with sendResults := sendResults, sent := s.sent ++ data }) := by
  obtain ⟨hok, hrest⟩ := sendFully_healthy h data
  have hsent := sendFully_sent hok
  refine ⟨(sendFully s data).2.sendResults, hrest.sends, Prod.ext hok ?_⟩
  rw [← hsent]
  rfl

/-- Where no call fails the mode is what was asked for. -/
theorem wbSetBlocking_mode {s : Socket} (hmodes : ∀ result ∈ s.modeResults, result = true)
    (blocking : Bool) :
    ∃ modeResults, (∀ result ∈ modeResults, result = true) ∧
      wbSetBlocking s blocking =
        (true, { s with blocking := blocking, modeResults := modeResults }) := by
  unfold wbSetBlocking
  cases hm : s.modeResults with
  | nil => exact ⟨[], by simp, by simp⟩
  | cons result results =>
    rw [hm] at hmodes
    obtain rfl := hmodes result List.mem_cons_self
    exact ⟨results, fun r hr => hmodes r (List.mem_cons_of_mem _ hr), rfl⟩

theorem wbSetBlocking_healthy {s : Socket} (h : Healthy s) (blocking : Bool) :
    (wbSetBlocking s blocking).1 = true ∧ Healthy (wbSetBlocking s blocking).2 := by
  rcases wbSetBlocking_mode h.modes blocking with ⟨results, hresults, hmode⟩
  rw [hmode]
  exact ⟨rfl, h.sends, hresults⟩

/-- At the edge the count and the mode change together. -/
theorem switchMode_edge {c : Connection σ} (hmodes : ∀ result ∈ c.socket.modeResults, result = true)
    {edge : ℤ} (hcount : c.blockingCount = edge) (blocking : Bool) (count : ℤ) :
    ∃ modeResults, (∀ result ∈ modeResults, result = true) ∧
      switchMode c blocking edge count = (true, { c with
        socket := { c.socket with blocking := blocking, modeResults := modeResults }
        blockingCount := count }) := by
  rcases wbSetBlocking_mode hmodes blocking with ⟨results, hresults, hmode⟩
  refine ⟨results, hresults, ?_⟩
  rw [switchMode, if_pos hcount, hmode]
  rfl

/-- The first call makes the socket wait, and the last one takes it back. -/
theorem makeConnectionBlocking_first {c : Connection σ}
    (hmodes : ∀ result ∈ c.socket.modeResults, result = true)
    (hcount : c.blockingCount = 0) :
    ∃ modeResults, (∀ result ∈ modeResults, result = true) ∧
      makeConnectionBlocking c = (true, { c with
        socket := { c.socket with blocking := true, modeResults := modeResults }
        blockingCount := 1 }) := by
  rcases switchMode_edge hmodes hcount true (c.blockingCount + 1) with ⟨results, hresults, hmode⟩
  refine ⟨results, hresults, ?_⟩
  rw [makeConnectionBlocking, hmode, hcount]
  rfl

/-- The last one to leave makes the socket non-blocking again. -/
theorem makeConnectionNonblocking_last {c : Connection σ}
    (hmodes : ∀ result ∈ c.socket.modeResults, result = true)
    (hcount : c.blockingCount = 1) :
    ∃ modeResults, (∀ result ∈ modeResults, result = true) ∧
      makeConnectionNonblocking c = (true, { c with
        socket := { c.socket with blocking := false, modeResults := modeResults }
        blockingCount := 0 }) := by
  rcases switchMode_edge hmodes hcount false (c.blockingCount - 1) with ⟨results, hresults, hmode⟩
  refine ⟨results, hresults, ?_⟩
  rw [makeConnectionNonblocking, hmode, hcount]
  rfl

/-! ## What is sent and what is buffered -/

/-- A call that wrote `bytes` through the I/O buffer: nothing failed, and nothing
but the buffer and the sending side of the socket changed. -/
structure Wrote (bytes : List UInt8) (c c' : Connection σ) : Prop where
  outgoing : c'.socket.sent ++ c'.ioBuf.data = c.socket.sent ++ c.ioBuf.data ++ bytes
  healthy : Healthy c'.socket
  room : c'.ioBuf.data.length ≤ c'.ioBuf.max
  frame : ∃ sendResults sent data, c' = { c with
    socket := { c.socket with sendResults := sendResults, sent := sent }
    ioBuf := { c.ioBuf with data := data } }

theorem Wrote.refl {c : Connection σ} (h : Healthy c.socket)
    (hroom : c.ioBuf.data.length ≤ c.ioBuf.max) : Wrote [] c c :=
  ⟨by simp, h, hroom, _, _, _, rfl⟩

/-- Writes in a row are written in that order. -/
theorem Wrote.trans {bs cs : List UInt8} {c d e : Connection σ} (h : Wrote bs c d)
    (h' : Wrote cs d e) : Wrote (bs ++ cs) c e := by
  constructor
  · rw [h'.outgoing, h.outgoing, List.append_assoc]
  · exact h'.healthy
  · exact h'.room
  · rcases h.frame with ⟨results, sent, data, rfl⟩
    rcases h'.frame with ⟨results', sent', data', rfl⟩
    exact ⟨results', sent', data', rfl⟩

/-- On such a socket a flush empties the buffer. -/
theorem wbFlush_healthy (buf : Buffer) {s : Socket} (h : Healthy s) :
    (wbFlush buf s).1 = true ∧ (wbFlush buf s).2.1 = { buf with data := [] } ∧
      Healthy (wbFlush buf s).2.2 ∧ (wbFlush buf s).2.2.sent = s.sent ++ buf.data ∧
      ∃ sendResults sent, (wbFlush buf s).2.2 = { s with
        sendResults := sendResults, sent := sent } := by
  obtain ⟨hok, hrest⟩ := sendFully_healthy h buf.data
  unfold wbFlush
  split
  · dsimp only
    rw [if_pos hok]
    exact ⟨rfl, rfl, hrest, sendFully_sent hok, _, _, rfl⟩
  · rename_i hempty
    have hdata : buf.data = [] := not_not.mp hempty
    exact ⟨rfl, rfl, h, by simp [hdata], _, _, rfl⟩

/-- What has been sent and what is buffered are the bytes pushed, in order. The
buffer goes round without taking a byte only when it is full at the start. -/
theorem pushLoop_stream (fuel : ℕ) (buf : Buffer) (data : List UInt8) {s : Socket}
    (h : Healthy s) (hroom : buf.data.length ≤ buf.max)
    (hfuel : data.length + (if buf.data.length = buf.max then 1 else 0) ≤ fuel) :
    (pushLoop fuel buf s data).1 = true ∧
      (pushLoop fuel buf s data).2.2.sent ++ (pushLoop fuel buf s data).2.1.data =
        s.sent ++ buf.data ++ data ∧
      Healthy (pushLoop fuel buf s data).2.2 ∧
      (pushLoop fuel buf s data).2.1.data.length ≤ buf.max ∧
      (∃ data', (pushLoop fuel buf s data).2.1 = { buf with data := data' }) ∧
      ∃ sendResults sent, (pushLoop fuel buf s data).2.2 = { s with
        sendResults := sendResults, sent := sent } := by
  induction fuel generalizing buf s data with
  | zero =>
    obtain rfl : data = [] := List.length_eq_zero_iff.mp (by omega)
    exact ⟨rfl, by simp [pushLoop], h, hroom, ⟨_, rfl⟩, _, _, rfl⟩
  | succ fuel ih =>
    rw [pushLoop]
    split
    · rename_i hnil
      subst hnil
      exact ⟨rfl, by simp, h, hroom, ⟨_, rfl⟩, _, _, rfl⟩
    · rename_i hne
      have hpos : 0 < data.length := List.length_pos_iff.mpr hne
      dsimp only
      split
      · -- the buffer is full and goes out
        rename_i hfull
        obtain ⟨hok, hbuf, hhealthy, hsent, results, sent, hsocket⟩ := wbFlush_healthy
          { buf with data := buf.data ++ data.take (buf.max - buf.data.length) } h
        rw [hok, if_neg (by simp), hbuf]
        have hall : (wbFlush { buf with data := buf.data ++ data.take (buf.max - buf.data.length) }
            s).2.2.sent ++ data.drop (buf.max - buf.data.length) = s.sent ++ buf.data ++ data := by
          rw [hsent]
          simp
        split
        · -- and the rest after it
          obtain ⟨hok', hrest⟩ := sendFully_healthy hhealthy
            (data.drop (buf.max - buf.data.length))
          refine ⟨hok', ?_, hrest, by simp, ⟨_, rfl⟩, ?_⟩
          · rw [sendFully_sent hok', List.append_nil, hall]
          · rw [hsocket]
            exact ⟨_, _, rfl⟩
        · rename_i hshort
          have hlen : (data.drop (buf.max - buf.data.length)).length + (if 0 = buf.max then 1 else 0)
              ≤ fuel := by
            rw [List.length_drop] at hshort ⊢
            rw [if_neg (by omega)]
            split at hfuel
            · omega
            · omega
          obtain ⟨hok', hstream, hhealthy', hroom', ⟨data', hdata'⟩, results', sent', hsocket'⟩ :=
            ih { buf with data := [] } _ hhealthy (Nat.zero_le _) hlen
          refine ⟨hok', ?_, hhealthy', hroom', ⟨data', hdata'⟩, ?_⟩
          · rw [hstream, List.append_nil, hall]
          · rw [hsocket', hsocket]
            exact ⟨_, _, rfl⟩
      · -- everything fits
        rename_i hpart
        have hspace : data.length < buf.max - buf.data.length := by
          rw [List.length_append, List.length_take] at hpart
          omega
        have hrest : data.drop (buf.max - buf.data.length) = [] :=
          List.drop_eq_nil_of_le (by omega)
        have hlen : (buf.data ++ data.take (buf.max - buf.data.length)).length ≤ buf.max := by
          rw [List.length_append, List.length_take]
          omega
        rw [hrest]
        obtain ⟨hok', hstream, hhealthy', hroom', ⟨data', hdata'⟩, results', sent', hsocket'⟩ :=
          ih { buf with data := buf.data ++ data.take (buf.max - buf.data.length) } [] h hlen
            (by rw [if_neg hpart]; exact Nat.zero_le _)
        refine ⟨hok', ?_, hhealthy', hroom', ⟨data', hdata'⟩, results', sent', hsocket'⟩
        rw [hstream, List.append_nil, List.take_of_length_le (by omega), List.append_assoc]

/-- A push writes its bytes behind what is buffered, whatever part of them has to
go out at once. -/
theorem wbPush_wrote {c : Connection σ} (h : Healthy c.socket)
    (hroom : c.ioBuf.data.length ≤ c.ioBuf.max) (hstate : c.state = .serve) (data : List UInt8)
    (hlen : data.length < 2 ^ 31) : (wbPush c data).1 = true ∧ Wrote data c (wbPush c data).2 := by
  have hnat : (BitVec.ofNat 32 data.length).toNat = data.length := by
    rw [BitVec.toNat_ofNat, Nat.mod_eq_of_lt (by omega)]
  have hint : (BitVec.ofNat 32 data.length).toInt.toNat = data.length := by
    rw [BitVec.toInt_eq_toNat_cond, hnat, if_pos (by omega)]
    simp
  unfold wbPush
  dsimp only
  rw [if_neg (not_not.mpr hstate)]
  split
  · -- a length of 0 is a flush
    rename_i hzero
    have hdata : data = [] := by
      apply List.length_eq_zero_iff.mp
      rw [← hnat, hzero]
      rfl
    subst hdata
    obtain ⟨hok, hbuf, hhealthy, hsent, results, sent, hsocket⟩ := wbFlush_healthy
      c.ioBuf h
    refine ⟨hok, ?_, hhealthy, ?_, results, sent, [], ?_⟩
    · rw [hbuf, hsent]
    · rw [hbuf]
      exact Nat.zero_le _
    · rw [hbuf, hsocket]
  · rw [hint, List.take_length]
    obtain ⟨hok, hstream, hhealthy, hroom', ⟨data', hbuf⟩, results, sent, hsocket⟩ :=
      pushLoop_stream (data.length + 1) c.ioBuf data h hroom (by split <;> omega)
    refine ⟨hok, hstream, hhealthy, ?_, results, sent, data', ?_⟩
    · rw [hbuf] at hroom' ⊢
      exact hroom'
    · rw [hbuf, hsocket]

/-! ## What a push leaves alone -/

/-- A flush changes only the contents of the buffer and what the socket has done.
-/
theorem wbFlush_frame (buf : Buffer) (s : Socket) :
    (∃ data, (wbFlush buf s).2.1 = { buf with data := data }) ∧
      ∃ sendResults sent, (wbFlush buf s).2.2 = { s with
        sendResults := sendResults, sent := sent } := by
  unfold wbFlush
  split
  · dsimp only
    split
    · exact ⟨⟨_, rfl⟩, _, _, rfl⟩
    · exact ⟨⟨_, rfl⟩, _, _, rfl⟩
  · exact ⟨⟨_, rfl⟩, _, _, rfl⟩

/-- The loop of `wb_push` changes the buffer and the sending side of the socket,
and nothing else. -/
theorem pushLoop_frame (fuel : ℕ) (buf : Buffer) (s : Socket) (data : List UInt8) :
    (∃ data', (pushLoop fuel buf s data).2.1 = { buf with data := data' }) ∧
      ∃ sendResults sent, (pushLoop fuel buf s data).2.2 = { s with
        sendResults := sendResults, sent := sent } := by
  induction fuel generalizing buf s data with
  | zero => exact ⟨⟨_, rfl⟩, _, _, rfl⟩
  | succ fuel ih =>
    rw [pushLoop]
    split
    · exact ⟨⟨_, rfl⟩, _, _, rfl⟩
    · dsimp only
      split
      · obtain ⟨⟨data1, hbuf⟩, results, sent, hsocket⟩ := wbFlush_frame
          { buf with data := buf.data ++ data.take (buf.max - buf.data.length) } s
        rw [hbuf, hsocket]
        split
        · exact ⟨⟨_, hbuf⟩, _, _, hsocket⟩
        · split
          · exact ⟨⟨_, rfl⟩, _, _, rfl⟩
          · exact ih { buf with data := data1 }
              { s with sendResults := results, sent := sent } _
      · exact ih _ _ _

/-- `c'` is `c` but for the buffer and the sending side of the socket. -/
def Pushed (c c' : Connection σ) : Prop :=
  ∃ sendResults sent data, c' = { c with
    socket := { c.socket with sendResults := sendResults, sent := sent }
    ioBuf := { c.ioBuf with data := data } }

theorem Pushed.trans {c d e : Connection σ} (h : Pushed c d) (h' : Pushed d e) : Pushed c e := by
  rcases h with ⟨results, sent, data, rfl⟩
  rcases h' with ⟨results', sent', data', rfl⟩
  exact ⟨results', sent', data', rfl⟩

/-- Whatever the socket does, a push changes nothing else. -/
theorem wbPush_pushed (c : Connection σ) (data : List UInt8) : Pushed c (wbPush c data).2 := by
  unfold wbPush
  dsimp only
  split
  · exact ⟨_, _, _, rfl⟩
  · split
    · obtain ⟨⟨data1, hbuf⟩, results, sent, hsocket⟩ := wbFlush_frame c.ioBuf c.socket
      exact ⟨results, sent, data1, by rw [hbuf, hsocket]⟩
    · obtain ⟨⟨data1, hbuf⟩, results, sent, hsocket⟩ := pushLoop_frame (data.length + 1) c.ioBuf
        c.socket (data.take (BitVec.ofNat 32 data.length).toInt.toNat)
      exact ⟨results, sent, data1, by rw [hbuf, hsocket]⟩

/-- A write changes only what is buffered and sent, whether it succeeds or not. -/
theorem webbyWrite_pushed {c : Connection σ} (hplain : c.websocket = false) (data : List UInt8) :
    Pushed c (webbyWrite c data).2 := by
  unfold webbyWrite
  dsimp only
  rw [hplain, if_neg (by simp)]
  split
  · exact ((wbPush_pushed _ _).trans (wbPush_pushed _ _)).trans (wbPush_pushed _ _)
  · exact wbPush_pushed c data

/-- The end of a response writes no more than its last chunk. -/
theorem webbyEndResponse_pushed (c : Connection σ) :
    Pushed { c with chunkedResponse := false } (webbyEndResponse c) := by
  unfold webbyEndResponse
  dsimp only
  split
  · rcases wbPush_pushed c ([48] ++ crlf ++ crlf) with ⟨results, sent, data, heq⟩
    rw [heq]
    exact Pushed.trans ⟨_, _, _, rfl⟩ (wbPush_pushed _ [])
  · rename_i hunchunked
    have hc : { c with chunkedResponse := false } = c := by
      rw [← Bool.eq_false_of_not_eq_true hunchunked]
    rw [hc]
    exact wbPush_pushed c []

end Yardstick.WebbyOutput
