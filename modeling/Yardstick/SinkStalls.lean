import Yardstick.SinkServer

/-!
# SinkStalls — clients that stop the sink's server

`wb_update_client` reads what it wants of a request or a frame on a socket that
waits, and it leaves the loop only in some states. The server has one thread, so
a client that keeps it in there keeps it from everybody else.

* `unfinished_body_stalls`: once a request is being refused of whose body not
  everything comes, `wb_update_client` never returns;
* `serve_unfinished`: when the socket fails, the request is served again and
  again;
* `viewer_frame_waits`: on a socket that stays open, a frame is not done with
  before 1024 bytes have come behind its header, and they are taken from the
  frames behind it.
-/

namespace Yardstick.SinkStalls

open SocketFrames WebbyConnection WebbyFrames WebbyOutput WebbyResponses WebbyUpdate WebbyIncoming
open SinkServer
open WebbyHandshake (isWebsocketRequest)

variable {σ : Type*}

/-! ## A body that does not come in full -/

/-- A request that asks for no upgrade is served, and fewer bytes than are left of
its body can be read, whatever comes behind them. The refusal fits the buffer of
`WebbyPrintf`, and the mode of the socket can be changed. Whether the connection
is alive makes no difference. -/
structure Unfinished (c : Connection σ) : Prop where
  state : c.state = .serve
  plain : c.websocket = false
  buffered : Buffered c
  output : c.ioDataLeft = 0
  count : c.blockingCount = 0
  modes : ∀ result ∈ c.socket.modeResults, result = true
  short : (unread c).length < bodyLeft c
  no_upgrade : isWebsocketRequest c = false
  uri_fits : (refusal c.request.uri).length < 1024

/-- The refusal of a request whose body cannot be read: it comes to an end only if
the socket fails, with a connection that is not alive. -/
theorem refuse_short {c : Connection σ} (hbuffered : Buffered c)
    (hblocking : c.socket.blocking = true) (hplain : c.websocket = false)
    (hshort : (unread c).length < bodyLeft c) (huri : (refusal c.request.uri).length < 1024) :
    (refuse c 404 fun c => ascii "No handler for " ++ c.request.uri ++ crlf) = none ∨
      ∃ c', (refuse c 404 fun c => ascii "No handler for " ++ c.request.uri ++ crlf) = some c' ∧
        Pushed { drained c with chunkedResponse := false } c' := by
  have hless : (c.bodyBytesRead : ℤ) < c.request.contentLength := by
    unfold bodyLeft at hshort
    omega
  have hdiscard := discardIncomingData_short hbuffered hblocking hshort
  unfold refuse webbyBeginResponse
  rw [if_pos hless, show (c.request.contentLength - c.bodyBytesRead).toNat = bodyLeft c from rfl,
    hdiscard]
  split
  · right
    rw [Option.bind_some, if_pos rfl, Option.bind_some]
    dsimp only
    have hfits : (ascii "No handler for " ++ (drained c).request.uri ++ crlf).length < 1024 := huri
    refine ⟨_, by rw [webbyPrintf, if_pos hfits, Option.map_some], ?_⟩
    -- the text and the end of a response that has not begun
    rcases webbyWrite_pushed (c := drained c) hplain
      (ascii "No handler for " ++ (drained c).request.uri ++ crlf) with
      ⟨results, sent, data, hwrite⟩
    have hend := webbyEndResponse_pushed (webbyWrite (drained c)
      (ascii "No handler for " ++ (drained c).request.uri ++ crlf)).2
    have hsame : ({ drained c with alive := false } : Connection σ) = drained c := rfl
    rw [hsame]
    rw [hwrite] at hend ⊢
    exact Pushed.trans ⟨results, sent, data, rfl⟩ hend
  · left
    rfl

/-- Behind such a refusal nothing can be read any more, and still something is left
of the body. -/
theorem Unfinished.refused {c : Connection σ} (h : Unfinished c) {modes : List Bool}
    (hmodes : ∀ result ∈ modes, result = true) {e : Connection σ}
    (hpushed : Pushed { drained (answering c modes) with chunkedResponse := false } e) :
    (makeConnectionNonblocking e).2.alive = false ∧ Unfinished (makeConnectionNonblocking e).2 := by
  rcases hpushed with ⟨results, sent, data, rfl⟩
  rcases makeConnectionNonblocking_last (c := { drained (answering c modes) with
      chunkedResponse := false
      socket := { (drained (answering c modes)).socket with sendResults := results, sent := sent }
      ioBuf := { (drained (answering c modes)).ioBuf with data := data } }) hmodes rfl with
    ⟨modes', hmodes', hnonblocking⟩
  rw [hnonblocking]
  refine ⟨rfl, ?_⟩
  have hshort := h.short
  rw [← unread_answering h.output modes] at hshort
  constructor
  · exact h.state
  · exact h.plain
  · exact ⟨Nat.zero_le _, Nat.zero_le _⟩
  · rfl
  · rfl
  · exact hmodes'
  · -- what has been read is less than the body
    rw [length_unread ⟨Nat.zero_le _, Nat.zero_le _⟩]
    show 0 < (c.request.contentLength -
      (c.bodyBytesRead + (unread (answering c modes)).length : ℕ)).toNat
    unfold bodyLeft at hshort
    omega
  · exact (isWebsocketRequest_congr rfl).trans h.no_upgrade
  · exact h.uri_fits

/-- Serving the request once more changes nothing about it. -/
theorem serve_unfinished {webbyConnected : Connection σ → Option (Connection σ)}
    {c : Connection σ} (h : Unfinished c) :
    serve (listenConfig webbyConnected) c = none ∨
      ∃ c', serve (listenConfig webbyConnected) c = some (.again c') ∧ Unfinished c' := by
  rcases makeConnectionBlocking_answering h.modes h.count with ⟨modes, hmodes, hblocking⟩
  have hshort : (unread (answering c modes)).length < bodyLeft (answering c modes) := by
    rw [unread_answering h.output]
    exact h.short
  have hplain : isWebsocketRequest (answering c modes) = false :=
    (isWebsocketRequest_congr rfl).trans h.no_upgrade
  rw [serve]
  dsimp only
  rw [hblocking, if_neg (by simp), answer_refuse webbyConnected hplain]
  rcases refuse_short (buffered_answering h.buffered h.output modes) rfl h.plain hshort h.uri_fits
    with hnone | ⟨e, hrefuse, hpushed⟩
  · left
    rw [hnone, Option.map_none]
  · right
    obtain ⟨hdead, hnext⟩ := h.refused hmodes hpushed
    refine ⟨_, ?_, hnext⟩
    rw [hrefuse, Option.map_some, if_neg (by simp [hdead])]

/-- `wb_update_client` never returns for a request whose body does not come in
full. -/
theorem unfinished_body_stalls (webbyConnected : Connection σ → Option (Connection σ))
    {c : Connection σ} (h : Unfinished c) (fuel : ℕ) :
    wbUpdateClient (listenConfig webbyConnected) fuel c = none := by
  have hfresh : Unfinished { c with fresh := false } :=
    ⟨h.state, h.plain, ⟨h.buffered.header_le, h.buffered.io_le⟩, h.output, h.count, h.modes,
      h.short, h.no_upgrade, h.uri_fits⟩
  apply updateLoop_never (P := Unfinished) (fun d hd => ?_) hfresh
  have hround : loopRound (listenConfig webbyConnected) d = serve (listenConfig webbyConnected) d := by
    rw [loopRound, hd.state]
  rw [hround]
  exact serve_unfinished hd

/-- A POST of three bytes, of which one has come in when the socket fails. -/
def cutOff : Connection Unit :=
  { posted with
    socket := ⟨[none], .failed, false, [], [], []⟩
    headerBuf := ⟨2048, [65]⟩
    headerBodyLeft := 1 }

/-- The server does not come back from it. -/
theorem unfinished_body_stalls_cutOff :
    ¬∃ fuel c', wbUpdateClient bareServer fuel cutOff = some c' := by
  rintro ⟨fuel, c', hupdate⟩
  apply Option.some_ne_none c'
  rw [← hupdate]
  apply unfinished_body_stalls
  constructor
  · rfl
  · rfl
  · exact ⟨by decide, by decide⟩
  · rfl
  · rfl
  · simp [cutOff]
  · decide +kernel
  · decide +kernel
  · decide +kernel

/-! ## A frame shorter than what is read -/

/-- What `webby_frame` and the loop do with a frame: at least 1024 bytes are read. -/
theorem viewerFrame_reads {c : Connection σ} (hbuffered : Buffered c)
    (hblocking : c.socket.blocking = true) (hread : c.bodyBytesRead = 0) {f : Frame}
    {old : WsFrame} (hframe : c.wsFrame = scanned f old) (hlen : f.payload.length < 2 ^ 31)
    {rest : List UInt8} (hunread : unread c = maskedPayload f.key f.payload ++ rest)
    (henough : 1024 ≤ f.payload.length + rest.length) :
    webbyFrame c (scanned f old) = some (true, taken c 1024) ∧
      discardRest (taken c 1024) = some (true, taken c (max 1024 f.payload.length)) := by
  have hlength : (unread c).length = f.payload.length + rest.length := by
    rw [hunread, List.length_append, maskedPayload_length]
  constructor
  · rw [webbyFrame, webbyRead_spec hbuffered hblocking (by omega)]
    rfl
  · have hcount : (taken c 1024).bodyBytesRead = 1024 := by
      show c.bodyBytesRead + 1024 = 1024
      rw [hread]
    by_cases hshort : 1024 ≤ f.payload.length
    · have hdiscard := discardRest_serves (c := taken c 1024) (taken_buffered hbuffered _) hblocking
        hframe hlen (by omega) (by rw [unread_taken hbuffered, List.length_drop]; omega)
      have hsum : 1024 + (f.payload.length - 1024) = max 1024 f.payload.length := by omega
      rw [hdiscard, taken_taken, hcount, hsum]
    · -- nothing is left to discard
      unfold discardRest
      have hpayload := payloadLength_scanned hlen old
      rw [hcount, show (taken c 1024).wsFrame = c.wsFrame from rfl, hframe, hpayload,
        if_neg (by omega), Nat.max_eq_left (by omega)]

theorem opcode_scanned_ping {f : Frame} (h : f.opcode ≠ 9) (old : WsFrame) :
    (scanned f old).opcode ≠ WEBBY_WS_OP_PING := by
  have hall : ∀ opcode : Fin 16, opcode ≠ 9 → UInt8.ofNat opcode.val ≠ WEBBY_WS_OP_PING := by
    decide
  exact hall f.opcode h

/-- A viewer's frame is waited for until 1024 bytes have come behind its header;
then the connection goes on behind these bytes, behind the frame or behind what
was buffered, whichever is the last. -/
theorem viewer_frame_waits (webbyConnected : Connection σ → Option (Connection σ))
    {c : Connection σ} (h : Listening (listenConfig webbyConnected).limits c) {f : Frame}
    (hclose : f.opcode ≠ 8) (hping : f.opcode ≠ 9) (hlen : f.payload.length < 2 ^ 31)
    {fill : Fill} {data rest : List UInt8} {as : List (Option UInt8)}
    (hfill : wbFillBuffer c.ioBuf c.socket =
      some (fill, { c.ioBuf with data := data }, { c.socket with arrivals := as }))
    (hok : fill ≠ .error) (hstream : data ++ as.reduceOption = f.text ++ rest)
    (hheader : f.header.length ≤ data.length) :
    if f.payload.length + rest.length < 1024 then
      ∀ fuel, updateLoop (listenConfig webbyConnected) fuel c = none
    else ∃ c', (∀ fuel, updateLoop (listenConfig webbyConnected) (fuel + 1) c =
          updateLoop (listenConfig webbyConnected) fuel c') ∧
        Listening (listenConfig webbyConnected).limits c' ∧ c'.ioBuf.data = [] ∧
        c'.socket.coming = (f.text ++ rest).drop
          (max (f.header.length + max 1024 f.payload.length) data.length) := by
  rcases takeFrame_enters h hfill hok hstream hheader with ⟨modes, hmodes, htake⟩
  have hround : loopRound (listenConfig webbyConnected) c = takeFrame (listenConfig webbyConnected) c := by
    rw [loopRound, h.state]
  have hunread := unread_entered h hstream hheader modes
  have hbuffered := entered_buffered h f data as modes
  have hlength : (unread (entered c f data as modes)).length = f.payload.length + rest.length := by
    rw [hunread, List.length_append, maskedPayload_length]
  have hhandle : handleFrame (listenConfig webbyConnected) (scanned f c.wsFrame)
      (entered c f data as modes) = webbyFrame (entered c f data as modes) (scanned f c.wsFrame) := by
    unfold handleFrame
    rw [if_neg (opcode_scanned hclose c.wsFrame), if_neg (opcode_scanned_ping hping c.wsFrame)]
    show (webbyFrame (entered c f data as modes) (scanned f c.wsFrame)).map _ = _
    unfold webbyFrame
    rw [Option.map_map]
    rfl
  split
  · rename_i hshort
    have hread : webbyFrame (entered c f data as modes) (scanned f c.wsFrame) = none := by
      rw [webbyFrame, webbyRead_short hbuffered rfl (by omega),
        if_neg (by simp [entered, h.ending]), Option.map_none]
    apply updateLoop_never (P := (· = c)) (fun d hd => Or.inl ?_) rfl
    rw [show d = c from hd, hround, htake, hhandle, hread, Option.bind_none]
  · rename_i henough
    obtain ⟨hread, hdiscard⟩ := viewerFrame_reads hbuffered rfl rfl rfl hlen hunread (by omega)
    let d : Connection σ := taken (entered c f data as modes) (max 1024 f.payload.length)
    rcases makeConnectionNonblocking_last (c := d) hmodes rfl with ⟨modes', hmodes', hnonblocking⟩
    refine ⟨{ resetConnection (listenConfig webbyConnected).limits { d with
        socket := { d.socket with blocking := false, modeResults := modes' }
        blockingCount := 0 } with state := .websocket },
      fun fuel => updateLoop_again (hround.trans ?_) fuel, ?_, rfl, ?_⟩
    · rw [htake, hhandle, hread, Option.bind_some, if_neg (by simp), hdiscard, Option.map_some,
        if_neg (by simp)]
      dsimp only
      rw [hnonblocking, if_neg (by simp)]
    · exact ⟨rfl, h.websocket, h.alive, h.ending, rfl, rfl, ⟨h.healthy.sends, hmodes'⟩, rfl, rfl⟩
    · -- what is behind the bytes that were read from the socket
      have hcount : max 1024 f.payload.length - c.headerBodyLeft - (data.length - f.header.length) =
          max (f.header.length + max 1024 f.payload.length) data.length - data.length := by
        rw [h.header]
        omega
      show (behind (max 1024 f.payload.length - c.headerBodyLeft -
        (data.length - f.header.length)) as).reduceOption = _
      rw [reduceOption_behind, hcount, ← hstream, List.drop_append,
        List.drop_eq_nil_of_le (Nat.le_max_right _ _), List.nil_append]

/-- A viewer that has sent two frames of a few bytes. -/
def terseViewer : Connection Unit :=
  { blankSlot () with
    alive := true
    websocket := true
    state := .websocket
    socket := ⟨(hello.text ++ ping.text).map some, .silent, false, [], [], []⟩
    headerBuf := ⟨2048, []⟩
    ioBuf := ⟨8192, []⟩ }

/-- They are too short for the server to go on. -/
theorem viewer_frame_waits_hello : ¬∃ fuel c', updateLoop bareServer fuel terseViewer = some c' := by
  have hlistening : Listening bareServer.limits terseViewer :=
    ⟨rfl, rfl, rfl, rfl, rfl, rfl, ⟨by simp [terseViewer], by simp [terseViewer]⟩, rfl, rfl⟩
  have hfill : wbFillBuffer terseViewer.ioBuf terseViewer.socket =
      some (.ok, { terseViewer.ioBuf with data := hello.text ++ ping.text },
        { terseViewer.socket with arrivals := [] }) := rfl
  have hstream : hello.text ++ ping.text ++ ([] : List (Option UInt8)).reduceOption =
      hello.text ++ ping.text := rfl
  have hwaits := viewer_frame_waits some hlistening (f := hello) (by decide) (by decide) (by decide)
    hfill (by decide) hstream (by decide)
  rw [if_pos (by decide)] at hwaits
  rintro ⟨fuel, c', hloop⟩
  exact Option.some_ne_none c' (hloop.symm.trans (hwaits fuel))

end Yardstick.SinkStalls
