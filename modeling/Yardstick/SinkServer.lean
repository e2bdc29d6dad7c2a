import Yardstick.WebbyIncoming
import Yardstick.WebbyServing

/-!
# SinkServer — the web server as the sink sets it up

`Listen` configures the server with callbacks of the sink: `webby_dispatch`
handles no request at all, `webby_connect` refuses no WebSocket, and
`webby_frame` reads 1024 bytes, however long the frame is.

* `requests_refused`: a client that waits for its answers gets the same refusal
  for each of its requests, in whatever packets they arrive.
-/

namespace Yardstick.SinkServer

open SocketFrames WebbyConnection WebbyFrames WebbyOutput WebbyResponses WebbyHandshake WebbyRequest
open WebbyUpdate WebbyIncoming WebbyServing

variable {σ : Type*}

/-! ## The callbacks -/

/-- `webby_dispatch` returns 1. -/
def webbyDispatch (c : Connection σ) : Option (Bool × Connection σ) := some (false, c)

def webbyConnect (c : Connection σ) : Option (Bool × Connection σ) := some (true, c)

/-- `webby_frame`: what `WebbyRead` returns makes no difference. -/
def webbyFrame (c : Connection σ) (_ : WsFrame) : Option (Bool × Connection σ) :=
  (webbyRead c 1024).map fun r => (true, r.2)

/-- The `WebbyServerConfig` of `Listen`, with `webby_connected` for a session. -/
def listenConfig (webbyConnected : Connection σ → Option (Connection σ)) : Config σ :=
  { limits := ⟨2048, 8192⟩
    websockets := true
    dispatch := webbyDispatch
    wsConnect := some webbyConnect
    wsConnected := webbyConnected
    wsFrame := webbyFrame }

/-! ## Requests -/

/-- A connection at which a request has been read. -/
def reading (r : Head) : Connection Unit := { blankSlot () with request := r.request }

theorem webbyFindHeader_congr {τ : Type*} {c : Connection σ} {d : Connection τ}
    (h : c.request = d.request) (name : Text) : webbyFindHeader c name = webbyFindHeader d name := by
  rw [webbyFindHeader, webbyFindHeader, h]

theorem isWebsocketRequest_congr {τ : Type*} {c : Connection σ} {d : Connection τ}
    (h : c.request = d.request) : isWebsocketRequest c = isWebsocketRequest d := by
  unfold isWebsocketRequest
  rw [webbyFindHeader_congr h, webbyFindHeader_congr h]

/-- What is answered to a path. -/
def refusal (path : Text) : Text := ascii "No handler for " ++ path ++ crlf

/-- A request that is not the beginning of something else: its body has the
length it says, it does not ask for a WebSocket or for the connection to be
closed, and it fits the buffers on both ways. -/
structure PlainRequest where
  head : Head
  body : List UInt8
  encoding : ∀ header ∈ head.stored, sameText (ascii "transfer-encoding") header.1 = false
  length_eq : (body.length : ℤ) = head.request.contentLength
  fits : head.text.length ≤ 2048
  answer_fits : (refusal head.path).length < 1024
  no_upgrade : isWebsocketRequest (reading head) = false
  no_close : closing (reading head) plainTextHeaders = false

namespace PlainRequest

def text (p : PlainRequest) : List UInt8 := p.head.text ++ p.body

/-- The answer: a `100 Continue` if it is wanted, then the refusal. -/
def answer (p : PlainRequest) : List UInt8 :=
  (if expects (reading p.head) then continueHeader else []) ++
    (responseHead (reading p.head) 404 none plainTextHeaders ++
      responseBody none [refusal p.head.path])

end PlainRequest

theorem plainTextHeaders_open : plainTextHeaders.any closes = false := by decide +kernel

theorem closing_congr {c : Connection σ} {r : Head} (h : c.request = r.request)
    (hlasting : c.closeAfterResponse = false) (headers : List (Text × Text)) :
    closing c headers = closing (reading r) headers := by
  unfold closing
  rw [webbyFindHeader_congr (d := reading r) h, hlasting]
  rfl

theorem length_refusalLines (closing : Bool) :
    ∀ line ∈ responseLines 404 none plainTextHeaders closing, line.length < 1024 := by
  cases closing with
  | true => decide +kernel
  | false => decide +kernel

/-- The refusal is a response in one piece. -/
theorem refuse_eq {c : Connection σ} (h : Serving c) (hbody : bodyLeft c ≤ (unread c).length)
    (hshort : (refusal c.request.uri).length < 1024) :
    (refuse c 404 fun c => ascii "No handler for " ++ c.request.uri ++ crlf) =
      respond c 404 none plainTextHeaders [refusal c.request.uri] := by
  rcases webbyBeginResponse_wrote h hbody (length_refusalLines _) with ⟨c', hbegin, hwrote⟩
  have huri : c'.request.uri = c.request.uri := by
    rcases hwrote.frame with ⟨results, sent, data, heq⟩
    rw [heq]
    rfl
  rw [refuse, respond, hbegin, Option.bind_some, Option.map_some, webbyPrintf, huri]
  rw [refusal] at hshort
  rw [if_pos hshort]
  rfl

/-! ### The connection that answers -/

/-- The connection that answers a request: its socket waits, with an empty buffer
for what is written. -/
def answering (c : Connection σ) (modes : List Bool) : Connection σ :=
  { c with
    ioBuf := { c.ioBuf with data := [] }
    socket := { c.socket with blocking := true, modeResults := modes }
    blockingCount := 1 }

/-- `serve` begins with it. -/
theorem makeConnectionBlocking_answering {c : Connection σ}
    (hmodes : ∀ result ∈ c.socket.modeResults, result = true) (hcount : c.blockingCount = 0) :
    ∃ modes, (∀ result ∈ modes, result = true) ∧
      makeConnectionBlocking { c with ioBuf := { c.ioBuf with data := [] } } =
        (true, answering c modes) :=
  makeConnectionBlocking_first (c := { c with ioBuf := { c.ioBuf with data := [] } }) hmodes hcount

section Answering

variable {p : PlainRequest} {rest : List UInt8} {c : Connection σ}

theorem unread_answering (houtput : c.ioDataLeft = 0) (modes : List Bool) :
    unread (answering c modes) = unread c := by
  simp [unread, answering, houtput, Socket.coming]

theorem buffered_answering (h : Buffered c) (houtput : c.ioDataLeft = 0) (modes : List Bool) :
    Buffered (answering c modes) := by
  refine ⟨h.header_le, ?_⟩
  show c.ioDataLeft ≤ _
  rw [houtput]
  exact Nat.zero_le _

/-- A request that asks for no upgrade is refused. -/
theorem answer_refuse (webbyConnected : Connection σ → Option (Connection σ))
    (h : isWebsocketRequest c = false) :
    answer (listenConfig webbyConnected) c =
      refuse c 404 fun c => ascii "No handler for " ++ c.request.uri ++ crlf := by
  rw [answer, if_neg (by simp [h])]
  rfl

/-- The connection that answers an accepted request can be written to. -/
theorem serving_of_accepted {r : Head} (h : Accepted r rest c) {modes : List Bool}
    (hmodes : ∀ result ∈ modes, result = true) : Serving (answering c modes) :=
  { state := h.state
    plain := h.plain
    unchunked := h.unchunked
    blocking := rfl
    healthy := ⟨h.healthy.sends, hmodes⟩
    room := Nat.zero_le _
    buffered := buffered_answering h.buffered h.output modes
    output := h.output }

theorem bodyLeft_of_accepted (h : Accepted p.head (p.body ++ rest) c) :
    bodyLeft c = p.body.length := by
  rw [bodyLeft, h.request, h.read, ← p.length_eq]
  simp

/-- The answer to an accepted request is its refusal, after the rest of its body
has been read. -/
theorem answer_refuses (webbyConnected : Connection σ → Option (Connection σ))
    (h : Accepted p.head (p.body ++ rest) c) {modes : List Bool}
    (hmodes : ∀ result ∈ modes, result = true) :
    ∃ results, (∀ result ∈ results, ∃ n, result = some (n + 1)) ∧
      answer (listenConfig webbyConnected) (answering c modes) =
        some (responded (answering c modes) plainTextHeaders results (c.socket.sent ++
          (responseHead (reading p.head) 404 none plainTextHeaders ++
            responseBody none [refusal p.head.path]))) := by
  have hserving := serving_of_accepted h hmodes
  have hrequest : (answering c modes).request = p.head.request := h.request
  have huri : (answering c modes).request.uri = p.head.path := by rw [hrequest]; rfl
  -- the whole body can be read
  have hbody : bodyLeft (answering c modes) ≤ (unread (answering c modes)).length := by
    rw [show bodyLeft (answering c modes) = bodyLeft c from rfl, bodyLeft_of_accepted h,
      unread_answering h.output, h.unread_eq, List.length_append]
    exact Nat.le_add_right _ _
  have hshort : (refusal (answering c modes).request.uri).length < 1024 := by
    rw [huri]
    exact p.answer_fits
  have hpieces : ∀ piece ∈ [refusal (answering c modes).request.uri], piece.length < 2 ^ 31 := by
    intro piece hpiece
    obtain rfl := List.mem_singleton.mp hpiece
    omega
  have hupgrade : isWebsocketRequest (answering c modes) = false := by
    rw [← p.no_upgrade]
    exact isWebsocketRequest_congr hrequest
  have hhead : responseHead (answering c modes) 404 none plainTextHeaders =
      responseHead (reading p.head) 404 none plainTextHeaders := by
    rw [responseHead, responseHead, closing_congr hrequest h.lasting]
  rcases respond_wrote hserving hbody (length_refusalLines _) hpieces with
    ⟨results, hresults, hrespond⟩
  refine ⟨results, hresults, ?_⟩
  rw [answer_refuse webbyConnected hupgrade, refuse_eq hserving hbody hshort, hrespond, hhead, huri,
    show (answering c modes).ioBuf.data = [] from rfl, List.append_nil, List.append_assoc]
  rfl

/-- A request is answered with the refusal, and the connection is ready for the
next one behind what it has buffered or behind the body. -/
theorem serve_refuses (webbyConnected : Connection σ → Option (Connection σ))
    (h : Accepted p.head (p.body ++ rest) c) :
    ∃ c', serve (listenConfig webbyConnected) c = some (.again c') ∧
      Collecting (listenConfig webbyConnected).limits c' ∧ c'.headerBuf.data = [] ∧
      c'.user = c.user ∧
      c'.socket.sent = c.socket.sent ++
        (responseHead (reading p.head) 404 none plainTextHeaders ++
          responseBody none [refusal p.head.path]) ∧
      c'.socket.arrivals = behind (p.body.length - c.headerBodyLeft) c.socket.arrivals := by
  rcases makeConnectionBlocking_answering h.healthy.modes h.count with ⟨modes, hmodes, hblocking⟩
  rcases answer_refuses webbyConnected h hmodes with ⟨results, hresults, hanswer⟩
  generalize he : responded (answering c modes) plainTextHeaders results (c.socket.sent ++
    (responseHead (reading p.head) 404 none plainTextHeaders ++
      responseBody none [refusal p.head.path])) = e at hanswer
  have hcount : e.blockingCount = 1 := by rw [← he]; rfl
  have hmodes' : ∀ result ∈ e.socket.modeResults, result = true := by
    rw [← he]
    exact hmodes
  -- the response does not ask for the connection to be closed
  have hlasting : e.closeAfterResponse = false := by
    rw [← he]
    show (c.closeAfterResponse || plainTextHeaders.any closes ||
      closing (answering c modes) plainTextHeaders) = false
    rw [closing_congr (c := answering c modes) h.request h.lasting, p.no_close,
      plainTextHeaders_open, h.lasting]
    rfl
  rcases makeConnectionNonblocking_last hmodes' hcount with ⟨modes', hmodes'', hnonblocking⟩
  refine ⟨{ resetConnection (listenConfig webbyConnected).limits { e with
      socket := { e.socket with blocking := false, modeResults := modes' }
      blockingCount := 0 } with state := .request }, ?_, ?_, rfl, ?_, ?_, ?_⟩
  · rw [serve]
    dsimp only
    rw [hblocking, if_neg (by simp), hanswer, Option.map_some, hnonblocking]
    dsimp only [resetConnection]
    rw [if_pos (show e.alive = true by rw [← he]; exact h.alive), if_neg (by simp [hlasting]),
      show e.websocket = false by rw [← he]; exact h.plain]
    rfl
  · subst he
    exact ⟨rfl, h.alive, h.plain, h.unchunked, hlasting, h.ending, rfl, rfl, ⟨hresults, hmodes''⟩,
      rfl, rfl, rfl⟩
  · rw [← he]
    rfl
  · rw [← he]
    rfl
  · rw [← he]
    show behind (bodyLeft c - c.headerBodyLeft - c.ioDataLeft) c.socket.arrivals = _
    rw [bodyLeft_of_accepted h, h.output, Nat.sub_zero]

end Answering

/-! ### A conversation -/

/-- The connection is in step with the requests that are still to come. -/
structure InTurn (limits : Limits) (sent : List UInt8) (requests : List PlainRequest)
    (c : Connection σ) : Prop where
  collecting : Collecting limits c
  stream : c.headerBuf.data ++ c.socket.coming = requests.flatMap PlainRequest.text
  part : ∀ p ∈ requests.head?, c.headerBuf.data.length < p.head.text.length
  apart : Apart c.headerBuf.data.length (requests.map PlainRequest.text) c.socket.arrivals
  sent_eq : c.socket.sent ++ requests.flatMap PlainRequest.answer = sent

theorem head_le_text (p : PlainRequest) : p.head.text.length ≤ p.text.length := by
  rw [PlainRequest.text, List.length_append]
  exact Nat.le_add_right _ _

theorem head_pos (r : Head) : 0 < r.text.length := by simp [Head.text, crlf]

theorem request_ne (p : PlainRequest) : p.text ≠ [] :=
  List.ne_nil_of_length_pos (Nat.lt_of_lt_of_le (head_pos p.head) (head_le_text p))

/-- When nothing more arrives, all requests have been answered: there is always
something to come of the next one. -/
theorem InTurn.coming {limits : Limits} {sent : List UInt8} {requests : List PlainRequest}
    {c : Connection σ} (h : InTurn limits sent requests c) (hnil : c.socket.arrivals = []) :
    requests = [] := by
  cases requests with
  | nil => rfl
  | cons p ps =>
    have hpart := h.part p rfl
    have htext := head_le_text p
    have hstream := h.stream
    rw [Socket.coming, hnil, List.flatMap_cons] at hstream
    have hlength := congrArg List.length (show c.headerBuf.data ++ [] = _ from hstream)
    simp only [List.length_append, List.length_nil] at hlength
    omega

/-- Once its head is in the buffer, some rounds answer the next request: they read
the rest of it and nothing that follows. -/
theorem InTurn.answered {webbyConnected : Connection σ → Option (Connection σ)} {sent : List UInt8}
    {p : PlainRequest} {ps : List PlainRequest} {c : Connection σ}
    (h : InTurn (listenConfig webbyConnected).limits sent (p :: ps) c) {fill : Fill}
    {data : List UInt8} {as : List (Option UInt8)}
    (hfill : wbFillBuffer c.headerBuf c.socket =
      some (fill, { c.headerBuf with data := data }, { c.socket with arrivals := as }))
    (hok : fill ≠ .error)
    (hcoming : data ++ as.reduceOption = p.head.text ++ (p.body ++ ps.flatMap PlainRequest.text))
    (hwhole : p.head.text.length ≤ data.length) (hle : data.length ≤ p.text.length)
    (hapart : Apart 0 (ps.map PlainRequest.text) (behind (p.text.length - data.length) as))
    (hrest : (behind (p.text.length - data.length) as).reduceOption =
      ps.flatMap PlainRequest.text) :
    ∃ c' rounds, (∀ fuel, updateLoop (listenConfig webbyConnected) (fuel + rounds) c =
        updateLoop (listenConfig webbyConnected) fuel c') ∧
      InTurn (listenConfig webbyConnected).limits sent ps c' ∧
      c'.socket.arrivals.length ≤ as.length := by
  -- the head, the continue header if it is wanted, and the answer
  rcases head_accepted h.collecting p.encoding hfill hok hcoming hwhole with
    ⟨rounds, c1, hloop, haccepted, -, hsent, harrivals, hleft⟩
  rcases serve_refuses webbyConnected haccepted with
    ⟨c2, hserve, hcollecting, hdata, -, hsent2, harrivals2⟩
  have hround : loopRound (listenConfig webbyConnected) c1 = some (.again c2) := by
    rw [loopRound, haccepted.state]
    exact hserve
  have hbehind : c2.socket.arrivals = behind (p.text.length - data.length) as := by
    have hlength : p.text.length = p.head.text.length + p.body.length := List.length_append
    rw [harrivals2, harrivals, hleft]
    congr 1
    omega
  have hexpects : expects c1 = expects (reading p.head) := by
    unfold expects
    rw [webbyFindHeader_congr (d := reading p.head) haccepted.request]
  refine ⟨c2, 1 + rounds, fun fuel => ?_, ⟨hcollecting, ?_, fun q _ => ?_, ?_, ?_⟩, ?_⟩
  · rw [← Nat.add_assoc, hloop, updateLoop_again hround]
  · rw [hdata, Socket.coming, hbehind, hrest]
    rfl
  · rw [hdata]
    exact head_pos q.head
  · rw [hdata, hbehind]
    exact hapart
  · rw [hsent2, hsent, hexpects, ← h.sent_eq, List.flatMap_cons, PlainRequest.answer]
    simp only [List.append_assoc]
  · rw [hbehind]
    exact length_behind_le _ _

/-- A round waits for the rest of a head, or some rounds answer a request. -/
theorem request_inTurn {webbyConnected : Connection σ → Option (Connection σ)} {sent : List UInt8}
    {requests : List PlainRequest} {c : Connection σ}
    (h : InTurn (listenConfig webbyConnected).limits sent requests c) :
    (∃ c', loopRound (listenConfig webbyConnected) c = some (.stop c') ∧
      InTurn (listenConfig webbyConnected).limits sent requests c' ∧
      (requests = [] ∨ c'.socket.arrivals.length < c.socket.arrivals.length)) ∨
    ∃ p ps c' rounds, requests = p :: ps ∧
      (∀ fuel, updateLoop (listenConfig webbyConnected) (fuel + rounds) c =
        updateLoop (listenConfig webbyConnected) fuel c') ∧
      InTurn (listenConfig webbyConnected).limits sent ps c' ∧
      c'.socket.arrivals.length ≤ c.socket.arrivals.length := by
  have hround : loopRound (listenConfig webbyConnected) c = collect c := by
    rw [loopRound, h.collecting.state]
  rcases wbFillBuffer_open c.headerBuf h.collecting.blocking h.collecting.ending with
    ⟨fill, bs, as, hfill, hfilled⟩
  have hcoming : c.headerBuf.data ++ bs ++ as.reduceOption = requests.flatMap PlainRequest.text := by
    rw [← h.stream, List.append_assoc, Socket.coming, hfilled.coming]
  have hfilling := h.collecting.filled (c.headerBuf.data ++ bs) as
  cases requests with
  | nil =>
    left
    have hnil : c.headerBuf.data ++ bs = [] := (List.append_eq_nil_iff.mp hcoming).1
    have hwait := collect_waits h.collecting hfill hfilled.ok (by rw [hnil]; rfl)
      (by rw [hnil]; exact Nat.zero_lt_succ _)
    refine ⟨_, hround.trans hwait, ?_, Or.inl rfl⟩
    exact ⟨hfilling, hcoming, by simp, trivial, h.sent_eq⟩
  | cons p ps =>
    have hpart := h.part p rfl
    have htext := head_le_text p
    have hfits := p.fits
    obtain ⟨hle, hapart, hapart', hrest⟩ := h.apart.fill (by simp [request_ne]) (by omega) hfilled
      (by rw [hcoming, List.flatMap_cons, List.flatMap_def])
    have hcoming' : c.headerBuf.data ++ bs ++ as.reduceOption =
        p.head.text ++ (p.body ++ ps.flatMap PlainRequest.text) := by
      rw [hcoming, List.flatMap_cons, PlainRequest.text, List.append_assoc p.head.text]
    by_cases hwhole : p.head.text.length ≤ (c.headerBuf.data ++ bs).length
    · right
      rw [← List.flatMap_def] at hrest
      rcases h.answered hfill hfilled.ok hcoming' hwhole hle hapart' hrest with
        ⟨c', rounds, hloop, hnext, hless⟩
      exact ⟨p, ps, c', rounds, rfl, hloop, hnext, le_trans hless hfilled.rest_le⟩
    · left
      have hwait := collect_waits h.collecting hfill hfilled.ok (peek_stream hcoming' (by omega))
        (show (c.headerBuf.data ++ bs).length < 2048 by omega)
      refine ⟨_, hround.trans hwait, ?_, Or.inr ?_⟩
      · refine ⟨hfilling, hcoming, ?_, hapart (by omega), h.sent_eq⟩
        intro q hq
        obtain rfl := Option.mem_some_iff.mp hq
        exact Nat.lt_of_not_le hwhole
      · apply hfilled.progress
        · intro hnil
          exact absurd (h.coming hnil) (List.cons_ne_nil _ _)
        · have hmax : c.headerBuf.max = 2048 := h.collecting.max
          omega

/-- A client that waits for each answer gets the refusal for each of its
requests, in order, and nothing else. -/
theorem requests_refused (webbyConnected : Connection σ → Option (Connection σ))
    (slot : Connection σ) {socket : Socket} (hending : socket.ending = .silent)
    (hblocking : socket.blocking = false) (hhealthy : Healthy socket)
    (requests : List PlainRequest) (hstream : socket.coming = requests.flatMap PlainRequest.text)
    (hapart : Apart 0 (requests.map PlainRequest.text) socket.arrivals)
    {n : ℕ} (hn : socket.arrivals.length ≤ n) :
    ∃ enough c', (∀ fuel, enough ≤ fuel →
        updates (listenConfig webbyConnected) fuel n
          (onIncoming (listenConfig webbyConnected).limits slot socket) = some c') ∧
      c'.socket.sent = socket.sent ++ requests.flatMap PlainRequest.answer ∧
      c'.socket.coming = [] ∧ Collecting (listenConfig webbyConnected).limits c' := by
  have hinit : InTurn (listenConfig webbyConnected).limits
      (socket.sent ++ requests.flatMap PlainRequest.answer) requests
      (onIncoming (listenConfig webbyConnected).limits slot socket) :=
    { collecting := onIncoming_collecting _ slot hending hblocking hhealthy
      stream := hstream
      part := fun p _ => head_pos p.head
      apart := hapart
      sent_eq := rfl }
  rcases updates_all (P := InTurn (listenConfig webbyConnected).limits
      (socket.sent ++ requests.flatMap PlainRequest.answer))
    (fun ps d hd => request_inTurn hd)
    (fun ps d hd => ⟨hd.collecting.fresh, hd.stream, hd.part, hd.apart, hd.sent_eq⟩)
    (fun ps d hd => hd.coming) hinit (Or.inr hn) with ⟨enough, c', hrun, hdone⟩
  -- with no request left, what was sent is all answers
  refine ⟨enough, c', hrun, ?_, ?_, hdone.collecting⟩
  · rw [← hdone.sent_eq]
    exact (List.append_nil _).symm
  · exact (List.append_eq_nil_iff.mp hdone.stream).2

/-! ### Two requests -/

def twoRequests : List PlainRequest :=
  [{ head := getRoot
     body := []
     encoding := by decide +kernel
     length_eq := by decide +kernel
     fits := by decide +kernel
     answer_fits := by decide +kernel
     no_upgrade := by decide +kernel
     no_close := by decide +kernel },
   { head := postTwo
     body := [104, 105]
     encoding := by decide +kernel
     length_eq := by decide +kernel
     fits := by decide +kernel
     answer_fits := by decide +kernel
     no_upgrade := by decide +kernel
     no_close := by decide +kernel }]

/-- A client that sends them in a packet each. -/
def patientClient : Socket :=
  ⟨packets (twoRequests.map PlainRequest.text), .silent, false, [], [], []⟩

/-- The server without sessions. -/
def bareServer : Config Unit := listenConfig some

/-- Both are answered, the body of the second is read, and nothing is left. -/
theorem requests_refused_two :
    ∃ enough c', (∀ fuel, enough ≤ fuel →
        updates bareServer fuel patientClient.arrivals.length
          (onIncoming bareServer.limits (blankSlot ()) patientClient) = some c') ∧
      c'.socket.sent = patientClient.sent ++ twoRequests.flatMap PlainRequest.answer ∧
      c'.socket.coming = [] ∧ Collecting bareServer.limits c' := by
  apply requests_refused
  · rfl
  · rfl
  · exact ⟨by simp [patientClient], by simp [patientClient]⟩
  · rw [List.flatMap_def]
    exact reduceOption_packets _
  · apply apart_packets
    simp [request_ne]
  · exact Nat.le_refl _

end Yardstick.SinkServer
