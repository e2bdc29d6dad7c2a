import Yardstick.Base.ChunkedBody
import Yardstick.WebbyOutput

/-!
# WebbyResponses — a whole response

A response is `WebbyBeginResponse`, any number of `WebbyWrite`s and
`WebbyEndResponse`. Its bytes go through the I/O buffer of the connection, which
is sent whenever it is full.

* `respond_wrote`: however large the buffer and however the socket takes the
  bytes, a response is its head and its body, and the rest of the request body is
  read;
* `respond_body`: a client that reads the body gets the pieces written, but in a
  chunked response only those in front of the first empty one.
-/

namespace Yardstick.WebbyResponses

open SocketFrames WebbyConnection WebbyFrames WebbyOutput

variable {σ : Type*}

/-! ## The calls of a response -/

def writeAll (c : Connection σ) (pieces : List (List UInt8)) : Connection σ :=
  pieces.foldl (fun c piece => (webbyWrite c piece).2) c

/-- A response written in pieces, none of whose results is looked at. -/
def respond (c : Connection σ) (statusCode : ℕ) (contentLength : Option ℕ)
    (headers : List (Text × Text)) (pieces : List (List UInt8)) : Option (Connection σ) :=
  (webbyBeginResponse c statusCode contentLength headers).map fun r =>
    webbyEndResponse (writeAll r.2 pieces)

/-! ## What the client is to get -/

/-- The client asks for the connection to be closed, and nothing has closed it. -/
def closing (c : Connection σ) (headers : List (Text × Text)) : Bool :=
  !(c.closeAfterResponse || headers.any closes) &&
    match webbyFindHeader c (ascii "Connection") with
    | some value => sameText (ascii "close") value
    | none => false

def responseHead (c : Connection σ) (statusCode : ℕ) (contentLength : Option ℕ)
    (headers : List (Text × Text)) : Text :=
  (responseLines statusCode contentLength headers (closing c headers) ++ [crlf]).flatten

def responseBody (contentLength : Option ℕ) (pieces : List (List UInt8)) : List UInt8 :=
  match contentLength with
  | some _ => pieces.flatten
  | none => (pieces ++ [[]]).flatMap ChunkedBody.chunk

/-- The bytes of the request body that nobody has read. -/
def bodyLeft (c : Connection σ) : ℕ := (c.request.contentLength - c.bodyBytesRead).toNat

/-- A connection that a response can be written to: its request is being served
and nothing fails on its socket. -/
structure Serving (c : Connection σ) : Prop where
  state : c.state = .serve
  plain : c.websocket = false
  unchunked : c.chunkedResponse = false
  blocking : c.socket.blocking = true
  healthy : Healthy c.socket
  room : c.ioBuf.data.length ≤ c.ioBuf.max
  buffered : Buffered c
  output : c.ioDataLeft = 0

/-! ## Writing -/

/-- In a response that is not chunked a piece is written as it is. -/
theorem webbyWrite_plain {c : Connection σ} (hplain : c.websocket = false)
    (hchunked : c.chunkedResponse = false) (h : Healthy c.socket)
    (hroom : c.ioBuf.data.length ≤ c.ioBuf.max) (hstate : c.state = .serve) (data : List UInt8)
    (hlen : data.length < 2 ^ 31) : Wrote data c (webbyWrite c data).2 := by
  unfold webbyWrite
  dsimp only
  rw [hplain, hchunked]
  exact (wbPush_wrote h hroom hstate data hlen).2

theorem length_hexText_le {n : ℕ} (h : n < 2 ^ 32) : (ChunkedBody.hexText n).length ≤ 8 := by
  rw [ChunkedBody.hexText, List.length_map]
  exact (Nat.length_toDigits_le_iff (by omega) (by omega)).mpr (by omega)

/-- One write of a chunked response is one chunk: its size line, its bytes and a
line end. -/
theorem webbyWrite_chunk {c : Connection σ} (hplain : c.websocket = false)
    (hchunked : c.chunkedResponse = true) (h : Healthy c.socket)
    (hroom : c.ioBuf.data.length ≤ c.ioBuf.max) (hstate : c.state = .serve) (data : List UInt8)
    (hlen : data.length < 2 ^ 31) : Wrote (ChunkedBody.chunk data) c (webbyWrite c data).2 := by
  have hnat : (BitVec.ofNat 32 data.length).toNat = data.length := by
    rw [BitVec.toNat_ofNat, Nat.mod_eq_of_lt (by omega)]
  have hline : (digits 16 data.length ++ crlf).length < 2 ^ 31 := by
    have hle := length_hexText_le (n := data.length) (by omega)
    rw [List.length_append]
    show (ChunkedBody.hexText data.length).length + 2 < 2 ^ 31
    omega
  unfold webbyWrite
  dsimp only
  rw [hplain, hchunked, hnat]
  -- the size, the bytes and the line end
  have hsize := (wbPush_wrote h hroom hstate _ hline).2
  have hstate1 : (wbPush c (digits 16 data.length ++ crlf)).2.state = .serve := by
    rcases hsize.frame with ⟨results, sent, data', heq⟩
    rw [heq]
    exact hstate
  have hdata := (wbPush_wrote hsize.healthy hsize.room hstate1 data hlen).2
  have hstate2 : (wbPush (wbPush c (digits 16 data.length ++ crlf)).2 data).2.state = .serve := by
    rcases hdata.frame with ⟨results, sent, data', heq⟩
    rw [heq]
    exact hstate1
  have hend := (wbPush_wrote hdata.healthy hdata.room hstate2 crlf (by simp [crlf])).2
  have hall := (hsize.trans hdata).trans hend
  exact hall

/-- The connection a piece is written to: in front of the first one nothing has
been written. -/
theorem writeAll_wrote {c : Connection σ} (hplain : c.websocket = false) (h : Healthy c.socket)
    (hroom : c.ioBuf.data.length ≤ c.ioBuf.max) (hstate : c.state = .serve)
    {pieces : List (List UInt8)} (hlen : ∀ piece ∈ pieces, piece.length < 2 ^ 31) :
    Wrote (if c.chunkedResponse then pieces.flatMap ChunkedBody.chunk else pieces.flatten) c
      (writeAll c pieces) := by
  induction pieces generalizing c with
  | nil =>
    have hrefl := Wrote.refl h hroom
    cases hchunked : c.chunkedResponse with
    | true => exact hrefl
    | false => exact hrefl
  | cons piece pieces ih =>
    have hpiece := hlen piece List.mem_cons_self
    have hfirst : Wrote (if c.chunkedResponse then ChunkedBody.chunk piece else piece) c
        (webbyWrite c piece).2 := by
      cases hchunked : c.chunkedResponse with
      | true => exact webbyWrite_chunk hplain hchunked h hroom hstate piece hpiece
      | false => exact webbyWrite_plain hplain hchunked h hroom hstate piece hpiece
    -- the first write leaves the state and the kind of response
    rcases hfirst.frame with ⟨results, sent, data, heq⟩
    have hrest := ih (c := (webbyWrite c piece).2) (by rw [heq]; exact hplain) hfirst.healthy
      hfirst.room (by rw [heq]; exact hstate) (fun p hp => hlen p (List.mem_cons_of_mem _ hp))
    have hchunked' : (webbyWrite c piece).2.chunkedResponse = c.chunkedResponse := by rw [heq]
    rw [hchunked'] at hrest
    have hall := hfirst.trans hrest
    cases hchunked : c.chunkedResponse with
    | true => simpa [hchunked, writeAll] using hall
    | false => simpa [hchunked, writeAll] using hall

/-- Lines that fit the buffer of `WebbyPrintf` are written as they are. -/
theorem printAll_wrote {c : Connection σ} (hplain : c.websocket = false)
    (hchunked : c.chunkedResponse = false) (h : Healthy c.socket)
    (hroom : c.ioBuf.data.length ≤ c.ioBuf.max) (hstate : c.state = .serve) {texts : List Text}
    (hlen : ∀ text ∈ texts, text.length < 1024) :
    ∃ c', printAll c texts = some c' ∧ Wrote texts.flatten c c' := by
  induction texts generalizing c with
  | nil => exact ⟨c, rfl, Wrote.refl h hroom⟩
  | cons text texts ih =>
    have htext := hlen text List.mem_cons_self
    have hfirst := webbyWrite_plain hplain hchunked h hroom hstate text (by omega)
    rcases hfirst.frame with ⟨results, sent, data, heq⟩
    rcases ih (c := (webbyWrite c text).2) (by rw [heq]; exact hplain) (by rw [heq]; exact hchunked)
      hfirst.healthy hfirst.room (by rw [heq]; exact hstate)
      (fun t ht => hlen t (List.mem_cons_of_mem _ ht)) with ⟨c', hprint, hrest⟩
    refine ⟨c', ?_, hfirst.trans hrest⟩
    rw [printAll, webbyPrintf, if_pos htext, Option.bind_some]
    exact hprint

/-! ## The response -/

/-- The connection behind a response: the rest of the request body has been
read, everything written has gone out, and the connection may have to be closed. -/
def responded (c : Connection σ) (headers : List (Text × Text)) (sendResults : List (Option ℕ))
    (sent : List UInt8) : Connection σ :=
  let c' := taken c (bodyLeft c)
  { c' with
    closeAfterResponse := c.closeAfterResponse || headers.any closes || closing c headers
    socket := { c'.socket with sendResults := sendResults, sent := sent }
    ioBuf := { c'.ioBuf with data := [] } }

/-- The body is discarded in the same way whether something is left of it or not. -/
theorem discard_body {c : Connection σ} (h : Serving c)
    (hbody : bodyLeft c ≤ (unread c).length) :
    (if (c.bodyBytesRead : ℤ) < c.request.contentLength then
        discardIncomingData c (c.request.contentLength - c.bodyBytesRead).toNat
      else some (true, c)) = some (true, taken c (bodyLeft c)) := by
  have hdiscard := discardIncomingData_spec h.buffered h.blocking hbody
  split
  · exact hdiscard
  · rename_i hread
    have hnone : bodyLeft c = 0 := by
      unfold bodyLeft
      omega
    rw [hnone] at hdiscard ⊢
    rw [← hdiscard, discardIncomingData, if_pos rfl]

/-- A response begins by reading the rest of the request body, and then its head is
written. -/
theorem webbyBeginResponse_wrote {c : Connection σ} (h : Serving c)
    (hbody : bodyLeft c ≤ (unread c).length) {statusCode : ℕ} {contentLength : Option ℕ}
    {headers : List (Text × Text)}
    (hlines : ∀ line ∈ responseLines statusCode contentLength headers (closing c headers),
      line.length < 1024) :
    ∃ c',
      webbyBeginResponse c statusCode contentLength headers =
        some (true, { c' with chunkedResponse := contentLength.isNone }) ∧
      Wrote (responseHead c statusCode contentLength headers)
        { taken c (bodyLeft c) with
          closeAfterResponse := c.closeAfterResponse || headers.any closes || closing c headers }
        c' := by
  -- the empty line behind the headers is a line like the others
  have hall : ∀ line ∈ responseLines statusCode contentLength headers (closing c headers) ++ [crlf],
      line.length < 1024 := by
    intro line hline
    rcases List.mem_append.mp hline with hmem | hmem
    · exact hlines line hmem
    · obtain rfl := List.mem_singleton.mp hmem
      decide
  rcases printAll_wrote (c := { taken c (bodyLeft c) with
      closeAfterResponse := c.closeAfterResponse || headers.any closes || closing c headers })
    h.plain h.unchunked ⟨h.healthy.sends, h.healthy.modes⟩ h.room h.state hall with
    ⟨c', hprint, hwrote⟩
  refine ⟨c', ?_, hwrote⟩
  rcases hwrote.frame with ⟨results, sent, data, heq⟩
  -- the head itself is not chunked
  have hunchunked : c'.chunkedResponse = false := by
    rw [heq]
    exact h.unchunked
  unfold webbyBeginResponse
  rw [discard_body h hbody, Option.bind_some, if_neg (by simp)]
  show (printAll { taken c (bodyLeft c) with
      closeAfterResponse := c.closeAfterResponse || headers.any closes || closing c headers }
    (responseLines statusCode contentLength headers (closing c headers) ++ [crlf])).map _ = _
  rw [hprint, Option.map_some, hunchunked, Bool.false_or]

/-- Pushing no bytes sends the buffer. -/
theorem wbPush_flush {c : Connection σ} (h : Healthy c.socket) (hstate : c.state = .serve) :
    ∃ sendResults, (∀ result ∈ sendResults, ∃ n, result = some (n + 1)) ∧
      (wbPush c []).2 = { c with
        socket := { c.socket with
          sendResults := sendResults, sent := c.socket.sent ++ c.ioBuf.data }
        ioBuf := { c.ioBuf with data := [] } } := by
  obtain ⟨-, hbuf, hhealthy, hsent, results, sent, hsocket⟩ := wbFlush_healthy c.ioBuf h
  rw [hsocket] at hsent hhealthy
  refine ⟨results, hhealthy.sends, ?_⟩
  have hpush : (wbPush c []).2 = { c with
      ioBuf := (wbFlush c.ioBuf c.socket).2.1, socket := (wbFlush c.ioBuf c.socket).2.2 } := by
    unfold wbPush
    rw [if_neg (not_not.mpr hstate)]
    rfl
  rw [hpush, hbuf, hsocket, ← hsent]

/-- The end of a response sends the last chunk and whatever is buffered. -/
theorem webbyEndResponse_sent {c : Connection σ} (h : Healthy c.socket)
    (hroom : c.ioBuf.data.length ≤ c.ioBuf.max) (hstate : c.state = .serve) :
    ∃ sendResults, (∀ result ∈ sendResults, ∃ n, result = some (n + 1)) ∧
      webbyEndResponse c = { c with
        chunkedResponse := false
        socket := { c.socket with
          sendResults := sendResults
          sent := c.socket.sent ++ c.ioBuf.data ++
            (if c.chunkedResponse then ChunkedBody.chunk [] else []) }
        ioBuf := { c.ioBuf with data := [] } } := by
  unfold webbyEndResponse
  dsimp only
  cases hchunked : c.chunkedResponse with
  | true =>
    rw [if_pos rfl, if_pos rfl]
    -- the last chunk, and then a flush
    have hlast := (wbPush_wrote h hroom hstate (ChunkedBody.chunk []) (by decide)).2
    have houtgoing := hlast.outgoing
    have hhealthy := hlast.healthy
    rcases hlast.frame with ⟨results, sent, data, heq⟩
    have hpush : wbPush c ([48] ++ crlf ++ crlf) = wbPush c (ChunkedBody.chunk []) := rfl
    rw [heq] at houtgoing hhealthy
    rw [hpush, heq]
    rcases wbPush_flush (c := { c with
        chunkedResponse := false
        socket := { c.socket with sendResults := results, sent := sent }
        ioBuf := { c.ioBuf with data := data } }) hhealthy hstate with ⟨results', hresults, hflush⟩
    refine ⟨results', hresults, ?_⟩
    rw [hflush, ← houtgoing]
  | false =>
    rw [if_neg (by simp), if_neg (by simp), List.append_nil]
    rcases wbPush_flush h hstate with ⟨results, hresults, hflush⟩
    refine ⟨results, hresults, ?_⟩
    rw [hflush, ← hchunked]

/-- A response is its head and its body. -/
theorem respond_wrote {c : Connection σ} (h : Serving c)
    (hbody : bodyLeft c ≤ (unread c).length) {statusCode : ℕ} {contentLength : Option ℕ}
    {headers : List (Text × Text)}
    (hlines : ∀ line ∈ responseLines statusCode contentLength headers (closing c headers),
      line.length < 1024)
    {pieces : List (List UInt8)} (hpieces : ∀ piece ∈ pieces, piece.length < 2 ^ 31) :
    ∃ sendResults,
      (∀ result ∈ sendResults, ∃ n, result = some (n + 1)) ∧
      respond c statusCode contentLength headers pieces =
        some (responded c headers sendResults
          (c.socket.sent ++ c.ioBuf.data ++ responseHead c statusCode contentLength headers ++
            responseBody contentLength pieces)) := by
  rcases webbyBeginResponse_wrote h hbody hlines with ⟨c1, hbegin, hhead⟩
  have houtgoing := hhead.outgoing
  rcases hhead.frame with ⟨results1, sent1, data1, heq1⟩
  -- the pieces behind the head
  have hpieces := writeAll_wrote (c := { c1 with chunkedResponse := contentLength.isNone })
    (by rw [heq1]; exact h.plain) hhead.healthy hhead.room (by rw [heq1]; exact h.state) hpieces
  have houtgoing' := hpieces.outgoing
  rcases hpieces.frame with ⟨results2, sent2, data2, heq2⟩
  rcases webbyEndResponse_sent hpieces.healthy hpieces.room (by rw [heq2, heq1]; exact h.state)
    with ⟨results3, hresults, hend⟩
  refine ⟨results3, hresults, ?_⟩
  have hsent : c1.socket.sent ++ c1.ioBuf.data ++
      (if contentLength.isNone then pieces.flatMap ChunkedBody.chunk else pieces.flatten) ++
      (if contentLength.isNone then ChunkedBody.chunk [] else []) =
      c.socket.sent ++ c.ioBuf.data ++ responseHead c statusCode contentLength headers ++
        responseBody contentLength pieces := by
    rw [houtgoing]
    cases contentLength with
    | none => simp [responseBody, taken]
    | some n => simp [responseBody, taken]
  rw [respond, hbegin, Option.map_some, hend, houtgoing', heq2]
  dsimp only
  rw [hsent, heq1]
  simp [responded, taken, h.unchunked]

theorem unread_responded {c : Connection σ} (h : Serving c) (headers : List (Text × Text))
    (sendResults : List (Option ℕ)) (sent : List UInt8) :
    unread (responded c headers sendResults sent) = (unread c).drop (bodyLeft c) := by
  rw [← unread_taken h.buffered]
  simp [unread, responded, taken, Socket.coming, h.output]

/-- A client that reads the body gets the pieces, except that in a chunked
response it stops at the first empty one. -/
theorem respond_body {c : Connection σ} (h : Serving c) (hbody : bodyLeft c ≤ (unread c).length)
    {statusCode : ℕ} {contentLength : Option ℕ} {headers : List (Text × Text)}
    (hlines : ∀ line ∈ responseLines statusCode contentLength headers (closing c headers),
      line.length < 1024)
    {pieces : List (List UInt8)} (hpieces : ∀ piece ∈ pieces, piece.length < 2 ^ 31) :
    ∃ c' body, respond c statusCode contentLength headers pieces = some c' ∧
      c'.socket.sent =
        c.socket.sent ++ c.ioBuf.data ++ responseHead c statusCode contentLength headers ++ body ∧
      c'.ioBuf.data = [] ∧ unread c' = (unread c).drop (bodyLeft c) ∧
      match contentLength with
      | some _ => body = pieces.flatten
      | none => ChunkedBody.decode body = some (pieces.flatten, []) ↔ [] ∉ pieces := by
  rcases respond_wrote h hbody hlines hpieces with ⟨results, -, hrespond⟩
  refine ⟨_, responseBody contentLength pieces, hrespond, rfl, rfl, ?_, ?_⟩
  · exact unread_responded h headers results _
  · cases contentLength with
    | none => exact ChunkedBody.decode_chunks_iff pieces
    | some n => rfl

/-- A request being served, of whose body two bytes are buffered and one is still
to come. -/
def posted : Connection Unit :=
  { blankSlot () with
    request := ⟨ascii "POST", ascii "/", ascii "1.1", none, 3, []⟩
    alive := true
    state := .serve
    socket := ⟨[none, some 67], .silent, true, [], [some 1, some 40], []⟩
    headerBuf := ⟨2048, [65, 66]⟩
    ioBuf := ⟨16, []⟩
    headerBodyLeft := 2 }

/-- A chunked response of two pieces to that request. -/
theorem respond_two_pieces :
    ∃ c' body, respond posted 200 none [(ascii "Content-Type", ascii "text/plain")]
        [[104, 101], [108]] = some c' ∧
      c'.socket.sent = posted.socket.sent ++ posted.ioBuf.data ++
        responseHead posted 200 none [(ascii "Content-Type", ascii "text/plain")] ++ body ∧
      c'.ioBuf.data = [] ∧ unread c' = (unread posted).drop (bodyLeft posted) ∧
      (ChunkedBody.decode body = some ([[104, 101], [108]].flatten, []) ↔
        [] ∉ ([[104, 101], [108]] : List (List UInt8))) := by
  apply respond_body
  · constructor
    · rfl
    · rfl
    · rfl
    · rfl
    · exact ⟨by simp [posted], by simp [posted, blankSlot]⟩
    · decide
    · exact ⟨by decide, by decide⟩
    · rfl
  · decide
  · decide +kernel
  · decide

end Yardstick.WebbyResponses
