import Yardstick.WebbyUpdate

/-!
# WebbyServing — requests that come in

A request is collected in the header buffer over as many calls of
`wb_update_client` as it takes. What the buffer holds behind its head is the
beginning of the body, which `WebbyRead` returns first.

* `collecting_served`: a head is read over as many updates as it takes;
* `request_served`: a request reaches `WBC_SERVE` as it was written, up to what
  `wb_setup_request` keeps of its headers, its body still to be read, in whatever
  packets it arrives.
-/

namespace Yardstick.WebbyServing

open SocketFrames WebbyConnection WebbyOutput WebbyResponses WebbyHandshake WebbyRequest WebbyUpdate

variable {σ : Type*}

/-! ## Collecting the head -/

/-- A connection in front of a request or in the middle of its head, whose peer
keeps it open: behind what arrives the socket stays silent, and no call on it
fails. -/
structure Collecting (limits : Limits) (c : Connection σ) : Prop where
  state : c.state = .request
  alive : c.alive = true
  plain : c.websocket = false
  unchunked : c.chunkedResponse = false
  lasting : c.closeAfterResponse = false
  ending : c.socket.ending = .silent
  blocking : c.socket.blocking = false
  count : c.blockingCount = 0
  healthy : Healthy c.socket
  output : c.ioDataLeft = 0
  read : c.bodyBytesRead = 0
  max : c.headerBuf.max = limits.requestBufferSize

/-- The first round of an update takes the flag of a new connection away. -/
theorem Collecting.fresh {limits : Limits} {c : Connection σ} (h : Collecting limits c) :
    Collecting limits { c with fresh := false } :=
  ⟨h.state, h.alive, h.plain, h.unchunked, h.lasting, h.ending, h.blocking, h.count, h.healthy,
    h.output, h.read, h.max⟩

/-- More of a head comes into the buffer. -/
theorem Collecting.filled {limits : Limits} {c : Connection σ} (h : Collecting limits c)
    (data : List UInt8) (as : List (Option UInt8)) :
    Collecting limits { c with
      headerBuf := { c.headerBuf with data := data }
      socket := { c.socket with arrivals := as } } :=
  ⟨h.state, h.alive, h.plain, h.unchunked, h.lasting, h.ending, h.blocking, h.count,
    ⟨h.healthy.sends, h.healthy.modes⟩, h.output, h.read, h.max⟩

/-- A request that has been read and not been answered yet. -/
structure Accepted (r : Head) (rest : List UInt8) (c : Connection σ) : Prop where
  state : c.state = .serve
  alive : c.alive = true
  plain : c.websocket = false
  unchunked : c.chunkedResponse = false
  lasting : c.closeAfterResponse = false
  ending : c.socket.ending = .silent
  blocking : c.socket.blocking = false
  count : c.blockingCount = 0
  healthy : Healthy c.socket
  output : c.ioDataLeft = 0
  read : c.bodyBytesRead = 0
  request : c.request = r.request
  buffered : Buffered c
  unread_eq : unread c = rest

/-- The client waits for a `100 Continue`. -/
def expects (c : Connection σ) : Bool :=
  match webbyFindHeader c (ascii "Expect") with
  | some hdr => sameText hdr (ascii "100-continue")
  | none => false

/-- The connection behind the head of a request: `data` is in the header buffer. -/
def begun (c : Connection σ) (r : Head) (data : List UInt8) (as : List (Option UInt8)) :
    Connection σ :=
  { c with
    headerBuf := { c.headerBuf with data := data }
    socket := { c.socket with arrivals := as }
    request := r.request
    headerBodyLeft := data.length - r.text.length }

/-- A buffer that reaches behind the head holds the head and what follows. -/
theorem stream_split {data rest text : List UInt8} {as : List (Option UInt8)}
    (hstream : data ++ as.reduceOption = text ++ rest) (hle : text.length ≤ data.length) :
    ∃ extra, data = text ++ extra ∧ extra ++ as.reduceOption = rest := by
  have hinitial : text <+: data := by
    apply List.prefix_of_prefix_length_le (List.prefix_append text rest) _ hle
    rw [← hstream]
    exact List.prefix_append _ _
  rcases hinitial with ⟨extra, rfl⟩
  rw [List.append_assoc] at hstream
  exact ⟨extra, rfl, List.append_cancel_left hstream⟩

/-- Once the head is buffered as a whole, the round that collects goes on to serve
it, by way of a `100 Continue` if the client waits for one. -/
theorem collect_reads {c : Connection σ} {r : Head}
    (hencoding : ∀ header ∈ r.stored, sameText (ascii "transfer-encoding") header.1 = false)
    {fill : Fill} {data rest : List UInt8} {as : List (Option UInt8)}
    (hfill : wbFillBuffer c.headerBuf c.socket =
      some (fill, { c.headerBuf with data := data }, { c.socket with arrivals := as }))
    (hok : fill ≠ .error) (hstream : data ++ as.reduceOption = r.text ++ rest)
    (hwhole : r.text.length ≤ data.length) :
    collect c = some (.again (if expects (begun c r data as) then
      { begun c r data as with
        continueDataLeft := continueHeader.length, state := .sendContinue }
    else { begun c r data as with state := .serve })) := by
  rcases stream_split hstream hwhole with ⟨extra, rfl, -⟩
  -- the round, as far as it looks for `Expect`
  have hround : collect c = some (match webbyFindHeader (begun c r (r.text ++ extra) as)
      (ascii "Expect") with
    | some hdr =>
      if sameText hdr (ascii "100-continue") then
        .again { begun c r (r.text ++ extra) as with
          continueDataLeft := continueHeader.length, state := .sendContinue }
      else .again { begun c r (r.text ++ extra) as with state := .serve }
    | none => .again { begun c r (r.text ++ extra) as with state := .serve }) := by
    rw [collect, hfill, Option.map_some]
    dsimp only
    rw [if_neg hok, peek_text]
    dsimp only
    rw [wbSetupRequest, setupRequest_text r extra hencoding, Option.map_some]
    rfl
  rw [hround]
  unfold expects
  cases webbyFindHeader (begun c r (r.text ++ extra) as) (ascii "Expect") with
  | none => rfl
  | some hdr =>
    dsimp only
    split
    · rfl
    · rfl

/-- A part of a head is no head. -/
theorem peek_stream {r : Head} {data rest : List UInt8} {as : List (Option UInt8)}
    (hstream : data ++ as.reduceOption = r.text ++ rest) (hpart : data.length < r.text.length) :
    wbPeekRequestSize data = none := by
  have hinitial : data <+: r.text := by
    apply List.prefix_of_prefix_length_le _ (List.prefix_append r.text rest) (Nat.le_of_lt hpart)
    rw [← hstream]
    exact List.prefix_append _ _
  rcases hinitial with ⟨missing, htext⟩
  have hmissing : missing ≠ [] := by
    rintro rfl
    rw [← htext, List.append_nil] at hpart
    exact Nat.lt_irrefl _ hpart
  exact peek_part r htext hmissing

/-- What is not a head yet is left in the buffer, if there is room. -/
theorem collect_waits {limits : Limits} {c : Connection σ} (h : Collecting limits c)
    {fill : Fill} {data : List UInt8} {as : List (Option UInt8)}
    (hfill : wbFillBuffer c.headerBuf c.socket =
      some (fill, { c.headerBuf with data := data }, { c.socket with arrivals := as }))
    (hok : fill ≠ .error) (hpeek : wbPeekRequestSize data = none)
    (hroom : data.length < limits.requestBufferSize) :
    collect c = some (.stop { c with
      headerBuf := { c.headerBuf with data := data }
      socket := { c.socket with arrivals := as } }) := by
  have hmax := h.max
  rw [collect, hfill, Option.map_some]
  dsimp only
  rw [if_neg hok, hpeek]
  dsimp only
  rw [if_neg (by omega)]

/-! ## Sending the continue header -/

/-- Each `send` takes something. -/
theorem send_takes {s : Socket} (h : Healthy s) {data : List UInt8} (hne : data ≠ []) :
    ∃ n sendResults, 0 < n ∧ n ≤ data.length ∧
      (∀ result ∈ sendResults, ∃ n, result = some (n + 1)) ∧
      send s data =
        (some n, { s with sendResults := sendResults, sent := s.sent ++ data.take n }) := by
  have hpos : 0 < data.length := List.length_pos_iff.mpr hne
  have hsends := h.sends
  unfold send
  cases hs : s.sendResults with
  | nil => exact ⟨data.length, [], hpos, Nat.le_refl _, by simp, by simp⟩
  | cons result results =>
    rw [hs] at hsends
    rcases hsends result List.mem_cons_self with ⟨k, rfl⟩
    refine ⟨min (k + 1) data.length, results, by omega, Nat.min_le_right _ _,
      fun r hr => hsends r (List.mem_cons_of_mem _ hr), ?_⟩
    rw [← List.take_eq_take_min]

/-- The header goes out in as many rounds as the socket needs. -/
theorem sendContinue_rounds (config : Config σ) {c : Connection σ} (h : Healthy c.socket)
    (hstate : c.state = .sendContinue) (hpos : 0 < c.continueDataLeft)
    (hle : c.continueDataLeft ≤ continueHeader.length) :
    ∃ rounds sendResults, (∀ result ∈ sendResults, ∃ n, result = some (n + 1)) ∧
      ∀ fuel, updateLoop config (fuel + rounds) c = updateLoop config fuel { c with
        state := .serve
        continueDataLeft := 0
        socket := { c.socket with
          sendResults := sendResults
          sent := c.socket.sent ++
            continueHeader.drop (continueHeader.length - c.continueDataLeft) } } := by
  induction hn : c.continueDataLeft using Nat.strongRecOn generalizing c with
  | ind left ih =>
    subst hn
    have hleft : (continueHeader.drop (continueHeader.length - c.continueDataLeft)).length =
        c.continueDataLeft := by
      rw [List.length_drop]
      omega
    have hne : continueHeader.drop (continueHeader.length - c.continueDataLeft) ≠ [] := by
      apply List.ne_nil_of_length_pos
      omega
    rcases send_takes h hne with ⟨n, results, hn, hnle, hresults, hsend⟩
    rw [hleft] at hnle
    by_cases hlast : n = c.continueDataLeft
    · -- the rest of it
      have hround : loopRound config c = some (.again { c with
          state := .serve
          continueDataLeft := 0
          socket := { c.socket with
            sendResults := results
            sent := c.socket.sent ++
              continueHeader.drop (continueHeader.length - c.continueDataLeft) } }) := by
        rw [loopRound, hstate]
        dsimp only
        rw [sendContinue, hsend]
        dsimp only
        rw [hlast, Nat.sub_self, if_pos rfl, List.take_of_length_le (Nat.le_of_eq hleft)]
      exact ⟨1, results, hresults, fun fuel => updateLoop_again hround fuel⟩
    · -- a part, and then the rest
      have hround : loopRound config c = some (.again { c with
          continueDataLeft := c.continueDataLeft - n
          socket := { c.socket with
            sendResults := results
            sent := c.socket.sent ++
              (continueHeader.drop (continueHeader.length - c.continueDataLeft)).take n } }) := by
        rw [loopRound, hstate]
        dsimp only
        rw [sendContinue, hsend]
        dsimp only
        rw [if_neg (by omega), hstate]
      rcases ih (c.continueDataLeft - n) (by omega) (c := { c with
          continueDataLeft := c.continueDataLeft - n
          socket := { c.socket with
            sendResults := results
            sent := c.socket.sent ++
              (continueHeader.drop (continueHeader.length - c.continueDataLeft)).take n } })
        ⟨hresults, h.modes⟩ hstate (by dsimp only; omega) (by dsimp only; omega) rfl with
        ⟨rounds, results', hresults', hloop⟩
      have hrest : continueHeader.length - (c.continueDataLeft - n) =
          continueHeader.length - c.continueDataLeft + n := by omega
      refine ⟨rounds + 1, results', hresults', fun fuel => ?_⟩
      rw [← Nat.add_assoc, updateLoop_again hround, hloop]
      dsimp only
      rw [hrest, ← List.drop_drop, List.append_assoc, List.take_append_drop]

/-! ## Reaching the callback -/

/-- The round that reads the head, and the ones that send the continue header. -/
theorem head_accepted {config : Config σ} {c : Connection σ} (h : Collecting config.limits c)
    {r : Head} (hencoding : ∀ header ∈ r.stored, sameText (ascii "transfer-encoding") header.1 = false)
    {fill : Fill} {data rest : List UInt8} {as : List (Option UInt8)}
    (hfill : wbFillBuffer c.headerBuf c.socket =
      some (fill, { c.headerBuf with data := data }, { c.socket with arrivals := as }))
    (hok : fill ≠ .error) (hstream : data ++ as.reduceOption = r.text ++ rest)
    (hwhole : r.text.length ≤ data.length) :
    ∃ rounds c', (∀ fuel, updateLoop config (fuel + rounds) c = updateLoop config fuel c') ∧
      Accepted r rest c' ∧ c'.user = c.user ∧
      c'.socket.sent = c.socket.sent ++ (if expects c' then continueHeader else []) ∧
      c'.socket.arrivals = as ∧ c'.headerBodyLeft = data.length - r.text.length := by
  rcases stream_split hstream hwhole with ⟨extra, hdata, hextra⟩
  have hcollect := collect_reads hencoding hfill hok hstream hwhole
  have hround : loopRound config c = collect c := by rw [loopRound, h.state]
  have hleft : data.length - (data.length - r.text.length) = r.text.length := by omega
  have hbuffered : Buffered (begun c r data as) :=
    ⟨Nat.sub_le _ _, by rw [show (begun c r data as).ioDataLeft = 0 from h.output]; exact Nat.zero_le _⟩
  -- behind the head the rest is unread
  have hunread : unread (begun c r data as) = rest := by
    unfold unread begun
    dsimp only [Socket.coming]
    rw [hleft, h.output, hdata, List.drop_left, Nat.sub_zero, List.drop_length, List.append_nil,
      hextra]
  cases hexpects : expects (begun c r data as) with
  -- one round
  | false =>
    rw [hexpects, if_neg (by simp)] at hcollect
    refine ⟨1, { begun c r data as with state := .serve },
      fun fuel => updateLoop_again (hround.trans hcollect) fuel, ?_, rfl, ?_, rfl, rfl⟩
    · exact ⟨rfl, h.alive, h.plain, h.unchunked, h.lasting, h.ending, h.blocking, h.count,
        ⟨h.healthy.sends, h.healthy.modes⟩, h.output, h.read, rfl,
        ⟨hbuffered.header_le, hbuffered.io_le⟩, hunread⟩
    · show c.socket.sent = c.socket.sent ++ if expects (begun c r data as) then continueHeader else []
      rw [hexpects, if_neg (by simp), List.append_nil]
  -- one round, and those that send
  | true =>
    rw [hexpects, if_pos rfl] at hcollect
    rcases sendContinue_rounds config (c := { begun c r data as with
        continueDataLeft := continueHeader.length, state := .sendContinue })
      ⟨h.healthy.sends, h.healthy.modes⟩ rfl (show 0 < continueHeader.length by decide +kernel)
      (Nat.le_refl _) with ⟨rounds, results, hresults, hloop⟩
    refine ⟨rounds + 1, { begun c r data as with
        state := .serve
        continueDataLeft := 0
        socket := { (begun c r data as).socket with
          sendResults := results, sent := c.socket.sent ++ continueHeader } },
      fun fuel => ?_, ?_, rfl, ?_, rfl, rfl⟩
    · rw [← Nat.add_assoc, updateLoop_again (hround.trans hcollect), hloop]
      dsimp only
      rw [Nat.sub_self, List.drop_zero]
      rfl
    · exact ⟨rfl, h.alive, h.plain, h.unchunked, h.lasting, h.ending, h.blocking, h.count,
        ⟨hresults, h.healthy.modes⟩, h.output, h.read, rfl,
        ⟨hbuffered.header_le, hbuffered.io_le⟩, hunread⟩
    · show c.socket.sent ++ continueHeader =
        c.socket.sent ++ if expects (begun c r data as) then continueHeader else []
      rw [hexpects, if_pos rfl]

/-- A head that fits the header buffer is read over as many updates as it takes. -/
theorem collecting_served {config : Config σ} {c : Connection σ} (h : Collecting config.limits c)
    {r : Head} (hencoding : ∀ header ∈ r.stored, sameText (ascii "transfer-encoding") header.1 = false)
    (hroom : r.text.length ≤ config.limits.requestBufferSize) {rest : List UInt8}
    (hstream : c.headerBuf.data ++ c.socket.coming = r.text ++ rest)
    (hpart : c.headerBuf.data.length < r.text.length) {fuel : ℕ} (hfuel : 0 < fuel) :
    ∃ n c1 rounds c2, n ≤ c.socket.arrivals.length ∧ updates config fuel n c = some c1 ∧
      Collecting config.limits c1 ∧
      (∀ fuel, wbUpdateClient config (fuel + rounds) c1 = updateLoop config fuel c2) ∧
      Accepted r rest c2 ∧ c2.user = c.user ∧
      c2.socket.sent = c.socket.sent ++ if expects c2 then continueHeader else [] := by
  induction hn : c.socket.arrivals.length using Nat.strongRecOn generalizing c with
  | ind n ih =>
    subst hn
    rcases wbFillBuffer_open c.headerBuf h.blocking h.ending with
      ⟨fill, bs, as, hfill, hfilled⟩
    have hstream' : c.headerBuf.data ++ bs ++ as.reduceOption = r.text ++ rest := by
      rw [← hstream, List.append_assoc, Socket.coming, hfilled.coming]
    have hfresh := h.fresh
    by_cases hwhole : r.text.length ≤ (c.headerBuf.data ++ bs).length
    · rcases head_accepted hfresh hencoding hfill hfilled.ok hstream' hwhole with
        ⟨rounds, c2, hloop, haccepted, huser, hsent, -⟩
      exact ⟨0, c, rounds, c2, Nat.zero_le _, rfl, h, hloop, haccepted, huser, hsent⟩
    · -- the head is not complete: the next update goes on from here
      have hwait := collect_waits hfresh hfill hfilled.ok (peek_stream hstream' (by omega))
        (by omega)
      have hless : as.length < c.socket.arrivals.length := by
        apply hfilled.progress
        · intro hnil
          rw [Socket.coming, hnil] at hstream
          have hlength := congrArg List.length (show c.headerBuf.data ++ [] = _ from hstream)
          simp only [List.length_append, List.length_nil] at hlength
          omega
        · rw [h.max]
          omega
      rcases ih as.length hless (hfresh.filled (c.headerBuf.data ++ bs) as) hstream' (Nat.lt_of_not_le hwhole) rfl with
        ⟨n, c1, rounds, c2, hle, hrun, hcollecting, hloop, haccepted, huser, hsent⟩
      refine ⟨n + 1, c1, rounds, c2, Nat.succ_le_of_lt (Nat.lt_of_le_of_lt hle hless), ?_,
        hcollecting, hloop, haccepted, huser, hsent⟩
      have hround : loopRound config { c with fresh := false } = collect { c with fresh := false } := by
        rw [loopRound, hfresh.state]
      rw [updates, wbUpdateClient_stop (hround.trans hwait) hfuel, Option.bind_some]
      exact hrun

theorem onIncoming_collecting (limits : Limits) (slot : Connection σ) {socket : Socket}
    (hending : socket.ending = .silent) (hblocking : socket.blocking = false)
    (hhealthy : Healthy socket) : Collecting limits (onIncoming limits slot socket) :=
  ⟨rfl, rfl, rfl, rfl, rfl, hending, hblocking, rfl, hhealthy, rfl, rfl, rfl⟩

/-- In whatever packets a request arrives that fits the header buffer, on a socket
that works and stays open, the loop gets to answering it, with the request as it
was written (of which the first 64 headers count, and of these what is in front of
the first colon of the value) and everything behind the head still to be read. -/
theorem request_served (config : Config σ) (slot : Connection σ) {socket : Socket}
    (hending : socket.ending = .silent) (hblocking : socket.blocking = false)
    (hhealthy : Healthy socket) {r : Head} {length : ℕ} (hlength : r.Announces length)
    (hlt : length < 2 ^ 31)
    (hencoding : ∀ header ∈ r.stored, sameText (ascii "transfer-encoding") header.1 = false)
    (hroom : r.text.length ≤ config.limits.requestBufferSize) {rest : List UInt8}
    (hstream : socket.coming = r.text ++ rest) :
    ∃ n c1 rounds c2, n ≤ socket.arrivals.length ∧
      updates config 1 n (onIncoming config.limits slot socket) = some c1 ∧
      (∀ fuel, wbUpdateClient config (fuel + rounds) c1 = updateLoop config fuel c2) ∧
      c2.state = .serve ∧ c2.request = r.written length ∧ unread c2 = rest ∧
      c2.user = slot.user ∧
      c2.socket.sent = socket.sent ++ if expects c2 then continueHeader else [] := by
  have hpos : 0 < r.text.length := by simp [Head.text, crlf]
  rcases collecting_served (onIncoming_collecting config.limits slot hending hblocking hhealthy)
    hencoding hroom hstream hpos (show 0 < 1 by omega) with
    ⟨n, c1, rounds, c2, hle, hrun, -, hloop, haccepted, huser, hsent⟩
  refine ⟨n, c1, rounds, c2, hle, hrun, hloop, haccepted.state, ?_, haccepted.unread_eq, huser,
    hsent⟩
  rw [haccepted.request, Head.request_eq hlength hlt]

/-- A server whose callbacks do nothing. -/
def idleServer : Config Unit :=
  ⟨⟨2048, 8192⟩, true, fun c => some (true, c), none, some, fun c _ => some (true, c)⟩

/-- A request and its body, a byte at a time. -/
def dripping : Socket :=
  ⟨(postTwo.text ++ [104, 105]).flatMap fun b => [none, some b], .silent, false, [], [], []⟩

theorem request_served_dripping :
    ∃ n c1 rounds c2, n ≤ dripping.arrivals.length ∧
      updates idleServer 1 n (onIncoming idleServer.limits (blankSlot ()) dripping) = some c1 ∧
      (∀ fuel, wbUpdateClient idleServer (fuel + rounds) c1 = updateLoop idleServer fuel c2) ∧
      c2.state = .serve ∧ c2.request = postTwo.written 2 ∧ unread c2 = [104, 105] ∧
      c2.user = () ∧
      c2.socket.sent = dripping.sent ++ if expects c2 then continueHeader else [] :=
  request_served idleServer (blankSlot ()) rfl rfl ⟨by simp [dripping], by simp [dripping]⟩
    postTwo_announces (by decide) (by decide +kernel) (by decide +kernel) (by decide +kernel)

end Yardstick.WebbyServing
