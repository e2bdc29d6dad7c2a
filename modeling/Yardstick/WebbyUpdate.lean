import Yardstick.WebbyHandshake
import Yardstick.WebbyRequest

/-!
# WebbyUpdate — one connection within WebbyServerUpdate

`wb_update_client` goes round a loop over the states of a connection until there
is nothing more to read or the connection is no longer alive: a request is
collected, a `100 Continue` sent if the client wants one, the request answered,
and frames taken in once the connection is a WebSocket. The callbacks of the
server are functions on the connection; `none` stands for a call that never
returns, here as in the functions that wait.

* `updateLoop_never`: a loop whose rounds all go on or do not return is never
  left;
* `updates_all`: updates whose rounds wait for arrivals or deal with what came
  deal with all of it.
-/

namespace Yardstick.WebbyUpdate

open SocketFrames WebbyConnection WebbyFrames WebbyOutput WebbyResponses WebbyHandshake WebbyRequest

variable {σ : Type*}

/-! ## The server -/

/-- The part of `WebbyServerConfig` that `wb_update_client` reads. The callbacks
answer `true` where theirs return 0. -/
structure Config (σ : Type*) where
  limits : Limits
  websockets : Bool
  dispatch : Connection σ → Option (Bool × Connection σ)
  wsConnect : Option (Connection σ → Option (Bool × Connection σ))
  wsConnected : Connection σ → Option (Connection σ)
  wsFrame : Connection σ → WsFrame → Option (Bool × Connection σ)

/-- What a round of the loop ends with: `break` or `return`. -/
inductive Next (σ : Type*) where
  | again (c : Connection σ)
  | stop (c : Connection σ)

def dead (c : Connection σ) : Connection σ := { c with alive := false }

/-! ## The states -/

def continueHeader : Text := ascii "HTTP/1.1 100 Continue" ++ crlf ++ crlf

/-- `WBC_REQUEST`. What `wb_setup_request` leaves in the request when it fails is
not read again. -/
def collect (c : Connection σ) : Option (Next σ) :=
  (wbFillBuffer c.headerBuf c.socket).map fun r =>
    let c := { c with headerBuf := r.2.1, socket := r.2.2 }
    if r.1 = .error then .stop (dead c)
    else
      match wbPeekRequestSize c.headerBuf.data with
      | none => .stop (if c.headerBuf.max = c.headerBuf.data.length then dead c else c)
      | some requestSize =>
        match wbSetupRequest c requestSize with
        | none => .stop (dead c)
        | some c =>
          let c := { c with headerBodyLeft := c.headerBuf.data.length - requestSize }
          match webbyFindHeader c (ascii "Expect") with
          | some hdr =>
            if sameText hdr (ascii "100-continue") then
              .again { c with continueDataLeft := continueHeader.length, state := .sendContinue }
            else .again { c with state := .serve }
          | none => .again { c with state := .serve }

/-- One `send`: how many bytes it takes. -/
def send (s : Socket) (data : List UInt8) : Option ℕ × Socket :=
  match s.sendResults with
  | [] => (some data.length, { s with sent := s.sent ++ data })
  | none :: results => (none, { s with sendResults := results })
  | some n :: results =>
    (some (min n data.length), { s with sendResults := results, sent := s.sent ++ data.take n })

/-- `WBC_SEND_CONTINUE`. -/
def sendContinue (c : Connection σ) : Next σ :=
  let r := send c.socket (continueHeader.drop (continueHeader.length - c.continueDataLeft))
  let c := { c with socket := r.2 }
  match r.1 with
  | none => .stop (dead c)
  | some written =>
    let c := { c with continueDataLeft := c.continueDataLeft - written }
    .again (if c.continueDataLeft = 0 then { c with state := .serve } else c)

def plainTextHeaders : List (Text × Text) := [(ascii "Content-Type", ascii "text/plain")]

/-- A response of one text, whose results are not looked at. -/
def refuse (c : Connection σ) (statusCode : ℕ) (text : Connection σ → Text) :
    Option (Connection σ) :=
  (webbyBeginResponse c statusCode none plainTextHeaders).bind fun r =>
    (webbyPrintf r.2 (text r.2)).map fun p => webbyEndResponse p.2

/-- What the request is answered with. -/
def answer (config : Config σ) (c : Connection σ) : Option (Connection σ) :=
  if isWebsocketRequest c then
    (match config.wsConnect with
    | none => some (false, c)
    | some connect => connect c).bind fun r =>
      if r.1 = false then
        refuse r.2 400 fun c => ascii "WebSockets not supported at " ++ c.request.uri ++ crlf
      else
        (sendWebsocketUpgrade config.websockets r.2).bind fun u =>
          if u.1 = false then
            refuse u.2 400 fun _ => ascii "WebSockets couldn't not be enabled" ++ crlf
          else config.wsConnected { u.2 with websocket := true }
  else
    (config.dispatch c).bind fun r =>
      if r.1 = false then
        refuse r.2 404 fun c => ascii "No handler for " ++ c.request.uri ++ crlf
      else some r.2

/-- `WBC_SERVE`. A connection that is not alive keeps this state. -/
def serve (config : Config σ) (c : Connection σ) : Option (Next σ) :=
  let b := makeConnectionBlocking { c with ioBuf := { c.ioBuf with data := [] } }
  if b.1 = false then some (.stop b.2)
  else
    (answer config b.2).map fun c =>
      let c := (makeConnectionNonblocking c).2
      if c.alive then
        if c.closeAfterResponse then .stop (dead c)
        else
          let c := resetConnection config.limits c
          .again { c with state := if c.websocket then .websocket else .request }
      else .again c

/-- What is done with a frame; `false` leaves the loop. -/
def handleFrame (config : Config σ) (frame : WsFrame) (c : Connection σ) :
    Option (Bool × Connection σ) :=
  if frame.opcode = WEBBY_WS_OP_CLOSE then some (false, dead c)
  else if frame.opcode = WEBBY_WS_OP_PING then
    let r := sendFully c.socket websocketPong
    some (r.1, { c with socket := r.2, alive := c.alive && r.1 })
  else (config.wsFrame c frame).map fun r => (r.1, if r.1 then r.2 else dead r.2)

/-- The data the callback did not read is discarded. -/
def discardRest (c : Connection σ) : Option (Bool × Connection σ) :=
  if (c.bodyBytesRead : ℤ) < c.wsFrame.payloadLength.toInt then
    (discardIncomingData c (c.wsFrame.payloadLength.toInt - c.bodyBytesRead).toNat).map fun r =>
      (r.1, if r.1 then r.2 else dead r.2)
  else some (true, c)

/-- `WBC_WEBSOCKET`. -/
def takeFrame (config : Config σ) (c : Connection σ) : Option (Next σ) :=
  (wbFillBuffer c.ioBuf c.socket).bind fun r =>
    let c := { c with ioBuf := r.2.1, socket := r.2.2 }
    if r.1 = .error then some (.stop (dead c))
    else
      match scanWebsocketFrame c.ioBuf c.wsFrame with
      | none => some (.stop c)
      | some frame =>
        let b := makeConnectionBlocking { c with
          wsFrame := frame
          bodyBytesRead := 0
          ioDataLeft := c.ioBuf.data.length - frame.headerSize }
        if b.1 = false then some (.stop b.2)
        else
          (handleFrame config frame b.2).bind fun h =>
            if h.1 = false then some (.stop h.2)
            else
              (discardRest h.2).map fun d =>
                if d.1 = false then .stop d.2
                else
                  let n := makeConnectionNonblocking d.2
                  if n.1 = false then .stop n.2
                  else .again { resetConnection config.limits n.2 with state := .websocket }

/-! ## The loop -/

def loopRound (config : Config σ) (c : Connection σ) : Option (Next σ) :=
  match c.state with
  | .request => collect c
  | .sendContinue => some (sendContinue c)
  | .serve => serve config c
  | .websocket => takeFrame config c

/-- The loop, for at most `fuel` rounds. -/
def updateLoop (config : Config σ) : ℕ → Connection σ → Option (Connection σ)
  | 0, _ => none
  | fuel + 1, c =>
    (loopRound config c).bind fun next =>
      match next with
      | .again c => updateLoop config fuel c
      | .stop c => some c

def wbUpdateClient (config : Config σ) (fuel : ℕ) (c : Connection σ) : Option (Connection σ) :=
  updateLoop config fuel { c with fresh := false }

/-- Updates of the server, each of which finds the connection ready. -/
def updates (config : Config σ) (fuel : ℕ) : ℕ → Connection σ → Option (Connection σ)
  | 0, c => some c
  | n + 1, c => (wbUpdateClient config fuel c).bind (updates config fuel n)

theorem updateLoop_again {config : Config σ} {c c' : Connection σ}
    (h : loopRound config c = some (.again c')) (fuel : ℕ) :
    updateLoop config (fuel + 1) c = updateLoop config fuel c' := by
  rw [updateLoop, h, Option.bind_some]

theorem updateLoop_stop {config : Config σ} {c c' : Connection σ}
    (h : loopRound config c = some (.stop c')) (fuel : ℕ) :
    updateLoop config (fuel + 1) c = some c' := by
  rw [updateLoop, h, Option.bind_some]

theorem wbUpdateClient_stop {config : Config σ} {c c' : Connection σ}
    (h : loopRound config { c with fresh := false } = some (.stop c')) {fuel : ℕ} (hfuel : 0 < fuel) :
    wbUpdateClient config fuel c = some c' := by
  rw [wbUpdateClient, ← Nat.sub_add_cancel hfuel]
  exact updateLoop_stop h _

/-- The loop is never left where each round goes on or does not return. -/
theorem updateLoop_never {config : Config σ} {P : Connection σ → Prop}
    (hstep : ∀ c, P c → loopRound config c = none ∨ ∃ c', loopRound config c = some (.again c') ∧ P c')
    {c : Connection σ} (h : P c) (fuel : ℕ) : updateLoop config fuel c = none := by
  induction fuel generalizing c with
  | zero => rfl
  | succ fuel ih =>
    rcases hstep c h with hround | ⟨c', hround, hnext⟩
    · rw [updateLoop, hround, Option.bind_none]
    · rw [updateLoop_again hround]
      exact ih hnext

/-! ## Runs of updates -/

section Runs

variable {α : Type*} {config : Config σ} {P : List α → Connection σ → Prop}

/-- One `wb_update_client`, if a round waits or some rounds deal with the first of
the items that are still to come. -/
theorem updateLoop_all
    (hstep : ∀ items c, P items c →
      (∃ c', loopRound config c = some (.stop c') ∧ P items c' ∧
        (items = [] ∨ c'.socket.arrivals.length < c.socket.arrivals.length)) ∨
      ∃ item rest c' rounds, items = item :: rest ∧
        (∀ fuel, updateLoop config (fuel + rounds) c = updateLoop config fuel c') ∧ P rest c' ∧
        c'.socket.arrivals.length ≤ c.socket.arrivals.length)
    {items : List α} {c : Connection σ} (h : P items c) :
    ∃ enough items' c', (∀ fuel, enough ≤ fuel → updateLoop config fuel c = some c') ∧
      P items' c' ∧ items'.length ≤ items.length ∧
      (items' = [] ∨ c'.socket.arrivals.length < c.socket.arrivals.length) := by
  induction items generalizing c with
  | nil =>
    rcases hstep [] c h with ⟨c', hround, hnext, hless⟩ | ⟨item, rest, c', rounds, heq, -⟩
    · -- a round that waits ends the loop
      refine ⟨1, [], c', fun fuel hfuel => ?_, hnext, Nat.le_refl _, hless⟩
      rw [← Nat.sub_add_cancel hfuel]
      exact updateLoop_stop hround _
    · cases heq
  | cons item items ih =>
    rcases hstep _ c h with ⟨c', hround, hnext, hless⟩ | ⟨item', rest, c', rounds, heq, hrounds,
      hnext, hle⟩
    · refine ⟨1, item :: items, c', fun fuel hfuel => ?_, hnext, Nat.le_refl _, hless⟩
      rw [← Nat.sub_add_cancel hfuel]
      exact updateLoop_stop hround _
    · -- rounds that deal with an item, and then the others
      obtain ⟨rfl, rfl⟩ := List.cons.inj heq
      rcases ih hnext with ⟨enough, items', c'', hloop, hdone, hlen, hless⟩
      refine ⟨enough + rounds, items', c'', fun fuel hfuel => ?_, hdone, Nat.le_succ_of_le hlen,
        hless.imp id fun hlt => Nat.lt_of_lt_of_le hlt hle⟩
      have hsplit : fuel = fuel - rounds + rounds := by omega
      rw [hsplit, hrounds, hloop _ (by omega)]

/-- Updates deal with all items, at the latest when there have been as many as
there are arrivals. -/
theorem updates_all
    (hstep : ∀ items c, P items c →
      (∃ c', loopRound config c = some (.stop c') ∧ P items c' ∧
        (items = [] ∨ c'.socket.arrivals.length < c.socket.arrivals.length)) ∨
      ∃ item rest c' rounds, items = item :: rest ∧
        (∀ fuel, updateLoop config (fuel + rounds) c = updateLoop config fuel c') ∧ P rest c' ∧
        c'.socket.arrivals.length ≤ c.socket.arrivals.length)
    (hfresh : ∀ items c, P items c → P items { c with fresh := false })
    (hnone : ∀ items c, P items c → c.socket.arrivals = [] → items = [])
    {items : List α} {c : Connection σ} (h : P items c) {n : ℕ}
    (hn : items = [] ∨ c.socket.arrivals.length ≤ n) :
    ∃ enough c', (∀ fuel, enough ≤ fuel → updates config fuel n c = some c') ∧ P [] c' := by
  induction n generalizing c items with
  | zero =>
    -- no arrivals, no items
    have hnil : items = [] := by
      rcases hn with hnil | hle
      · exact hnil
      · exact hnone items c h (List.length_eq_zero_iff.mp (Nat.le_zero.mp hle))
    subst hnil
    exact ⟨0, c, fun fuel _ => rfl, h⟩
  | succ n ih =>
    rcases updateLoop_all hstep (hfresh items c h) with
      ⟨enough, items', c', hloop, hnext, hlen, hless⟩
    -- an update that leaves items has used up an arrival
    have hready : items' = [] ∨ c'.socket.arrivals.length ≤ n := by
      rcases hn with rfl | hle
      · exact Or.inl (List.length_eq_zero_iff.mp (Nat.le_zero.mp hlen))
      · refine hless.imp id fun hlt => ?_
        have : c'.socket.arrivals.length < c.socket.arrivals.length := hlt
        omega
    rcases ih hnext hready with ⟨enough', c'', hrun, hdone⟩
    refine ⟨max enough enough', c'', fun fuel hfuel => ?_, hdone⟩
    rw [updates, wbUpdateClient, hloop fuel (le_trans (Nat.le_max_left _ _) hfuel),
      Option.bind_some, hrun fuel (le_trans (Nat.le_max_right _ _) hfuel)]

end Runs

end Yardstick.WebbyUpdate
