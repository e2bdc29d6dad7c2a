import Yardstick.Base.Runs
import Yardstick.SinkServer
import Yardstick.WebbyMessages

/-!
# WebbyBlocking — when the socket of a connection waits

The sockets of the server do not wait, except while a request or a frame is
served or a message is sent. `blocking_count` counts who wants one to wait; the
first and the last of them change its mode, which may fail.

* `step_quiet`: whatever fails on the way, a connection that is alive is left as
  it was found, with a socket that does not wait;
* `alive_nonblocking`: so in every run of updates and messages `wb_fill_buffer`
  returns at once.
-/

namespace Yardstick.WebbyBlocking

open WebbyConnection WebbyFrames WebbyOutput WebbyResponses WebbyHandshake WebbyRequest
open WebbyUpdate WebbyMessages SinkServer

variable {σ : Type*}

/-! ## What leaves the mode alone -/

/-- A call that leaves the mode of the socket as it was, and revives no
connection. -/
structure Steady (c d : Connection σ) : Prop where
  blocking : d.socket.blocking = c.socket.blocking
  count : d.blockingCount = c.blockingCount
  alive : d.alive = true → c.alive = true

theorem Steady.refl (c : Connection σ) : Steady c c := ⟨rfl, rfl, id⟩

theorem Steady.trans {c d e : Connection σ} (h : Steady c d) (h' : Steady d e) : Steady c e :=
  ⟨h'.blocking.trans h.blocking, h'.count.trans h.count, fun halive => h.alive (h'.alive halive)⟩

theorem steady_dead (c : Connection σ) : Steady c (dead c) := ⟨rfl, rfl, nofun⟩

theorem Steady.of_pushed {c d : Connection σ} (h : Pushed c d) : Steady c d := by
  rcases h with ⟨results, sent, data, rfl⟩
  exact ⟨rfl, rfl, id⟩

/-- A read may give the connection up, but leaves the mode of its socket. -/
theorem webbyRead_steady {c d : Connection σ} {len : ℕ} {r : Option (List UInt8)}
    (h : webbyRead c len = some (r, d)) : Steady c d := by
  unfold webbyRead at h
  rcases Option.map_eq_some_iff.mp h with ⟨out, -, hout⟩
  dsimp only at hout
  split at hout
  · cases hout
    exact ⟨rfl, rfl, id⟩
  · cases hout
    exact ⟨rfl, rfl, nofun⟩

/-- What is discarded is read, and no read changes the mode of the socket. -/
theorem discardIncomingData_steady {c d : Connection σ} {count : ℕ} {ok : Bool}
    (h : discardIncomingData c count = some (ok, d)) : Steady c d := by
  induction hn : count using Nat.strongRecOn generalizing c count with
  | ind n ih =>
    subst hn
    rw [discardIncomingData] at h
    split at h
    · cases h
      exact Steady.refl _
    · rename_i hpos
      rcases Option.bind_eq_some_iff.mp h with ⟨⟨bytes, e⟩, hread, hrest⟩
      have hsteady := webbyRead_steady hread
      cases bytes with
      | none =>
        cases hrest
        exact hsteady
      | some bytes => exact hsteady.trans (ih _ (by omega) hrest rfl)

/-- Neither does a write, on a WebSocket or not. -/
theorem webbyWrite_steady (c : Connection σ) (data : List UInt8) :
    Steady c (webbyWrite c data).2 := by
  cases hwebsocket : c.websocket with
  | false => exact Steady.of_pushed (webbyWrite_pushed hwebsocket data)
  | true =>
    unfold webbyWrite
    dsimp only
    rw [if_pos hwebsocket]
    split
    · exact ⟨rfl, rfl, nofun⟩
    · split
      · exact ⟨rfl, rfl, nofun⟩
      · exact ⟨rfl, rfl, id⟩

/-- A formatted write leaves the mode of the socket. -/
theorem webbyPrintf_steady {c d : Connection σ} {text : Text} {ok : Bool}
    (h : webbyPrintf c text = some (ok, d)) : Steady c d := by
  unfold webbyPrintf at h
  split at h
  · have hwrite := webbyWrite_steady c text
    rw [Option.some.inj h] at hwrite
    exact hwrite
  · split at h
    · have hwrite := webbyWrite_steady c (text.take 1023 ++ [0])
      rw [Option.some.inj h] at hwrite
      exact hwrite
    · cases h

/-- So do several of them. -/
theorem printAll_steady {c d : Connection σ} {texts : List Text} (h : printAll c texts = some d) :
    Steady c d := by
  induction texts generalizing c with
  | nil =>
    cases h
    exact Steady.refl _
  | cons text texts ih =>
    rcases Option.bind_eq_some_iff.mp h with ⟨⟨ok, e⟩, hprint, hrest⟩
    exact (webbyPrintf_steady hprint).trans (ih hrest)

/-- Nor the beginning of a response: it discards and writes. -/
theorem webbyBeginResponse_steady {c d : Connection σ} {statusCode : ℕ} {contentLength : Option ℕ}
    {headers : List (Text × Text)} {ok : Bool}
    (h : webbyBeginResponse c statusCode contentLength headers = some (ok, d)) : Steady c d := by
  unfold webbyBeginResponse at h
  rcases Option.bind_eq_some_iff.mp h with ⟨⟨read, e⟩, hdiscard, hrest⟩
  have hsteady : Steady c e := by
    split at hdiscard
    · exact discardIncomingData_steady hdiscard
    · cases hdiscard
      exact Steady.refl _
  dsimp only at hrest
  split at hrest
  · cases hrest
    exact hsteady.trans (steady_dead e)
  · rcases Option.map_eq_some_iff.mp hrest with ⟨f, hprint, hf⟩
    cases hf
    have hlines := printAll_steady hprint
    exact hsteady.trans ⟨hlines.blocking, hlines.count, hlines.alive⟩

theorem webbyEndResponse_steady (c : Connection σ) : Steady c (webbyEndResponse c) := by
  have hend := Steady.of_pushed (webbyEndResponse_pushed c)
  exact ⟨hend.blocking, hend.count, hend.alive⟩

theorem refuse_steady {c d : Connection σ} {statusCode : ℕ} {text : Connection σ → Text}
    (h : refuse c statusCode text = some d) : Steady c d := by
  rcases Option.bind_eq_some_iff.mp h with ⟨⟨ok, e⟩, hbegin, hrest⟩
  rcases Option.map_eq_some_iff.mp hrest with ⟨⟨ok', f⟩, hprint, rfl⟩
  exact ((webbyBeginResponse_steady hbegin).trans (webbyPrintf_steady hprint)).trans
    (webbyEndResponse_steady f)

/-- The upgrade is a response. -/
theorem sendWebsocketUpgrade_steady {enabled : Bool} {c d : Connection σ} {ok : Bool}
    (h : sendWebsocketUpgrade enabled c = some (ok, d)) : Steady c d := by
  have hsame : ∀ {b : Bool}, some (b, c) = some (ok, d) → Steady c d := by
    intro b hb
    cases hb
    exact Steady.refl _
  unfold sendWebsocketUpgrade at h
  split at h
  · exact hsame h
  · split at h
    · exact hsame h
    · split at h
      · exact hsame h
      · split at h
        · exact hsame h
        · split at h
          · exact hsame h
          · rcases Option.map_eq_some_iff.mp h with ⟨⟨ok', e⟩, hbegin, he⟩
            cases he
            exact (webbyBeginResponse_steady hbegin).trans (webbyEndResponse_steady e)

/-! ## The callbacks -/

/-- The callbacks of a server leave the mode of the socket as they find it. -/
structure Balanced (config : Config σ) : Prop where
  dispatch : ∀ c ok d, config.dispatch c = some (ok, d) → Steady c d
  wsConnect : ∀ connect ∈ config.wsConnect, ∀ c ok d, connect c = some (ok, d) → Steady c d
  wsConnected : ∀ c d, config.wsConnected c = some d → Steady c d
  wsFrame : ∀ c frame ok d, config.wsFrame c frame = some (ok, d) → Steady c d

/-- The sink keeps to that, if what it does with a new session does. -/
theorem listenConfig_balanced {webbyConnected : Connection σ → Option (Connection σ)}
    (h : ∀ c d, webbyConnected c = some d → Steady c d) :
    Balanced (listenConfig webbyConnected) where
  dispatch := by
    intro c ok d hdispatch
    cases hdispatch
    exact Steady.refl _
  wsConnect := by
    intro connect hconnect c ok d hd
    cases hconnect
    cases hd
    exact Steady.refl _
  wsConnected := h
  wsFrame := by
    intro c frame ok d hframe
    rcases Option.map_eq_some_iff.mp hframe with ⟨⟨bytes, e⟩, hread, hout⟩
    cases hout
    exact webbyRead_steady hread

/-- What is answered to a request leaves the mode alone if the callbacks do. -/
theorem answer_steady {config : Config σ} (hconfig : Balanced config) {c d : Connection σ}
    (h : answer config c = some d) : Steady c d := by
  unfold answer at h
  split at h
  · -- a request to upgrade: `ws_connect` first, if there is one
    rcases Option.bind_eq_some_iff.mp h with ⟨⟨ok, e⟩, hconnect, hrest⟩
    have hsteady : Steady c e := by
      cases hws : config.wsConnect with
      | none =>
        rw [hws] at hconnect
        cases hconnect
        exact Steady.refl _
      | some connect =>
        rw [hws] at hconnect
        exact hconfig.wsConnect connect hws c ok e hconnect
    dsimp only at hrest
    split at hrest
    · -- it is refused
      exact hsteady.trans (refuse_steady hrest)
    · rcases Option.bind_eq_some_iff.mp hrest with ⟨⟨ok', f⟩, hupgrade, hrest'⟩
      have hsteady' := hsteady.trans (sendWebsocketUpgrade_steady hupgrade)
      dsimp only at hrest'
      split at hrest'
      · -- the upgrade failed
        exact hsteady'.trans (refuse_steady hrest')
      · have hconnected := hconfig.wsConnected _ _ hrest'
        exact hsteady'.trans ⟨hconnected.blocking, hconnected.count, hconnected.alive⟩
  · -- any other request
    rcases Option.bind_eq_some_iff.mp h with ⟨⟨ok, e⟩, hdispatch, hrest⟩
    have hsteady := hconfig.dispatch c ok e hdispatch
    dsimp only at hrest
    split at hrest
    · exact hsteady.trans (refuse_steady hrest)
    · cases hrest
      exact hsteady

/-! ## The rounds of the loop -/

/-- If it is alive, its socket does not wait. -/
def Quiet (c : Connection σ) : Prop :=
  c.alive = true → c.socket.blocking = false ∧ c.blockingCount = 0

/-- If it is alive, its socket waits on behalf of one. -/
def Waiting (c : Connection σ) : Prop :=
  c.alive = true → c.socket.blocking = true ∧ c.blockingCount = 1

theorem quiet_of_dead {c : Connection σ} (h : c.alive = false) : Quiet c := by
  intro halive
  rw [h] at halive
  cases halive

theorem Quiet.steady {c d : Connection σ} (h : Quiet c) (hsteady : Steady c d) : Quiet d := by
  intro halive
  rw [hsteady.blocking, hsteady.count]
  exact h (hsteady.alive halive)

theorem Waiting.steady {c d : Connection σ} (h : Waiting c) (hsteady : Steady c d) :
    Waiting d := by
  intro halive
  rw [hsteady.blocking, hsteady.count]
  exact h (hsteady.alive halive)

theorem wbSetBlocking_cases (s : Socket) (blocking : Bool) :
    ((wbSetBlocking s blocking).1 = true → (wbSetBlocking s blocking).2.blocking = blocking) := by
  unfold wbSetBlocking
  split
  · exact fun _ => rfl
  · exact fun _ => rfl
  · exact nofun

/-- A connection that is alive behind the switch has the new mode and the new
count; one for which the switch failed is not alive. -/
theorem switchMode_settles {c : Connection σ} {edge : ℤ}
    (h : c.alive = true → c.blockingCount = edge) (blocking : Bool) (count : ℤ) :
    let r := switchMode c blocking edge count
    (r.2.alive = true → r.2.socket.blocking = blocking ∧ r.2.blockingCount = count ∧
      c.blockingCount = edge) ∧
    (r.1 = false → r.2.alive = false) := by
  have hmode := wbSetBlocking_cases c.socket blocking
  unfold switchMode
  split
  · rename_i hcount
    dsimp only
    split
    · rename_i hok
      exact ⟨fun _ => ⟨hmode hok, rfl, hcount⟩, nofun⟩
    · exact ⟨nofun, fun _ => rfl⟩
  · rename_i hcount
    exact ⟨fun halive => absurd (h halive) hcount, nofun⟩

/-- Only a connection that is not alive is left without its socket waiting. -/
theorem makeConnectionBlocking_waiting {c : Connection σ} (h : Quiet c) :
    Waiting (makeConnectionBlocking c).2 ∧
      ((makeConnectionBlocking c).1 = false → (makeConnectionBlocking c).2.alive = false) := by
  obtain ⟨hwaits, hfailed⟩ :=
    switchMode_settles (fun halive => (h halive).2) true (c.blockingCount + 1)
  refine ⟨fun halive => ?_, hfailed⟩
  obtain ⟨hmode, hnext, hcount⟩ := hwaits halive
  exact ⟨hmode, hnext.trans (by rw [hcount, Int.zero_add])⟩

/-- Taking it back leaves no connection alive whose socket waits. -/
theorem makeConnectionNonblocking_quiet {c : Connection σ} (h : Waiting c) :
    Quiet (makeConnectionNonblocking c).2 ∧
      ((makeConnectionNonblocking c).1 = false →
        (makeConnectionNonblocking c).2.alive = false) := by
  obtain ⟨hquiet, hfailed⟩ :=
    switchMode_settles (fun halive => (h halive).2) false (c.blockingCount - 1)
  refine ⟨fun halive => ?_, hfailed⟩
  obtain ⟨hmode, hnext, hcount⟩ := hquiet halive
  exact ⟨hmode, hnext.trans (by rw [hcount, Int.sub_self])⟩

/-- The connection a round leaves. -/
def left : Next σ → Connection σ
  | .again c => c
  | .stop c => c

theorem wbFillBuffer_blocking {buf buf' : Buffer} {s s' : Socket} {fill : Fill}
    (h : wbFillBuffer buf s = some (fill, buf', s')) : s'.blocking = s.blocking := by
  unfold wbFillBuffer at h
  rcases Option.map_eq_some_iff.mp h with ⟨out, -, hout⟩
  cases hout
  rfl

/-- Collecting a request reads and parses. -/
theorem collect_steady {c : Connection σ} {next : Next σ} (h : collect c = some next) :
    Steady c (left next) := by
  unfold collect at h
  rcases Option.map_eq_some_iff.mp h with ⟨⟨fill, buf, socket⟩, hfill, hnext⟩
  have hmode := wbFillBuffer_blocking hfill
  dsimp only at hnext
  split at hnext
  · -- the socket failed
    rw [← hnext]
    exact ⟨hmode, rfl, nofun⟩
  · split at hnext
    · -- the head is not whole: the buffer is full, or there is more to come
      rw [← hnext]
      dsimp only [left]
      split
      · exact ⟨hmode, rfl, nofun⟩
      · exact ⟨hmode, rfl, id⟩
    · split at hnext
      · -- the head is wrong
        rw [← hnext]
        exact ⟨hmode, rfl, nofun⟩
      · rename_i hsetup
        unfold wbSetupRequest at hsetup
        rcases Option.map_eq_some_iff.mp hsetup with ⟨request, -, hrequest⟩
        rw [← hrequest] at hnext
        rw [← hnext]
        split
        · split
          · exact ⟨hmode, rfl, id⟩
          · exact ⟨hmode, rfl, id⟩
        · exact ⟨hmode, rfl, id⟩

/-- Sending the `100 Continue` only sends. -/
theorem sendContinue_steady (c : Connection σ) : Steady c (left (sendContinue c)) := by
  have hmode : (send c.socket (continueHeader.drop
      (continueHeader.length - c.continueDataLeft))).2.blocking = c.socket.blocking := by
    unfold send
    split <;> rfl
  unfold sendContinue
  dsimp only
  split
  · exact ⟨hmode, rfl, nofun⟩
  · dsimp only [left]
    split
    · exact ⟨hmode, rfl, id⟩
    · exact ⟨hmode, rfl, id⟩

/-- Serving a request makes the socket wait and takes that back, or gives the
connection up. -/
theorem serve_quiet {config : Config σ} (hconfig : Balanced config) {c : Connection σ}
    (h : Quiet c) {next : Next σ} (hserve : serve config c = some next) : Quiet (left next) := by
  have hcleared : Quiet { c with ioBuf := { c.ioBuf with data := [] } } := h
  obtain ⟨hwaiting, hfailed⟩ := makeConnectionBlocking_waiting hcleared
  unfold serve at hserve
  dsimp only at hserve
  split at hserve
  · rename_i hno
    cases hserve
    exact quiet_of_dead (hfailed hno)
  · rcases Option.map_eq_some_iff.mp hserve with ⟨d, hanswer, hnext⟩
    have hquiet := (makeConnectionNonblocking_quiet
      (hwaiting.steady (answer_steady hconfig hanswer))).1
    split at hnext
    · rename_i halive
      split at hnext
      · rw [← hnext]
        exact quiet_of_dead rfl
      · rw [← hnext]
        exact fun _ => ⟨(hquiet halive).1, rfl⟩
    · rw [← hnext]
      exact hquiet

/-- A frame that is not handled to the end leaves a connection that is not alive. -/
theorem handleFrame_steady {config : Config σ} (hconfig : Balanced config) {frame : WsFrame}
    {c d : Connection σ} {ok : Bool} (h : handleFrame config frame c = some (ok, d)) :
    Steady c d ∧ (ok = false → d.alive = false) := by
  unfold handleFrame at h
  split at h
  · cases h
    exact ⟨steady_dead c, fun _ => rfl⟩
  · split at h
    · cases h
      refine ⟨⟨rfl, rfl, fun halive => (Bool.and_eq_true _ _ ▸ halive).1⟩, fun hok => ?_⟩
      dsimp only
      rw [hok, Bool.and_false]
    · rcases Option.map_eq_some_iff.mp h with ⟨⟨ok', e⟩, hframe, hout⟩
      have hsteady := hconfig.wsFrame c frame ok' e hframe
      cases ok' with
      | true =>
        cases hout
        exact ⟨hsteady, nofun⟩
      | false =>
        cases hout
        exact ⟨hsteady.trans (steady_dead e), fun _ => rfl⟩

/-- If the rest of a frame cannot be discarded, the connection is given up. -/
theorem discardRest_steady {c d : Connection σ} {ok : Bool} (h : discardRest c = some (ok, d)) :
    Steady c d ∧ (ok = false → d.alive = false) := by
  unfold discardRest at h
  split at h
  · rcases Option.map_eq_some_iff.mp h with ⟨⟨ok', e⟩, hdiscard, hout⟩
    have hsteady := discardIncomingData_steady hdiscard
    cases ok' with
    | true =>
      cases hout
      exact ⟨hsteady, nofun⟩
    | false =>
      cases hout
      exact ⟨hsteady.trans (steady_dead e), fun _ => rfl⟩
  · cases h
    exact ⟨Steady.refl _, nofun⟩

/-- So does taking in a frame: each way out in between gives the connection up. -/
theorem takeFrame_quiet {config : Config σ} (hconfig : Balanced config) {c : Connection σ}
    (h : Quiet c) {next : Next σ} (htake : takeFrame config c = some next) :
    Quiet (left next) := by
  unfold takeFrame at htake
  rcases Option.bind_eq_some_iff.mp htake with ⟨⟨fill, buf, socket⟩, hfill, hrest⟩
  have hmode := wbFillBuffer_blocking hfill
  have hfilled : Quiet { c with ioBuf := buf, socket := socket } := by
    intro halive
    rw [hmode]
    exact h halive
  dsimp only at hrest
  split at hrest
  · cases hrest
    exact quiet_of_dead rfl
  · split at hrest
    · cases hrest
      exact hfilled
    · rename_i frame hscan
      have hscanned : Quiet { c with
          ioBuf := buf
          socket := socket
          wsFrame := frame
          bodyBytesRead := 0
          ioDataLeft := buf.data.length - frame.headerSize } := hfilled
      obtain ⟨hwaiting, hfailed⟩ := makeConnectionBlocking_waiting hscanned
      split at hrest
      · rename_i hno
        cases hrest
        exact quiet_of_dead (hfailed hno)
      · -- the callback, then what it left
        rcases Option.bind_eq_some_iff.mp hrest with ⟨⟨ok, d⟩, hhandle, hrest'⟩
        obtain ⟨hsteady, hdead⟩ := handleFrame_steady hconfig hhandle
        dsimp only at hrest'
        split at hrest'
        · rename_i hno
          cases hrest'
          exact quiet_of_dead (hdead hno)
        · rcases Option.map_eq_some_iff.mp hrest' with ⟨⟨ok', e⟩, hdiscard, hnext⟩
          obtain ⟨hsteady', hdead'⟩ := discardRest_steady hdiscard
          dsimp only at hnext
          split at hnext
          · rename_i hno
            rw [← hnext]
            exact quiet_of_dead (hdead' hno)
          · obtain ⟨hquiet, hdead''⟩ := makeConnectionNonblocking_quiet
              ((hwaiting.steady hsteady).steady hsteady')
            split at hnext
            · rename_i hno
              rw [← hnext]
              exact quiet_of_dead (hdead'' hno)
            · rw [← hnext]
              exact fun halive => ⟨(hquiet halive).1, rfl⟩

/-- Whatever the state, a round leaves an alive connection non-blocking. -/
theorem loopRound_quiet {config : Config σ} (hconfig : Balanced config) {c : Connection σ}
    (h : Quiet c) {next : Next σ} (hround : loopRound config c = some next) :
    Quiet (left next) := by
  unfold loopRound at hround
  split at hround
  · exact h.steady (collect_steady hround)
  · cases hround
    exact h.steady (sendContinue_steady c)
  · exact serve_quiet hconfig h hround
  · exact takeFrame_quiet hconfig h hround

/-- So does the loop, by induction on its rounds. -/
theorem updateLoop_quiet {config : Config σ} (hconfig : Balanced config) {fuel : ℕ}
    {c d : Connection σ} (h : Quiet c) (hloop : updateLoop config fuel c = some d) : Quiet d := by
  induction fuel generalizing c with
  | zero => cases hloop
  | succ fuel ih =>
    rcases Option.bind_eq_some_iff.mp hloop with ⟨next, hround, hrest⟩
    have hleft := loopRound_quiet hconfig h hround
    cases next with
    | again e => exact ih hleft hrest
    | stop e =>
      cases hrest
      exact hleft

/-! ## Runs -/

/-- What happens to a connection: an update that returns after so many rounds,
or a message that is sent between updates. -/
inductive Act where
  | update (fuel : ℕ)
  | message (opcode : Fin 16) (pieces : List (List UInt8))

def step (config : Config σ) (c : Connection σ) : Act → Option (Connection σ)
  | .update fuel => wbUpdateClient config fuel c
  | .message opcode pieces => some (sendMessage c opcode pieces)

theorem writePieces_steady (c : Connection σ) (pieces : List (List UInt8)) :
    Steady c (pieces.foldl (fun c piece => (webbyWrite c piece).2) c) := by
  induction pieces generalizing c with
  | nil => exact Steady.refl c
  | cons piece pieces ih => exact (webbyWrite_steady c piece).trans (ih _)

/-- A message switches to blocking and back, or gives the connection up. -/
theorem sendMessage_quiet {c : Connection σ} (h : Quiet c) (opcode : Fin 16)
    (pieces : List (List UInt8)) : Quiet (sendMessage c opcode pieces) := by
  have hopcode : Quiet { c with wsOpcode := UInt8.ofNat opcode.val } := h
  have hbegun := (makeConnectionBlocking_waiting hopcode).1
  have hwritten := hbegun.steady (writePieces_steady _ pieces)
  apply (makeConnectionNonblocking_quiet _).1
  intro halive
  exact hwritten (Bool.and_eq_true _ _ ▸ halive).1

theorem step_quiet {config : Config σ} (hconfig : Balanced config) {c d : Connection σ} {a : Act}
    (hstep : step config c a = some d) (h : Quiet c) : Quiet d := by
  cases a with
  | update fuel =>
    have hfresh : Quiet { c with fresh := false } := h
    exact updateLoop_quiet hconfig hfresh hstep
  | message opcode pieces =>
    cases hstep
    exact sendMessage_quiet h opcode pieces

/-- A fill of a buffer returns if the socket does not wait. -/
theorem fillLoop_returns (ending : Ending) (arrivals : List (Option UInt8)) (room : ℕ) :
    ∃ r, fillLoop false ending arrivals room = some r := by
  induction arrivals generalizing room with
  | nil =>
    cases room with
    | zero => exact ⟨_, rfl⟩
    | succ room =>
      cases ending with
      | silent => exact ⟨_, rfl⟩
      | closed => exact ⟨_, rfl⟩
      | failed => exact ⟨_, rfl⟩
  | cons a arrivals ih =>
    cases room with
    | zero => exact ⟨_, rfl⟩
    | succ room =>
      cases a with
      | none => exact ⟨_, rfl⟩
      | some b =>
        rcases ih room with ⟨r, hr⟩
        exact ⟨_, by rw [fillLoop, hr]; rfl⟩

/-- Whatever fails in a run of updates and messages, a connection that is alive
has a socket that does not wait, and filling a buffer from it returns. -/
theorem alive_nonblocking {config : Config σ} (hconfig : Balanced config) (slot : Connection σ)
    {socket : Socket} (hblocking : socket.blocking = false) {acts : List Act} {c : Connection σ}
    (hrun : Runs.run (step config) (onIncoming config.limits slot socket) acts = some c)
    (halive : c.alive = true) :
    c.socket.blocking = false ∧ c.blockingCount = 0 ∧
      ∀ buf, ∃ r, wbFillBuffer buf c.socket = some r := by
  have hinit : Quiet (onIncoming config.limits slot socket) := fun _ => ⟨hblocking, rfl⟩
  have hquiet : Quiet c :=
    Runs.run_invariant (step config) (fun _ _ _ hstep h => step_quiet hconfig hstep h) hinit hrun
  obtain ⟨hmode, hcount⟩ := hquiet halive
  refine ⟨hmode, hcount, fun buf => ?_⟩
  rcases fillLoop_returns c.socket.ending c.socket.arrivals (buf.max - buf.data.length) with
    ⟨r, hr⟩
  exact ⟨_, by rw [wbFillBuffer, hmode, hr]; rfl⟩

/-- A client that sends `GET /` and then nothing. -/
def halfARequest : Socket := ⟨[71, 69, 84, 32, 47].map some, .silent, false, [], [], []⟩

/-- Half a request, a message, and nothing more. -/
theorem alive_nonblocking_half :
    ∃ c, Runs.run (step bareServer) (onIncoming bareServer.limits (blankSlot ()) halfARequest)
        [.update 2, .message 2 [[1]], .update 2] = some c ∧
      c.socket.blocking = false ∧ c.blockingCount = 0 ∧
      ∀ buf, ∃ r, wbFillBuffer buf c.socket = some r := by
  have hbalanced : Balanced bareServer := by
    apply listenConfig_balanced
    intro c d h
    cases h
    exact Steady.refl _
  obtain ⟨c, hrun, halive⟩ : ∃ c, Runs.run (step bareServer)
      (onIncoming bareServer.limits (blankSlot ()) halfARequest)
      [.update 2, .message 2 [[1]], .update 2] = some c ∧ c.alive = true := ⟨_, rfl, rfl⟩
  exact ⟨c, hrun, alive_nonblocking hbalanced (blankSlot ()) rfl hrun halive⟩

end Yardstick.WebbyBlocking
