import Mathlib.Data.List.ReduceOption
import Yardstick.Base.SocketFrames

/-!
# WebbyConnection — one connection of the web server and its socket

What `webby.c` keeps about a connection, the calls it makes on the socket, and
the functions that bring bytes in: `wb_fill_buffer`, which takes what is there
without waiting, and `WebbyRead`, which waits for as many bytes as are asked
for.

The calls a socket answers are fixed ahead of a run: the bytes that will arrive,
the moments at which none is there, how many bytes each `send` will take. A
function that never returns answers `none`.

* `webbyRead_spec`: `WebbyRead` takes the next bytes of what is buffered and
  what arrives, in this order, and takes the mask off;
* `discardIncomingData_spec`: discarding bytes is reading them.
-/

namespace Yardstick.WebbyConnection

open SocketFrames

/-! ## Text -/

/-- A C string, without its terminator. -/
abbrev Text := List UInt8

def ascii (s : String) : Text := s.toList.map fun c => UInt8.ofNat c.toNat

def toLower (b : UInt8) : UInt8 := if 65 ≤ b ∧ b ≤ 90 then b + 32 else b

/-- `0 == strcasecmp(a, b)`. -/
def sameText (a b : Text) : Bool := a.map toLower == b.map toLower

/-! ## The socket -/

/-- What follows the last byte that arrives: nothing, the end of the peer's
stream, or an error. -/
inductive Ending where
  | silent
  | closed
  | failed
  deriving DecidableEq

/-- A socket and what it will answer. `none` among the arrivals is a moment at
which no byte is there. A `send` answers how many bytes it takes, or `none` for
an error; when no answers are left it takes everything. `fcntl` fails where
`modeResults` says `false`. -/
structure Socket where
  arrivals : List (Option UInt8)
  ending : Ending
  blocking : Bool
  modeResults : List Bool
  sendResults : List (Option ℕ)
  sent : List UInt8

/-- The bytes that will still arrive. -/
def Socket.coming (s : Socket) : List UInt8 := s.arrivals.reduceOption

def wbSetBlocking (s : Socket) (blocking : Bool) : Bool × Socket :=
  match s.modeResults with
  | [] => (true, { s with blocking := blocking })
  | true :: results => (true, { s with blocking := blocking, modeResults := results })
  | false :: results => (false, { s with modeResults := results })

/-- The loop of `send_fully`: whether it succeeds, the answers that are left,
and the bytes that have gone out. -/
def sendLoop : List (Option ℕ) → List UInt8 → Bool × List (Option ℕ) × List UInt8
  | results, [] => (true, results, [])
  | [], data => (true, [], data)
  | none :: results, _ => (false, results, [])
  | some n :: results, b :: data =>
    -- send cannot take more than it is given, and 0 counts as an error
    if n = 0 then (false, results, [])
    else
      let r := sendLoop results ((b :: data).drop n)
      (r.1, r.2.1, (b :: data).take n ++ r.2.2)

def sendFully (s : Socket) (data : List UInt8) : Bool × Socket :=
  let r := sendLoop s.sendResults data
  (r.1, { s with sendResults := r.2.1, sent := s.sent ++ r.2.2 })

/-! ## The connection -/

/-- `WBC_xxx`. -/
inductive State where
  | request
  | sendContinue
  | serve
  | websocket
  deriving DecidableEq

/-- A `WebbyBuffer`: its `used` bytes. -/
structure Buffer where
  max : ℕ
  data : List UInt8

/-- A `WebbyWsFrame`, with its flags apart. -/
structure WsFrame where
  fin : Bool
  masked : Bool
  opcode : UInt8
  headerSize : ℕ
  maskKey : Key
  payloadLength : BitVec 32

structure Request where
  method : Text
  uri : Text
  httpVersion : Text
  queryParams : Option Text
  contentLength : ℤ
  headers : List (Text × Text)

/-- A `WebbyConnectionPrv`, with its flags apart. `user` is what `user_data`
points to. -/
structure Connection (σ : Type*) where
  request : Request
  user : σ
  alive : Bool
  fresh : Bool
  closeAfterResponse : Bool
  chunkedResponse : Bool
  websocket : Bool
  state : State
  socket : Socket
  headerBuf : Buffer
  ioBuf : Buffer
  headerBodyLeft : ℕ
  ioDataLeft : ℕ
  continueDataLeft : ℕ
  bodyBytesRead : ℕ
  wsFrame : WsFrame
  wsOpcode : UInt8
  blockingCount : ℤ

variable {σ : Type*}

/-- The part of `WebbyServerConfig` that `reset_connection` reads. -/
structure Limits where
  requestBufferSize : ℕ
  ioBufferSize : ℕ

def resetConnection (limits : Limits) (c : Connection σ) : Connection σ :=
  { c with
    headerBuf := ⟨limits.requestBufferSize, []⟩
    ioBuf := ⟨limits.ioBufferSize, []⟩
    headerBodyLeft := 0
    ioDataLeft := 0
    continueDataLeft := 0
    bodyBytesRead := 0
    state := .request
    blockingCount := 0 }

/-- A slot of the connection array after the `memset` of `WebbyServerInit`. -/
def blankSlot (user : σ) : Connection σ :=
  { request := ⟨[], [], [], none, 0, []⟩
    user := user
    alive := false
    fresh := false
    closeAfterResponse := false
    chunkedResponse := false
    websocket := false
    state := .request
    socket := ⟨[], .silent, false, [], [], []⟩
    headerBuf := ⟨0, []⟩
    ioBuf := ⟨0, []⟩
    headerBodyLeft := 0
    ioDataLeft := 0
    continueDataLeft := 0
    bodyBytesRead := 0
    wsFrame := ⟨false, false, 0, 0, Vector.replicate 4 0, 0⟩
    wsOpcode := 0
    blockingCount := 0 }

/-- The slot `wb_on_incoming` fills in, which may have been in use before. -/
def onIncoming (limits : Limits) (slot : Connection σ) (socket : Socket) : Connection σ :=
  { resetConnection limits slot with
    fresh := true
    alive := true
    closeAfterResponse := false
    chunkedResponse := false
    websocket := false
    socket := socket }

/-- `WebbyFindHeader`. -/
def webbyFindHeader (c : Connection σ) (name : Text) : Option Text :=
  (c.request.headers.find? fun header => sameText header.1 name).map Prod.snd

/-- The body of the next two: the count becomes `count`, and where it was `edge`,
the mode of the socket changes first, or else the connection is given up. -/
def switchMode (c : Connection σ) (blocking : Bool) (edge count : ℤ) : Bool × Connection σ :=
  if c.blockingCount = edge then
    let r := wbSetBlocking c.socket blocking
    if r.1 then (true, { c with socket := r.2, blockingCount := count })
    else (false, { c with socket := r.2, alive := false })
  else (true, { c with blockingCount := count })

def makeConnectionBlocking (c : Connection σ) : Bool × Connection σ :=
  switchMode c true 0 (c.blockingCount + 1)

def makeConnectionNonblocking (c : Connection σ) : Bool × Connection σ :=
  switchMode c false 1 (c.blockingCount - 1)

/-! ## Bytes in -/

inductive Fill where
  | ok
  | error
  | full
  deriving DecidableEq

/-- The loop of `wb_fill_buffer` with so much room left: its result, the bytes
read, and the arrivals that are left. How many bytes one `recv` returns makes no
difference to it, so each is taken by itself. -/
def fillLoop (blocking : Bool) (ending : Ending) :
    List (Option UInt8) → ℕ → Option (Fill × List UInt8 × List (Option UInt8))
  | arrivals, 0 => some (.full, [], arrivals)
  | [], _ + 1 =>
    match ending with
    | .silent => if blocking then none else some (.ok, [], [])
    | .closed => some (.error, [], [])
    | .failed => some (.error, [], [])
  | none :: arrivals, room + 1 =>
    -- EAGAIN, unless the call waits
    if blocking then fillLoop blocking ending arrivals (room + 1) else some (.ok, [], arrivals)
  | some b :: arrivals, room + 1 =>
    (fillLoop blocking ending arrivals room).map fun r => (r.1, b :: r.2.1, r.2.2)

def wbFillBuffer (buf : Buffer) (s : Socket) : Option (Fill × Buffer × Socket) :=
  (fillLoop s.blocking s.ending s.arrivals (buf.max - buf.data.length)).map fun r =>
    (r.1, { buf with data := buf.data ++ r.2.1 }, { s with arrivals := r.2.2 })

/-- `read_buffered_data`: what is copied, given how many bytes of the buffer are
left. -/
def readBufferedData (left : ℕ) (buf : Buffer) (len : ℕ) : List UInt8 :=
  (buf.data.drop (buf.data.length - left)).take (min len left)

/-- The loop of `WebbyRead`: whether it succeeds, the bytes read, and the
arrivals that are left. At the end of the peer's stream `recv` answers 0 again
and again. -/
def readLoop (blocking : Bool) (ending : Ending) :
    List (Option UInt8) → ℕ → Option (Bool × List UInt8 × List (Option UInt8))
  | arrivals, 0 => some (true, [], arrivals)
  | [], _ + 1 =>
    match ending with
    | .silent => if blocking then none else some (false, [], [])
    | .closed => none
    | .failed => some (false, [], [])
  | none :: arrivals, len + 1 =>
    if blocking then readLoop blocking ending arrivals (len + 1) else some (false, [], arrivals)
  | some b :: arrivals, len + 1 =>
    (readLoop blocking ending arrivals len).map fun r => (r.1, b :: r.2.1, r.2.2)

/-- `WebbyRead`: the bytes written to `ptr_`, or `none` after an error. -/
def webbyRead (c : Connection σ) (len : ℕ) : Option (Option (List UInt8) × Connection σ) :=
  let start := c.bodyBytesRead
  let fromHeader := readBufferedData c.headerBodyLeft c.headerBuf len
  let c := { c with
    headerBodyLeft := c.headerBodyLeft - fromHeader.length
    bodyBytesRead := c.bodyBytesRead + fromHeader.length }
  let len := len - fromHeader.length
  let fromIo := readBufferedData c.ioDataLeft c.ioBuf len
  let c := { c with
    ioDataLeft := c.ioDataLeft - fromIo.length
    bodyBytesRead := c.bodyBytesRead + fromIo.length }
  let len := len - fromIo.length
  (readLoop c.socket.blocking c.socket.ending c.socket.arrivals len).map fun r =>
    let bytes := fromHeader ++ fromIo ++ r.2.1
    let c := { c with
      socket := { c.socket with arrivals := r.2.2 }
      bodyBytesRead := c.bodyBytesRead + r.2.1.length }
    if r.1 then
      (some (if c.websocket && c.wsFrame.masked then mask c.wsFrame.maskKey start bytes else bytes),
        c)
    else (none, { c with alive := false })

/-- The loop of `discard_incoming_data`, which reads 1024 bytes at a time. -/
def discardIncomingData (c : Connection σ) (count : ℕ) : Option (Bool × Connection σ) :=
  if count = 0 then some (true, c)
  else
    (webbyRead c (min count 1024)).bind fun r =>
      match r.1 with
      | none => some (false, r.2)
      | some _ => discardIncomingData r.2 (count - min count 1024)
termination_by count
decreasing_by omega

/-! ## What is read -/

/-- The arrivals behind the next `n` bytes. -/
def behind : ℕ → List (Option UInt8) → List (Option UInt8)
  | 0, as => as
  | _ + 1, [] => []
  | n + 1, none :: as => behind (n + 1) as
  | n + 1, some _ :: as => behind n as

theorem reduceOption_behind (n : ℕ) (as : List (Option UInt8)) :
    (behind n as).reduceOption = as.reduceOption.drop n := by
  fun_induction behind n as with
  | case1 as => rfl
  | case2 n => rfl
  | case3 n as ih => exact ih
  | case4 n b as ih => simpa using ih

theorem length_behind_le (n : ℕ) (as : List (Option UInt8)) :
    (behind n as).length ≤ as.length := by
  fun_induction behind n as with
  | case1 as => exact Nat.le_refl _
  | case2 n => exact Nat.le_refl _
  | case3 n as ih => exact Nat.le_succ_of_le ih
  | case4 n b as ih => exact Nat.le_succ_of_le ih

/-- Bytes are passed over one after another. -/
theorem behind_behind (m n : ℕ) (as : List (Option UInt8)) :
    behind m (behind n as) = behind (n + m) as := by
  fun_induction behind n as with
  | case1 as => rw [Nat.zero_add]
  | case2 n =>
    have hnil : ∀ k, behind k [] = [] := fun k => by cases k <;> rfl
    rw [hnil, hnil]
  | case3 n as ih =>
    rw [ih, Nat.succ_add, behind]
  | case4 n b as ih => rw [ih, Nat.succ_add, behind]

/-- A socket that waits returns the next bytes as soon as enough have arrived. -/
theorem readLoop_enough (ending : Ending) {as : List (Option UInt8)} {len : ℕ}
    (h : len ≤ as.reduceOption.length) :
    readLoop true ending as len = some (true, as.reduceOption.take len, behind len as) := by
  induction as generalizing len with
  | nil =>
    obtain rfl : len = 0 := Nat.le_zero.mp h
    rfl
  | cons a as ih =>
    cases len with
    | zero => cases a <;> rfl
    | succ len =>
      cases a with
      | none =>
        rw [readLoop, if_pos rfl, ih h]
        rfl
      | some b =>
        have hle : len ≤ as.reduceOption.length := by simpa using h
        rw [readLoop, ih hle]
        rfl

/-- When too few will come, it returns only if the socket fails. -/
theorem readLoop_short (ending : Ending) {as : List (Option UInt8)} {len : ℕ}
    (h : as.reduceOption.length < len) :
    readLoop true ending as len =
      if ending = .failed then some (false, as.reduceOption, []) else none := by
  induction as generalizing len with
  | nil =>
    cases len with
    | zero => simp at h
    | succ len => cases ending <;> rfl
  | cons a as ih =>
    cases len with
    | zero => simp at h
    | succ len =>
      cases a with
      | none =>
        rw [readLoop, if_pos rfl, ih h]
        rfl
      | some b =>
        have hlt : as.reduceOption.length < len := by simpa using h
        rw [readLoop, ih hlt]
        split <;> rfl

/-- What `wb_fill_buffer` reads is what comes next, and no more than fits. -/
theorem fillLoop_reads {blocking : Bool} {ending : Ending} {as as' : List (Option UInt8)}
    {room : ℕ} {fill : Fill} {bs : List UInt8}
    (h : fillLoop blocking ending as room = some (fill, bs, as')) :
    as.reduceOption = bs ++ as'.reduceOption ∧ bs.length ≤ room := by
  induction as generalizing room bs with
  | nil =>
    -- room for nothing, or nothing more that arrives
    cases room with
    | zero =>
      simp only [fillLoop, Option.some.injEq, Prod.mk.injEq] at h
      obtain ⟨-, rfl, rfl⟩ := h
      simp
    | succ room =>
      have hnil : bs = [] ∧ as' = [] := by
        cases ending <;> cases blocking <;> simp_all [fillLoop]
      obtain ⟨rfl, rfl⟩ := hnil
      simp
  | cons a as ih =>
    cases room with
    | zero =>
      simp only [fillLoop, Option.some.injEq, Prod.mk.injEq] at h
      obtain ⟨-, rfl, rfl⟩ := h
      simp
    | succ room =>
      cases a with
      -- a pause ends the fill unless the socket waits
      | none =>
        cases blocking with
        | true => exact ih (by simpa [fillLoop] using h)
        | false =>
          simp only [fillLoop, Bool.false_eq_true, if_false, Option.some.injEq,
            Prod.mk.injEq] at h
          obtain ⟨-, rfl, rfl⟩ := h
          simp
      | some b =>
        rw [fillLoop] at h
        rcases Option.map_eq_some_iff.mp h with ⟨⟨fill', bs', as1⟩, hloop, hr⟩
        obtain ⟨rfl, rfl, rfl⟩ := by simpa using hr
        obtain ⟨hcoming, hlen⟩ := ih hloop
        exact ⟨by simp [hcoming], by simpa using hlen⟩

/-- Behind each of the texts there is a moment at which nothing has arrived; `n`
bytes of the first text are not among the arrivals any more. -/
def Apart : ℕ → List (List UInt8) → List (Option UInt8) → Prop
  | _, [], _ => True
  | n, text :: texts, as =>
    (∀ b, (behind (text.length - n) as).head? ≠ some (some b)) ∧
      Apart 0 texts (behind (text.length - n) as)

/-- Only the arrivals behind the next byte count. -/
theorem Apart.congr {texts : List (List UInt8)} {as as' : List (Option UInt8)}
    (h : Apart 0 texts as) (hne : ∀ text ∈ texts, text ≠ [])
    (hbehind : ∀ n, 0 < n → behind n as' = behind n as) : Apart 0 texts as' := by
  cases texts with
  | nil => trivial
  | cons text texts =>
    have hpos : 0 < text.length - 0 := List.length_pos_iff.mpr (hne text List.mem_cons_self)
    rw [Apart, hbehind _ hpos]
    exact h

/-- One packet for each text: a moment without bytes behind it. -/
def packets (texts : List (List UInt8)) : List (Option UInt8) :=
  texts.flatMap fun text => text.map some ++ [none]

theorem behind_map_some (text : List UInt8) (as : List (Option UInt8)) :
    behind text.length (text.map some ++ as) = as := by
  induction text with
  | nil => simp [behind]
  | cons b text ih =>
    rw [List.length_cons, List.map_cons, List.cons_append, behind]
    exact ih

/-- The bytes of the packets are those of the texts. -/
theorem reduceOption_packets (texts : List (List UInt8)) :
    (packets texts).reduceOption = texts.flatten := by
  induction texts with
  | nil => rfl
  | cons text texts ih =>
    have htext : (text.map some).reduceOption = text := by
      simp [List.reduceOption, List.filterMap_map]
    rw [packets, List.flatMap_cons, List.reduceOption_append, List.reduceOption_append, htext,
      List.flatten_cons, ← ih]
    simp [packets]

/-- Packets of one text each are apart from each other. -/
theorem apart_packets {texts : List (List UInt8)} (hne : ∀ text ∈ texts, text ≠ []) :
    Apart 0 texts (packets texts) := by
  induction texts with
  | nil => trivial
  | cons text texts ih =>
    have hne' : ∀ text ∈ texts, text ≠ [] := fun t ht => hne t (List.mem_cons_of_mem _ ht)
    have hbehind : behind (text.length - 0) (packets (text :: texts)) = none :: packets texts := by
      rw [packets, List.flatMap_cons, List.append_assoc, Nat.sub_zero, behind_map_some]
      rfl
    rw [Apart, hbehind]
    refine ⟨by simp, (ih hne').congr hne' fun n hn => ?_⟩
    cases n with
    | zero => exact absurd hn (Nat.lt_irrefl 0)
    | succ n => rw [behind]

/-- A moment without bytes stops the fill. -/
theorem fill_pause {m room : ℕ} {as as' : List (Option UInt8)} {fill : Fill} {bs : List UInt8}
    (hpause : ∀ b, (behind m as).head? ≠ some (some b))
    (hfill : fillLoop false .silent as room = some (fill, bs, as')) : bs.length ≤ m := by
  induction as generalizing m room fill bs with
  | nil =>
    have hreads := (fillLoop_reads hfill).1
    have hnil : bs = [] := by simpa using (List.append_eq_nil_iff.mp hreads.symm).1
    rw [hnil]
    exact Nat.zero_le _
  | cons a as ih =>
    cases room with
    | zero =>
      have hlen := (fillLoop_reads hfill).2
      omega
    | succ room =>
      cases a with
      | none =>
        have hnil : bs = [] := by simpa [fillLoop] using congrArg (Option.map (·.2.1)) hfill.symm
        rw [hnil]
        exact Nat.zero_le _
      -- no pause before `m` bytes have come
      | some b =>
        cases m with
        | zero => exact absurd rfl (hpause b)
        | succ m =>
          rw [fillLoop] at hfill
          rcases Option.map_eq_some_iff.mp hfill with ⟨⟨fill', bs', as1⟩, hloop, hr⟩
          obtain ⟨-, rfl, rfl⟩ := by simpa using hr
          exact Nat.succ_le_succ (ih hpause hloop)

/-- What filling the buffer of a connection that stays open leaves: the bytes
read, the arrivals behind them, and fewer arrivals than before if there was
room. -/
structure Filled (room : ℕ) (as : List (Option UInt8)) (fill : Fill) (bs : List UInt8)
    (as' : List (Option UInt8)) : Prop where
  ok : fill ≠ .error
  coming : as.reduceOption = bs ++ as'.reduceOption
  length_le : bs.length ≤ room
  behind_eq : ∀ n, 0 < n → behind n as' = behind (bs.length + n) as
  pause : ∀ m, (∀ b, (behind m as).head? ≠ some (some b)) → bs.length ≤ m
  rest_le : as'.length ≤ as.length
  progress : as ≠ [] → 0 < room → as'.length < as.length

/-- On an open socket that stays silent a fill does not fail: it takes what is
there, up to the next pause. -/
theorem fillLoop_open (as : List (Option UInt8)) (room : ℕ) :
    ∃ fill bs as', fillLoop false .silent as room = some (fill, bs, as') ∧
      Filled room as fill bs as' := by
  induction as generalizing room with
  | nil =>
    cases room with
    | zero => exact ⟨.full, [], [], rfl, by simp, rfl, by simp, by simp, by simp, by simp, by simp⟩
    | succ room => exact ⟨.ok, [], [], rfl, by simp, rfl, by simp, by simp, by simp, by simp, by simp⟩
  | cons a as ih =>
    cases room with
    | zero =>
      exact ⟨.full, [], a :: as, rfl, by simp, rfl, by simp, by simp, by simp, by simp, by simp⟩
    | succ room =>
      cases a with
      -- the pause itself is gone behind the fill
      | none =>
        refine ⟨.ok, [], as, rfl, by simp, rfl, by simp, ?_, by simp, by simp, by simp⟩
        intro n hn
        rcases n with _ | n
        · exact absurd hn (Nat.lt_irrefl 0)
        · rw [List.length_nil, Nat.zero_add, behind]
      | some b =>
        rcases ih room with ⟨fill, bs, as', hloop, hfilled⟩
        have hfill : fillLoop false .silent (some b :: as) (room + 1) =
            some (fill, b :: bs, as') := by
          rw [fillLoop, hloop]
          rfl
        refine ⟨fill, b :: bs, as', hfill, hfilled.ok, by simp [hfilled.coming],
          by simpa using hfilled.length_le, ?_, fun m hpause => fill_pause hpause hfill,
          Nat.le_succ_of_le hfilled.rest_le, fun _ _ => Nat.lt_succ_of_le hfilled.rest_le⟩
        intro n hn
        rw [List.length_cons, Nat.succ_add, behind, hfilled.behind_eq n hn]

/-- Behind the end of the first part of a stream that is read up to there. -/
theorem drop_stream {data rest text : List UInt8} {as : List (Option UInt8)}
    (hstream : data ++ as.reduceOption = text ++ rest) (hle : data.length ≤ text.length) :
    as.reduceOption.drop (text.length - data.length) = rest := by
  have hdrop := congrArg (List.drop text.length) hstream
  rw [List.drop_left, List.drop_append, List.drop_eq_nil_of_le hle, List.nil_append] at hdrop
  exact hdrop

/-- Filling a buffer takes bytes of the first text only, and leaves the texts
apart: in the middle of the first one, and behind it. -/
theorem Apart.fill {data text : List UInt8} {texts : List (List UInt8)}
    {as as' : List (Option UInt8)} (h : Apart data.length (text :: texts) as)
    (hne : ∀ text ∈ texts, text ≠ []) (hle : data.length ≤ text.length) {room : ℕ} {fill : Fill}
    {bs : List UInt8} (hfilled : Filled room as fill bs as')
    (hstream : data ++ bs ++ as'.reduceOption = text ++ texts.flatten) :
    (data ++ bs).length ≤ text.length ∧
      ((data ++ bs).length < text.length → Apart (data ++ bs).length (text :: texts) as') ∧
      Apart 0 texts (behind (text.length - (data ++ bs).length) as') ∧
      (behind (text.length - (data ++ bs).length) as').reduceOption = texts.flatten := by
  obtain ⟨hpause, hapart⟩ := h
  have hbs := hfilled.pause _ hpause
  have hall : (data ++ bs).length ≤ text.length := by
    rw [List.length_append]
    omega
  refine ⟨hall, ?_, ?_, ?_⟩
  · intro hlt
    -- the end of the text is where it was
    have hend : behind (text.length - (data ++ bs).length) as' =
        behind (text.length - data.length) as := by
      rw [hfilled.behind_eq _ (by omega)]
      rw [List.length_append] at hlt ⊢
      congr 1
      omega
    rw [Apart, hend]
    exact ⟨hpause, hapart⟩
  · apply hapart.congr hne
    intro n hn
    rw [behind_behind, behind_behind, hfilled.behind_eq _ (by omega)]
    rw [List.length_append] at hall ⊢
    congr 1
    omega
  · rw [reduceOption_behind]
    exact drop_stream hstream hall

/-- Filling a buffer from an open socket that stays silent. -/
theorem wbFillBuffer_open (buf : Buffer) {s : Socket} (hblocking : s.blocking = false)
    (hending : s.ending = .silent) :
    ∃ fill bs as', wbFillBuffer buf s =
        some (fill, { buf with data := buf.data ++ bs }, { s with arrivals := as' }) ∧
      Filled (buf.max - buf.data.length) s.arrivals fill bs as' := by
  rcases fillLoop_open s.arrivals (buf.max - buf.data.length) with ⟨fill, bs, as', hloop, hfilled⟩
  refine ⟨fill, bs, as', ?_, hfilled⟩
  rw [wbFillBuffer, hblocking, hending, hloop]
  rfl

/-- The bytes a connection can still read: what is left in the two buffers, then
what arrives. -/
def unread (c : Connection σ) : List UInt8 :=
  c.headerBuf.data.drop (c.headerBuf.data.length - c.headerBodyLeft) ++
    c.ioBuf.data.drop (c.ioBuf.data.length - c.ioDataLeft) ++ c.socket.coming

/-- The counts of bytes left do not exceed what the buffers hold. -/
structure Buffered (c : Connection σ) : Prop where
  header_le : c.headerBodyLeft ≤ c.headerBuf.data.length
  io_le : c.ioDataLeft ≤ c.ioBuf.data.length

theorem length_unread {c : Connection σ} (h : Buffered c) :
    (unread c).length = c.headerBodyLeft + c.ioDataLeft + c.socket.coming.length := by
  have hheader := h.header_le
  have hio := h.io_le
  simp only [unread, List.length_append, List.length_drop]
  omega

/-- `len` bytes have been read. -/
def taken (c : Connection σ) (len : ℕ) : Connection σ :=
  { c with
    socket := { c.socket with
      arrivals := behind (len - c.headerBodyLeft - c.ioDataLeft) c.socket.arrivals }
    headerBodyLeft := c.headerBodyLeft - len
    ioDataLeft := c.ioDataLeft - (len - c.headerBodyLeft)
    bodyBytesRead := c.bodyBytesRead + len }

/-- The payload bytes behind what has travelled. -/
def unmasked (c : Connection σ) (bytes : List UInt8) : List UInt8 :=
  if c.websocket && c.wsFrame.masked then mask c.wsFrame.maskKey c.bodyBytesRead bytes else bytes

theorem readBufferedData_eq {left : ℕ} {buf : Buffer} (h : left ≤ buf.data.length) (len : ℕ) :
    readBufferedData left buf len = (buf.data.drop (buf.data.length - left)).take len := by
  rw [readBufferedData, List.take_eq_take_min, List.length_drop]
  conv => rhs; rw [List.take_eq_take_min, List.length_drop]
  congr 1
  omega

theorem readBufferedData_length {left : ℕ} {buf : Buffer} (h : left ≤ buf.data.length) (len : ℕ) :
    (readBufferedData left buf len).length = min len left := by
  rw [readBufferedData, List.length_take, List.length_drop]
  omega

theorem taken_buffered {c : Connection σ} (h : Buffered c) (len : ℕ) : Buffered (taken c len) where
  header_le := le_trans (Nat.sub_le _ _) h.header_le
  io_le := le_trans (Nat.sub_le _ _) h.io_le

/-- Two reads in a row are one. -/
theorem taken_taken (c : Connection σ) (m n : ℕ) : taken (taken c m) n = taken c (m + n) := by
  have hheader : c.headerBodyLeft - m - n = c.headerBodyLeft - (m + n) := by omega
  have hio : c.ioDataLeft - (m - c.headerBodyLeft) - (n - (c.headerBodyLeft - m)) =
      c.ioDataLeft - (m + n - c.headerBodyLeft) := by omega
  have hsocket : m - c.headerBodyLeft - c.ioDataLeft +
      (n - (c.headerBodyLeft - m) - (c.ioDataLeft - (m - c.headerBodyLeft))) =
      m + n - c.headerBodyLeft - c.ioDataLeft := by omega
  simp [taken, hheader, hio, behind_behind, hsocket, Nat.add_assoc]

/-- What is left of a buffer after `n` more bytes of it have been read. -/
theorem drop_left {left : ℕ} {data : List UInt8} (h : left ≤ data.length) (n : ℕ) :
    data.drop (data.length - (left - n)) = (data.drop (data.length - left)).drop n := by
  rw [List.drop_drop]
  by_cases hn : n ≤ left
  · congr 1
    omega
  · rw [List.drop_eq_nil_of_le (by omega), List.drop_eq_nil_of_le (by omega)]

/-- The three parts of what is read. -/
theorem take_unread {c : Connection σ} (h : Buffered c) (len : ℕ) :
    (unread c).take len = readBufferedData c.headerBodyLeft c.headerBuf len ++
      readBufferedData c.ioDataLeft c.ioBuf (len - c.headerBodyLeft) ++
      c.socket.coming.take (len - c.headerBodyLeft - c.ioDataLeft) := by
  have hheader : c.headerBuf.data.length - (c.headerBuf.data.length - c.headerBodyLeft) =
      c.headerBodyLeft := by
    have := h.header_le
    omega
  have hio : c.ioBuf.data.length - (c.ioBuf.data.length - c.ioDataLeft) = c.ioDataLeft := by
    have := h.io_le
    omega
  rw [unread, List.take_append, List.take_append, List.length_append, List.length_drop,
    List.length_drop, hheader, hio, readBufferedData_eq h.header_le, readBufferedData_eq h.io_le,
    Nat.sub_sub]

/-- What is taken is the front of what is unread. -/
theorem unread_taken {c : Connection σ} (h : Buffered c) (len : ℕ) :
    unread (taken c len) = (unread c).drop len := by
  have hheader : (c.headerBuf.data.drop (c.headerBuf.data.length - c.headerBodyLeft)).length =
      c.headerBodyLeft := by
    have := h.header_le
    rw [List.length_drop]
    omega
  have hio : (c.ioBuf.data.drop (c.ioBuf.data.length - c.ioDataLeft)).length = c.ioDataLeft := by
    have := h.io_le
    rw [List.length_drop]
    omega
  rw [unread, unread, List.drop_append, List.drop_append, List.length_append, hheader, hio]
  simp only [taken, Socket.coming, reduceOption_behind, drop_left h.header_le, drop_left h.io_le]
  rw [Nat.sub_sub]

/-- A connection that waits reads the next bytes, if so many will come. -/
theorem webbyRead_spec {c : Connection σ} (h : Buffered c) (hblocking : c.socket.blocking = true)
    {len : ℕ} (hlen : len ≤ (unread c).length) :
    webbyRead c len = some (some (unmasked c ((unread c).take len)), taken c len) := by
  -- the header buffer comes first, then the I/O buffer, then the socket
  have hheader := readBufferedData_length h.header_le len
  have hio := readBufferedData_length h.io_le (len - min len c.headerBodyLeft)
  have hrest : len - min len c.headerBodyLeft = len - c.headerBodyLeft := by omega
  have hrest' : len - c.headerBodyLeft - min (len - c.headerBodyLeft) c.ioDataLeft =
      len - c.headerBodyLeft - c.ioDataLeft := by omega
  have henough : len - c.headerBodyLeft - c.ioDataLeft ≤ c.socket.coming.length := by
    have hlength := length_unread h
    omega
  have hread := readLoop_enough c.socket.ending henough
  -- which has enough
  have htook : (c.socket.coming.take (len - c.headerBodyLeft - c.ioDataLeft)).length =
      len - c.headerBodyLeft - c.ioDataLeft := by
    rw [List.length_take]
    omega
  have hcount : c.bodyBytesRead + min len c.headerBodyLeft +
      min (len - c.headerBodyLeft) c.ioDataLeft + (len - c.headerBodyLeft - c.ioDataLeft) =
      c.bodyBytesRead + len := by omega
  have hleft : c.headerBodyLeft - min len c.headerBodyLeft = c.headerBodyLeft - len := by omega
  have hleft' : c.ioDataLeft - min (len - c.headerBodyLeft) c.ioDataLeft =
      c.ioDataLeft - (len - c.headerBodyLeft) := by omega
  rw [hrest] at hio
  rw [Socket.coming] at htook
  simp only [webbyRead, hheader, hrest, hio, hrest', hblocking, hread, Option.map_some, if_true,
    htook, hcount, hleft, hleft', taken, take_unread h, unmasked, Socket.coming]

/-- Discarding bytes is reading them. -/
theorem discardIncomingData_spec {c : Connection σ} (h : Buffered c)
    (hblocking : c.socket.blocking = true) {count : ℕ} (hcount : count ≤ (unread c).length) :
    discardIncomingData c count = some (true, taken c count) := by
  induction hn : count using Nat.strongRecOn generalizing c count with
  | ind n ih =>
    subst hn
    rw [discardIncomingData]
    split
    · rename_i hzero
      subst hzero
      simp [taken, behind]
    · rename_i hpos
      have hchunk : min count 1024 ≤ (unread c).length := le_trans (Nat.min_le_left _ _) hcount
      have hleft : count - min count 1024 ≤ (unread (taken c (min count 1024))).length := by
        rw [unread_taken h, List.length_drop]
        omega
      have hsum : min count 1024 + (count - min count 1024) = count := by omega
      have hrest := ih (count - min count 1024) (by omega) (taken_buffered h _) hblocking hleft rfl
      rw [webbyRead_spec h hblocking hchunk, Option.bind_some]
      dsimp only
      rw [hrest, taken_taken, hsum]

/-- Everything has been read, and the socket has failed. -/
def drained (c : Connection σ) : Connection σ :=
  { c with
    alive := false
    socket := { c.socket with arrivals := [] }
    headerBodyLeft := 0
    ioDataLeft := 0
    bodyBytesRead := c.bodyBytesRead + (unread c).length }

/-- What has been read does not matter when all the rest is read. -/
theorem drained_taken {c : Connection σ} (h : Buffered c) {len : ℕ}
    (hlen : len ≤ (unread c).length) : drained (taken c len) = drained c := by
  have hcount : (taken c len).bodyBytesRead + (unread (taken c len)).length =
      c.bodyBytesRead + (unread c).length := by
    rw [unread_taken h, List.length_drop]
    show c.bodyBytesRead + len + ((unread c).length - len) = _
    omega
  unfold drained
  rw [hcount]
  rfl

/-- When fewer bytes will come, `WebbyRead` does not return before the socket
fails: at the end of the peer's stream it asks again for ever. -/
theorem webbyRead_short {c : Connection σ} (h : Buffered c) (hblocking : c.socket.blocking = true)
    {len : ℕ} (hlen : (unread c).length < len) :
    webbyRead c len = if c.socket.ending = .failed then some (none, drained c) else none := by
  have hall := length_unread h
  -- both buffers are read out
  have hheader : (readBufferedData c.headerBodyLeft c.headerBuf len).length = c.headerBodyLeft := by
    rw [readBufferedData_length h.header_le]
    omega
  have hio : (readBufferedData c.ioDataLeft c.ioBuf (len - c.headerBodyLeft)).length =
      c.ioDataLeft := by
    rw [readBufferedData_length h.io_le]
    omega
  -- and the socket has not enough
  have hshort : c.socket.arrivals.reduceOption.length < len - c.headerBodyLeft - c.ioDataLeft := by
    rw [Socket.coming] at hall
    omega
  have hread := readLoop_short c.socket.ending hshort
  rw [← hblocking] at hread
  unfold webbyRead
  dsimp only
  rw [hheader, hio, hread]
  by_cases hfailed : c.socket.ending = .failed
  · rw [if_pos hfailed, if_pos hfailed, Option.map_some, if_neg (by simp)]
    unfold drained
    rw [hall, Socket.coming, Nat.sub_self, Nat.sub_self, Nat.add_assoc, Nat.add_assoc,
      Nat.add_assoc]
  · rw [if_neg hfailed, if_neg hfailed, Option.map_none]

/-- More than will come cannot be discarded: it fails with the socket, or waits for
ever. -/
theorem discardIncomingData_short {c : Connection σ} (h : Buffered c)
    (hblocking : c.socket.blocking = true) {count : ℕ} (hcount : (unread c).length < count) :
    discardIncomingData c count =
      if c.socket.ending = .failed then some (false, drained c) else none := by
  induction hn : count using Nat.strongRecOn generalizing c count with
  | ind n ih =>
    subst hn
    rw [discardIncomingData, if_neg (by omega)]
    by_cases hchunk : min count 1024 ≤ (unread c).length
    · -- this chunk comes, but not all that are behind it
      have hleft : (unread (taken c (min count 1024))).length < count - min count 1024 := by
        rw [unread_taken h, List.length_drop]
        omega
      have hrest := ih (count - min count 1024) (by omega) (taken_buffered h _) hblocking hleft rfl
      rw [webbyRead_spec h hblocking hchunk, Option.bind_some]
      dsimp only
      rw [hrest, drained_taken h hchunk]
      rfl
    · rw [webbyRead_short h hblocking (Nat.lt_of_not_le hchunk)]
      split
      · rfl
      · rfl

end Yardstick.WebbyConnection
