import Yardstick.Base.Framing
import Yardstick.Base.LittleEndian

/-!
# SocketFrames — the WebSocket framing and the receiver of its messages

A WebSocket connection carries frames. A frame has a header with a length in
one of three sizes, an optional masking key and a payload. A message is one
frame or several, the last of which is marked final; control frames may stand
between the frames of a message and do not change it.

* `format`: the frames are a format of self-delimiting records, so a stream
  splits into frames in one way;
* `unmask_mask`: masking undoes itself;
* `Midway.more`, `Midway.last`: what a receiver has of a message that is sent
  in pieces;
* `Carries.delivered`: what has been delivered is not undone by what follows,
  and nothing is delivered after a frame the receiver refuses.
-/

namespace SocketFrames

open LittleEndian

/-! ## Numbers in network order -/

/-- The `w` low bytes of a number, most significant byte first. -/
def bigBytes (w x : ℕ) : List UInt8 := (toBytes w x).reverse

/-- The number whose bytes, most significant first, are given. -/
def ofBigBytes (bs : List UInt8) : ℕ := ofBytes bs.reverse

@[simp] theorem bigBytes_length (w x : ℕ) : (bigBytes w x).length = w := by
  simp [bigBytes]

theorem ofBigBytes_bigBytes {w x : ℕ} (h : x < 256 ^ w) : ofBigBytes (bigBytes w x) = x := by
  rw [ofBigBytes, bigBytes, List.reverse_reverse, ofBytes_toBytes, Nat.mod_eq_of_lt h]

theorem bigBytes_ofBigBytes (bs : List UInt8) : bigBytes bs.length (ofBigBytes bs) = bs := by
  have h := toBytes_ofBytes bs.reverse
  rw [List.length_reverse] at h
  rw [bigBytes, ofBigBytes, h, List.reverse_reverse]

theorem ofBigBytes_lt (bs : List UInt8) : ofBigBytes bs < 256 ^ bs.length := by
  simpa [ofBigBytes] using ofBytes_lt bs.reverse

/-- Reading the bytes from the front, each one shifts what was read. -/
theorem ofBigBytes_foldl (bs : List UInt8) (n : ℕ) :
    bs.foldl (fun n b => n * 256 + b.toNat) n = n * 256 ^ bs.length + ofBigBytes bs := by
  induction bs generalizing n with
  | nil => simp [ofBigBytes]
  | cons b bs ih =>
    have happ : ∀ (cs : List UInt8), ofBytes (cs ++ [b]) =
        ofBytes cs + b.toNat * 256 ^ cs.length := by
      intro cs
      induction cs with
      | nil => simp [ofBytes_cons]
      | cons c cs ihc =>
        rw [List.cons_append, ofBytes_cons, ihc, ofBytes_cons, List.length_cons, Nat.pow_succ]
        ring
    rw [List.foldl_cons, ih, ofBigBytes, ofBigBytes, List.reverse_cons, happ, List.length_reverse,
      List.length_cons, Nat.pow_succ]
    ring

/-! ## Masking -/

abbrev Key := Vector UInt8 4

/-- The byte of the key for a position of the payload. -/
def keyByte (key : Key) (i : ℕ) : UInt8 := key.get ⟨i % 4, Nat.mod_lt i (by omega)⟩

/-- The bytes of a payload from position `i` on, each combined with its byte
of the key. -/
def mask (key : Key) : ℕ → List UInt8 → List UInt8
  | _, [] => []
  | i, b :: bs => (b ^^^ keyByte key i) :: mask key (i + 1) bs

@[simp] theorem mask_length (key : Key) (i : ℕ) (bs : List UInt8) :
    (mask key i bs).length = bs.length := by
  induction bs generalizing i with
  | nil => rfl
  | cons b bs ih => simp [mask, ih]

/-- The mask goes over the bytes one by one, so a part can be masked by itself. -/
theorem mask_take (key : Key) (i n : ℕ) (bs : List UInt8) :
    mask key i (bs.take n) = (mask key i bs).take n := by
  induction bs generalizing i n with
  | nil => simp [mask]
  | cons b bs ih =>
    cases n with
    | zero => rfl
    | succ n => simp [mask, ih]

/-- A part further on is masked from its own place in the key. -/
theorem mask_drop (key : Key) (i n : ℕ) (bs : List UInt8) :
    mask key (i + n) (bs.drop n) = (mask key i bs).drop n := by
  induction bs generalizing i n with
  | nil => simp [mask]
  | cons b bs ih =>
    cases n with
    | zero => rfl
    | succ n =>
      rw [mask, List.drop_succ_cons, List.drop_succ_cons, ← ih (i + 1) n, Nat.add_assoc,
        Nat.add_comm 1 n]

/-- Masking again with the same key gives the payload back. -/
theorem unmask_mask (key : Key) (i : ℕ) (bs : List UInt8) : mask key i (mask key i bs) = bs := by
  induction bs generalizing i with
  | nil => rfl
  | cons b bs ih => rw [mask, mask, ih, UInt8.xor_assoc, UInt8.xor_self, UInt8.xor_zero]

/-! ## Frames -/

/-- A frame. The top bit of a length is never used. -/
structure Frame where
  fin : Bool
  opcode : Fin 16
  key : Option Key
  payload : List UInt8
  payload_lt : payload.length < 2 ^ 63

/-- The seven bits of the header that are the length or say where it is. -/
def lengthCode (n : ℕ) : ℕ := if n < 126 then n else if n < 65536 then 126 else 127

/-- The bytes of a length that does not fit into those seven bits. -/
def lengthBytes (n : ℕ) : List UInt8 :=
  if n < 126 then [] else if n < 65536 then bigBytes 2 n else bigBytes 8 n

def keyBytes : Option Key → List UInt8
  | none => []
  | some key => key.toList

/-- The payload as it travels. -/
def maskedPayload : Option Key → List UInt8 → List UInt8
  | none, payload => payload
  | some key, payload => mask key 0 payload

namespace Frame

/-- The first byte: the final flag over the opcode. -/
def head (f : Frame) : UInt8 := UInt8.ofNat ((if f.fin then 128 else 0) + f.opcode.val)

/-- The second byte: the masked flag over the length code. -/
def second (f : Frame) : UInt8 :=
  UInt8.ofNat ((if f.key.isSome then 128 else 0) + lengthCode f.payload.length)

def header (f : Frame) : List UInt8 :=
  f.head :: f.second :: (lengthBytes f.payload.length ++ keyBytes f.key)

def text (f : Frame) : List UInt8 := f.header ++ maskedPayload f.key f.payload

end Frame

theorem lengthCode_le (n : ℕ) : lengthCode n ≤ 127 := by
  unfold lengthCode
  split_ifs <;> omega

@[simp] theorem keyBytes_length (key : Option Key) :
    (keyBytes key).length = if key.isSome then 4 else 0 := by
  cases key <;> simp [keyBytes]

@[simp] theorem maskedPayload_length (key : Option Key) (payload : List UInt8) :
    (maskedPayload key payload).length = payload.length := by
  cases key <;> simp [maskedPayload]

theorem maskedPayload_maskedPayload (key : Option Key) (payload : List UInt8) :
    maskedPayload key (maskedPayload key payload) = payload := by
  cases key with
  | none => rfl
  | some key => exact unmask_mask key 0 payload

namespace Frame

theorem head_toNat (f : Frame) : f.head.toNat = (if f.fin then 128 else 0) + f.opcode.val := by
  have := f.opcode.isLt
  rw [head, UInt8.toNat_ofNat']
  apply Nat.mod_eq_of_lt
  split_ifs <;> omega

theorem second_toNat (f : Frame) : f.second.toNat =
    (if f.key.isSome then 128 else 0) + lengthCode f.payload.length := by
  have := lengthCode_le f.payload.length
  rw [second, UInt8.toNat_ofNat']
  apply Nat.mod_eq_of_lt
  split_ifs <;> omega

end Frame

/-! ## The parser -/

/-- Take `n` bytes off the front. -/
def takeBytes (n : ℕ) (bs : List UInt8) : Option (List UInt8 × List UInt8) :=
  if n ≤ bs.length then some (bs.take n, bs.drop n) else none

theorem takeBytes_append (bs rest : List UInt8) :
    takeBytes bs.length (bs ++ rest) = some (bs, rest) := by
  simp [takeBytes]

theorem takeBytes_eq_some {n : ℕ} {bs front rest : List UInt8}
    (h : takeBytes n bs = some (front, rest)) : front.length = n ∧ bs = front ++ rest := by
  unfold takeBytes at h
  split at h
  · obtain ⟨rfl, rfl⟩ := Prod.mk.inj (Option.some.inj h)
    exact ⟨by simpa using ‹n ≤ bs.length›, (List.take_append_drop n bs).symm⟩
  · cases h

/-- The length, of which the header has the code. Only its shortest form is
accepted. -/
def parseLength (code : ℕ) (bs : List UInt8) : Option (ℕ × List UInt8) :=
  if code < 126 then some (code, bs)
  else if code = 126 then do
    let (field, bs) ← takeBytes 2 bs
    if 126 ≤ ofBigBytes field then some (ofBigBytes field, bs) else none
  else do
    let (field, bs) ← takeBytes 8 bs
    if 65536 ≤ ofBigBytes field ∧ ofBigBytes field < 2 ^ 63 then some (ofBigBytes field, bs)
    else none

def parseKey (masked : Bool) (bs : List UInt8) : Option (Option Key × List UInt8) :=
  if masked then do
    let (field, bs) ← takeBytes 4 bs
    if h : field.length = 4 then some (some ⟨field.toArray, h⟩, bs) else none
  else some (none, bs)

/-- One frame off the front. The three reserved bits must be clear. -/
def parseFrame : List UInt8 → Option (Frame × List UInt8)
  | head :: second :: bs =>
    if head.toNat % 128 < 16 then do
      let (n, bs) ← parseLength (second.toNat % 128) bs
      let (key, bs) ← parseKey (decide (128 ≤ second.toNat)) bs
      let (body, bs) ← takeBytes n bs
      if h : (maskedPayload key body).length < 2 ^ 63 then
        some (⟨decide (128 ≤ head.toNat), Fin.ofNat 16 (head.toNat % 128), key,
          maskedPayload key body, h⟩, bs)
      else none
    else none
  | _ => none

/-- A length is read back from its code and its extra bytes. -/
theorem parseLength_text {n : ℕ} (h : n < 2 ^ 63) (rest : List UInt8) :
    parseLength (lengthCode n) (lengthBytes n ++ rest) = some (n, rest) := by
  by_cases hsmall : n < 126
  · simp [parseLength, lengthCode, lengthBytes, hsmall]
  · by_cases hmiddle : n < 65536
    · -- two bytes
      have hfield : takeBytes 2 (bigBytes 2 n ++ rest) = some (bigBytes 2 n, rest) := by
        simpa using takeBytes_append (bigBytes 2 n) rest
      have hvalue : ofBigBytes (bigBytes 2 n) = n := ofBigBytes_bigBytes (by omega)
      have hle : 126 ≤ n := by omega
      simp [parseLength, lengthCode, lengthBytes, hsmall, hmiddle, hfield, hvalue, hle]
    · -- eight bytes
      have hfield : takeBytes 8 (bigBytes 8 n ++ rest) = some (bigBytes 8 n, rest) := by
        simpa using takeBytes_append (bigBytes 8 n) rest
      have hvalue : ofBigBytes (bigBytes 8 n) = n :=
        ofBigBytes_bigBytes (lt_trans h (by decide))
      have hrange : 65536 ≤ n ∧ n < 2 ^ 63 := ⟨by omega, h⟩
      simp only [parseLength, lengthCode, lengthBytes, hsmall, hmiddle, if_false, hfield, hvalue,
        Option.bind_eq_bind, Option.bind_some, if_pos hrange]
      rfl

/-- The only code and bytes a length is read from are those it is written with: the
shortest form counts. -/
theorem parseLength_eq_some {code n : ℕ} {bs rest : List UInt8} (hcode : code ≤ 127)
    (h : parseLength code bs = some (n, rest)) :
    code = lengthCode n ∧ n < 2 ^ 63 ∧ bs = lengthBytes n ++ rest := by
  unfold parseLength at h
  split at h
  · -- the code is the length
    obtain ⟨rfl, rfl⟩ := Prod.mk.inj (Option.some.inj h)
    rename_i hlt
    exact ⟨by simp [lengthCode, hlt], by omega, by simp [lengthBytes, hlt]⟩
  · split at h
    · rcases Option.bind_eq_some_iff.mp h with ⟨⟨field, bs'⟩, htake, hfield⟩
      obtain ⟨hlen, rfl⟩ := takeBytes_eq_some htake
      dsimp only at hfield
      split at hfield
      · obtain ⟨rfl, rfl⟩ := Prod.mk.inj (Option.some.inj hfield)
        rename_i hcode' hle
        have hlt := ofBigBytes_lt field
        have hbytes := bigBytes_ofBigBytes field
        rw [hlen] at hlt hbytes
        have h1 : ¬ ofBigBytes field < 126 := by omega
        have h2 : ofBigBytes field < 65536 := by omega
        refine ⟨?_, by omega, ?_⟩
        · simp [lengthCode, h1, h2, hcode']
        · simp [lengthBytes, h1, h2, hbytes]
      · cases hfield
    · rcases Option.bind_eq_some_iff.mp h with ⟨⟨field, bs'⟩, htake, hfield⟩
      obtain ⟨hlen, rfl⟩ := takeBytes_eq_some htake
      dsimp only at hfield
      split at hfield
      · obtain ⟨rfl, rfl⟩ := Prod.mk.inj (Option.some.inj hfield)
        rename_i hcode126 hcode' hle
        have hbytes := bigBytes_ofBigBytes field
        rw [hlen] at hbytes
        have h1 : ¬ ofBigBytes field < 126 := by omega
        have h2 : ¬ ofBigBytes field < 65536 := by omega
        refine ⟨?_, hle.2, ?_⟩
        · simp only [lengthCode, h1, h2, if_false]
          omega
        · simp [lengthBytes, h1, h2, hbytes]
      · cases hfield

/-- The key is read from its own bytes. -/
theorem parseKey_text (key : Option Key) (rest : List UInt8) :
    parseKey key.isSome (keyBytes key ++ rest) = some (key, rest) := by
  cases key with
  | none => simp [parseKey, keyBytes]
  | some key =>
    have hfield : takeBytes 4 (key.toList ++ rest) = some (key.toList, rest) := by
      simpa using takeBytes_append key.toList rest
    have hkey : (⟨key.toList.toArray, by simp⟩ : Key) = key := by
      apply Vector.toArray_inj.mp
      exact Array.toArray_toList
    simp [parseKey, keyBytes, hfield, hkey]

/-- The only bytes a key is read from are its own. -/
theorem parseKey_eq_some {masked : Bool} {key : Option Key} {bs rest : List UInt8}
    (h : parseKey masked bs = some (key, rest)) :
    masked = key.isSome ∧ bs = keyBytes key ++ rest := by
  unfold parseKey at h
  split at h
  · rcases Option.bind_eq_some_iff.mp h with ⟨⟨field, bs'⟩, htake, hfield⟩
    obtain ⟨hlen, rfl⟩ := takeBytes_eq_some htake
    dsimp only at hfield
    split at hfield
    · obtain ⟨rfl, rfl⟩ := Prod.mk.inj (Option.some.inj hfield)
      rename_i hmasked _
      exact ⟨by simpa using hmasked, by simp [keyBytes, Vector.toList]⟩
    · exact absurd hlen ‹_›
  · obtain ⟨rfl, rfl⟩ := Prod.mk.inj (Option.some.inj h)
    rename_i hmasked
    exact ⟨by simpa using hmasked, rfl⟩

/-- A frame is read back from its text, whatever follows. -/
theorem parseFrame_text (f : Frame) (rest : List UInt8) :
    parseFrame (f.text ++ rest) = some (f, rest) := by
  have hop := f.opcode.isLt
  have hcode := lengthCode_le f.payload.length
  have hhead := f.head_toNat
  have hsecond := f.second_toNat
  -- the fields of the two header bytes
  have hmod : f.head.toNat % 128 = f.opcode.val := by
    rw [hhead]
    split_ifs <;> omega
  have hfin : decide (128 ≤ f.head.toNat) = f.fin := by
    rw [hhead]
    cases f.fin
    · simp
      omega
    · simp
  have hlow : f.second.toNat % 128 = lengthCode f.payload.length % 128 := by
    rw [hsecond]
    split_ifs <;> omega
  have hcase : (f.second.toNat % 128 = lengthCode f.payload.length) := by
    rw [hlow]
    omega
  have hmasked : decide (128 ≤ f.second.toNat) = f.key.isSome := by
    rw [hsecond]
    cases f.key.isSome
    · simp
      omega
    · simp
  -- the payload is masked, and masking it again takes that back
  have hbody : takeBytes f.payload.length (maskedPayload f.key f.payload ++ rest) =
      some (maskedPayload f.key f.payload, rest) := by
    simpa using takeBytes_append (maskedPayload f.key f.payload) rest
  have hopcode : Fin.ofNat 16 f.opcode.val = f.opcode := by
    apply Fin.ext
    exact Nat.mod_eq_of_lt hop
  rw [Frame.text, Frame.header]
  simp only [List.cons_append, List.append_assoc, parseFrame, hmod, hcase, hmasked, hfin,
    parseLength_text f.payload_lt, parseKey_text, hbody, Option.bind_eq_bind, Option.bind_some,
    maskedPayload_maskedPayload, f.payload_lt, hopcode, if_pos hop, dif_pos]

/-- The two bytes of the header are those of the frame that is read. -/
theorem header_bytes {head second : UInt8} {n : ℕ} {key : Option Key}
    (hreserved : head.toNat % 128 < 16) (hcode : second.toNat % 128 = lengthCode n)
    (hmasked : decide (128 ≤ second.toNat) = key.isSome) :
    UInt8.ofNat ((if decide (128 ≤ head.toNat) then 128 else 0) +
      (Fin.ofNat 16 (head.toNat % 128)).val) = head ∧
    UInt8.ofNat ((if key.isSome then 128 else 0) + lengthCode n) = second := by
  have hhead := head.toNat_lt
  have hsecond := second.toNat_lt
  constructor
  · apply UInt8.toNat_inj.mp
    rw [UInt8.toNat_ofNat', Fin.val_ofNat]
    by_cases hge : 128 ≤ head.toNat
    · simp only [hge, decide_true, if_true]
      omega
    · simp only [hge, decide_false, Bool.false_eq_true, if_false]
      omega
  · apply UInt8.toNat_inj.mp
    rw [UInt8.toNat_ofNat', ← hmasked, ← hcode]
    by_cases hge : 128 ≤ second.toNat
    · simp only [hge, decide_true, if_true]
      omega
    · simp only [hge, decide_false, Bool.false_eq_true, if_false]
      omega

/-- The only text a frame is read from is its own. -/
theorem text_of_parseFrame (bs : List UInt8) (f : Frame) (rest : List UInt8)
    (h : parseFrame bs = some (f, rest)) : bs = f.text ++ rest := by
  rcases bs with _ | ⟨head, _ | ⟨second, bs⟩⟩
  · cases h
  · cases h
  · simp only [parseFrame] at h
    split at h
    · rename_i hreserved
      rcases Option.bind_eq_some_iff.mp h with ⟨⟨n, bs1⟩, hlength, h1⟩
      rcases Option.bind_eq_some_iff.mp h1 with ⟨⟨key, bs2⟩, hkey, h2⟩
      rcases Option.bind_eq_some_iff.mp h2 with ⟨⟨body, bs3⟩, hbody, h3⟩
      obtain ⟨hcode, -, rfl⟩ :=
        parseLength_eq_some (Nat.le_of_lt_succ (Nat.mod_lt _ (by omega))) hlength
      obtain ⟨hmasked, rfl⟩ := parseKey_eq_some hkey
      obtain ⟨rfl, rfl⟩ := takeBytes_eq_some hbody
      dsimp only at h3
      split at h3
      · obtain ⟨rfl, rfl⟩ := Prod.mk.inj (Option.some.inj h3)
        obtain ⟨hhead, hsecond⟩ := header_bytes hreserved hcode hmasked
        simp only [Frame.text, Frame.header, Frame.head, Frame.second, maskedPayload_length,
          maskedPayload_maskedPayload, hhead, hsecond, List.cons_append, List.append_assoc]
      · cases h3
    · cases h

/-- Frames as self-delimiting records. -/
def format : Framing.Format UInt8 Frame where
  text := Frame.text
  parse := parseFrame
  text_ne_nil := fun _ h => List.cons_ne_nil _ _ h
  parse_text := parseFrame_text
  text_of_parse := text_of_parseFrame

/-! ## Receiving -/

structure Message where
  opcode : Fin 16
  payload : List UInt8
  deriving DecidableEq

/-- What has arrived: a message some frames of which are missing, and the
messages that are complete. -/
structure Receiver where
  current : Option Message
  messages : List Message

namespace Receiver

def start : Receiver := ⟨none, []⟩

/-- A frame leaves the message `m`, which is complete after a final frame. -/
def advance (r : Receiver) (m : Message) (fin : Bool) : Receiver :=
  if fin then ⟨none, r.messages ++ [m]⟩ else ⟨some m, r.messages⟩

end Receiver

def isReserved (opcode : Fin 16) : Bool :=
  (3 ≤ opcode.val && opcode.val ≤ 7) || 11 ≤ opcode.val

def isControl (opcode : Fin 16) : Bool := 8 ≤ opcode.val

/-- Opcodes a message begins with. -/
def isData (opcode : Fin 16) : Bool := opcode == 1 || opcode == 2

/-- A frame arrives at the end whose peer masks its frames or does not. -/
def receive (masked : Bool) (r : Receiver) (f : Frame) : Option Receiver :=
  if f.key.isSome ≠ masked ∨ isReserved f.opcode then none
  else if isControl f.opcode then
    if f.fin ∧ f.payload.length ≤ 125 then some r else none
  else
    match r.current with
    | none =>
      -- nothing is there to be continued
      if f.opcode = 0 then none else some (r.advance ⟨f.opcode, f.payload⟩ f.fin)
    | some m =>
      if f.opcode = 0 then some (r.advance ⟨m.opcode, m.payload ++ f.payload⟩ f.fin) else none

/-- Frames arrive; after one that is refused the connection is failed, and the
frames that follow are not looked at. -/
def receiveAll (masked : Bool) : Receiver → List Frame → Receiver
  | r, [] => r
  | r, f :: fs =>
    match receive masked r f with
    | none => r
    | some r' => receiveAll masked r' fs

/-- The messages that have been delivered out of a stream. -/
def delivered (masked : Bool) (bs : List UInt8) : List Message :=
  (receiveAll masked Receiver.start (format.split bs).1).messages

/-- The stream is whole frames, all of them accepted, that leave the receiver
in the given state. -/
def Carries (masked : Bool) (bs : List UInt8) (r : Receiver) : Prop :=
  ∃ frames, bs = format.join frames ∧ frames.foldlM (receive masked) Receiver.start = some r

variable {masked : Bool} {bs : List UInt8} {r r' : Receiver}

theorem Carries.nil : Carries masked [] Receiver.start := ⟨[], rfl, rfl⟩

/-- One more whole frame is received in the end. -/
theorem Carries.frame (h : Carries masked bs r) {f : Frame} (hf : receive masked r f = some r') :
    Carries masked (bs ++ f.text) r' := by
  rcases h with ⟨frames, rfl, hframes⟩
  refine ⟨frames ++ [f], ?_, ?_⟩
  · rw [format.join_append, format.join_cons, format.join_nil, List.append_nil]
    rfl
  · rw [List.foldlM_append, hframes]
    simp [hf]

/-- Frames are received one after another. -/
theorem receiveAll_append {frames : List Frame} (h : frames.foldlM (receive masked) r = some r')
    (fs : List Frame) : receiveAll masked r (frames ++ fs) = receiveAll masked r' fs := by
  induction frames generalizing r with
  | nil =>
    obtain rfl : r = r' := by simpa using h
    rfl
  | cons f frames ih =>
    rw [List.foldlM_cons] at h
    obtain ⟨r1, hf, hrest⟩ := Option.bind_eq_some_iff.mp h
    rw [List.cons_append, receiveAll, hf]
    exact ih hrest

/-- What has been delivered stays delivered, and nothing is added to it from a
point on at which no frame follows, or one that is refused. -/
theorem Carries.delivered (h : Carries masked bs r) (tail : List UInt8)
    (htail : ∀ f rest, parseFrame tail = some (f, rest) → receive masked r f = none) :
    delivered masked (bs ++ tail) = r.messages := by
  rcases h with ⟨frames, rfl, hframes⟩
  rcases format.exists_split tail with ⟨fs, rest, htext, hrest⟩
  have hsplit : format.split (format.join frames ++ tail) = (frames ++ fs, rest) := by
    rw [htext, ← List.append_assoc, ← format.join_append]
    exact format.split_unique _ _ hrest
  rw [SocketFrames.delivered, hsplit, receiveAll_append hframes]
  cases fs with
  | nil => rfl
  | cons f fs =>
    -- the next frame is refused
    have hparse : parseFrame tail = some (f, format.join fs ++ rest) := by
      rw [htext, format.join_cons, List.append_assoc]
      exact parseFrame_text f _
    rw [receiveAll, htail f _ hparse]

theorem Carries.delivered_eq (h : Carries masked bs r) :
    SocketFrames.delivered masked bs = r.messages := by
  have hnil := h.delivered [] (by
    intro f rest hparse
    exact absurd hparse (by simp [parseFrame]))
  rwa [List.append_nil] at hnil

/-- A stream that is accepted as a whole goes on with a frame that is accepted. -/
theorem Carries.next (h : Carries masked bs r) {tail : List UInt8} (htail : tail ≠ [])
    (hall : Carries masked (bs ++ tail) r') :
    ∃ f rest, parseFrame tail = some (f, rest) ∧ receive masked r f ≠ none := by
  rcases h with ⟨frames, rfl, hframes⟩
  rcases hall with ⟨frames', hjoin, hframes'⟩
  have hprefix := format.prefix_of_split frames tail
  rw [hjoin, format.split_join] at hprefix
  rcases hprefix with ⟨fs, rfl⟩
  rw [format.join_append, List.append_cancel_left_eq] at hjoin
  rw [List.foldlM_append, hframes] at hframes'
  cases fs with
  | nil => exact absurd hjoin htail
  | cons f fs =>
    refine ⟨f, format.join fs, ?_, ?_⟩
    · rw [hjoin, format.join_cons]
      exact parseFrame_text f _
    · intro hrefused
      simp [hrefused] at hframes'

/-! ## Messages in pieces -/

/-- A message with the given opcode is being sent, `payload` of it has been
received, and its next frame has the opcode `next`. -/
inductive Midway (opcode : Fin 16) (messages : List Message) :
    Fin 16 → List UInt8 → Receiver → Prop
  | fresh : Midway opcode messages opcode [] ⟨none, messages⟩
  | begun (payload : List UInt8) :
    Midway opcode messages 0 payload ⟨some ⟨opcode, payload⟩, messages⟩

theorem isData_spec {opcode : Fin 16} (h : isData opcode = true) :
    isReserved opcode = false ∧ isControl opcode = false ∧ opcode ≠ 0 := by
  have hcases : opcode = 1 ∨ opcode = 2 := by simpa [isData] using h
  rcases hcases with rfl | rfl <;> exact ⟨rfl, rfl, by decide⟩

variable {opcode next : Fin 16} {messages : List Message} {payload : List UInt8}

/-- A continuation adds its payload to the message that has begun. -/
theorem Midway.receive (hdata : isData opcode = true)
    (h : Midway opcode messages next payload r) {f : Frame} (hkey : f.key.isSome = masked)
    (hop : f.opcode = next) :
    receive masked r f = some (r.advance ⟨opcode, payload ++ f.payload⟩ f.fin) := by
  obtain ⟨hreserved, hcontrol, hne⟩ := isData_spec hdata
  cases h with
  | fresh => simp [SocketFrames.receive, hkey, hop, hreserved, hcontrol, hne]
  | begun payload =>
    have h0 : isReserved 0 = false ∧ isControl 0 = false := ⟨rfl, rfl⟩
    simp [SocketFrames.receive, hkey, hop, h0]

theorem Midway.messages_eq (h : Midway opcode messages next payload r) :
    r.messages = messages := by
  cases h <;> rfl

/-- A frame that is not final adds its payload to the message. -/
theorem Midway.more (hdata : isData opcode = true) (h : Midway opcode messages next payload r)
    {f : Frame} (hkey : f.key.isSome = masked) (hop : f.opcode = next) (hfin : f.fin = false) :
    ∃ r', SocketFrames.receive masked r f = some r' ∧
      Midway opcode messages 0 (payload ++ f.payload) r' := by
  refine ⟨_, h.receive hdata hkey hop, ?_⟩
  rw [Receiver.advance, hfin, h.messages_eq]
  exact .begun _

/-- The final frame completes it. -/
theorem Midway.last (hdata : isData opcode = true) (h : Midway opcode messages next payload r)
    {f : Frame} (hkey : f.key.isSome = masked) (hop : f.opcode = next) (hfin : f.fin = true) :
    SocketFrames.receive masked r f =
      some ⟨none, messages ++ [⟨opcode, payload ++ f.payload⟩]⟩ := by
  rw [h.receive hdata hkey hop, Receiver.advance, hfin, h.messages_eq]
  rfl

end SocketFrames
