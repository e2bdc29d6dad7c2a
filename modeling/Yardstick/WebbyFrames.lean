import Yardstick.WebbyConnection

/-!
# WebbyFrames — the headers of WebSocket frames, written and scanned

`make_websocket_header` writes the header of an outgoing frame,
`scan_websocket_frame` looks for one at the front of what is buffered.

* `makeWebsocketHeader_eq`: the header that is written is the one of the frame;
* `scanWebsocketFrame_text`: of any frame, whatever its key and its length, the
  scan finds the header exactly when all of it is buffered, and then the fields
  it returns are those of the frame, but for the length, which wraps.
-/

namespace Yardstick.WebbyFrames

open SocketFrames WebbyConnection

/-! ## Opcodes -/

def WEBBY_WS_OP_CONTINUATION : UInt8 := 0
/-- What the sink begins its messages with. -/
def WEBBY_WS_OP_BINARY_FRAME : Fin 16 := ⟨2, by decide⟩
def WEBBY_WS_OP_CLOSE : UInt8 := 8
def WEBBY_WS_OP_PING : UInt8 := 9
def WEBBY_WS_OP_PONG : UInt8 := 10

def websocketPong : List UInt8 := [0x80, WEBBY_WS_OP_PONG, 0x00]

/-! ## Writing -/

/-- `(unsigned char) x`. -/
def lowByte (x : BitVec 32) : UInt8 := UInt8.ofBitVec (x.setWidth 8)

def makeWebsocketHeader (opcode : UInt8) (payloadLen : BitVec 32) (fin : Bool) : List UInt8 :=
  let head := (if fin then 0x80 else 0x00) ||| opcode
  if payloadLen.toInt < 126 then [head, lowByte (payloadLen &&& 0x7f)]
  else if payloadLen.toInt < 65536 then
    [head, 126, lowByte (payloadLen.sshiftRight 8), lowByte payloadLen]
  else
    [head, 127, 0, 0, 0, 0, lowByte (payloadLen.sshiftRight 24),
      lowByte (payloadLen.sshiftRight 16), lowByte (payloadLen.sshiftRight 8), lowByte payloadLen]

/-! ## Scanning -/

/-- The four bytes of the mask word. -/
def maskWord (data : List UInt8) (old : Key) : Key :=
  match data with
  | a :: b :: c :: d :: _ => ⟨#[a, b, c, d], rfl⟩
  | _ => old

/-- `scan_websocket_frame`: `none` for -1. A frame that is not masked leaves the
`mask_key` it finds. -/
def scanWebsocketFrame (buf : Buffer) (frame : WsFrame) : Option WsFrame :=
  match buf.data with
  | header0 :: header1 :: data =>
    let fin := header0 &&& 0x80 != 0
    let masked := header1 &&& 0x80 != 0
    let maskBytes := if masked then 4 else 0
    let opcode := header0 &&& 0xf
    let len := header1 &&& 0x7f
    let lenBytes := if len = 126 then 2 else if len = 127 then 8 else 0
    if data.length < lenBytes + maskBytes then none
    else
      let start : BitVec 32 := if lenBytes = 0 then len.toBitVec.setWidth 32 else 0
      -- this will totally overflow for 64-bit values
      let length :=
        (data.take lenBytes).foldl
          (fun (n : BitVec 32) (b : UInt8) => n <<< 8 ||| b.toBitVec.setWidth 32) start
      some
        { fin := fin
          masked := masked
          opcode := opcode
          headerSize := 2 + lenBytes + maskBytes
          maskKey := if masked then maskWord (data.drop lenBytes) frame.maskKey else frame.maskKey
          payloadLength := length }
  | _ => none

/-! ## What is written -/

theorem lowByte_toNat (x : BitVec 32) : (lowByte x).toNat = x.toNat % 256 := by
  simp [lowByte]

theorem lowByte_eq (x : BitVec 32) : lowByte x = UInt8.ofNat x.toNat := by
  apply UInt8.toNat_inj.mp
  rw [lowByte_toNat, UInt8.toNat_ofNat']

theorem head_or (fin : Bool) (opcode : Fin 16) :
    (if fin then 0x80 else 0x00) ||| UInt8.ofNat opcode.val =
      UInt8.ofNat ((if fin then 128 else 0) + opcode.val) := by
  revert fin opcode
  decide

theorem sshiftRight_toNat {x : BitVec 32} (h : x.toNat < 2 ^ 31) (n : ℕ) :
    (x.sshiftRight n).toNat = x.toNat / 2 ^ n := by
  have hmsb : x.msb = false := by
    rw [BitVec.msb_eq_false_iff_two_mul_lt]
    omega
  rw [BitVec.sshiftRight_eq_of_msb_false hmsb, BitVec.toNat_ushiftRight,
    Nat.shiftRight_eq_div_pow]

theorem bigBytes_two (n : ℕ) : bigBytes 2 n = [UInt8.ofNat (n / 256), UInt8.ofNat n] := rfl

/-- A length of 32 bits written in eight bytes begins with four zeros. -/
theorem bigBytes_eight {n : ℕ} (h : n < 2 ^ 32) : bigBytes 8 n =
    [0, 0, 0, 0, UInt8.ofNat (n / 2 ^ 24), UInt8.ofNat (n / 2 ^ 16), UInt8.ofNat (n / 2 ^ 8),
      UInt8.ofNat n] := by
  have h2 : n / 256 / 256 = n / 2 ^ 16 := by omega
  have h3 : n / 2 ^ 16 / 256 = n / 2 ^ 24 := by omega
  have h4 : n / 2 ^ 24 / 256 = 0 := by omega
  simp only [bigBytes, LittleEndian.toBytes, h2, h3, h4, Nat.zero_div, List.reverse_cons,
    List.reverse_nil, List.nil_append, List.cons_append]
  rfl

/-- The header that is written is that of the frame. -/
theorem makeWebsocketHeader_eq (f : Frame) (hkey : f.key = none) (hlen : f.payload.length < 2 ^ 31) :
    makeWebsocketHeader (UInt8.ofNat f.opcode.val) (BitVec.ofNat 32 f.payload.length) f.fin =
      f.header := by
  -- below 2^31 the signed length is the length
  have htoNat : (BitVec.ofNat 32 f.payload.length).toNat = f.payload.length := by
    rw [BitVec.toNat_ofNat]
    omega
  have htoInt : (BitVec.ofNat 32 f.payload.length).toInt = f.payload.length := by
    rw [BitVec.toInt_eq_toNat_of_lt (by omega), htoNat]
  have hlow : ∀ k, lowByte ((BitVec.ofNat 32 f.payload.length).sshiftRight k) =
      UInt8.ofNat (f.payload.length / 2 ^ k) := by
    intro k
    rw [lowByte_eq, sshiftRight_toNat (by omega), htoNat]
  have hhead := head_or f.fin f.opcode
  simp only [makeWebsocketHeader, htoInt, hhead, hlow, lowByte_eq, htoNat, Frame.header, Frame.head,
    Frame.second, hkey, keyBytes, lengthBytes, lengthCode]
  -- the three forms of a length
  by_cases hsmall : f.payload.length < 126
  · have hcast : (f.payload.length : ℤ) < 126 := by omega
    have hand : (BitVec.ofNat 32 f.payload.length &&& 0x7f).toNat = f.payload.length := by
      rw [BitVec.toNat_and, htoNat]
      exact Nat.and_two_pow_sub_one_of_lt_two_pow (n := 7) (by omega)
    rw [if_pos hcast, if_pos hsmall, if_pos hsmall, hand]
    simp
  · have hcast : ¬ (f.payload.length : ℤ) < 126 := by omega
    by_cases hmiddle : f.payload.length < 65536
    · have hcast' : (f.payload.length : ℤ) < 65536 := by omega
      simp [hsmall, hmiddle, hcast, bigBytes_two]
    · have hcast' : ¬ (f.payload.length : ℤ) < 65536 := by omega
      simp [hsmall, hmiddle, hcast, hcast', bigBytes_eight (show f.payload.length < 2 ^ 32 by omega)]

/-! ## What is scanned -/

theorem head_bits (fin : Bool) (opcode : Fin 16) :
    ((UInt8.ofNat ((if fin then 128 else 0) + opcode.val) &&& 0x80 != 0) = fin) ∧
    UInt8.ofNat ((if fin then 128 else 0) + opcode.val) &&& 0xf = UInt8.ofNat opcode.val := by
  revert fin opcode
  decide

theorem second_bits (masked : Bool) (code : Fin 128) :
    ((UInt8.ofNat ((if masked then 128 else 0) + code.val) &&& 0x80 != 0) = masked) ∧
    UInt8.ofNat ((if masked then 128 else 0) + code.val) &&& 0x7f = UInt8.ofNat code.val := by
  revert masked code
  decide

/-- `len <<= 8; len |= byte`, with what overflows lost. -/
theorem shift_or_byte (n : ℕ) (b : UInt8) :
    BitVec.ofNat 32 n <<< 8 ||| b.toBitVec.setWidth 32 = BitVec.ofNat 32 (n * 256 + b.toNat) := by
  have hb : b.toNat < 2 ^ 8 := b.toNat_lt
  apply BitVec.eq_of_toNat_eq
  have hbyte : (b.toBitVec.setWidth 32).toNat = b.toNat := by
    rw [BitVec.toNat_setWidth]
    exact Nat.mod_eq_of_lt (by omega)
  have hshift : (BitVec.ofNat 32 n <<< 8).toNat = (n % 2 ^ 24) <<< 8 := by
    rw [BitVec.toNat_shiftLeft, BitVec.toNat_ofNat, Nat.shiftLeft_eq, Nat.shiftLeft_eq]
    omega
  rw [BitVec.toNat_or, hshift, hbyte, ← Nat.shiftLeft_add_eq_or_of_lt hb, Nat.shiftLeft_eq,
    BitVec.toNat_ofNat]
  omega

theorem foldl_shift_or (bs : List UInt8) (n : ℕ) :
    bs.foldl (fun (n : BitVec 32) (b : UInt8) => n <<< 8 ||| b.toBitVec.setWidth 32)
      (BitVec.ofNat 32 n) = BitVec.ofNat 32 (n * 256 ^ bs.length + ofBigBytes bs) := by
  rw [← ofBigBytes_foldl]
  induction bs generalizing n with
  | nil => rfl
  | cons b bs ih => rw [List.foldl_cons, shift_or_byte, ih, List.foldl_cons]

theorem maskWord_append (key old : Key) (rest : List UInt8) :
    maskWord (key.toList ++ rest) old = key := by
  rcases key with ⟨⟨l⟩, hl⟩
  rcases l with _ | ⟨a, _ | ⟨b, _ | ⟨c, _ | ⟨d, _ | ⟨e, l⟩⟩⟩⟩⟩ <;> simp at hl
  rfl

/-- How many length bytes the scan expects after the code of a length. -/
theorem lengthBytes_length (n : ℕ) :
    (if UInt8.ofNat (lengthCode n) = 126 then 2
      else if UInt8.ofNat (lengthCode n) = 127 then 8 else 0) = (lengthBytes n).length := by
  by_cases hsmall : n < 126
  · have hne : ∀ k : Fin 126, UInt8.ofNat k.val ≠ 126 ∧ UInt8.ofNat k.val ≠ 127 := by decide
    obtain ⟨h126, h127⟩ := hne ⟨n, hsmall⟩
    simp [lengthCode, lengthBytes, hsmall, h126, h127]
  · have h127 : ¬ UInt8.ofNat 127 = 126 := by decide
    by_cases hmiddle : n < 65536
    · rw [lengthCode, lengthBytes, if_neg hsmall, if_neg hsmall, if_pos hmiddle, if_pos hmiddle,
        bigBytes_length]
      rfl
    · rw [lengthCode, lengthBytes, if_neg hsmall, if_neg hsmall, if_neg hmiddle, if_neg hmiddle,
        bigBytes_length, if_neg h127]
      rfl

/-- The length the scan reads, given the length bytes. -/
theorem scanned_length {n : ℕ} (h : n < 2 ^ 63) :
    (lengthBytes n).foldl (fun (n : BitVec 32) (b : UInt8) => n <<< 8 ||| b.toBitVec.setWidth 32)
      (if (lengthBytes n).length = 0 then (UInt8.ofNat (lengthCode n)).toBitVec.setWidth 32 else 0) =
      BitVec.ofNat 32 n := by
  by_cases hsmall : n < 126
  · -- the length is in the second byte
    have hcode : (UInt8.ofNat n).toBitVec.setWidth 32 = BitVec.ofNat 32 n := by
      apply BitVec.eq_of_toNat_eq
      simp
      omega
    simp [lengthBytes, lengthCode, hsmall, hcode]
  · -- or in two or eight bytes behind it
    have hbytes : lengthBytes n = bigBytes (lengthBytes n).length n ∧
        n < 256 ^ (lengthBytes n).length ∧ (lengthBytes n).length ≠ 0 := by
      unfold lengthBytes
      split_ifs with hmiddle
      · simp
        omega
      · simp
        omega
    obtain ⟨heq, hlt, hne⟩ := hbytes
    have hfold := foldl_shift_or (lengthBytes n) 0
    have hvalue : ofBigBytes (lengthBytes n) = n := by
      rw [heq]
      exact ofBigBytes_bigBytes hlt
    rw [hvalue, Nat.zero_mul, Nat.zero_add] at hfold
    rw [if_neg hne]
    exact hfold

/-- The fields of a frame as the scan returns them. -/
def scanned (f : Frame) (old : WsFrame) : WsFrame :=
  { fin := f.fin
    masked := f.key.isSome
    opcode := UInt8.ofNat f.opcode.val
    headerSize := f.header.length
    maskKey := f.key.getD old.maskKey
    payloadLength := BitVec.ofNat 32 f.payload.length }

theorem header_length (f : Frame) : f.header.length =
    2 + (lengthBytes f.payload.length).length + if f.key.isSome then 4 else 0 := by
  simp [Frame.header]
  omega

/-- Of the length bytes, the key and what follows, enough is there for the
first two. -/
theorem take_parts (f : Frame) (rest : List UInt8) (old : WsFrame) {m : ℕ}
    (hm : (lengthBytes f.payload.length).length + (keyBytes f.key).length ≤ m) :
    ((lengthBytes f.payload.length ++ (keyBytes f.key ++ rest)).take m).take
        (lengthBytes f.payload.length).length = lengthBytes f.payload.length ∧
      (if f.key.isSome then
        maskWord (((lengthBytes f.payload.length ++ (keyBytes f.key ++ rest)).take m).drop
          (lengthBytes f.payload.length).length) old.maskKey
      else old.maskKey) = f.key.getD old.maskKey := by
  constructor
  · rw [List.take_take, Nat.min_eq_left (by omega), List.take_left]
  · rw [List.drop_take, List.drop_left]
    cases hkey : f.key with
    | none => rfl
    | some key =>
      have hlen : (keyBytes f.key).length ≤ m - (lengthBytes f.payload.length).length := by omega
      rw [hkey] at hlen
      rw [List.take_append, List.take_of_length_le hlen]
      exact maskWord_append key old.maskKey _

/-- The scan of the first `n` bytes of a stream that begins with a frame. -/
theorem scanWebsocketFrame_text (f : Frame) (rest : List UInt8) (max n : ℕ) (old : WsFrame) :
    scanWebsocketFrame ⟨max, (f.text ++ rest).take n⟩ old =
      if n < f.header.length then none else some (scanned f old) := by
  have hheader := header_length f
  rcases n with _ | _ | m
  · -- fewer than two bytes: not even the fixed part
    rw [if_pos (by omega)]
    rfl
  · rw [if_pos (by omega)]
    rfl
  · have hcode := lengthCode_le f.payload.length
    -- the fields of the two fixed bytes
    have hfin : (f.head &&& 0x80 != 0) = f.fin := (head_bits f.fin f.opcode).1
    have hopcode : f.head &&& 0xf = UInt8.ofNat f.opcode.val := (head_bits f.fin f.opcode).2
    have hmasked : (f.second &&& 0x80 != 0) = f.key.isSome :=
      (second_bits f.key.isSome ⟨lengthCode f.payload.length, by omega⟩).1
    have hlow : f.second &&& 0x7f = UInt8.ofNat (lengthCode f.payload.length) :=
      (second_bits f.key.isSome ⟨lengthCode f.payload.length, by omega⟩).2
    have hkey := keyBytes_length f.key
    have htext : f.text ++ rest = f.head :: f.second :: (lengthBytes f.payload.length ++
        (keyBytes f.key ++ (maskedPayload f.key f.payload ++ rest))) := by
      simp [Frame.text, Frame.header]
    have hdata : (lengthBytes f.payload.length).length + (keyBytes f.key).length ≤
        (lengthBytes f.payload.length ++ (keyBytes f.key ++
          (maskedPayload f.key f.payload ++ rest))).length := by
      simp only [List.length_append]
      omega
    simp only [htext, List.take_succ_cons, scanWebsocketFrame, hfin, hopcode, hmasked, hlow,
      lengthBytes_length, List.length_take, ← hkey]
    -- the length and the key, if they are buffered as a whole
    by_cases hm : m + 1 + 1 < f.header.length
    · rw [if_pos hm, if_pos (by omega)]
    · obtain ⟨htake, hmask⟩ := take_parts f (maskedPayload f.key f.payload ++ rest) old (m := m)
        (by omega)
      rw [if_neg hm, if_neg (by omega), htake, hmask, scanned_length f.payload_lt]
      simp only [scanned, hheader, hkey]

end Yardstick.WebbyFrames
