import Yardstick.Base.Base64
import Yardstick.Base.BlockHash
import Yardstick.WebbyResponses

/-!
# WebbyHandshake — SHA-1, base64 and the upgrade to a WebSocket

The upgrade answers the client's key with a hash of it, in base64. `sha1_update`
copies what it is given into a block and compresses the block when it is full;
`sha1_final` pads the message by calling `sha1_update` on single bytes.
`base64_encode` works on three bytes at a time and breaks the line once, after
the 19th group.

* `sha1Final_updates`: in whatever pieces a message is hashed, the digest is that
  of its padded blocks;
* `base64Encode_decodes`: what is encoded fits the size computed for it and
  decodes to the input;
* `upgrade_accept`: the upgrade answers with the hash of the key and the GUID.
-/

namespace Yardstick.WebbyHandshake

open SocketFrames WebbyConnection WebbyOutput WebbyResponses

variable {σ : Type*}

/-! ## SHA-1 -/

/-- `sha1_rol`. -/
def sha1Rol (value : BitVec 32) (bits : ℕ) : BitVec 32 := value <<< bits ||| value >>> (32 - bits)

/-- The five words of `state`. -/
structure Words where
  a : BitVec 32
  b : BitVec 32
  c : BitVec 32
  d : BitVec 32
  e : BitVec 32
  deriving DecidableEq

/-- A big-endian word of the block. -/
def blockWord (block : List UInt8) (i : ℕ) : BitVec 32 :=
  let byte (k : ℕ) : BitVec 32 := (block.getD (i * 4 + k) 0).toBitVec.setWidth 32
  byte 0 <<< 24 ||| byte 1 <<< 16 ||| byte 2 <<< 8 ||| byte 3

/-- The message schedule from the 17th word on: `n` more words. -/
def extendSchedule : ℕ → Array (BitVec 32) → Array (BitVec 32)
  | 0, w => w
  | n + 1, w =>
    let word (k : ℕ) : BitVec 32 := w.getD (w.size - k) 0
    extendSchedule n (w.push (sha1Rol (word 3 ^^^ word 8 ^^^ word 14 ^^^ word 16) 1))

def schedule (block : List UInt8) : Array (BitVec 32) :=
  extendSchedule 64 ((List.range 16).map (blockWord block)).toArray

/-- The function and the constant of a span of 20 words. -/
def sha1Span (i : ℕ) (s : Words) : BitVec 32 × BitVec 32 :=
  if i < 20 then ((s.b &&& s.c) ^^^ (~~~s.b &&& s.d), 0x5a827999)
  else if i < 40 then (s.b ^^^ s.c ^^^ s.d, 0x6ed9eba1)
  else if i < 60 then ((s.b &&& s.c) ^^^ (s.b &&& s.d) ^^^ (s.c &&& s.d), 0x8f1bbcdc)
  else (s.b ^^^ s.c ^^^ s.d, 0xca62c1d6)

def sha1Round (w : Array (BitVec 32)) (s : Words) (i : ℕ) : Words :=
  let t := sha1Rol s.a 5 + (sha1Span i s).1 + s.e + (sha1Span i s).2 + w.getD i 0
  ⟨t, s.a, sha1Rol s.b 30, s.c, s.d⟩

def sha1HashBlock (state : Words) (block : List UInt8) : Words :=
  let r := (List.range 80).foldl (sha1Round (schedule block)) state
  ⟨state.a + r.a, state.b + r.b, state.c + r.c, state.d + r.d, state.e + r.e⟩

/-- A `struct sha1`, with the used part of its buffer. -/
structure Sha1 where
  state : Words
  msgSizeHi : BitVec 32
  msgSizeLo : BitVec 32
  buffer : List UInt8

def sha1Init : Sha1 :=
  ⟨⟨0x67452301, 0xefcdab89, 0x98badcfe, 0x10325476, 0xc3d2e1f0⟩, 0, 0, []⟩

/-- The loop of `sha1_update`, for at most `fuel` bytes: at least one is copied
each time round. -/
def updateLoop : ℕ → Words → List UInt8 → List UInt8 → Words × List UInt8
  | 0, state, buffer, _ => (state, buffer)
  | fuel + 1, state, buffer, data =>
    if data = [] then (state, buffer)
    else
      let space := 64 - buffer.length
      let buffer := buffer ++ data.take space
      if buffer.length = 64 then updateLoop fuel (sha1HashBlock state buffer) [] (data.drop space)
      else updateLoop fuel state buffer (data.drop space)

def sha1Update (s : Sha1) (data : List UInt8) : Sha1 :=
  let r := updateLoop data.length s.state s.buffer data
  let lo := s.msgSizeLo + BitVec.ofNat 32 (data.length * 8)
  { state := r.1
    msgSizeHi := if lo < s.msgSizeLo then s.msgSizeHi + 1 else s.msgSizeHi
    msgSizeLo := lo
    buffer := r.2 }

/-- The bytes of a word, most significant first. -/
def wordBytes (word : BitVec 32) : List UInt8 :=
  [(word >>> 24).setWidth 8, (word >>> 16).setWidth 8, (word >>> 8).setWidth 8,
    word.setWidth 8].map UInt8.ofBitVec

/-- `while (s->buf_used != 56) sha1_update(s, &zero, 1)`, `fuel` times at most. -/
def padZeros : ℕ → Sha1 → Sha1
  | 0, s => s
  | fuel + 1, s => if s.buffer.length ≠ 56 then padZeros fuel (sha1Update s [0]) else s

/-- `sha1_final`: the digest. -/
def sha1Final (s : Sha1) : List UInt8 :=
  let countData := wordBytes s.msgSizeHi ++ wordBytes s.msgSizeLo
  let s := sha1Update s [0x80]
  let s := padZeros 64 s
  let s := sha1Update s countData
  wordBytes s.state.a ++ wordBytes s.state.b ++ wordBytes s.state.c ++ wordBytes s.state.d ++
    wordBytes s.state.e

/-! ## Base64 -/

/-- `base64_bufsize`. -/
def base64Bufsize (inputSize : ℕ) : ℕ :=
  let triplets := (inputSize + 2) / 3
  4 * triplets + 2 * (triplets / 19) + 1

def enc (i : BitVec 32) : UInt8 :=
  (ascii "ABCDEFGHIJKLMNOPQRSTUVWXYZabcdefghijklmnopqrstuvwxyz0123456789+/=").getD i.toNat 0

/-- The four bytes written for three of the input, of which `left` are there. -/
def base64Quad (x y z : UInt8) (left : ℕ) : Text :=
  let i0 : BitVec 32 :=
    x.toBitVec.setWidth 32 <<< 16 ||| y.toBitVec.setWidth 32 <<< 8 ||| z.toBitVec.setWidth 32
  let idx (k : ℕ) : BitVec 32 := (i0 <<< (6 * k) &&& 0xfc0000) >>> 18
  [enc (idx 0), enc (idx 1), enc (if left ≤ 1 then 64 else idx 2),
    enc (if left ≤ 2 then 64 else idx 3)]

/-- `if (++line_out == BASE64_QUADS_BEFORE_LINEBREAK)`. -/
def lineBreak (lineOut : ℕ) : Text := if lineOut + 1 = 19 then crlf else []

/-- The loop of `base64_encode`; `line_out` only grows. -/
def base64Loop : List UInt8 → ℕ → Text
  | [], _ => []
  | [x], lineOut => base64Quad x 0 0 1 ++ lineBreak lineOut
  | [x, y], lineOut => base64Quad x y 0 2 ++ lineBreak lineOut
  | x :: y :: z :: rest, lineOut =>
    base64Quad x y z 3 ++ lineBreak lineOut ++ base64Loop rest (lineOut + 1)

/-- `base64_encode`: `none` when the output is too small. -/
def base64Encode (outputSize : ℕ) (input : List UInt8) : Option Text :=
  if outputSize < base64Bufsize input.length then none else some (base64Loop input 0)

/-! ## The digest of a message in pieces -/

/-- What a hash in progress has taken in. -/
def stream (s : Sha1) : BlockHash.Progress Words UInt8 := ⟨s.state, s.buffer⟩

/-- The number of bits hashed, as it is kept. -/
def bits (s : Sha1) : ℕ := s.msgSizeHi.toNat * 2 ^ 32 + s.msgSizeLo.toNat

/-- What is added to a message of `n` bytes: a one bit, zeros, and the length. -/
def padding (n : ℕ) : List UInt8 :=
  0x80 :: (List.replicate ((119 - n % 64) % 64) 0 ++ bigBytes 8 (8 * n))

/-- `sha1_update` takes the bytes up block by block. -/
theorem updateLoop_eq {fuel : ℕ} {state : Words} {buffer data : List UInt8}
    (hfuel : data.length ≤ fuel) (hbuffer : buffer.length < 64) :
    updateLoop fuel state buffer data =
      ((BlockHash.absorb 64 sha1HashBlock ⟨state, buffer⟩ data).state,
        (BlockHash.absorb 64 sha1HashBlock ⟨state, buffer⟩ data).pending) := by
  induction fuel generalizing state buffer data with
  | zero =>
    obtain rfl : data = [] := List.length_eq_zero_iff.mp (Nat.le_zero.mp hfuel)
    rfl
  | succ fuel ih =>
    rw [updateLoop]
    split
    · rename_i hnil
      subst hnil
      rfl
    · rename_i hne
      have hpos : 0 < data.length := List.length_pos_iff.mpr hne
      dsimp only
      by_cases hfull : 64 - buffer.length ≤ data.length
      · -- the block is filled and compressed
        have htake : (data.take (64 - buffer.length)).length = 64 - buffer.length := by
          rw [List.length_take]
          omega
        have hlen : (buffer ++ data.take (64 - buffer.length)).length = 64 := by
          rw [List.length_append, htake]
          omega
        have htaken : data.take (64 - buffer.length) ≠ [] := by
          intro hnil
          rw [hnil] at htake
          simp at htake
          omega
        have hfill := BlockHash.absorb_fill 64 sha1HashBlock (s := ⟨state, buffer⟩) htaken
          (by simpa using hlen)
        rw [if_pos hlen, ih (by rw [List.length_drop]; omega) (by simp)]
        conv => rhs; rw [← List.take_append_drop (64 - buffer.length) data]
        rw [BlockHash.absorb_append, hfill]
      · -- everything fits
        have hlen : ¬ (buffer ++ data.take (64 - buffer.length)).length = 64 := by
          rw [List.length_append, List.length_take]
          omega
        have hroom := BlockHash.absorb_room 64 sha1HashBlock (s := ⟨state, buffer⟩)
          (show buffer.length + data.length < 64 by omega)
        rw [if_neg hlen, hroom, List.drop_eq_nil_of_le (by omega), List.take_of_length_le (by omega)]
        cases fuel <;> rfl

theorem stream_update {s : Sha1} (h : s.buffer.length < 64) (data : List UInt8) :
    stream (sha1Update s data) = BlockHash.absorb 64 sha1HashBlock (stream s) data := by
  rw [stream, sha1Update, updateLoop_eq (Nat.le_refl _) h]
  rfl

theorem buffer_update {s : Sha1} (h : s.buffer.length < 64) (data : List UInt8) :
    (sha1Update s data).buffer.length = (s.buffer.length + data.length) % 64 := by
  have hpending := BlockHash.absorb_pending 64 sha1HashBlock (by omega) (s := stream s) h data
  rw [← stream_update h] at hpending
  exact hpending

/-- The bits are counted, if the piece is not too long for the count. -/
theorem bits_update (s : Sha1) {data : List UInt8} (h : data.length < 2 ^ 29)
    (hfit : bits s + 8 * data.length < 2 ^ 64) :
    bits (sha1Update s data) = bits s + 8 * data.length := by
  have hlo := s.msgSizeLo.isLt
  have hx : (BitVec.ofNat 32 (data.length * 8)).toNat = data.length * 8 := by
    rw [BitVec.toNat_ofNat]
    omega
  have hsum : (s.msgSizeLo + BitVec.ofNat 32 (data.length * 8)).toNat =
      (s.msgSizeLo.toNat + data.length * 8) % 2 ^ 32 := by
    rw [BitVec.toNat_add, hx]
  unfold bits at hfit ⊢
  simp only [sha1Update, BitVec.lt_def, hsum]
  split
  · have hone : (1 : BitVec 32).toNat = 1 := rfl
    have hhi : (s.msgSizeHi + 1).toNat = s.msgSizeHi.toNat + 1 := by
      rw [BitVec.toNat_add, hone]
      omega
    rw [hhi]
    omega
  · omega

/-- The message hashed so far. -/
structure Hashed (s : Sha1) (message : List UInt8) : Prop where
  stream_eq : stream s = BlockHash.absorb 64 sha1HashBlock ⟨sha1Init.state, []⟩ message
  bits_eq : bits s = 8 * message.length

theorem Hashed.buffer_length {s : Sha1} {message : List UInt8} (h : Hashed s message) :
    s.buffer.length = message.length % 64 := by
  have hpending := BlockHash.absorb_pending 64 sha1HashBlock (by omega)
    (s := ⟨sha1Init.state, []⟩) (by simp) message
  rw [← h.stream_eq] at hpending
  simpa [stream] using hpending

/-- However it comes, a piece is hashed behind what came before. -/
theorem Hashed.update {s : Sha1} {message : List UInt8} (h : Hashed s message)
    {data : List UInt8} (hdata : data.length < 2 ^ 29)
    (hfit : 8 * (message ++ data).length < 2 ^ 64) :
    Hashed (sha1Update s data) (message ++ data) := by
  have hbuffer : s.buffer.length < 64 := by
    rw [h.buffer_length]
    exact Nat.mod_lt _ (by omega)
  rw [List.length_append] at hfit
  constructor
  · rw [stream_update hbuffer, h.stream_eq, BlockHash.absorb_append]
  · rw [bits_update s hdata (by rw [h.bits_eq]; omega), h.bits_eq, List.length_append]
    omega

/-- However a message is cut, what has been hashed is the whole of it. -/
theorem hashed_updates {pieces : List (List UInt8)} {s : Sha1} {message : List UInt8}
    (h : Hashed s message) (hpieces : ∀ piece ∈ pieces, piece.length < 2 ^ 29)
    (hfit : 8 * (message ++ pieces.flatten).length < 2 ^ 64) :
    Hashed (pieces.foldl sha1Update s) (message ++ pieces.flatten) := by
  induction pieces generalizing s message with
  | nil => simpa using h
  | cons piece pieces ih =>
    have hfirst : 8 * (message ++ piece).length < 2 ^ 64 := by
      simp only [List.flatten_cons, List.length_append] at hfit ⊢
      omega
    have hrest := ih (h.update (hpieces piece List.mem_cons_self) hfirst)
      (fun p hp => hpieces p (List.mem_cons_of_mem _ hp)) (by simpa using hfit)
    simpa using hrest

theorem hashed_init : Hashed sha1Init [] := ⟨rfl, rfl⟩

/-- The bytes of a word, the highest first. -/
theorem wordBytes_eq (word : BitVec 32) : wordBytes word = bigBytes 4 word.toNat := by
  have hlt := word.isLt
  have hbyte : ∀ n, UInt8.ofBitVec ((word >>> n).setWidth 8) = UInt8.ofNat (word.toNat / 2 ^ n) := by
    intro n
    apply UInt8.toNat_inj.mp
    rw [UInt8.toNat_ofNat']
    simp [Nat.shiftRight_eq_div_pow]
  have hlow : UInt8.ofBitVec (word.setWidth 8) = UInt8.ofNat word.toNat := by
    simpa using hbyte 0
  have h1 : word.toNat / 256 = word.toNat / 2 ^ 8 := by omega
  have h2 : word.toNat / 2 ^ 8 / 256 = word.toNat / 2 ^ 16 := by omega
  have h3 : word.toNat / 2 ^ 16 / 256 = word.toNat / 2 ^ 24 := by omega
  simp only [wordBytes, List.map_cons, List.map_nil, hbyte, hlow, bigBytes, LittleEndian.toBytes,
    h1, h2, h3, List.reverse_cons, List.reverse_nil, List.nil_append, List.cons_append]

/-- The two words of the count are its eight bytes. -/
theorem countData_eq {s : Sha1} {message : List UInt8} (h : Hashed s message) :
    wordBytes s.msgSizeHi ++ wordBytes s.msgSizeLo = bigBytes 8 (8 * message.length) := by
  have hlo := s.msgSizeLo.isLt
  have hbits := h.bits_eq
  unfold bits at hbits
  have hhi : 8 * message.length / 256 ^ 4 = s.msgSizeHi.toNat := by omega
  have hmod : 8 * message.length % 256 ^ 4 = s.msgSizeLo.toNat := by omega
  rw [wordBytes_eq, wordBytes_eq, bigBytes, bigBytes, bigBytes, LittleEndian.toBytes_add 4 4,
    List.reverse_append, hhi, LittleEndian.toBytes_mod 4 (8 * message.length), hmod]

/-- The zeros fill the block up to the place of the count. -/
theorem padZeros_stream (fuel : ℕ) {s : Sha1} (hbuffer : s.buffer.length < 64)
    (hfuel : (120 - s.buffer.length) % 64 ≤ fuel) :
    stream (padZeros fuel s) = BlockHash.absorb 64 sha1HashBlock (stream s)
      (List.replicate ((120 - s.buffer.length) % 64) 0) := by
  induction fuel generalizing s with
  | zero =>
    rw [Nat.le_zero.mp hfuel]
    rfl
  | succ fuel ih =>
    rw [padZeros]
    split
    · -- one zero more, until 56 bytes are buffered
      rename_i hne
      have hnext : (sha1Update s [0]).buffer.length = (s.buffer.length + 1) % 64 :=
        buffer_update hbuffer [0]
      have hcount : (120 - s.buffer.length) % 64 =
          (120 - (sha1Update s [0]).buffer.length) % 64 + 1 := by
        rw [hnext]
        omega
      rw [ih (by rw [hnext]; omega) (by omega), stream_update hbuffer, hcount,
        List.replicate_succ]
      rfl
    · rename_i hfull
      have hlen : s.buffer.length = 56 := not_not.mp hfull
      rw [hlen]
      rfl

/-- The digest a state is written as. -/
def digest (state : Words) : List UInt8 :=
  wordBytes state.a ++ wordBytes state.b ++ wordBytes state.c ++ wordBytes state.d ++
    wordBytes state.e

/-- The digest is that of the blocks of the padded message. -/
theorem sha1Final_hashed {s : Sha1} {message : List UInt8} (h : Hashed s message) :
    ∃ blocks : List (List UInt8), blocks.flatten = message ++ padding message.length ∧
      (∀ block ∈ blocks, block.length = 64) ∧
      sha1Final s = digest (blocks.foldl sha1HashBlock sha1Init.state) := by
  have hbuffer := h.buffer_length
  have hmod : message.length % 64 < 64 := Nat.mod_lt _ (by omega)
  -- the one bit, the zeros and the count
  have hone : (sha1Update s [0x80]).buffer.length = (s.buffer.length + 1) % 64 :=
    buffer_update (by omega) [0x80]
  have hzeros := padZeros_stream 64 (s := sha1Update s [0x80]) (by omega) (by omega)
  have hcount : (120 - (sha1Update s [0x80]).buffer.length) % 64 = (119 - message.length % 64) % 64 := by
    rw [hone, hbuffer]
    omega
  rw [hcount, stream_update (by omega), ← BlockHash.absorb_append, h.stream_eq,
    ← BlockHash.absorb_append] at hzeros
  have hpadded : (padZeros 64 (sha1Update s [0x80])).buffer.length < 64 := by
    have hpending := BlockHash.absorb_pending 64 sha1HashBlock (by omega)
      (s := ⟨sha1Init.state, []⟩) (by simp)
      (message ++ ([0x80] ++ List.replicate ((119 - message.length % 64) % 64) 0))
    rw [← hzeros] at hpending
    rw [show (padZeros 64 (sha1Update s [0x80])).buffer.length = _ from hpending]
    exact Nat.mod_lt _ (by omega)
  have hlast := stream_update hpadded (bigBytes 8 (8 * message.length))
  rw [hzeros, ← BlockHash.absorb_append] at hlast
  -- the padded message is whole blocks
  have hpadding : message ++ ([0x80] ++ List.replicate ((119 - message.length % 64) % 64) 0) ++
      bigBytes 8 (8 * message.length) = message ++ padding message.length := by
    simp [padding]
  have hwhole : 64 ∣ (message ++ padding message.length).length := by
    simp only [padding, List.length_append, List.length_cons, List.length_replicate,
      bigBytes_length]
    omega
  rcases BlockHash.exists_blocks 64 hwhole with ⟨blocks, hblocks, hlen⟩
  refine ⟨blocks, hblocks, hlen, ?_⟩
  rw [hpadding, ← hblocks, BlockHash.absorb_blocks 64 sha1HashBlock (by omega) hlen] at hlast
  have hstate := congrArg BlockHash.Progress.state hlast
  show digest (sha1Update (padZeros 64 (sha1Update s [0x80]))
    (wordBytes s.msgSizeHi ++ wordBytes s.msgSizeLo)).state = _
  rw [countData_eq h]
  exact congrArg digest hstate

/-- In whatever pieces a message is hashed, the digest is that of the blocks of
the padded message. -/
theorem sha1Final_updates {pieces : List (List UInt8)}
    (hpieces : ∀ piece ∈ pieces, piece.length < 2 ^ 29)
    (hfit : 8 * pieces.flatten.length < 2 ^ 64) :
    ∃ blocks : List (List UInt8),
      blocks.flatten = pieces.flatten ++ padding pieces.flatten.length ∧
      (∀ block ∈ blocks, block.length = 64) ∧
      sha1Final (pieces.foldl sha1Update sha1Init) =
        digest (blocks.foldl sha1HashBlock sha1Init.state) :=
  sha1Final_hashed (hashed_updates hashed_init hpieces hfit)

theorem sha1Final_three_pieces :
    ∃ blocks : List (List UInt8),
      blocks.flatten = [ascii "a", [], ascii "bc"].flatten ++
        padding [ascii "a", [], ascii "bc"].flatten.length ∧
      (∀ block ∈ blocks, block.length = 64) ∧
      sha1Final ([ascii "a", [], ascii "bc"].foldl sha1Update sha1Init) =
        digest (blocks.foldl sha1HashBlock sha1Init.state) :=
  sha1Final_updates (by decide) (by decide)

/-! ## What is encoded can be decoded -/

theorem enc_symbol (v : Fin 64) : enc (BitVec.ofNat 32 v.val) = Base64.symbol v.val := by
  revert v
  decide +kernel

/-- Six bits of the word, from the 18th on. -/
theorem sextet_toNat (v : BitVec 32) : ((v &&& 0xfc0000) >>> 18).toNat = v.toNat / 2 ^ 18 % 64 := by
  have hmask : (0xfc0000 : BitVec 32).toNat = 0xfc0000 := rfl
  rw [BitVec.toNat_ushiftRight, BitVec.toNat_and, hmask, Nat.shiftRight_and_distrib,
    Nat.shiftRight_eq_div_pow]
  exact Nat.and_two_pow_sub_one_eq_mod _ 6

/-- Three bytes as one word. -/
def tripleWord (x y z : UInt8) : BitVec 32 :=
  x.toBitVec.setWidth 32 <<< 16 ||| y.toBitVec.setWidth 32 <<< 8 ||| z.toBitVec.setWidth 32

/-- The 24 bits of three bytes. -/
theorem tripleWord_toNat (x y z : UInt8) :
    (tripleWord x y z).toNat = (x.toNat * 256 + y.toNat) * 256 + z.toNat := by
  have hx := x.toNat_lt
  have hy := y.toNat_lt
  have hz := z.toNat_lt
  have hwide : ∀ b : UInt8, (b.toBitVec.setWidth 32).toNat = b.toNat := by
    intro b
    have hb := b.toNat_lt
    rw [BitVec.toNat_setWidth, UInt8.toNat_toBitVec, Nat.mod_eq_of_lt (by omega)]
  have hlow : y.toNat <<< 8 ||| z.toNat = y.toNat <<< 8 + z.toNat :=
    (Nat.shiftLeft_add_eq_or_of_lt hz y.toNat).symm
  have hy8 : y.toNat <<< 8 = y.toNat * 256 := Nat.shiftLeft_eq _ _
  have hx16 : x.toNat <<< 16 = x.toNat * 65536 := Nat.shiftLeft_eq _ _
  have hhigh := Nat.shiftLeft_add_eq_or_of_lt
    (show y.toNat * 256 + z.toNat < 2 ^ 16 by omega) x.toNat
  rw [tripleWord, BitVec.toNat_or, BitVec.toNat_or, BitVec.toNat_shiftLeft, BitVec.toNat_shiftLeft,
    hwide, hwide, hwide, hx16, hy8, Nat.mod_eq_of_lt (by omega), Nat.mod_eq_of_lt (by omega),
    Nat.or_assoc]
  rw [hy8] at hlow
  rw [hlow]
  rw [hx16] at hhigh
  rw [← hhigh]
  omega

/-- The `k`th sextet of three bytes. -/
theorem sextet_triple (x y z : UInt8) {k : ℕ} (hk : k < 4) :
    ((tripleWord x y z <<< (6 * k) &&& 0xfc0000) >>> 18).toNat =
      ((x.toNat * 256 + y.toNat) * 256 + z.toNat) / 64 ^ (3 - k) % 64 := by
  have hx := x.toNat_lt
  have hy := y.toNat_lt
  have hz := z.toNat_lt
  rw [sextet_toNat, BitVec.toNat_shiftLeft, tripleWord_toNat, Nat.shiftLeft_eq]
  have h : k = 0 ∨ k = 1 ∨ k = 2 ∨ k = 3 := by omega
  rcases h with rfl | rfl | rfl | rfl
  · omega
  · omega
  · omega
  · omega

/-- The four signs of a group are taken from its 24 bits, from the top. -/
theorem enc_sextet (x y z : UInt8) {k : ℕ} (hk : k < 4) :
    enc ((tripleWord x y z <<< (6 * k) &&& 0xfc0000) >>> 18) =
      Base64.symbol (((x.toNat * 256 + y.toNat) * 256 + z.toNat) / 64 ^ (3 - k) % 64) := by
  have hlt := Nat.mod_lt (((x.toNat * 256 + y.toNat) * 256 + z.toNat) / 64 ^ (3 - k))
    (show 64 > 0 by omega)
  have hword := sextet_triple x y z hk
  rw [← enc_symbol ⟨_, hlt⟩]
  congr 1
  apply BitVec.eq_of_toNat_eq
  rw [BitVec.toNat_ofNat, hword]
  exact (Nat.mod_eq_of_lt (lt_trans hlt (by omega))).symm

theorem enc_padding : enc 64 = Base64.padding := by decide +kernel

/-- The four symbols of up to three bytes. -/
theorem base64Quad_eq (x y z : UInt8) (left : ℕ) :
    base64Quad x y z left =
      [Base64.symbol (x.toNat / 4), Base64.symbol (x.toNat % 4 * 16 + y.toNat / 16),
        if left ≤ 1 then Base64.padding else Base64.symbol (y.toNat % 16 * 4 + z.toNat / 64),
        if left ≤ 2 then Base64.padding else Base64.symbol (z.toNat % 64)] := by
  have hx := x.toNat_lt
  have hy := y.toNat_lt
  have hz := z.toNat_lt
  -- each shift moves the next six bits to the top of 24
  have h0 := enc_sextet x y z (show 0 < 4 by omega)
  have h1 := enc_sextet x y z (show 1 < 4 by omega)
  have h2 := enc_sextet x y z (show 2 < 4 by omega)
  have h3 := enc_sextet x y z (show 3 < 4 by omega)
  have e0 : ((x.toNat * 256 + y.toNat) * 256 + z.toNat) / 64 ^ (3 - 0) % 64 = x.toNat / 4 := by
    omega
  have e1 : ((x.toNat * 256 + y.toNat) * 256 + z.toNat) / 64 ^ (3 - 1) % 64 =
      x.toNat % 4 * 16 + y.toNat / 16 := by omega
  have e2 : ((x.toNat * 256 + y.toNat) * 256 + z.toNat) / 64 ^ (3 - 2) % 64 =
      y.toNat % 16 * 4 + z.toNat / 64 := by omega
  have e3 : ((x.toNat * 256 + y.toNat) * 256 + z.toNat) / 64 ^ (3 - 3) % 64 = z.toNat % 64 := by
    omega
  rw [e0] at h0
  rw [e1] at h1
  rw [e2] at h2
  rw [e3] at h3
  have hquad : base64Quad x y z left =
      [enc ((tripleWord x y z <<< (6 * 0) &&& 0xfc0000) >>> 18),
        enc ((tripleWord x y z <<< (6 * 1) &&& 0xfc0000) >>> 18),
        enc (if left ≤ 1 then 64 else (tripleWord x y z <<< (6 * 2) &&& 0xfc0000) >>> 18),
        enc (if left ≤ 2 then 64 else (tripleWord x y z <<< (6 * 3) &&& 0xfc0000) >>> 18)] := rfl
  rw [hquad, apply_ite enc, apply_ite enc, h0, h1, h2, h3, enc_padding]

theorem lineBreak_filter (lineOut : ℕ) :
    ((lineBreak lineOut).filter fun c => !Base64.isBreak c) = [] := by
  unfold lineBreak
  split
  · rfl
  · rfl

/-- No symbol of a group is a line end. -/
theorem base64Quad_filter (x y z : UInt8) (left : ℕ) :
    ((base64Quad x y z left).filter fun c => !Base64.isBreak c) = base64Quad x y z left := by
  have hx := x.toNat_lt
  have hy := y.toNat_lt
  have hz := z.toNat_lt
  -- no symbol is a line end
  have hsymbol : ∀ v < 64, Base64.isBreak (Base64.symbol v) = false :=
    fun v hv => (Base64.symbol_spec ⟨v, hv⟩).2.2
  have h0 := hsymbol (x.toNat / 4) (by omega)
  have h1 := hsymbol (x.toNat % 4 * 16 + y.toNat / 16) (by omega)
  have h2 := hsymbol (y.toNat % 16 * 4 + z.toNat / 64) (by omega)
  have h3 := hsymbol (z.toNat % 64) (by omega)
  have hpadding : Base64.isBreak Base64.padding = false := by decide
  rw [base64Quad_eq, List.filter_eq_self]
  intro c hc
  simp only [List.mem_cons, List.not_mem_nil, or_false] at hc
  rcases hc with rfl | rfl | rfl | rfl
  · rw [h0]
    rfl
  · rw [h1]
    rfl
  · split
    · rw [hpadding]
      rfl
    · rw [h2]
      rfl
  · split
    · rw [hpadding]
      rfl
    · rw [h3]
      rfl

/-- A decoder that skips line ends gets the input back. -/
theorem decode_base64Loop (input : List UInt8) (lineOut : ℕ) :
    Base64.decode (base64Loop input lineOut) = some input := by
  fun_induction base64Loop input lineOut with
  | case1 => rfl
  | case2 x lineOut =>
    rw [Base64.decode, List.filter_append, base64Quad_filter, lineBreak_filter, List.append_nil,
      base64Quad_eq]
    simpa [Base64.group1] using Base64.decodeGroups_group1 x
  | case3 x y lineOut =>
    rw [Base64.decode, List.filter_append, base64Quad_filter, lineBreak_filter, List.append_nil,
      base64Quad_eq]
    simpa [Base64.group2] using Base64.decodeGroups_group2 x y
  | case4 x y z rest lineOut ih =>
    rw [Base64.decode] at ih
    rw [Base64.decode, List.filter_append, List.filter_append, base64Quad_filter, lineBreak_filter,
      List.append_nil, base64Quad_eq]
    have hgroup := Base64.decodeGroups_group3 x y z
      ((base64Loop rest (lineOut + 1)).filter fun c => !Base64.isBreak c)
    rw [ih] at hgroup
    simpa [Base64.group3] using hgroup

theorem length_base64Quad (x y z : UInt8) (left : ℕ) : (base64Quad x y z left).length = 4 := rfl

/-- The one line break comes behind the eighteenth group. -/
theorem length_lineBreak (lineOut : ℕ) :
    (lineBreak lineOut).length = if lineOut = 18 then 2 else 0 := by
  unfold lineBreak
  split
  · rw [if_pos (by omega)]
    rfl
  · rw [if_neg (by omega)]
    rfl

/-- The line is broken only after the 19th group. -/
theorem length_base64Loop (input : List UInt8) (lineOut : ℕ) :
    (base64Loop input lineOut).length =
      4 * ((input.length + 2) / 3) +
        if lineOut < 19 ∧ 19 ≤ lineOut + (input.length + 2) / 3 then 2 else 0 := by
  fun_induction base64Loop input lineOut with
  | case1 lineOut =>
    have hnone : ¬ (lineOut < 19 ∧ 19 ≤ lineOut) := by omega
    simp [hnone]
  | case2 x lineOut =>
    rw [List.length_append, length_base64Quad, length_lineBreak]
    simp only [List.length_cons, List.length_nil]
    split <;> split <;> omega
  | case3 x y lineOut =>
    rw [List.length_append, length_base64Quad, length_lineBreak]
    simp only [List.length_cons, List.length_nil]
    split <;> split <;> omega
  | case4 x y z rest lineOut ih =>
    rw [List.length_append, List.length_append, length_base64Quad, length_lineBreak, ih]
    simp only [List.length_cons]
    split <;> split <;> split <;> omega

/-- What is encoded fits, with its zero byte, and decodes to the input; only one
line is broken, however long the text. -/
theorem base64Encode_decodes {outputSize : ℕ} {input : List UInt8}
    (h : base64Bufsize input.length ≤ outputSize) :
    ∃ text, base64Encode outputSize input = some text ∧ Base64.decode text = some input ∧
      text.length < outputSize ∧
      text.length = 4 * ((input.length + 2) / 3) + if 55 ≤ input.length then 2 else 0 := by
  have hlen := length_base64Loop input 0
  refine ⟨base64Loop input 0, ?_, decode_base64Loop input 0, ?_, ?_⟩
  · rw [base64Encode, if_neg (by omega)]
  · dsimp only [base64Bufsize] at h
    split at hlen <;> omega
  · rw [hlen]
    congr 1
    split <;> split <;> omega

theorem base64Encode_two_bytes :
    ∃ text, base64Encode 8 [104, 105] = some text ∧ Base64.decode text = some [104, 105] ∧
      text.length < 8 ∧
      text.length = 4 * ((([104, 105] : List UInt8).length + 2) / 3) +
        if 55 ≤ ([104, 105] : List UInt8).length then 2 else 0 :=
  base64Encode_decodes (show base64Bufsize ([104, 105] : List UInt8).length ≤ 8 by decide)

/-! ## The upgrade -/

def WB_WEBSOCKET_VERSION : Text := ascii "13"

def websocketGuid : Text := ascii "258EAFA5-E914-47DA-95CA-C5AB0DC85B11"

def isWebsocketRequest (c : Connection σ) : Bool :=
  match webbyFindHeader c (ascii "Connection") with
  | none => false
  | some hdr =>
    sameText hdr (ascii "Upgrade") &&
      match webbyFindHeader c (ascii "Upgrade") with
      | none => false
      | some hdr => sameText hdr (ascii "websocket")

/-- The digest of the key and the GUID. -/
def acceptDigest (key : Text) : List UInt8 :=
  sha1Final (sha1Update (sha1Update sha1Init key) websocketGuid)

def upgradeHeaders (outputDigest : Text) : List (Text × Text) :=
  [(ascii "Upgrade", ascii "websocket"), (ascii "Connection", ascii "Upgrade"),
    (ascii "Sec-WebSocket-Accept", outputDigest)]

/-- `send_websocket_upgrade`: whether it succeeds. `enabled` is the flag
`WEBBY_SERVER_WEBSOCKETS`, and what `WebbyBeginResponse` returns is not looked
at. -/
def sendWebsocketUpgrade (enabled : Bool) (c : Connection σ) : Option (Bool × Connection σ) :=
  if enabled = false then some (false, c)
  else
    match webbyFindHeader c (ascii "Sec-WebSocket-Version") with
    | none => some (false, c)
    | some hdr =>
      if hdr ≠ WB_WEBSOCKET_VERSION then some (false, c)
      else
        match webbyFindHeader c (ascii "Sec-WebSocket-Key") with
        | none => some (false, c)
        | some hdr =>
          match base64Encode 64 (acceptDigest hdr) with
          | none => some (false, c)
          | some outputDigest =>
            (webbyBeginResponse c 101 (some 0) (upgradeHeaders outputDigest)).map fun r =>
              (true, webbyEndResponse r.2)

theorem length_acceptDigest (key : Text) : (acceptDigest key).length = 20 := rfl

/-- No line of the answer is long. -/
theorem length_upgradeLines {outputDigest : Text} (h : outputDigest.length ≤ 64) (closing : Bool) :
    ∀ line ∈ responseLines 101 (some 0) (upgradeHeaders outputDigest) closing,
      line.length < 1024 := by
  have hfirst : ∀ line ∈ responseLines 101 (some 0) [] closing, line.length < 1024 := by
    cases closing with
    | true => decide +kernel
    | false => decide +kernel
  -- the longest of them has the digest
  have hheaders : ∀ header ∈ upgradeHeaders outputDigest,
      (header.1 ++ ascii ": " ++ header.2 ++ crlf).length < 1024 := by
    intro header hheader
    have hsep : (ascii ": ").length = 2 := by decide +kernel
    have hend : crlf.length = 2 := rfl
    have hname : header.1.length ≤ 20 ∧ header.2.length ≤ 64 := by
      simp only [upgradeHeaders, List.mem_cons, List.not_mem_nil, or_false] at hheader
      rcases hheader with rfl | rfl | rfl
      · decide +kernel
      · decide +kernel
      · exact ⟨show (ascii "Sec-WebSocket-Accept").length ≤ 20 by decide +kernel, h⟩
    simp only [List.length_append, hsep, hend]
    omega
  intro line hline
  rw [responseLines, List.append_assoc, List.mem_append, List.mem_append] at hline
  rcases hline with hmem | hmem | hmem
  · exact hfirst line (List.mem_append.mpr (Or.inl (List.mem_append.mpr (Or.inl hmem))))
  · rcases List.mem_map.mp hmem with ⟨header, hheader, rfl⟩
    exact hheaders header hheader
  · exact hfirst line (List.mem_append.mpr (Or.inr hmem))

/-- The upgrade is a response without a body. -/
theorem sendWebsocketUpgrade_eq {c : Connection σ}
    (hversion : webbyFindHeader c (ascii "Sec-WebSocket-Version") = some WB_WEBSOCKET_VERSION)
    {key : Text} (hkey : webbyFindHeader c (ascii "Sec-WebSocket-Key") = some key) :
    sendWebsocketUpgrade true c =
      (respond c 101 (some 0) (upgradeHeaders (base64Loop (acceptDigest key) 0)) []).map
        fun c => (true, c) := by
  have hencode : base64Encode 64 (acceptDigest key) = some (base64Loop (acceptDigest key) 0) := by
    rw [base64Encode, length_acceptDigest, if_neg (by decide)]
  rw [sendWebsocketUpgrade, if_neg (by simp), hversion]
  dsimp only
  rw [if_neg (by simp), hkey]
  dsimp only
  rw [hencode, respond, Option.map_map]
  rfl

/-- The upgrade answers with the hash of the key and the GUID. -/
theorem upgrade_accept {c : Connection σ} (h : Serving c) (hbody : bodyLeft c ≤ (unread c).length)
    (hversion : webbyFindHeader c (ascii "Sec-WebSocket-Version") = some WB_WEBSOCKET_VERSION)
    {key : Text} (hkey : webbyFindHeader c (ascii "Sec-WebSocket-Key") = some key)
    (hlen : key.length < 2 ^ 29) :
    ∃ c' accept, ∃ blocks : List (List UInt8), sendWebsocketUpgrade true c = some (true, c') ∧
      c'.socket.sent =
        c.socket.sent ++ c.ioBuf.data ++ responseHead c 101 (some 0) (upgradeHeaders accept) ∧
      c'.ioBuf.data = [] ∧
      blocks.flatten = key ++ websocketGuid ++ padding (key ++ websocketGuid).length ∧
      (∀ block ∈ blocks, block.length = 64) ∧
      Base64.decode accept = some (digest (blocks.foldl sha1HashBlock sha1Init.state)) := by
  -- the digest
  have hguid : websocketGuid.length = 36 := by decide +kernel
  have hpieces : ∀ piece ∈ [key, websocketGuid], piece.length < 2 ^ 29 := by
    intro piece hpiece
    rcases List.mem_cons.mp hpiece with rfl | hmem
    · exact hlen
    · obtain rfl := List.mem_singleton.mp hmem
      omega
  have hhashed := hashed_updates hashed_init hpieces
    (by simp only [List.flatten_cons, List.flatten_nil, List.length_append, List.nil_append,
      List.append_nil, hguid]; omega)
  rcases sha1Final_hashed hhashed with ⟨blocks, hblocks, hblock, hdigest⟩
  have hflat : [] ++ [key, websocketGuid].flatten = key ++ websocketGuid := by simp
  rw [hflat] at hblocks
  -- the response
  have haccept := length_base64Loop (acceptDigest key) 0
  rw [length_acceptDigest] at haccept
  have hnone : ∀ piece ∈ ([] : List (List UInt8)), piece.length < 2 ^ 31 := by simp
  rcases respond_wrote h hbody (length_upgradeLines (show _ ≤ 64 by rw [haccept]; decide) _) hnone
    with ⟨results, -, hrespond⟩
  refine ⟨_, base64Loop (acceptDigest key) 0, blocks,
    by rw [sendWebsocketUpgrade_eq hversion hkey, hrespond, Option.map_some], ?_, rfl, hblocks,
    hblock, ?_⟩
  · simp [responded, responseBody]
  · rw [decode_base64Loop, ← hdigest]
    rfl

/-- A request to upgrade, with the key of the protocol's own example. -/
def upgrading : Connection Unit :=
  { blankSlot () with
    request := ⟨ascii "GET", ascii "/", ascii "1.1", none, 0,
      [(ascii "connection", ascii "upgrade"), (ascii "Upgrade", ascii "websocket"),
        (ascii "Sec-WebSocket-Version", ascii "13"),
        (ascii "Sec-WebSocket-Key", ascii "dGhlIHNhbXBsZSBub25jZQ==")]⟩
    alive := true
    state := .serve
    socket := ⟨[], .silent, true, [], [], []⟩
    ioBuf := ⟨8192, []⟩ }

/-- The upgrade of that request. -/
theorem upgrade_accept_example :
    ∃ c' accept, ∃ blocks : List (List UInt8),
      sendWebsocketUpgrade true upgrading = some (true, c') ∧
      c'.socket.sent = upgrading.socket.sent ++ upgrading.ioBuf.data ++
        responseHead upgrading 101 (some 0) (upgradeHeaders accept) ∧
      c'.ioBuf.data = [] ∧
      blocks.flatten = ascii "dGhlIHNhbXBsZSBub25jZQ==" ++ websocketGuid ++
        padding (ascii "dGhlIHNhbXBsZSBub25jZQ==" ++ websocketGuid).length ∧
      (∀ block ∈ blocks, block.length = 64) ∧
      Base64.decode accept = some (digest (blocks.foldl sha1HashBlock sha1Init.state)) := by
  apply upgrade_accept
  · constructor
    · rfl
    · rfl
    · rfl
    · rfl
    · exact ⟨by simp [upgrading], by simp [upgrading, blankSlot]⟩
    · decide
    · exact ⟨by decide, by decide⟩
    · rfl
  · decide
  · decide +kernel
  · decide +kernel
  · decide +kernel

/-- The value the protocol's own example has for it. -/
example : base64Encode 64 (acceptDigest (ascii "dGhlIHNhbXBsZSBub25jZQ==")) =
    some (ascii "s3pPLMBiTxaQ9kYGzzhZRbK+xOo=") := by
  decide +kernel

end Yardstick.WebbyHandshake
