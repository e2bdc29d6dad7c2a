import Mathlib.Data.List.TakeWhile
import Mathlib.Data.Nat.Digits.Defs
import Yardstick.WebbyOutput
import Yardstick.WebbyQuery

/-!
# WebbyRequest — the head of a request and the fields read out of it

`wb_peek_request_size` looks for the empty line that ends a request's head;
`wb_setup_request` cuts the head into lines, the first line into words and each
other line at its first colon, decodes the path, and refuses what it cannot
serve.

* `strtoul_decimal`: a number written in decimal is read as that number;
* `setupRequest_text`: what is read of a head, whatever its content length;
* `request_fields`: a head with any number of headers, and any bytes behind it,
  is found and read as it was written, if it says its length in decimal and no
  transfer encoding; what is kept are the first 64 headers, and of each value what
  is in front of its first colon.
-/

namespace Yardstick.WebbyRequest

open Delimited WebbyConnection WebbyQuery
open WebbyOutput (crlf digits)

variable {σ : Type*}

/-! ## The end of the head -/

/-- The loop of `wb_peek_request_size`, at index `i`; `none` for -1. -/
def peekFrom : ℕ → List UInt8 → Option ℕ
  | i, 13 :: 10 :: 13 :: 10 :: _ => some (i + 4)
  | i, _ :: rest => peekFrom (i + 1) rest
  | _, [] => none

def wbPeekRequestSize (buf : List UInt8) : Option ℕ := peekFrom 0 buf

/-! ## Tokens -/

def isBlank (ch : UInt8) : Bool := ch == 32 || ch == 9

def skipws (p : Text) : Text := p.dropWhile isBlank

/-- `tok_inplace`, with the separator `s :: sep`: at most `max` tokens. An empty
token is left out, unless it is the last one. -/
def tokInplace (s : UInt8) (sep : Text) (skip : Bool) : ℕ → Text → List Text
  | 0, _ => []
  | max + 1, buf =>
    let b := if skip then skipws buf else buf
    match h : cut (s :: sep) b with
    | some (token, rest) =>
      if token ≠ [] then token :: tokInplace s sep skip max rest
      else tokInplace s sep skip (max + 1) rest
    | none => [b]
termination_by _ buf => buf.length
decreasing_by
  all_goals
    have hlt := length_cut_lt h
    have hle : b.length ≤ buf.length := by
      show (if skip then skipws buf else buf).length ≤ buf.length
      split
      · exact (List.dropWhile_sublist _).length_le
      · exact Nat.le_refl _
    omega

/-! ## Numbers -/

def isspace (b : UInt8) : Bool := b == 32 || (9 ≤ b && b ≤ 13)

def isdigit (b : UInt8) : Bool := 48 ≤ b && b ≤ 57

/-- The number a run of digits is. -/
def digitsValue (ds : Text) : ℕ := ds.foldl (fun n d => n * 10 + (d.toNat - 48)) 0

/-- `strtoul(s, NULL, 10)`, of 64 bits: a number that is too large gives
`ULONG_MAX`, a minus sign negates what is returned. -/
def strtoul (s : Text) : ℕ :=
  let s := s.dropWhile isspace
  let (negative, s) :=
    match s with
    | 45 :: s => (true, s)
    | 43 :: s => (false, s)
    | s => (false, s)
  let value := digitsValue (s.takeWhile isdigit)
  if 2 ^ 64 ≤ value then 2 ^ 64 - 1
  else if negative then (2 ^ 64 - value) % 2 ^ 64
  else value

/-! ## The request -/

def WEBBY_MAX_HEADERS : ℕ := 64

/-- The loop over the header lines, with the content length found so far. -/
def parseHeaders : List Text → ℤ → Option (ℤ × List (Text × Text))
  | [], length => some (length, [])
  | line :: lines, length =>
    match tokInplace 58 [] true 2 line with
    | [name, value] =>
      if sameText (ascii "content-length") name then
        (parseHeaders lines (BitVec.ofNat 32 (strtoul value)).toInt).map fun r =>
          (r.1, (name, value) :: r.2)
      else if sameText (ascii "transfer-encoding") name then none
      else (parseHeaders lines length).map fun r => (r.1, (name, value) :: r.2)
    | _ => none

/-- `wb_setup_request` on the first `requestSize` bytes of the header buffer,
which a zero byte ends early. -/
def setupRequest (data : List UInt8) (requestSize : ℕ) : Option Request :=
  let buf := (data.take (requestSize - 2)).takeWhile (· ≠ 0)
  let lines := tokInplace 13 [10] false (WEBBY_MAX_HEADERS + 2) buf
  let headerLines := (lines.drop 1).take (lines.length - 2)
  if headerLines.length > WEBBY_MAX_HEADERS then none
  else
    match lines with
    | [] => none
    | first :: _ =>
      match tokInplace 32 [] false 16 first with
      | [method, target, version] =>
        let (uri, query) :=
          match cut [63] target with
          | some (uri, query) => (uri, some query)
          | none => (target, none)
        -- decoded in place; a decoded zero byte ends the string
        let uri := (urlDecode true (uri ++ [0]) uri.length uri.length).takeWhile (· ≠ 0)
        (parseHeaders headerLines 0).map fun r =>
          { method := method, uri := uri, httpVersion := version, queryParams := query
            contentLength := r.1, headers := r.2 }
      | _ => none

def wbSetupRequest (c : Connection σ) (requestSize : ℕ) : Option (Connection σ) :=
  (setupRequest c.headerBuf.data requestSize).map fun request => { c with request := request }

/-! ## Reading what was written -/

theorem skipws_of_head {b : Text} (h : ∀ ch ∈ b.head?, isBlank ch = false) : skipws b = b := by
  cases b with
  | nil => rfl
  | cons ch b =>
    have hch : isBlank ch = false := h ch (by simp)
    simp [skipws, hch]

theorem skipws_append {gap b : Text} (hgap : ∀ ch ∈ gap, isBlank ch = true)
    (h : ∀ ch ∈ b.head?, isBlank ch = false) : skipws (gap ++ b) = b := by
  rw [skipws, List.dropWhile_append_of_pos hgap]
  exact skipws_of_head h

/-- A token in front of a separator. -/
theorem tokInplace_token {s : UInt8} {sep token : Text} {skip : Bool} {max : ℕ} {buf rest : Text}
    (hbuf : (if skip then skipws buf else buf) = token ++ (s :: sep ++ rest)) (hfree : s ∉ token)
    (hne : token ≠ []) :
    tokInplace s sep skip (max + 1) buf = token :: tokInplace s sep skip max rest := by
  have hcut : cut (s :: sep) (if skip then skipws buf else buf) = some (token, rest) := by
    rw [hbuf]
    exact cut_front hfree rest
  rw [tokInplace]
  split
  · rename_i token' rest' h
    obtain ⟨rfl, rfl⟩ := Prod.mk.inj (Option.some.inj (h.symm.trans hcut))
    rw [if_pos hne]
  · rename_i h
    rw [hcut] at h
    cases h

/-- The last token. -/
theorem tokInplace_last {s : UInt8} {sep : Text} {skip : Bool} {max : ℕ} {buf token : Text}
    (hbuf : (if skip then skipws buf else buf) = token) (hfree : s ∉ token) :
    tokInplace s sep skip (max + 1) buf = [token] := by
  have hcut : cut (s :: sep) (if skip then skipws buf else buf) = none := by
    rw [hbuf]
    exact cut_eq_none hfree
  rw [tokInplace]
  split
  · rename_i h
    rw [hcut] at h
    cases h
  · rw [hbuf]

@[simp] theorem tokInplace_zero (s : UInt8) (sep : Text) (skip : Bool) (buf : Text) :
    tokInplace s sep skip 0 buf = [] := by
  rw [tokInplace]

/-- Lines, each with its end, give themselves and an empty token. -/
theorem tokInplace_lines {lines : List Text} (hlines : ∀ line ∈ lines, line ≠ [] ∧ 13 ∉ line)
    (max : ℕ) :
    tokInplace 13 [10] false max (lines.flatMap (· ++ crlf)) = (lines ++ [[]]).take max := by
  induction lines generalizing max with
  | nil =>
    cases max with
    | zero => simp
    | succ max =>
      have hlast : tokInplace 13 [10] false (max + 1) [] = [[]] :=
        tokInplace_last (by simp) (by simp)
      simpa using hlast
  | cons line lines ih =>
    obtain ⟨hne, hfree⟩ := hlines line List.mem_cons_self
    cases max with
    | zero => simp
    | succ max =>
      have hbuf : (if false then skipws (line ++ crlf ++ lines.flatMap (· ++ crlf))
          else line ++ crlf ++ lines.flatMap (· ++ crlf)) =
          line ++ ([13, 10] ++ lines.flatMap (· ++ crlf)) := by simp [crlf]
      rw [List.flatMap_cons, tokInplace_token hbuf hfree hne,
        ih fun l hl => hlines l (List.mem_cons_of_mem _ hl)]
      rfl

/-! ## Requests -/

/-- A byte of a head that is not part of a line end, and does not end a string. -/
def Clean (text : Text) : Prop := (13 : UInt8) ∉ text ∧ (0 : UInt8) ∉ text

instance (text : Text) : Decidable (Clean text) := inferInstanceAs (Decidable (_ ∧ _))

/-- A header as it is written: blanks may follow the colon, and the value may
have colons of its own, from the first of which on it is `more`. -/
structure Header where
  name : Text
  gap : Text
  kept : Text
  more : Option Text
  name_ne : name ≠ []
  name_clean : Clean name
  name_free : (58 : UInt8) ∉ name
  name_head : ∀ ch ∈ name.head?, isBlank ch = false
  gap_blank : ∀ ch ∈ gap, isBlank ch = true
  kept_clean : Clean kept
  kept_free : (58 : UInt8) ∉ kept
  kept_head : ∀ ch ∈ kept.head?, isBlank ch = false
  kept_ne : more ≠ none → kept ≠ []
  more_clean : ∀ text ∈ more, Clean text

namespace Header

def value (h : Header) : Text :=
  h.kept ++ match h.more with
    | some text => 58 :: text
    | none => []

def line (h : Header) : Text := h.name ++ 58 :: (h.gap ++ h.value)

/-- What is kept of a header: the value up to its first colon. -/
def stored (h : Header) : Text × Text := (h.name, h.kept)

end Header

/-- The head of a request as it is written. -/
structure Head where
  method : Text
  path : Text
  pathText : Text
  query : Option Text
  version : Text
  headers : List Header
  method_ne : method ≠ []
  method_free : Clean method ∧ (32 : UInt8) ∉ method
  pathText_ne : pathText ≠ []
  pathText_free : Clean pathText ∧ (32 : UInt8) ∉ pathText ∧ (63 : UInt8) ∉ pathText
  path_clean : (0 : UInt8) ∉ path
  escaped : Escaped true pathText path
  query_free : ∀ query' ∈ query, Clean query' ∧ (32 : UInt8) ∉ query'
  version_ne : version ≠ []
  version_free : Clean version ∧ (32 : UInt8) ∉ version

namespace Head

/-- The path with the query. -/
def target (r : Head) : Text :=
  r.pathText ++ match r.query with
    | some query => 63 :: query
    | none => []

def requestLine (r : Head) : Text := r.method ++ 32 :: (r.target ++ 32 :: r.version)

def lines (r : Head) : List Text := r.requestLine :: r.headers.map Header.line

def text (r : Head) : Text := r.lines.flatMap (· ++ crlf) ++ crlf

/-- The headers that are kept. -/
def stored (r : Head) : List (Text × Text) := (r.headers.take WEBBY_MAX_HEADERS).map Header.stored

/-- What the code takes for the content length: the last one among the headers
that are kept, whatever it says, as an `int`. -/
def lengthRead (r : Head) : ℤ :=
  r.stored.foldl (fun length header =>
    if sameText (ascii "content-length") header.1 then (BitVec.ofNat 32 (strtoul header.2)).toInt
    else length) 0

/-- The request that is read. -/
def request (r : Head) : Request :=
  { method := r.method, uri := r.path, httpVersion := r.version, queryParams := r.query
    contentLength := r.lengthRead, headers := r.stored }

end Head

/-! ### What a client means -/

/-- The text is the number `n` in decimal; zeros may stand in front. -/
def Decimal (text : Text) (n : ℕ) : Prop :=
  ∃ ds : List ℕ, ds ≠ [] ∧ (∀ d ∈ ds, d < 10) ∧ text = ds.map (fun d => UInt8.ofNat (48 + d)) ∧
    n = Nat.ofDigits 10 ds.reverse

namespace Head

/-- The head announces a body of `n` bytes: in decimal in the last `Content-Length`
of the headers that are kept, or by having none there. -/
def Announces (r : Head) (n : ℕ) : Prop :=
  match (r.stored.filter fun header => sameText (ascii "content-length") header.1).getLast? with
  | some header => Decimal header.2 n
  | none => n = 0

/-- The request as it was written, with a body of `n` bytes. -/
def written (r : Head) (n : ℕ) : Request :=
  { method := r.method, uri := r.path, httpVersion := r.version, queryParams := r.query
    contentLength := n, headers := r.stored }

end Head

/-! ### The parts of a line -/

/-- A header line is cut at its first colon, and its value at the next. -/
theorem tokInplace_header (h : Header) :
    tokInplace 58 [] true 2 h.line = [h.stored.1, h.stored.2] := by
  have hname : (if true then skipws h.line else h.line) = h.name ++ ([58] ++ (h.gap ++ h.value)) := by
    rw [if_pos rfl, skipws_of_head]
    · rfl
    · intro ch hch
      apply h.name_head ch
      rcases hn : h.name with _ | ⟨c, name⟩
      · exact absurd hn h.name_ne
      · simpa [Header.line, hn] using hch
  rw [tokInplace_token hname h.name_free h.name_ne]
  congr 1
  -- the value ends at a colon or at the end of the line
  cases hmore : h.more with
  | none =>
    have hvalue : (if true then skipws (h.gap ++ h.value) else h.gap ++ h.value) = h.kept := by
      rw [if_pos rfl, Header.value, hmore, List.append_nil]
      exact skipws_append h.gap_blank h.kept_head
    exact tokInplace_last hvalue h.kept_free
  | some text =>
    have hne : h.kept ≠ [] := h.kept_ne (by simp [hmore])
    have hvalue : (if true then skipws (h.gap ++ h.value) else h.gap ++ h.value) =
        h.kept ++ ([58] ++ text) := by
      rw [if_pos rfl, Header.value, hmore]
      apply skipws_append h.gap_blank
      intro ch hch
      apply h.kept_head ch
      rcases hk : h.kept with _ | ⟨c, kept⟩
      · exact absurd hk hne
      · simpa [hk] using hch
    rw [tokInplace_token hvalue h.kept_free hne, tokInplace_zero]
    rfl

/-- A request line has three words. -/
theorem tokInplace_requestLine (r : Head) :
    tokInplace 32 [] false 16 r.requestLine = [r.method, r.target, r.version] := by
  have htarget : r.target ≠ [] ∧ (32 : UInt8) ∉ r.target := by
    constructor
    · simp [Head.target, r.pathText_ne]
    · unfold Head.target
      cases hq : r.query with
      | none => simpa using r.pathText_free.2.1
      | some query =>
        have hfree := (r.query_free query hq).2
        simp [r.pathText_free.2.1, hfree]
  have h1 : (if false then skipws r.requestLine else r.requestLine) =
      r.method ++ ([32] ++ (r.target ++ 32 :: r.version)) := rfl
  have h2 : (if false then skipws (r.target ++ 32 :: r.version) else r.target ++ 32 :: r.version) =
      r.target ++ ([32] ++ r.version) := rfl
  have h3 : (if false then skipws r.version else r.version) = r.version := rfl
  rw [tokInplace_token h1 r.method_free.2 r.method_ne, tokInplace_token h2 htarget.2 htarget.1,
    tokInplace_last h3 r.version_free.2]

/-! ### The lines of a head -/

/-- No line of a head is empty or has a line end in it. -/
theorem line_clean (r : Head) : ∀ line ∈ r.lines, line ≠ [] ∧ Clean line := by
  intro line hline
  rcases List.mem_cons.mp hline with rfl | hheader
  · -- the request line
    have hquery : ∀ query ∈ r.query, Clean query := fun q hq => (r.query_free q hq).1
    refine ⟨by simp [Head.requestLine], ?_⟩
    have hm := r.method_free.1
    have hp := r.pathText_free.1
    have hv := r.version_free.1
    unfold Clean at hm hp hv hquery ⊢
    cases hq : r.query with
    | none => simp [Head.requestLine, Head.target, hq, hm, hp, hv]
    | some query =>
      have hclean := hquery query hq
      simp [Head.requestLine, Head.target, hq, hm, hp, hv, hclean]
  · rcases List.mem_map.mp hheader with ⟨h, -, rfl⟩
    refine ⟨by simp [Header.line], ?_⟩
    -- a header: blanks are no line ends
    have hblank : ∀ ch, ch ∈ h.gap → ch ≠ 13 ∧ ch ≠ 0 := by
      intro ch hch
      have := h.gap_blank ch hch
      constructor <;> rintro rfl <;> simp [isBlank] at this
    have hgap : Clean h.gap := ⟨fun hm => (hblank 13 hm).1 rfl, fun hm => (hblank 0 hm).2 rfl⟩
    have hname := h.name_clean
    have hkept := h.kept_clean
    have hmore := h.more_clean
    unfold Clean at hgap hname hkept hmore ⊢
    cases hm : h.more with
    | none => simp [Header.line, Header.value, hm, hgap, hname, hkept]
    | some text =>
      have htext := hmore text hm
      simp [Header.line, Header.value, hm, hgap, hname, hkept, htext]

/-- The end of a head is not within a text without line ends. -/
theorem peekFrom_text {text : Text} (h : (13 : UInt8) ∉ text) (i : ℕ) (rest : List UInt8) :
    peekFrom i (text ++ rest) = peekFrom (i + text.length) rest := by
  induction text generalizing i with
  | nil => rfl
  | cons x text ih =>
    obtain ⟨hne, hmem⟩ := by simpa using h
    have hx : peekFrom i (x :: (text ++ rest)) = peekFrom (i + 1) (text ++ rest) := by
      rw [peekFrom]
      intro _ heq
      exact absurd heq.symm hne
    rw [List.cons_append, hx, ih hmem, List.length_cons]
    congr 1
    omega

/-- A line end in front of a line that is not empty. -/
theorem peekFrom_crlf {c : UInt8} (h : c ≠ 13) (i : ℕ) (rest : List UInt8) :
    peekFrom i (13 :: 10 :: c :: rest) = peekFrom (i + 2) (c :: rest) := by
  have h13 : peekFrom i (13 :: 10 :: c :: rest) = peekFrom (i + 1) (10 :: c :: rest) := by
    rw [peekFrom]
    intro _ _ heq
    exact absurd (List.cons.inj (List.cons.inj heq).2).1 h
  have h10 : peekFrom (i + 1) (10 :: c :: rest) = peekFrom (i + 2) (c :: rest) := by
    rw [peekFrom]
    intro _ heq
    exact absurd heq (by decide)
  rw [h13, h10]

/-- The empty line that ends a head is the first one. -/
theorem peekFrom_lines {lines : List Text} (hlines : ∀ line ∈ lines, line ≠ [] ∧ 13 ∉ line)
    (hne : lines ≠ []) (i : ℕ) (body : List UInt8) :
    peekFrom i (lines.flatMap (· ++ crlf) ++ (crlf ++ body)) =
      some (i + (lines.flatMap (· ++ crlf) ++ crlf).length) := by
  induction lines generalizing i with
  | nil => exact absurd rfl hne
  | cons line lines ih =>
    have hfree := (hlines line List.mem_cons_self).2
    rw [List.flatMap_cons, List.append_assoc, List.append_assoc, peekFrom_text hfree]
    -- the last line is followed by the empty one
    cases lines with
    | nil =>
      simp [crlf, peekFrom]
      omega
    | cons next lines =>
      obtain ⟨hnext, hnextfree⟩ := hlines next (List.mem_cons_of_mem _ List.mem_cons_self)
      have ih' := ih (fun l hl => hlines l (List.mem_cons_of_mem _ hl)) (List.cons_ne_nil _ _)
        (i + line.length + 2)
      rcases next with _ | ⟨c, next⟩
      · exact absurd rfl hnext
      · -- the next line is not empty, so the end is not yet here
        have hc : c ≠ 13 := fun heq => hnextfree (heq ▸ List.mem_cons_self)
        have hcrlf := peekFrom_crlf hc (i + line.length)
          (next ++ crlf ++ lines.flatMap (· ++ crlf) ++ (crlf ++ body))
        simp only [List.flatMap_cons, List.cons_append, List.append_assoc, crlf, List.nil_append,
          List.length_append, List.length_cons, List.length_nil] at hcrlf ih' ⊢
        rw [hcrlf, ih']
        congr 1
        omega

/-- The headers are stored one by one, and the last `Content-Length` counts. -/
theorem parseHeaders_lines {headers : List Header}
    (hencoding : ∀ h ∈ headers, sameText (ascii "transfer-encoding") h.stored.1 = false)
    (length : ℤ) :
    parseHeaders (headers.map Header.line) length =
      some ((headers.map Header.stored).foldl (fun length header =>
        if sameText (ascii "content-length") header.1 then (BitVec.ofNat 32 (strtoul header.2)).toInt
        else length) length, headers.map Header.stored) := by
  induction headers generalizing length with
  | nil => rfl
  | cons h headers ih =>
    have hnot := hencoding h List.mem_cons_self
    have ih' := ih fun h' hh' => hencoding h' (List.mem_cons_of_mem _ hh')
    rw [List.map_cons, parseHeaders, tokInplace_header]
    dsimp only
    rw [hnot, ih', ih']
    cases hlength : sameText (ascii "content-length") h.stored.1 <;> simp [hlength]

/-- Cutting the head gives its first line and the headers that are kept. -/
theorem tokInplace_head (r : Head) :
    tokInplace 13 [10] false (WEBBY_MAX_HEADERS + 2) (r.lines.flatMap (· ++ crlf)) =
      r.requestLine :: (r.headers.map Header.line ++ [[]]).take (WEBBY_MAX_HEADERS + 1) := by
  rw [tokInplace_lines fun line hline => ⟨(line_clean r line hline).1, (line_clean r line hline).2.1⟩]
  rfl

/-- All but the last of the tokens behind the request line are headers, at most
64 of them. -/
theorem headerLines_eq (H : List Text) :
    ((H ++ [[]]).take (WEBBY_MAX_HEADERS + 1)).take
      (((H ++ [[]]).take (WEBBY_MAX_HEADERS + 1)).length - 1) = H.take WEBBY_MAX_HEADERS := by
  have hlength : ((H ++ [[]]).take (WEBBY_MAX_HEADERS + 1)).length - 1 =
      min WEBBY_MAX_HEADERS H.length := by
    rw [List.length_take, List.length_append, List.length_singleton]
    omega
  rw [hlength, List.take_take, Nat.min_eq_left (by omega),
    List.take_append_of_le_length (Nat.min_le_right _ _)]
  exact List.take_eq_take_min.symm

/-- The path is decoded; a query is what follows the first `?`. -/
theorem target_parts (r : Head) :
    (match cut [63] r.target with
      | some (uri, query) => (uri, some query)
      | none => (r.target, none)) = (r.pathText, r.query) ∧
    (urlDecode true (r.pathText ++ [0]) r.pathText.length r.pathText.length).takeWhile (· ≠ 0) =
      r.path := by
  constructor
  · -- the path ends at the question mark, if there is one
    unfold Head.target
    cases r.query with
    | none =>
      dsimp only
      rw [List.append_nil, cut_eq_none r.pathText_free.2.2]
    | some query =>
      have hcut : cut [63] (r.pathText ++ 63 :: query) = some (r.pathText, query) :=
        cut_front r.pathText_free.2.2 query
      dsimp only
      rw [hcut]
  · have hle := r.escaped.length_le
    -- and has no zero byte that would end it before
    have hzero : ∀ b ∈ r.path, decide (b ≠ 0) = true := by
      intro b hb
      apply decide_eq_true
      rintro rfl
      exact r.path_clean hb
    rw [urlDecode_escaped r.escaped, List.take_of_length_le hle,
      List.takeWhile_eq_self_iff.mpr hzero]

theorem peek_text (r : Head) (body : List UInt8) :
    wbPeekRequestSize (r.text ++ body) = some r.text.length := by
  have hlines := peekFrom_lines (fun line hline => ⟨(line_clean r line hline).1,
    (line_clean r line hline).2.1⟩) (List.cons_ne_nil _ _) 0 body
  rw [wbPeekRequestSize, Head.text, List.append_assoc, hlines, Nat.zero_add]

/-- A head is set up as a request, whatever follows it. -/
theorem setupRequest_text (r : Head) (body : List UInt8)
    (hencoding : ∀ header ∈ r.stored, sameText (ascii "transfer-encoding") header.1 = false) :
    setupRequest (r.text ++ body) r.text.length = some r.request := by
  -- the last line end is cut off, and no byte in front of it is zero
  have hbuf : ((r.text ++ body).take (r.text.length - 2)).takeWhile (· ≠ 0) =
      r.lines.flatMap (· ++ crlf) := by
    have hlen : r.text.length - 2 = (r.lines.flatMap (· ++ crlf)).length := by
      simp [Head.text, crlf]
    have hzero : ∀ b ∈ r.lines.flatMap (· ++ crlf), decide (b ≠ 0) = true := by
      intro b hb
      rcases List.mem_flatMap.mp hb with ⟨line, hline, hmem⟩
      have hclean := (line_clean r line hline).2.2
      apply decide_eq_true
      rintro rfl
      rcases List.mem_append.mp hmem with hl | hl
      · exact hclean hl
      · simp [crlf] at hl
    rw [hlen, Head.text, List.append_assoc, List.take_left, List.takeWhile_eq_self_iff.mpr hzero]
  have hstored : ∀ h ∈ r.headers.take WEBBY_MAX_HEADERS,
      sameText (ascii "transfer-encoding") h.stored.1 = false :=
    fun h hh => hencoding _ (List.mem_map_of_mem hh)
  obtain ⟨htarget, hpath⟩ := target_parts r
  have hlengths : (r.requestLine :: (r.headers.map Header.line ++ [[]]).take
      (WEBBY_MAX_HEADERS + 1)).length - 2 =
      ((r.headers.map Header.line ++ [[]]).take (WEBBY_MAX_HEADERS + 1)).length - 1 := by
    rw [List.length_cons]
    omega
  unfold setupRequest
  simp only [hbuf, tokInplace_head, hlengths, List.drop_succ_cons, List.drop_zero,
    headerLines_eq, tokInplace_requestLine, htarget, hpath]
  rw [if_neg (by simp), ← List.map_take, parseHeaders_lines hstored]
  rfl

/-! ### The length -/

theorem toNat_digit {d : ℕ} (h : d < 10) : (UInt8.ofNat (48 + d)).toNat = 48 + d := by
  rw [UInt8.toNat_ofNat']
  exact Nat.mod_eq_of_lt (by omega)

/-- A decimal digit is a digit, no blank and no sign. -/
theorem digit_byte {d : ℕ} (h : d < 10) :
    isdigit (UInt8.ofNat (48 + d)) = true ∧ isspace (UInt8.ofNat (48 + d)) = false ∧
      UInt8.ofNat (48 + d) ≠ 45 ∧ UInt8.ofNat (48 + d) ≠ 43 := by
  have hall : ∀ d < 10, isdigit (UInt8.ofNat (48 + d)) = true ∧
      isspace (UInt8.ofNat (48 + d)) = false ∧
        UInt8.ofNat (48 + d) ≠ 45 ∧ UInt8.ofNat (48 + d) ≠ 43 := by decide
  exact hall d h

theorem digitsValue_eq {ds : List ℕ} (h : ∀ d ∈ ds, d < 10) :
    digitsValue (ds.map fun d => UInt8.ofNat (48 + d)) = Nat.ofDigits 10 ds.reverse := by
  rw [Nat.ofDigits_eq_foldr, List.foldr_reverse, digitsValue, List.foldl_map]
  refine List.foldl_ext _ _ _ fun n d hd => ?_
  rw [toNat_digit (h d hd)]
  simp only [Nat.cast_id]
  omega

/-- `strtoul` reads a number that is written in decimal and is not too large. -/
theorem strtoul_decimal {text : Text} {n : ℕ} (h : Decimal text n) (hlt : n < 2 ^ 64) :
    strtoul text = n := by
  obtain ⟨ds, hne, hdigits, rfl, hn⟩ := h
  rw [← digitsValue_eq hdigits] at hn
  obtain ⟨d, ds, rfl⟩ := List.exists_cons_of_ne_nil hne
  obtain ⟨-, hspace, hminus, hplus⟩ := digit_byte (hdigits d List.mem_cons_self)
  -- there is no blank in front
  have hblank : ((d :: ds).map fun d => UInt8.ofNat (48 + d)).dropWhile isspace =
      (d :: ds).map fun d => UInt8.ofNat (48 + d) := by
    rw [List.map_cons, List.dropWhile_cons_of_neg]
    rw [hspace]
    exact Bool.false_ne_true
  -- nor anything behind the digits
  have hall : ((d :: ds).map fun d => UInt8.ofNat (48 + d)).takeWhile isdigit =
      (d :: ds).map fun d => UInt8.ofNat (48 + d) := by
    rw [List.takeWhile_eq_self_iff]
    intro b hb
    obtain ⟨d', hd', rfl⟩ := List.mem_map.mp hb
    exact (digit_byte (hdigits d' hd')).1
  -- and no sign
  have hsign : (match (d :: ds).map fun d => UInt8.ofNat (48 + d) with
      | 45 :: s => (true, s)
      | 43 :: s => (false, s)
      | s => (false, s)) = (false, (d :: ds).map fun d => UInt8.ofNat (48 + d)) := by
    rw [List.map_cons]
    split
    · rename_i heq
      exact absurd (List.cons.inj heq).1 hminus
    · rename_i heq
      exact absurd (List.cons.inj heq).1 hplus
    · rfl
  simp only [strtoul, hblank, hsign, hall, ← hn]
  rw [if_neg (by omega), if_neg (by simp)]

/-- A fold that keeps what it has seen last. -/
theorem foldl_last {γ δ : Type*} (g : γ → δ) (l : List γ) (x : δ) :
    l.foldl (fun _ a => g a) x =
      match l.getLast? with
      | some a => g a
      | none => x := by
  rcases l.eq_nil_or_concat with rfl | ⟨l, a, rfl⟩
  · rfl
  · simp

/-- A length below `2 ^ 31` is read as it was announced. -/
theorem Head.lengthRead_eq {r : Head} {n : ℕ} (h : r.Announces n) (hlt : n < 2 ^ 31) :
    r.lengthRead = n := by
  rw [Head.lengthRead, ← List.foldl_filter, foldl_last]
  unfold Head.Announces at h
  split
  · rename_i header hheader
    rw [hheader] at h
    rw [strtoul_decimal h (by omega), BitVec.toInt_ofNat', Int.bmod_eq_of_le (by omega) (by omega)]
  · rename_i hnone
    rw [hnone] at h
    rw [show n = 0 from h]
    rfl

theorem Head.request_eq {r : Head} {n : ℕ} (h : r.Announces n) (hlt : n < 2 ^ 31) :
    r.request = r.written n := by
  rw [Head.request, Head.written, Head.lengthRead_eq h hlt]

/-! ### A head that is not complete -/

/-- The end of a head is within the bytes, and at least four behind their
beginning. -/
theorem peekFrom_bounds {i n : ℕ} {bs : List UInt8} (h : peekFrom i bs = some n) :
    i + 4 ≤ n ∧ n ≤ i + bs.length := by
  fun_induction peekFrom i bs with
  | case1 i bs =>
    obtain rfl := by simpa using h
    simp
  | case2 i c bs hcase ih =>
    have hrest := ih h
    rw [List.length_cons]
    omega
  | case3 i => cases h

/-- More bytes do not change where the head ends. -/
theorem peekFrom_append {i n : ℕ} {bs : List UInt8} (h : peekFrom i bs = some n)
    (rest : List UInt8) : peekFrom i (bs ++ rest) = some n := by
  fun_induction peekFrom i bs with
  | case1 i bs =>
    obtain rfl := by simpa using h
    simp [peekFrom]
  | case2 i c bs hcase ih =>
    -- the end of a head is four bytes, and there are so many behind this one
    have hbounds := peekFrom_bounds h
    rcases bs with _ | ⟨c1, _ | ⟨c2, _ | ⟨c3, bs⟩⟩⟩
    · simp at hbounds
      omega
    · simp at hbounds
      omega
    · simp at hbounds
      omega
    · rw [← ih h, List.cons_append, peekFrom]
      intro bs' hc heq
      simp only [List.cons_append, List.cons.injEq] at heq
      obtain ⟨rfl, rfl, rfl, -⟩ := heq
      exact hcase bs hc rfl
  | case3 i => cases h

/-- In front of its last byte a head is not found. -/
theorem peek_part (r : Head) {part rest : List UInt8} (h : part ++ rest = r.text)
    (hrest : rest ≠ []) : wbPeekRequestSize part = none := by
  rcases hpeek : wbPeekRequestSize part with _ | n
  · rfl
  · -- otherwise it would end early
    have hall := peekFrom_append hpeek rest
    have hle := (peekFrom_bounds hpeek).2
    have htext := peek_text r []
    rw [List.append_nil, ← h, wbPeekRequestSize, hall] at htext
    have hpos : 0 < rest.length := List.length_pos_iff.mpr hrest
    have heq : n = (part ++ rest).length := Option.some.inj htext
    rw [List.length_append] at heq
    omega

/-- A header whose value has a colon is cut off there. -/
def hostHeader : Header :=
  { name := ascii "Host"
    gap := [32]
    kept := ascii "localhost"
    more := some (ascii "8080")
    name_ne := by decide +kernel
    name_clean := by decide +kernel
    name_free := by decide +kernel
    name_head := by decide +kernel
    gap_blank := by decide +kernel
    kept_clean := by decide +kernel
    kept_free := by decide +kernel
    kept_head := by decide +kernel
    kept_ne := fun _ => by decide +kernel
    more_clean := fun text htext => by
      obtain rfl := Option.mem_some_iff.mp htext
      decide +kernel }

def getRoot : Head :=
  { method := ascii "GET"
    path := ascii "/ "
    pathText := ascii "/%20"
    query := some (ascii "a=b")
    version := ascii "HTTP/1.1"
    headers := [hostHeader]
    method_ne := by decide +kernel
    method_free := by decide +kernel
    pathText_ne := by decide +kernel
    pathText_free := by decide +kernel
    path_clean := by decide +kernel
    escaped := .plain (by decide +kernel) (by decide +kernel) (.byte (Or.inl rfl) (Or.inl rfl) .nil)
    query_free := fun query hquery => by
      obtain rfl := Option.mem_some_iff.mp hquery
      decide +kernel
    version_ne := by decide +kernel
    version_free := by decide +kernel }

/-- What a header needs that has no colon in its value. -/
def PlainTexts (name value : Text) : Prop :=
  name ≠ [] ∧ (Clean name ∧ (58 : UInt8) ∉ name ∧ ∀ ch ∈ name.head?, isBlank ch = false) ∧
    Clean value ∧ (58 : UInt8) ∉ value ∧ ∀ ch ∈ value.head?, isBlank ch = false

instance (name value : Text) : Decidable (PlainTexts name value) :=
  inferInstanceAs (Decidable (_ ∧ _))

def plainHeader (name value : Text) (h : PlainTexts name value) : Header :=
  { name := name
    gap := [32]
    kept := value
    more := none
    name_ne := h.1
    name_clean := h.2.1.1
    name_free := h.2.1.2.1
    name_head := h.2.1.2.2
    gap_blank := List.forall_mem_singleton.mpr rfl
    kept_clean := h.2.2.1
    kept_free := h.2.2.2.1
    kept_head := h.2.2.2.2
    kept_ne := fun hmore => absurd rfl hmore
    more_clean := fun _ hmore => nomatch hmore }

/-- A request whose body is sent only if the server wants it. -/
def postTwo : Head :=
  { getRoot with
    method := ascii "POST"
    headers := [plainHeader (ascii "Content-Length") (ascii "2") (by decide +kernel),
      plainHeader (ascii "Expect") (ascii "100-continue") (by decide +kernel)]
    method_ne := by decide +kernel
    method_free := by decide +kernel }

theorem postTwo_announces : postTwo.Announces 2 := by
  have hlast : (postTwo.stored.filter fun header =>
      sameText (ascii "content-length") header.1).getLast? =
        some (ascii "Content-Length", ascii "2") := by decide +kernel
  unfold Head.Announces
  rw [hlast]
  exact ⟨[2], by simp, by simp, by decide +kernel, by decide⟩

end Yardstick.WebbyRequest
