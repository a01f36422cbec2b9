import LainOS.Net.Receive
import LainOS.Net.StreamPrefix
import Mathlib.Data.List.DropRight

/-!
# The result of an HTTP request

What `net_handle_tcp` keeps of a response and what `net_http_parse_info` makes of it. Segments carry
slices of the response in any order, more than once and overlapping. Each byte of it is copied once
and in order, so that the result only depends on the response (`httpResult_unique`).
-/

namespace Net

open List Option Function

/-! ### The parsed header -/

/-- `net_http_info_t` as far as `net_http_parse_info` fills it in. -/
structure HttpInfo where
  statusCode : UInt32 := 0
  contentLength : UInt32 := 0
  bodySize : UInt32
  headerSize : UInt32
  flags : UInt32
  error : ℤ
  contentType : List UInt8 := []
  location : List UInt8 := []
  deriving DecidableEq, Repr

def httpText (s : String) : List UInt8 := s.toList.map fun c => c.toNat.toUInt8

def isBlank (ch : UInt8) : Bool := ch = 32 ∨ ch = 9

/-- `net_http_header_match_at` for the text from a position on. -/
def httpHeaderMatchAt (text : List UInt8) (needle : String) : Bool :=
  (text.take needle.length).map lowerCase = httpText needle

/-- `net_http_parse_uint`: the value, and whether there was a digit. -/
def httpParseUint (text : List UInt8) : UInt32 × Bool :=
  let digits := text.takeWhile fun ch => 48 ≤ ch ∧ ch ≤ 57
  (digits.foldl (fun value ch =>
    let digit := (ch - 48).toUInt32
    if 429496729 < value ∨ (value = 429496729 ∧ 5 < digit) then 0xFFFFFFFF
    else value * 10 + digit) 0, digits ≠ [])

/-- The loop of `net_http_header_value_contains`, with `n` characters of the needle matched. -/
def matchFrom (needle : List UInt8) : ℕ → List UInt8 → Bool
  | _, [] => false
  | n, ch :: rest =>
    if needle[n]? = some (lowerCase ch) then
      n + 1 = needle.length || matchFrom needle (n + 1) rest
    else matchFrom needle (if needle[0]? = some (lowerCase ch) then 1 else 0) rest

/-- The value of a field: the rest of the line without the blanks in front. -/
def httpValue (text : List UInt8) : List UInt8 :=
  (text.dropWhile isBlank).takeWhile fun ch => ch ≠ 13 ∧ ch ≠ 10

def httpHeaderValueContains (text : List UInt8) (needle : String) : Bool :=
  matchFrom (httpText needle) 0 (httpValue text)

def httpCopyHeaderValue (text : List UInt8) (capacity : ℕ) : List UInt8 :=
  ((httpValue text).take (capacity - 1)).rdropWhile isBlank

/-- The fields that are looked for at the start of a line. -/
def httpParseLine (info : HttpInfo) (text : List UInt8) : HttpInfo :=
  if httpHeaderMatchAt text "content-length:" then
    let (value, sawDigit) := httpParseUint ((text.drop 15).dropWhile isBlank)
    { info with
      contentLength := value
      flags := if sawDigit then info.flags ||| 0x2 else info.flags }
  else if httpHeaderMatchAt text "content-type:" then
    { info with contentType := httpCopyHeaderValue (text.drop 13) 64 }
  else if httpHeaderMatchAt text "location:" then
    { info with location := httpCopyHeaderValue (text.drop 9) 1024 }
  else if httpHeaderMatchAt text "transfer-encoding:" then
    if httpHeaderValueContains (text.drop 18) "chunked" then
      { info with flags := info.flags ||| 0x8 }
    else info
  else if httpHeaderMatchAt text "content-encoding:" then
    if httpHeaderValueContains (text.drop 17) "gzip" ∨
        httpHeaderValueContains (text.drop 17) "x-gzip" then
      { info with flags := info.flags ||| 0x40 }
    else if httpHeaderValueContains (text.drop 17) "deflate" then
      { info with flags := info.flags ||| 0x80 }
    else info
  else info

def httpStatusCode (header : List UInt8) : UInt32 :=
  if 12 ≤ header.length ∧ header.take 4 = httpText "HTTP" then
    (httpParseUint (((header.drop 5).dropWhile (· ≠ 32)).dropWhile (· = 32))).1
  else 0

/-- `net_http_parse_info` -/
def httpParseInfo (header : List UInt8) (bodySize : UInt32) (bodyTruncated headerTruncated : Bool)
    (error : ℤ) : HttpInfo :=
  let lines := (List.range header.length).filter fun i => i = 0 ∨ header[i - 1]? = some 10
  lines.foldl (fun info i => httpParseLine info (header.drop i))
    { statusCode := httpStatusCode header
      bodySize := bodySize
      headerSize := UInt32.ofNat header.length
      flags := (if bodyTruncated then 0x1 else 0) ||| (if headerTruncated then 0x4 else 0)
      error := error }

structure HttpResult where
  header : List UInt8
  headerTruncated : Bool
  bodyTruncated : Bool
  body : List UInt8
  bodySize : UInt32
  info : HttpInfo
  deriving DecidableEq, Repr

namespace TcpGet

/-- What the request delivers when it ends with the given error. -/
def httpResult (g : TcpGet) (error : ℤ) : HttpResult where
  header := g.header.take g.headerSize.toNat
  headerTruncated := g.headerTruncated
  bodyTruncated := g.full
  body := g.out.take g.outSize.toNat
  bodySize := g.outSize
  info := httpParseInfo (g.header.take g.headerSize.toNat) g.outSize g.full g.headerTruncated error

/-! ### Copied bytes -/

/-- The state of the connection, beside which the bytes are copied. -/
structure Connection where
  seq : UInt32
  ack : UInt32
  connected : Bool
  closed : Bool
  reset : Bool
  sent : List TcpPacket

def connection (g : TcpGet) : Connection :=
  ⟨g.seq, g.ack, g.connected, g.closed, g.reset, g.sent⟩

def withConnection (g : TcpGet) (c : Connection) : TcpGet :=
  { g with
    seq := c.seq, ack := c.ack, connected := c.connected, closed := c.closed, reset := c.reset
    sent := c.sent }

variable {g g' : TcpGet} {c : Connection}

lemma pushHeader_connected (ch : UInt8) :
    (g.withConnection c).pushHeader ch = (g.pushHeader ch).map (·.withConnection c) := by
  rw [pushHeader, pushHeader]
  by_cases hroom : g.headerSize + 1 < 1024
  · rw [if_pos hroom, if_pos (show (g.withConnection c).headerSize + 1 < 1024 from hroom)]
    simp only [map_bind, bind_eq_bind, comp_def]
    rfl
  · rw [if_neg hroom, if_neg (show ¬ (g.withConnection c).headerSize + 1 < 1024 from hroom)]
    rfl

lemma pushTail_connected (ch : UInt8) :
    (g.withConnection c).pushTail ch = (g.pushTail ch).map (·.withConnection c) := by
  rw [pushTail, pushTail]
  by_cases hcount : g.headerTailCount < 4
  · rw [if_pos hcount, if_pos (show (g.withConnection c).headerTailCount < 4 from hcount)]
    simp only [map_bind, bind_eq_bind, comp_def]
    rfl
  · rw [if_neg hcount, if_neg (show ¬ (g.withConnection c).headerTailCount < 4 from hcount)]
    simp only [map_bind, bind_eq_bind, comp_def]
    rfl

/-- Copying a byte neither reads nor changes the state of the connection. -/
lemma copyBodyByte_connected (ch : UInt8) :
    (g.withConnection c).copyBodyByte ch = (g.copyBodyByte ch).map (·.withConnection c) := by
  rw [copyBodyByte, copyBodyByte, pushHeader_connected]
  by_cases hdone : (!g.headerDone) = true
  · rw [if_pos hdone, if_pos (show (!(g.withConnection c).headerDone) = true from hdone)]
    cases g.pushHeader ch with
    | none => rfl
    | some g₁ =>
      simp only [map_some, bind_eq_bind, bind_some, pushTail_connected]
      cases g₁.pushTail ch <;> rfl
  · rw [if_neg hdone, if_neg (show ¬ (!(g.withConnection c).headerDone) = true from hdone)]
    have hsame : (g.withConnection c).outCapacity ≤ (g.withConnection c).outSize + 1 ↔
        g.outCapacity ≤ g.outSize + 1 := Iff.rfl
    by_cases hfull : g.outCapacity ≤ g.outSize + 1
    · rw [if_pos hfull, if_pos (hsame.mpr hfull)]
      rfl
    · rw [if_neg hfull, if_neg (hsame.not.mpr hfull)]
      simp only [map_bind, bind_eq_bind, comp_def]
      rfl

lemma foldlM_connected (bytes : List UInt8) : bytes.foldlM copyBodyByte (g.withConnection c) =
      (bytes.foldlM copyBodyByte g).map (·.withConnection c) := by
  induction bytes generalizing g with
  | nil => rfl
  | cons ch bytes ih =>
    rw [foldlM_cons, foldlM_cons, copyBodyByte_connected]
    cases g.copyBodyByte ch with
    | none => rfl
    | some g₁ => exact ih

lemma connection_of_foldlM {bytes : List UInt8} (h : bytes.foldlM copyBodyByte g = some g') :
    g'.connection = g.connection := by
  have hsame := foldlM_connected (g := g) (c := g.connection) bytes
  change bytes.foldlM copyBodyByte g = _ at hsame
  rw [h, map_some, some.injEq] at hsame
  rw [hsame]
  rfl

lemma copyBody_eq_foldlM {payload : List UInt8} {pos n : ℕ} (h : pos + n ≤ payload.length) :
    copyBody payload pos n g = ((payload.drop pos).take n).foldlM copyBodyByte g := by
  induction n generalizing pos g with
  | zero => rfl
  | succ n ih =>
    rw [copyBody, getElem?_eq_getElem (by omega),
      drop_eq_getElem_cons (by omega : pos < payload.length), take_succ_cons,
      foldlM_cons, bind_eq_bind, bind_some]
    cases g.copyBodyByte payload[pos] with
    | none => rfl
    | some g₁ => exact ih (by omega)

/-- How many bytes of the segment are copied. -/
def accepted (g : TcpGet) (seg : TcpSegment) : ℕ :=
  if seg.rst = false ∧ seg.payloadSize ≠ 0 ∧ tcpReaches seg.seq seg.payloadSize g.ack then
    (seg.payloadSize - (g.ack - seg.seq)).toNat
  else 0

end TcpGet

/-! ### Runs -/

section

variable (data : List UInt8) (g₀ : TcpGet)

/-- The states after segments of the response, with the number of bytes that were accepted. A segment
lies within `2 ^ 31 - 2 ^ 16` of the position that is acknowledged; the FIN takes one. -/
inductive Fetches : TcpGet → ℕ → Prop
  | connected (connected : g₀.connected = true) (closed : g₀.closed = false) : Fetches g₀ 0
  | segment {g g' : TcpGet} {seg : TcpSegment} {k i : ℕ} (fetches : Fetches g k)
    (carries : Carries data g₀.ack seg i)
    (near : i ≤ k + g.closed.toNat + (2 ^ 31 - 2 ^ 16) ∧
      k + g.closed.toNat ≤ i + (2 ^ 31 - 2 ^ 16))
    (handled : g.handleSegment seg = some g') : Fetches g' (k + g.accepted seg)

/-- The first `k` bytes of the response have been copied, one by one. -/
structure Fetched (g : TcpGet) (k : ℕ) : Prop where
  connected : g.connected = true
  le : k ≤ data.length
  copied : (data.take k).foldlM TcpGet.copyBodyByte g₀ = some (g.withConnection g₀.connection)
  ack : g.ack = seqAt g₀.ack (k + g.closed.toNat)
  closed : g.closed = true → k = data.length

end

variable {data : List UInt8} {g₀ g g' : TcpGet} {seg : TcpSegment} {k i : ℕ}

section

variable (h : Fetched data g₀ g k) (hseg : Carries data g₀.ack seg i)
include h hseg

lemma Fetched.handlePayload (hnear : i ≤ k + g.closed.toNat + (2 ^ 31 - 2 ^ 16) ∧
      k + g.closed.toNat ≤ i + (2 ^ 31 - 2 ^ 16))
    (hrst : seg.rst = false) (hsize : seg.payloadSize ≠ 0) (hg : g.handlePayload seg = some g') :
    Fetched data g₀ g' (k + g.accepted seg) ∧ g'.closed = g.closed ∧
      g.accepted seg ≤ seg.payloadSize.toNat := by
  rw [TcpGet.handlePayload] at hg
  rw [TcpGet.accepted]
  by_cases hreach : tcpReaches seg.seq seg.payloadSize g.ack = true
  · rw [if_pos hreach] at hg
    rw [if_pos ⟨hrst, hsize, hreach⟩]
    rw [h.ack, hseg.reaches_iff hnear hsize] at hreach
    obtain ⟨hle, hlt⟩ := hreach
    have hstop := hseg.stop
    have hopen : g.closed = false := by
      by_contra hclosed
      rw [Bool.not_eq_false] at hclosed
      have hall := h.closed hclosed
      rw [hclosed, Bool.toNat_true] at hlt
      omega
    have hack : g.ack = seqAt g₀.ack k := by rw [h.ack, hopen]; rfl
    rw [hopen, Bool.toNat_false, Nat.add_zero] at hle hlt
    have hoffset : (g.ack - seg.seq).toNat = k - i := hack ▸ hseg.toNat_offset hle hlt
    have hremaining : (seg.payloadSize - (g.ack - seg.seq)).toNat = i + seg.payloadSize.toNat - k := by
      rw [UInt32.toNat_sub_of_le _ _ (UInt32.le_iff_toNat_le.mpr (by omega)), hoffset]
      omega
    obtain ⟨g₁, hcopy, hg⟩ := bind_eq_some_iff.mp hg
    have hlength := hseg.length
    rw [TcpGet.copyBody_eq_foldlM (by omega), hoffset,
      hseg.take_payload hle (by rw [hremaining]; omega)] at hcopy
    have hconnection := TcpGet.connection_of_foldlM hcopy
    have hclosed₁ : g₁.closed = false := (congrArg TcpGet.Connection.closed hconnection).trans hopen
    cases hg
    refine ⟨⟨?_, by omega, ?_, ?_, fun hclosed => ?_⟩, hclosed₁.trans hopen.symm, by omega⟩
    · exact (congrArg TcpGet.Connection.connected hconnection).trans h.connected
    · rw [take_add, foldlM_append, h.copied, bind_eq_bind, bind_some,
        TcpGet.foldlM_connected, hcopy]
      rfl
    · change g₁.ack + _ = seqAt g₀.ack (_ + g₁.closed.toNat)
      rw [hclosed₁, show g₁.ack = g.ack from congrArg TcpGet.Connection.ack hconnection, hack,
        seqAt_add]
      rfl
    · cases hclosed₁.symm.trans hclosed
  · rw [if_neg fun h => hreach h.2.2]
    rw [if_neg hreach] at hg
    split_ifs at hg <;> cases hg
    · exact ⟨⟨h.connected, h.le, h.copied, h.ack, h.closed⟩, rfl, Nat.zero_le _⟩
    · exact ⟨h, rfl, Nat.zero_le _⟩

lemma Fetched.handleFin (hlt : i + seg.payloadSize.toNat < k + g.closed.toNat + 2 ^ 31)
    (hlt' : k + g.closed.toNat < i + seg.payloadSize.toNat + 2 ^ 31) :
    Fetched data g₀ (g.handleFin seg) k := by
  rw [TcpGet.handleFin]
  split_ifs with hfin
  · obtain ⟨hflag, hack⟩ := hfin
    rw [hseg.seq, h.ack, seqAt_add, seqAt_inj hlt hlt', hseg.fin hflag] at hack
    have hopen : g.closed = false := by
      by_contra hclosed
      rw [Bool.not_eq_false] at hclosed
      rw [hclosed, h.closed hclosed, Bool.toNat_true] at hack
      omega
    rw [hopen, Bool.toNat_false, Nat.add_zero] at hack
    refine ⟨h.connected, h.le, h.copied, ?_, fun _ => hack.symm⟩
    rw [hseg.seq, seqAt_add, hseg.fin hflag, hack]
    exact seqAt_add g₀.ack k 1
  · exact h

end

lemma Fetches.fetched (h : Fetches data g₀ g k) : Fetched data g₀ g k := by
  induction h with
  | connected connected closed =>
    refine ⟨connected, Nat.zero_le _, rfl, ?_, fun h => absurd (h.symm.trans closed) (by decide)⟩
    rw [closed]
    exact (UInt32.add_zero _).symm
  | @segment g g' seg k i _ carries near handled ih =>
    rw [TcpGet.handleSegment] at handled
    have hsize := carries.size
    cases hrst : seg.rst with
    | true =>
      rw [hrst, if_pos rfl, some.injEq] at handled
      subst handled
      rw [TcpGet.accepted, if_neg (by simp [hrst])]
      exact ⟨ih.connected, ih.le, ih.copied, ih.ack, ih.closed⟩
    | false =>
      have hopen : (!g.connected && seg.synAck) = false := by rw [ih.connected]; rfl
      rw [hrst, if_neg Bool.false_ne_true, hopen, if_neg Bool.false_ne_true] at handled
      by_cases hempty : seg.payloadSize = 0
      · simp only [hempty, ne_eq, not_true_eq_false, if_false] at handled
        cases handled
        rw [TcpGet.accepted, if_neg fun h => h.2.1 hempty]
        exact ih.handleFin carries (by omega) (by omega)
      · simp only [ne_eq, hempty, not_false_eq_true, if_true] at handled
        obtain ⟨g₁, hg₁, hfin⟩ := bind_eq_some_iff.mp handled
        cases hfin
        obtain ⟨h₁, hclosed, haccepted⟩ := ih.handlePayload carries near hrst hempty hg₁
        exact h₁.handleFin carries (by rw [hclosed]; omega) (by rw [hclosed]; omega)

/-- Two sequences of segments after which all of the response has been accepted leave the same
result. -/
theorem httpResult_unique (h : Fetches data g₀ g data.length) (h' : Fetches data g₀ g' data.length)
    (error : ℤ) : g.httpResult error = g'.httpResult error := by
  have hsame := h.fetched.copied.symm.trans h'.fetched.copied
  exact congrArg (·.httpResult error) (some.inj hsame)

/-- A connected request with room for a body of seven bytes. -/
def newGet : TcpGet where
  active := true
  device := 0
  remoteIp := 0
  localPort := 49152
  remotePort := 80
  seq := 1
  ack := 0xFFFFFFFE
  connected := true
  closed := false
  reset := false
  out := List.replicate 8 0
  outCapacity := 8
  outSize := 0
  headerDone := false
  full := false
  header := List.replicate 1024 0
  headerSize := 0
  headerTruncated := false
  headerTail := List.replicate 4 0
  headerTailCount := 0
  sent := []

/-- An empty line and two bytes. -/
def shortResponse : List UInt8 := [13, 10, 13, 10, 104, 105]

/-- The segment with `n` bytes of the response from `i` on. -/
def responseSegment (flags : UInt8) (i n : ℕ) : TcpSegment :=
  segmentOf (0xFFFFFFFE + UInt32.ofNat i) flags ((shortResponse.drop i).take n)

/-- The request after some segments, if it has dealt with all of them. -/
def TcpGet.afterSegments (g : TcpGet) (segs : List TcpSegment) : TcpGet :=
  segs.foldl (fun g seg => (g.handleSegment seg).getD g) g

lemma handle_eq_some {seg : TcpSegment} (h : (g.handleSegment seg).isSome = true) :
    g.handleSegment seg = some (g.afterSegments [seg]) := by
  obtain ⟨g', hg'⟩ := isSome_iff_exists.mp h
  simp [TcpGet.afterSegments, hg']

/-- The response in one segment, and in three: the last two bytes, which come too early and are dropped,
the first four, and the last four with the FIN, of which two have been there. -/
theorem httpResult_unique_newGet : ∃ g g', Fetches shortResponse newGet g 6 ∧
    Fetches shortResponse newGet g' 6 ∧ g.httpResult 0 = g'.httpResult 0 := by
  have h₀ : Fetches shortResponse newGet newGet 0 := .connected rfl rfl
  have hwhole : Carries shortResponse newGet.ack (responseSegment 0x10 0 6) 0 :=
    by constructor <;> decide
  have hearly : Carries shortResponse newGet.ack (responseSegment 0x10 4 2) 4 :=
    by constructor <;> decide
  have hfirst : Carries shortResponse newGet.ack (responseSegment 0x10 0 4) 0 :=
    by constructor <;> decide
  have hlast : Carries shortResponse newGet.ack (responseSegment 0x11 2 4) 2 :=
    by constructor <;> decide
  have h := h₀.segment hwhole (by decide) (handle_eq_some (by decide +kernel))
  have h₁ := h₀.segment hearly (by decide) (handle_eq_some (by decide +kernel))
  rw [show 0 + newGet.accepted (responseSegment 0x10 0 6) = 6 by decide +kernel] at h
  rw [show 0 + newGet.accepted (responseSegment 0x10 4 2) = 0 by decide +kernel] at h₁
  have h₂ := h₁.segment hfirst (by decide +kernel) (handle_eq_some (by decide +kernel))
  rw [show 0 + (newGet.afterSegments [responseSegment 0x10 4 2]).accepted
    (responseSegment 0x10 0 4) = 4 by decide +kernel] at h₂
  have h₃ := h₂.segment hlast (by decide +kernel) (handle_eq_some (by decide +kernel))
  rw [show 4 + ((newGet.afterSegments [responseSegment 0x10 4 2]).afterSegments
    [responseSegment 0x10 0 4]).accepted (responseSegment 0x11 2 4) = 6 by decide +kernel] at h₃
  exact ⟨_, _, h, h₃, httpResult_unique h h₃ 0⟩

end Net
