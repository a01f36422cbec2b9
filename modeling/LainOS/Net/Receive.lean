import LainOS.Net.Stream

/-!
# The receive path

`net_receive_frame` and the parsers below it. A pointer into the frame is the list of the bytes from
there to the end of the frame, so that a read behind the frame has no result. Neither has a write
behind a buffer, nor a loop that does not end within the passes it is given.

Counters of `debug_info` and what `net_http_parse_info` makes of a finished header are left out.
-/

namespace Net

open Checked

/-! ### Fields of a packet -/

def be16 (p : List UInt8) (i : ℕ) : Option UInt16 := do
  let a ← p[i]?
  let b ← p[i + 1]?
  return a.toUInt16 <<< 8 ||| b.toUInt16

def be32 (p : List UInt8) (i : ℕ) : Option UInt32 := do
  let a ← p[i]?
  let b ← p[i + 1]?
  let c ← p[i + 2]?
  let d ← p[i + 3]?
  return a.toUInt32 <<< 24 ||| b.toUInt32 <<< 16 ||| c.toUInt32 <<< 8 ||| d.toUInt32

/-! ### Protocol state -/

structure ArpWait where
  active : Bool
  device : UInt32
  wantedIp : UInt32
  mac : List UInt8
  found : Bool
  deriving DecidableEq, Repr

/-- `net_tcp_get_t`, with the packets sent for it. -/
structure TcpGet where
  active : Bool
  device : UInt32
  remoteIp : UInt32
  localPort : UInt16
  remotePort : UInt16
  seq : UInt32
  ack : UInt32
  connected : Bool
  closed : Bool
  reset : Bool
  out : List UInt8
  outCapacity : UInt32
  outSize : UInt32
  headerDone : Bool
  full : Bool
  header : List UInt8
  headerSize : UInt32
  headerTruncated : Bool
  headerTail : List UInt8
  headerTailCount : UInt32
  sent : List TcpPacket
  deriving DecidableEq, Repr

structure DhcpWait where
  active : Bool
  device : UInt32
  xid : UInt32
  wantedType : UInt8
  found : Bool
  offeredIp : UInt32
  serverIp : UInt32
  subnetMask : UInt32
  router : UInt32
  dns : UInt32
  deriving DecidableEq, Repr

structure DnsWait where
  active : Bool
  device : UInt32
  id : UInt16
  localPort : UInt16
  found : Bool
  cnameFound : Bool
  ip : UInt32
  cname : List UInt8
  deriving DecidableEq, Repr

structure State where
  deviceCount : UInt32
  localIp : UInt32
  arpWait : ArpWait
  tcpGet : TcpGet
  tcpStream : TcpStream
  dhcpWait : DhcpWait
  dnsWait : DnsWait
  /-- The memory on the stack where `net_handle_dns` keeps the name of a record. -/
  recordName : List UInt8
  /-- The ARP replies sent: to which address and for which IP. -/
  arpReplies : List (List UInt8 × UInt32)
  deriving DecidableEq, Repr

/-! ### ARP -/

def handleArp (st : State) (index : UInt32) (payload : List UInt8) (size : ℕ) : Option State :=
  if size < 28 then some st
  else do
    let htype ← be16 payload 0
    let ptype ← be16 payload 2
    let hlen ← payload[4]?
    let plen ← payload[5]?
    if htype ≠ 1 ∨ ptype ≠ 0x0800 ∨ hlen ≠ 6 ∨ plen ≠ 4 then return st
    let op ← be16 payload 6
    let senderIp ← be32 payload 14
    let targetIp ← be32 payload 24
    let sha ← copy? payload 0 8 6 (List.replicate 6 0)
    let st := if op = 1 ∧ targetIp = st.localIp then
        { st with arpReplies := st.arpReplies ++ [(sha, senderIp)] }
      else st
    if st.arpWait.active ∧ st.arpWait.device = index ∧ st.arpWait.wantedIp = senderIp ∧ op = 2 then
      let mac ← copy? payload 0 8 6 st.arpWait.mac
      return { st with arpWait := { st.arpWait with mac := mac, found := true } }
    else return st

/-! ### TCP -/

namespace TcpGet

def sendPacket (g : TcpGet) (flags : UInt8) : TcpGet :=
  { g with sent := g.sent ++ [⟨flags, g.seq, g.ack, 4096⟩] }

/-- The last four bytes of the header so far. -/
def pushTail (g : TcpGet) (ch : UInt8) : Option TcpGet :=
  if g.headerTailCount < 4 then do
    let tail ← write? g.headerTail g.headerTailCount.toNat ch
    return { g with headerTail := tail, headerTailCount := g.headerTailCount + 1 }
  else do
    let a ← g.headerTail[1]?
    let b ← g.headerTail[2]?
    let c ← g.headerTail[3]?
    let tail ← write? g.headerTail 0 a
    let tail ← write? tail 1 b
    let tail ← write? tail 2 c
    let tail ← write? tail 3 ch
    return { g with headerTail := tail }

def pushHeader (g : TcpGet) (ch : UInt8) : Option TcpGet :=
  if g.headerSize + 1 < 1024 then do
    let header ← write? g.header g.headerSize.toNat ch
    let header ← write? header (g.headerSize + 1).toNat 0
    return { g with header := header, headerSize := g.headerSize + 1 }
  else return { g with headerTruncated := true }

/-- `net_http_copy_body_byte` -/
def copyBodyByte (g : TcpGet) (ch : UInt8) : Option TcpGet :=
  if !g.headerDone then do
    let g ← g.pushHeader ch
    let g ← g.pushTail ch
    let ended : Bool := g.headerTailCount = 4 ∧ g.headerTail = [13, 10, 13, 10]
    return { g with headerDone := ended }
  else if g.outCapacity ≤ g.outSize + 1 then return { g with full := true }
  else do
    let out ← write? g.out g.outSize.toNat ch
    let out ← write? out (g.outSize + 1).toNat 0
    return { g with out := out, outSize := g.outSize + 1 }

/-- The `n` bytes of the payload from `pos` on. -/
def copyBody (payload : List UInt8) : ℕ → ℕ → TcpGet → Option TcpGet
  | _, 0, g => some g
  | pos, n + 1, g => do
    let ch ← payload[pos]?
    copyBody payload (pos + 1) n (← g.copyBodyByte ch)

def handlePayload (g : TcpGet) (seg : TcpSegment) : Option TcpGet :=
  if tcpReaches seg.seq seg.payloadSize g.ack then do
    let offset := g.ack - seg.seq
    let remaining := seg.payloadSize - offset
    let g ← copyBody seg.payload offset.toNat remaining.toNat g
    return { g with ack := g.ack + remaining }.sendPacket 0x10
  else if tcpSeqAfter seg.seq g.ack ∨ tcpSeqBefore seg.seq g.ack then some (g.sendPacket 0x10)
  else some g

def handleFin (g : TcpGet) (seg : TcpSegment) : TcpGet :=
  if seg.fin ∧ seg.seq + seg.payloadSize = g.ack then
    let g := { g with ack := seg.seq + seg.payloadSize + 1, closed := true }
    { g.sendPacket 0x11 with seq := g.seq + 1 }
  else g

/-- The part of `net_handle_tcp` for segments of the HTTP connection. -/
def handleSegment (g : TcpGet) (seg : TcpSegment) : Option TcpGet :=
  if seg.rst then some { g with reset := true }
  else if !g.connected && seg.synAck then
    some ({ g with ack := seg.seq + 1, connected := true }.sendPacket 0x10)
  else do
    let g ← if seg.payloadSize ≠ 0 then g.handlePayload seg else some g
    return g.handleFin seg

end TcpGet

/-- The header fields that `net_handle_tcp` reads, behind its length checks; `none` inside if one of
them fails. -/
def parseTcp (ip : List UInt8) (ipHeaderSize ipTotalSize : ℕ) : Option (Option TcpSegment) :=
  if ipTotalSize < ipHeaderSize + 20 then some none
  else do
    let tcp := ip.drop ipHeaderSize
    let dataOffset ← tcp[12]?
    let tcpHeaderSize := (dataOffset >>> 4).toNat * 4
    if tcpHeaderSize < 20 ∨ ipTotalSize < ipHeaderSize + tcpHeaderSize then return none
    let srcIp ← be32 ip 12
    let srcPort ← be16 tcp 0
    let dstPort ← be16 tcp 2
    let seq ← be32 tcp 4
    let ack ← be32 tcp 8
    let flags ← tcp[13]?
    return some ⟨srcIp, srcPort, dstPort, seq, ack, flags, tcp.drop tcpHeaderSize,
      UInt32.ofNat (ipTotalSize - ipHeaderSize - tcpHeaderSize)⟩

def handleTcpSegment (st : State) (index : UInt32) (seg : TcpSegment) : Option State :=
  if st.tcpStream.active ∧ st.tcpStream.device = index ∧ seg.srcIp = st.tcpStream.remoteIp ∧
      seg.srcPort = st.tcpStream.remotePort ∧ seg.dstPort = st.tcpStream.localPort then
    (st.tcpStream.handleSegment seg).map fun s => { st with tcpStream := s }
  else if !st.tcpGet.active ∨ st.tcpGet.device ≠ index then some st
  else if seg.srcIp ≠ st.tcpGet.remoteIp ∨ seg.srcPort ≠ st.tcpGet.remotePort ∨
      seg.dstPort ≠ st.tcpGet.localPort then some st
  else (st.tcpGet.handleSegment seg).map fun g => { st with tcpGet := g }

def handleTcp (st : State) (index : UInt32) (ip : List UInt8) (ipHeaderSize ipTotalSize : ℕ) :
    Option State := do
  match ← parseTcp ip ipHeaderSize ipTotalSize with
  | none => return st
  | some seg => handleTcpSegment st index seg

/-! ### DHCP -/

/-- What is gathered from the options. -/
structure DhcpOptions where
  messageType : UInt8
  serverIp : UInt32
  subnetMask : UInt32
  router : UInt32
  dns : UInt32

/-- One option; its data, `len` bytes, stand at `offset`. -/
def dhcpOption (payload : List UInt8) (offset : ℕ) (code len : UInt8) (options : DhcpOptions) :
    Option DhcpOptions :=
  if code = 53 ∧ 1 ≤ len then payload[offset]?.map fun x => { options with messageType := x }
  else if code = 54 ∧ 4 ≤ len then (be32 payload offset).map fun x => { options with serverIp := x }
  else if code = 1 ∧ 4 ≤ len then (be32 payload offset).map fun x => { options with subnetMask := x }
  else if code = 3 ∧ 4 ≤ len then (be32 payload offset).map fun x => { options with router := x }
  else if code = 6 ∧ 4 ≤ len then (be32 payload offset).map fun x => { options with dns := x }
  else some options

/-- The loop over the options, in `n` passes at most. -/
def dhcpOptions (payload : List UInt8) (size : ℕ) : ℕ → ℕ → DhcpOptions → Option DhcpOptions
  | 0, _, _ => none
  | n + 1, offset, options =>
    if size ≤ offset then some options
    else do
      let code ← payload[offset]?
      if code = 0 then dhcpOptions payload size n (offset + 1) options
      else if code = 255 ∨ size ≤ offset + 1 then return options
      else do
        let len ← payload[offset + 1]?
        if size < offset + 2 + len.toNat then return options
        let options ← dhcpOption payload (offset + 2) code len options
        dhcpOptions payload size n (offset + 2 + len.toNat) options

def handleDhcp (st : State) (index : UInt32) (payload : List UInt8) (size : ℕ) : Option State :=
  if !st.dhcpWait.active ∨ st.dhcpWait.device ≠ index ∨ size < 240 then some st
  else do
    let op ← payload[0]?
    let htype ← payload[1]?
    let hlen ← payload[2]?
    let xid ← be32 payload 4
    let magic ← be32 payload 236
    if op ≠ 2 ∨ htype ≠ 1 ∨ hlen ≠ 6 ∨ xid ≠ st.dhcpWait.xid ∨ magic ≠ 0x63825363 then return st
    let options ← dhcpOptions payload size (size + 1) 240 ⟨0, 0, 0, 0, 0⟩
    if options.messageType ≠ st.dhcpWait.wantedType then return st
    let yiaddr ← be32 payload 16
    return { st with dhcpWait := { st.dhcpWait with
      offeredIp := yiaddr
      serverIp := options.serverIp
      subnetMask := options.subnetMask
      router := options.router
      dns := options.dns
      found := true } }

/-! ### DNS -/

/-- The variables of `net_dns_read_name`. An empty buffer `out` stands for none. -/
structure NameCursor where
  pos : ℕ
  outPos : ℕ
  jumpCount : ℕ
  next : ℕ
  out : List UInt8

/-- What `net_dns_read_name` returns and leaves in the buffer. -/
structure NameResult where
  ok : Bool
  next : ℕ
  out : List UInt8

/-- Where the packet goes on behind the name: the first jump fixes it. -/
def NameCursor.nextOffset (c : NameCursor) : ℕ := if c.next = 0 then c.pos else c.next

def NameCursor.fail (c : NameCursor) : NameResult := ⟨false, c.next, c.out⟩

/-- The dot in front of a label that is not the first; `none` inside if there is no room for it. -/
def nameDot (buf : List UInt8) (outPos : ℕ) : Option (Option (List UInt8 × ℕ)) :=
  if outPos = 0 then some (some (buf, outPos))
  else if buf.length ≤ outPos + 1 then some none
  else (write? buf outPos 46).map fun buf => some (buf, outPos + 1)

/-- The label of `len` bytes at `pos`, written to the buffer behind the name so far. The cursor inside
`error` has the buffer of a name that does not fit. -/
def nameLabel (payload : List UInt8) (len : ℕ) (c : NameCursor) :
    Option (Except NameCursor NameCursor) :=
  if c.out.length = 0 then some (.ok c)
  else do
    match ← nameDot c.out c.outPos with
    | none => return .error c
    | some (buf, outPos) =>
      if buf.length ≤ outPos + len then return .error { c with out := buf, outPos := outPos }
      let buf ← copy? payload outPos c.pos len buf
      let buf ← write? buf (outPos + len) 0
      return .ok { c with out := buf, outPos := outPos + len }

/-- The loop of `net_dns_read_name`, in `n` passes at most. -/
def readName (payload : List UInt8) (size : ℕ) : ℕ → NameCursor → Option NameResult
  | 0, _ => none
  | n + 1, c =>
    if size ≤ c.pos then some c.fail
    else do
      let len ← payload[c.pos]?
      let c := { c with pos := c.pos + 1 }
      if len = 0 then
        return ⟨true, c.nextOffset, c.out⟩
      else if len &&& 0xC0 = 0xC0 then
        if size ≤ c.pos then return c.fail
        let low ← payload[c.pos]?
        let ptr := (len &&& 0x3F).toNat <<< 8 ||| low.toNat
        let c := { c with pos := c.pos + 1 }
        if size ≤ ptr ∨ 8 ≤ c.jumpCount then return c.fail
        readName payload size n { c with
          next := c.nextOffset
          pos := ptr
          jumpCount := c.jumpCount + 1 }
      else if len &&& 0xC0 ≠ 0 ∨ 63 < len ∨ size < c.pos + len.toNat then return c.fail
      else
        match ← nameLabel payload len.toNat c with
        | .error c => return c.fail
        | .ok c => readName payload size n { c with pos := c.pos + len.toNat }

/-- `net_dns_read_name`. There are eight jumps at most, and at most `size` labels in front of each and
behind the last. -/
def dnsReadName (payload : List UInt8) (size offset : ℕ) (out : List UInt8) : Option NameResult :=
  if size ≤ offset then some ⟨false, 0, out⟩
  else do
    let out ← if out.length = 0 then some out else write? out 0 0
    readName payload size (9 * (size + 2)) ⟨offset, 0, 0, 0, out⟩

def dnsSkipName (payload : List UInt8) (size offset : ℕ) : Option ℕ := do
  let name ← dnsReadName payload size offset []
  return if name.ok then name.next else size

def lowerCase (ch : UInt8) : UInt8 := if 65 ≤ ch ∧ ch ≤ 90 then ch + 32 else ch

/-- The comparison of two names from the position `i` on, over `n` characters at most. -/
def dnsNameEqual (a b : List UInt8) : ℕ → ℕ → Option Bool
  | 0, _ => none
  | n + 1, i => do
    let ca ← a[i]?
    let cb ← b[i]?
    if ca = 0 ∨ cb = 0 then return decide (ca = 0 ∧ cb = 0)
    else if lowerCase ca ≠ lowerCase cb then return false
    else dnsNameEqual a b n (i + 1)

/-- The loop over the questions; `none` inside if one does not fit. -/
def skipQuestions (payload : List UInt8) (size : ℕ) : ℕ → ℕ → Option (Option ℕ)
  | 0, offset => some (some offset)
  | n + 1, offset => do
    let offset ← dnsSkipName payload size offset
    if size < offset + 4 then return none
    else skipQuestions payload size n (offset + 4)

/-- The numbers of answer, authority and additional records. -/
structure DnsCounts where
  answer : ℕ
  authority : ℕ
  additional : ℕ

/-- The fields of a record behind its name. -/
structure DnsRecord where
  type : UInt16
  classCode : UInt16
  rdlength : UInt16
  name : List UInt8

/-- Whether record number `i` is the address that is waited for. -/
def dnsWanted (counts : DnsCounts) (i : ℕ) (record : DnsRecord) (wait : DnsWait) : Option Bool :=
  if record.type ≠ 1 ∨ record.classCode ≠ 1 ∨ record.rdlength ≠ 4 then some false
  else if i < counts.answer then some true
  else if counts.answer + counts.authority ≤ i ∧ wait.cnameFound then
    dnsNameEqual record.name wait.cname record.name.length 0
  else some false

/-- One record, number `i`, whose data stand at `offset`; whether the handler returns, and the state. -/
def dnsRecord (payload : List UInt8) (size : ℕ) (counts : DnsCounts) (i offset : ℕ)
    (record : DnsRecord) (wait : DnsWait) : Option (Bool × DnsWait) := do
  if ← dnsWanted counts i record wait then
    let ip ← be32 payload offset
    return (true, { wait with ip := ip, found := true })
  else if i < counts.answer ∧ record.type = 5 ∧ record.classCode = 1 ∧ record.rdlength ≠ 0 then
    let name ← dnsReadName payload size offset wait.cname
    let first : UInt8 ← name.out[0]?
    return (false, { wait with
      cname := name.out
      cnameFound := wait.cnameFound || (name.ok && first ≠ 0) })
  else return (false, wait)

/-- The loop over the records from number `i` on, `n` of them. -/
def dnsRecords (payload : List UInt8) (size : ℕ) (counts : DnsCounts) :
    ℕ → ℕ → ℕ → List UInt8 → DnsWait → Option DnsWait
  | 0, _, _, _, wait => some wait
  | n + 1, i, offset, recordName, wait =>
    if size ≤ offset then some wait
    else do
      let name ← dnsReadName payload size offset recordName
      if !name.ok ∨ size < name.next + 10 then return wait
      let offset := name.next
      let type ← be16 payload offset
      let classCode ← be16 payload (offset + 2)
      let rdlength ← be16 payload (offset + 8)
      let offset := offset + 10
      if size < offset + rdlength.toNat then return wait
      let record := ⟨type, classCode, rdlength, name.out⟩
      let (found, wait) ← dnsRecord payload size counts i offset record wait
      if found then return wait
      else dnsRecords payload size counts n (i + 1) (offset + rdlength.toNat) name.out wait

def handleDns (st : State) (index : UInt32) (payload : List UInt8) (size : ℕ) : Option State :=
  if !st.dnsWait.active ∨ st.dnsWait.device ≠ index ∨ size < 12 then some st
  else do
    let id ← be16 payload 0
    let flags ← payload[2]?
    let code ← payload[3]?
    if id ≠ st.dnsWait.id ∨ flags &&& 0x80 = 0 ∨ code &&& 0x0F ≠ 0 then return st
    let questionCount ← be16 payload 4
    let answerCount ← be16 payload 6
    let authorityCount ← be16 payload 8
    let additionalCount ← be16 payload 10
    let counts : DnsCounts := ⟨answerCount.toNat, authorityCount.toNat, additionalCount.toNat⟩
    match ← skipQuestions payload size questionCount.toNat 12 with
    | none => return st
    | some offset =>
      let wait ← dnsRecords payload size counts
        (counts.answer + counts.authority + counts.additional) 0 offset st.recordName st.dnsWait
      return { st with dnsWait := wait }

/-! ### UDP, IPv4 and Ethernet -/

def handleUdp (st : State) (index : UInt32) (ip : List UInt8) (ipHeaderSize ipTotalSize : ℕ) :
    Option State :=
  if ipTotalSize < ipHeaderSize + 8 then some st
  else do
    let udp := ip.drop ipHeaderSize
    let srcPort ← be16 udp 0
    let dstPort ← be16 udp 2
    let udpLength ← be16 udp 4
    if udpLength < 8 ∨ ipTotalSize < ipHeaderSize + udpLength.toNat then return st
    let payload := udp.drop 8
    if srcPort = 67 ∧ dstPort = 68 then handleDhcp st index payload (udpLength.toNat - 8)
    else if srcPort = 53 ∧ st.dnsWait.active ∧ dstPort = st.dnsWait.localPort then
      handleDns st index payload (udpLength.toNat - 8)
    else return st

def handleIpv4 (st : State) (index : UInt32) (payload : List UInt8) (size : ℕ) : Option State :=
  if size < 20 then some st
  else do
    let verIhl : UInt8 ← payload[0]?
    let totalLength ← be16 payload 2
    let ipHeaderSize := (verIhl &&& 0x0F).toNat * 4
    let ipTotalSize := totalLength.toNat
    if verIhl >>> 4 ≠ 4 ∨ ipHeaderSize < 20 ∨ ipTotalSize < ipHeaderSize ∨ size < ipTotalSize then
      return st
    let proto ← payload[9]?
    let dst ← be32 payload 16
    if dst ≠ st.localIp ∧ dst ≠ 0xFFFFFFFF ∧ ¬(st.localIp = 0 ∧ proto = 17) then return st
    if proto = 6 then handleTcp st index payload ipHeaderSize ipTotalSize
    else if proto = 17 then handleUdp st index payload ipHeaderSize ipTotalSize
    else return st

/-- The end of `net_receive_frame`, when the type of the payload is known. -/
def handlePayload (st : State) (index : UInt32) (type : UInt16) (frame : List UInt8)
    (payloadOffset : ℕ) : Option State :=
  if frame.length < payloadOffset then some st
  else
    let payload := frame.drop payloadOffset
    if type = 0x0806 then handleArp st index payload (frame.length - payloadOffset)
    else if type = 0x0800 then handleIpv4 st index payload (frame.length - payloadOffset)
    else some st

/-- `net_receive_frame` on a frame of `frame.length` bytes. -/
def receiveFrame (st : State) (index : UInt32) (frame : List UInt8) : Option State :=
  if st.deviceCount ≤ index ∨ frame.length < 14 then some st
  else do
    let type ← be16 frame 12
    if (type = 0x8100 ∨ type = 0x88A8) ∧ 18 ≤ frame.length then
      let type ← be16 frame 16
      handlePayload st index type frame 18
    else handlePayload st index type frame 14

end Net
