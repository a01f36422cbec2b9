import LainOS.Lib.Checked

/-!
# The TCP stream

`net_handle_tcp` for segments of the open stream, and the end of `net_tcp_stream_recv`. Buffers are
lists of their bytes and every access to them is checked: a function has no result if it would read
or write outside of one.
-/

namespace Net

open Checked

/-- What `net_handle_tcp` reads from a segment. `payload` are the bytes of the frame from the payload
on, the first `payloadSize` of which belong to it. -/
structure TcpSegment where
  srcIp : UInt32
  srcPort : UInt16
  dstPort : UInt16
  seq : UInt32
  ack : UInt32
  flags : UInt8
  payload : List UInt8
  payloadSize : UInt32
  deriving DecidableEq, Repr

namespace TcpSegment

variable (seg : TcpSegment)

def fin : Bool := seg.flags &&& 0x01 ≠ 0
def rst : Bool := seg.flags &&& 0x04 ≠ 0
def acks : Bool := seg.flags &&& 0x10 ≠ 0
def synAck : Bool := seg.flags &&& 0x12 = 0x12

end TcpSegment

/-- A packet that was handed to the device. -/
structure TcpPacket where
  flags : UInt8
  seq : UInt32
  ack : UInt32
  window : UInt16
  deriving DecidableEq, Repr

/-- `net_tcp_stream_t`, with the packets sent for it. -/
structure TcpStream where
  active : Bool
  device : UInt32
  remoteIp : UInt32
  localPort : UInt16
  remotePort : UInt16
  seq : UInt32
  ack : UInt32
  txAcked : UInt32
  connected : Bool
  closed : Bool
  reset : Bool
  rxBuffer : List UInt8
  rxCapacity : UInt32
  rxSize : UInt32
  sent : List TcpPacket
  deriving DecidableEq, Repr

def tcpSeqBefore (a b : UInt32) : Bool := (a - b).toInt32 < 0

def tcpSeqAfter (a b : UInt32) : Bool := 0 < (a - b).toInt32

/-- Whether a payload starts at or before `ack` and ends behind it, or starts there. -/
def tcpReaches (seq size ack : UInt32) : Bool :=
  seq = ack || (tcpSeqBefore seq ack && tcpSeqAfter (seq + size) ack)

namespace TcpStream

def window (s : TcpStream) : UInt16 :=
  if !s.active || s.rxCapacity ≤ s.rxSize then 0
  else if 65535 < s.rxCapacity - s.rxSize then 65535
  else (s.rxCapacity - s.rxSize).toUInt16

def sendPacket (s : TcpStream) (flags : UInt8) : TcpStream :=
  { s with sent := s.sent ++ [⟨flags, s.seq, s.ack, s.window⟩] }

/-- The new part of a payload that reaches `ack`. -/
def acceptPayload (s : TcpStream) (seg : TcpSegment) : Option TcpStream := do
  let offset := s.ack - seg.seq
  let remaining := seg.payloadSize - offset
  let room := s.rxCapacity - s.rxSize
  let copySize := if remaining < room then remaining else room
  if copySize = 0 then return s
  let rxBuffer ← copy? seg.payload s.rxSize.toNat offset.toNat copySize.toNat s.rxBuffer
  return { s with
    rxBuffer := rxBuffer
    rxSize := s.rxSize + copySize
    ack := s.ack + copySize }

def handlePayload (s : TcpStream) (seg : TcpSegment) : Option TcpStream :=
  if tcpReaches seg.seq seg.payloadSize s.ack then
    (s.acceptPayload seg).map (·.sendPacket 0x10)
  else if tcpSeqAfter seg.seq s.ack ∨ tcpSeqBefore seg.seq s.ack then some (s.sendPacket 0x10)
  else some s

def handleFin (s : TcpStream) (seg : TcpSegment) : TcpStream :=
  if seg.fin ∧ seg.seq + seg.payloadSize = s.ack then
    let s := { s with ack := seg.seq + seg.payloadSize + 1, closed := true }
    { s.sendPacket 0x11 with seq := s.seq + 1 }
  else s

def noteAck (s : TcpStream) (seg : TcpSegment) : TcpStream :=
  { s with txAcked := if seg.acks ∧ s.txAcked < seg.ack then seg.ack else s.txAcked }

/-- The part of `net_handle_tcp` for segments of the stream. -/
def handleSegment (s : TcpStream) (seg : TcpSegment) : Option TcpStream :=
  if seg.rst then some { s with reset := true }
  else
    let s := s.noteAck seg
    if !s.connected && seg.synAck then
      some ({ s with ack := seg.seq + 1, txAcked := seg.ack, connected := true }.sendPacket 0x10)
    else do
      let s ← if seg.payloadSize ≠ 0 then s.handlePayload seg else some s
      return s.handleFin seg

/-- The buffer after its first `copySize` bytes are handed out. -/
def compact (s : TcpStream) (copySize : UInt32) : Option (List UInt8) :=
  if copySize < s.rxSize then
    move? 0 copySize.toNat (s.rxSize.toNat - copySize.toNat) s.rxBuffer
  else some s.rxBuffer

/-- The end of `net_tcp_stream_recv`, when bytes are buffered: those that are handed out, and the
stream without them. -/
def takeReceived (s : TcpStream) (capacity : UInt32) : Option (List UInt8 × TcpStream) := do
  let copySize := if s.rxSize < capacity then s.rxSize else capacity
  let out ← copy? s.rxBuffer 0 0 copySize.toNat (List.replicate capacity.toNat 0)
  let rxBuffer ← s.compact copySize
  let s := { s with rxBuffer := rxBuffer, rxSize := s.rxSize - copySize }
  return (out.take copySize.toNat, if s.connected && !s.closed then s.sendPacket 0x10 else s)

/-- The bytes that were received and not handed out. -/
def buffered (s : TcpStream) : List UInt8 := s.rxBuffer.take s.rxSize.toNat

end TcpStream

end Net
