import Troe.Lib.OnesComplement

/-!
# Network frames

The builders and parsers of `troe-net` for ARP, ICMP echo, UDP and TCP over IPv4 and Ethernet. A
frame is a byte string. The builders reserve one zeroed buffer and fill it in place; whether the heap
grants the reservation is the environment's choice and a parameter. The parsers index the frame
only where an earlier length check allows it.
-/

namespace Troe.Net

open Lib

/-! ## Constants, errors and addresses -/

def ethernetHeaderBytes : ℕ := 14
def maxFrameBytes : ℕ := 1514
def minFrameBytes : ℕ := 60
def maxUdpPayloadBytes : ℕ := 1472
def maxTcpPayloadBytes : ℕ := 1460
def ethertypeIpv4 : UInt16 := 0x0800
def ethertypeArp : UInt16 := 0x0806
def ipProtocolIcmp : UInt8 := 1
def ipProtocolTcp : UInt8 := 6
def ipProtocolUdp : UInt8 := 17

/-- Failures of parsing, construction or the device. -/
inductive NetError where
  | invalid
  | truncated
  | checksum
  | unsupported
  | exhausted
  | device
  | timeout

/-- A byte array of fixed length. -/
abbrev Octets (n : ℕ) := {bytes : Bytes // bytes.length = n}

/-- All zero, or a group address. -/
def Octets.NotUnicast (bytes : Octets 6) : Prop :=
  bytes.1 = List.replicate 6 0 ∨ bytes.1.headD 0 &&& 1 ≠ 0

instance (bytes : Octets 6) : Decidable bytes.NotUnicast :=
  inferInstanceAs (Decidable (_ ∨ _))

/-- A nonzero unicast Ethernet address. -/
structure MacAddress where
  bytes : Octets 6
  unicast : ¬ bytes.NotUnicast

def MacAddress.new (bytes : Octets 6) : Except NetError MacAddress :=
  if h : bytes.NotUnicast then .error .invalid else .ok ⟨bytes, h⟩

/-- An IPv4 address in network order. -/
structure Ipv4Address where
  bytes : Octets 4
deriving DecidableEq

/-! ## Fields of a frame -/

/-- `u16::to_be_bytes` -/
def be16 (v : UInt16) : Bytes := beBytes 2 v.toNat

/-- `u32::to_be_bytes` -/
def be32 (v : UInt32) : Bytes := beBytes 4 v.toNat

variable (bytes frame : Bytes) (granted : Bool) (sourceMac : MacAddress)

def readBe16 (offset : ℕ) : Except NetError UInt16 := do
  let raw ← okOr (slice bytes offset 2) .truncated
  .ok (.ofNat (beValue raw))

def readBe32 (offset : ℕ) : Except NetError UInt32 := do
  let raw ← okOr (slice bytes offset 4) .truncated
  .ok (.ofNat (beValue raw))

def copyArray (n : ℕ) (bytes : Bytes) (offset : ℕ) : Except NetError (Octets n) :=
  match h : slice bytes offset n with
  | none => .error .truncated
  | some field => .ok ⟨field, length_of_slice_eq_some h⟩

/-- `frame[i]` -/
def byteAt (i : ℕ) : UInt8 := frame.getD i 0

/-- `&frame[start..stop]` -/
def span (start stop : ℕ) : Bytes := (frame.drop start).take (stop - start)

/-- `bytes.iter().any(|byte| *byte != 0)` -/
def anyNonzero : Bool := bytes.any fun byte => byte ≠ 0

/-- `u16::try_from` -/
def tryU16 (n : ℕ) : Option UInt16 := if n < 2 ^ 16 then some (.ofNat n) else none

/-- Reserve a zeroed frame; `granted` tells whether the heap has room. -/
def allocateFrame (bytes : ℕ) : Except NetError Bytes := do
  rejectIf (maxFrameBytes < bytes) .invalid
  rejectIf (granted = false) .exhausted
  .ok (List.replicate bytes 0)

/-! ## Checksums -/

/-- Add the words of the bytes to a wrapping 32-bit sum. -/
def sumWords : ℕ → Bytes → ℕ
  | sum, [] => sum
  | sum, [byte] => (sum + 256 * byte.toNat) % 2 ^ 32
  | sum, hi :: lo :: rest => sumWords ((sum + (256 * hi.toNat + lo.toNat)) % 2 ^ 32) rest

def finalizeSum (sum : ℕ) : UInt16 := ~~~ UInt16.ofNat (foldCarry sum)

def checksum : UInt16 := finalizeSum (sumWords 0 bytes)

/-- The pseudo-header and the transport segment: `udp_sum` and `tcp_sum`, which differ in the
protocol number. -/
def pseudoSum (protocol : UInt8) (source destination : Ipv4Address) (segment : Bytes) : ℕ :=
  let sum := sumWords 0 source.bytes.1
  let sum := sumWords sum destination.bytes.1
  let sum := (sum + protocol.toNat) % 2 ^ 32
  let sum := (sum + min segment.length (2 ^ 32 - 1)) % 2 ^ 32
  sumWords sum segment

/-- A zero result is sent as all ones. -/
def pseudoChecksum (protocol : UInt8) (source destination : Ipv4Address) (segment : Bytes) :
    UInt16 :=
  let result := finalizeSum (pseudoSum protocol source destination segment)
  if result = 0 then 0xffff else result

def udpSum : Ipv4Address → Ipv4Address → Bytes → ℕ := pseudoSum ipProtocolUdp
def tcpSum : Ipv4Address → Ipv4Address → Bytes → ℕ := pseudoSum ipProtocolTcp
def udpChecksum : Ipv4Address → Ipv4Address → Bytes → UInt16 := pseudoChecksum ipProtocolUdp
def tcpChecksum : Ipv4Address → Ipv4Address → Bytes → UInt16 := pseudoChecksum ipProtocolTcp

def tcpChecksumValid (source destination : Ipv4Address) (tcp : Bytes) : Bool :=
  finalizeSum (tcpSum source destination tcp) = 0

/-! ## ARP -/

structure ArpPacket where
  operation : UInt16
  senderMac : MacAddress
  senderIp : Ipv4Address
  targetMac : Octets 6
  targetIp : Ipv4Address

def buildArp (sourceIp : Ipv4Address) (targetMac : Octets 6) (targetIp : Ipv4Address)
    (operation : UInt16) (destinationMac : Octets 6) : Except NetError Bytes := do
  let frame ← allocateFrame granted minFrameBytes
  let frame := splice frame 0 destinationMac.1
  let frame := splice frame 6 sourceMac.bytes.1
  let frame := splice frame 12 (be16 ethertypeArp)
  let frame := splice frame 14 (be16 1)
  let frame := splice frame 16 (be16 ethertypeIpv4)
  let frame := splice frame 18 [6]
  let frame := splice frame 19 [4]
  let frame := splice frame 20 (be16 operation)
  let frame := splice frame 22 sourceMac.bytes.1
  let frame := splice frame 28 sourceIp.bytes.1
  let frame := splice frame 32 targetMac.1
  let frame := splice frame 38 targetIp.bytes.1
  .ok frame

def buildArpRequest (sourceIp targetIp : Ipv4Address) : Except NetError Bytes :=
  buildArp granted sourceMac sourceIp ⟨List.replicate 6 0, rfl⟩ targetIp 1
    ⟨List.replicate 6 0xff, rfl⟩

def buildArpReply (sourceIp : Ipv4Address) (targetMac : MacAddress) (targetIp : Ipv4Address) :
    Except NetError Bytes :=
  buildArp granted sourceMac sourceIp targetMac.bytes targetIp 2 targetMac.bytes

def parseArp : Except NetError ArpPacket := do
  rejectIf (frame.length < 42 ∨ maxFrameBytes < frame.length) .truncated
  let ethertype ← readBe16 frame 12
  let hardware ← readBe16 frame 14
  let protocol ← readBe16 frame 16
  rejectIf (ethertype ≠ ethertypeArp ∨ hardware ≠ 1 ∨ protocol ≠ ethertypeIpv4 ∨
    byteAt frame 18 ≠ 6 ∨ byteAt frame 19 ≠ 4 ∨ anyNonzero (frame.drop 42) = true) .unsupported
  let operation ← readBe16 frame 20
  rejectIf (operation ≠ 1 ∧ operation ≠ 2) .unsupported
  let senderMac ← MacAddress.new (← copyArray 6 frame 22)
  let senderIp ← copyArray 4 frame 28
  let targetMac ← copyArray 6 frame 32
  let targetIp ← copyArray 4 frame 38
  .ok ⟨operation, senderMac, ⟨senderIp⟩, targetMac, ⟨targetIp⟩⟩

/-! ## IPv4 -/

/-- An Ethernet frame with a checksummed IPv4 header and a zeroed payload. -/
def buildIpv4Frame (destinationMac : Octets 6) (sourceIp destinationIp : Ipv4Address)
    (protocol : UInt8) (payloadBytes : ℕ) : Except NetError Bytes := do
  let ipLen ← okOr (checkedAdd 64 20 payloadBytes) .invalid
  let wireLen ← okOr (checkedAdd 64 ethernetHeaderBytes ipLen) .invalid
  let frame ← allocateFrame granted (max wireLen minFrameBytes)
  let frame := splice frame 0 destinationMac.1
  let frame := splice frame 6 sourceMac.bytes.1
  let frame := splice frame 12 (be16 ethertypeIpv4)
  let frame := splice frame 14 [0x45]
  let ipLen ← okOr (tryU16 ipLen) .invalid
  let frame := splice frame 16 (be16 ipLen)
  let frame := splice frame 20 (be16 0x4000)
  let frame := splice frame 22 [64]
  let frame := splice frame 23 [protocol]
  let frame := splice frame 26 sourceIp.bytes.1
  let frame := splice frame 30 destinationIp.bytes.1
  let headerChecksum := checksum (span frame 14 34)
  let frame := splice frame 24 (be16 headerChecksum)
  .ok frame

/-- The first checks of the three IPv4 parsers; `transport` is the size of the shortest transport
header. -/
def checkEthernet (transport : ℕ) (frame : Bytes) : Except NetError Unit := do
  rejectIf (frame.length < ethernetHeaderBytes + 20 + transport ∨ maxFrameBytes < frame.length)
    .truncated
  let ethertype ← readBe16 frame 12
  rejectIf (ethertype ≠ ethertypeIpv4) .unsupported

/-- The IPv4 header checks of the three parsers; they return the total length. -/
def checkIpv4 (protocol : UInt8) (transport : ℕ) (frame : Bytes) : Except NetError ℕ := do
  rejectIf (byteAt frame 14 ≠ 0x45 ∨ byteAt frame 23 ≠ protocol) .unsupported
  let ipLen := (← readBe16 frame 16).toNat
  let fragment ← readBe16 frame 20
  rejectIf (ipLen < 20 + transport ∨ frame.length < 14 + ipLen ∨ fragment &&& 0x3fff ≠ 0)
    .truncated
  rejectIf (checksum (span frame 14 34) ≠ 0) .checksum
  .ok ipLen

/-! ## UDP -/

structure UdpDatagram where
  sourceMac : MacAddress
  sourceIp : Ipv4Address
  destinationIp : Ipv4Address
  sourcePort : UInt16
  destinationPort : UInt16
  payload : Bytes

/-- What the builder refuses. -/
def UdpRefused (sourcePort destinationPort : UInt16) (payload : Bytes) : Prop :=
  sourcePort = 0 ∨ destinationPort = 0 ∨ maxUdpPayloadBytes < payload.length

instance (sourcePort destinationPort : UInt16) (payload : Bytes) :
    Decidable (UdpRefused sourcePort destinationPort payload) :=
  inferInstanceAs (Decidable (_ ∨ _))

def buildUdpTo (destinationMac : Octets 6) (sourceIp destinationIp : Ipv4Address)
    (sourcePort destinationPort : UInt16) (payload : Bytes) : Except NetError Bytes := do
  rejectIf (UdpRefused sourcePort destinationPort payload) .invalid
  let udpLen ← okOr (checkedAdd 64 8 payload.length) .invalid
  let frame ← buildIpv4Frame granted sourceMac destinationMac sourceIp destinationIp
    ipProtocolUdp udpLen
  let frame := splice frame 0 destinationMac.1
  let frame := splice frame 34 (be16 sourcePort)
  let frame := splice frame 36 (be16 destinationPort)
  let length ← okOr (tryU16 udpLen) .invalid
  let frame := splice frame 38 (be16 length)
  let frame := splice frame 42 payload
  let udpChecksum := udpChecksum sourceIp destinationIp (span frame 34 (34 + udpLen))
  let frame := splice frame 40 (be16 udpChecksum)
  .ok frame

def buildUdp (destinationMac : MacAddress) (sourceIp destinationIp : Ipv4Address)
    (sourcePort destinationPort : UInt16) (payload : Bytes) : Except NetError Bytes :=
  buildUdpTo granted sourceMac destinationMac.bytes sourceIp destinationIp sourcePort
    destinationPort payload

def parseUdp : Except NetError UdpDatagram := do
  checkEthernet 8 frame
  let sourceMac ← MacAddress.new (← copyArray 6 frame 6)
  let ipLen ← checkIpv4 ipProtocolUdp 8 frame
  let sourceIp : Ipv4Address := ⟨← copyArray 4 frame 26⟩
  let destinationIp : Ipv4Address := ⟨← copyArray 4 frame 30⟩
  let udpLen := (← readBe16 frame 38).toNat
  rejectIf (udpLen < 8 ∨ udpLen ≠ ipLen - 20) .truncated
  let sourcePort ← readBe16 frame 34
  let destinationPort ← readBe16 frame 36
  rejectIf (sourcePort = 0 ∨ destinationPort = 0 ∨ maxUdpPayloadBytes < udpLen - 8) .invalid
  let storedChecksum ← readBe16 frame 40
  rejectIf (storedChecksum ≠ 0 ∧
    finalizeSum (udpSum sourceIp destinationIp (span frame 34 (34 + udpLen))) ≠ 0) .checksum
  rejectIf (anyNonzero (frame.drop (14 + ipLen)) = true) .invalid
  .ok ⟨sourceMac, sourceIp, destinationIp, sourcePort, destinationPort,
    span frame 42 (34 + udpLen)⟩

/-! ## ICMP echo -/

structure IcmpEcho where
  sourceMac : MacAddress
  sourceIp : Ipv4Address
  destinationIp : Ipv4Address
  kind : UInt8
  identifier : UInt16
  sequence : UInt16
  payload : Bytes

/-- What the builder refuses. -/
def IcmpRefused (kind : UInt8) (payload : Bytes) : Prop :=
  (kind ≠ 0 ∧ kind ≠ 8) ∨ maxUdpPayloadBytes < payload.length

instance (kind : UInt8) (payload : Bytes) : Decidable (IcmpRefused kind payload) :=
  inferInstanceAs (Decidable (_ ∨ _))

def buildIcmpEcho (destinationMac : MacAddress) (sourceIp destinationIp : Ipv4Address)
    (kind : UInt8) (identifier sequence : UInt16) (payload : Bytes) : Except NetError Bytes := do
  rejectIf (IcmpRefused kind payload) .invalid
  let icmpLen ← okOr (checkedAdd 64 8 payload.length) .invalid
  let frame ← buildIpv4Frame granted sourceMac destinationMac.bytes sourceIp destinationIp
    ipProtocolIcmp icmpLen
  let frame := splice frame 34 [kind]
  let frame := splice frame 38 (be16 identifier)
  let frame := splice frame 40 (be16 sequence)
  let frame := splice frame 42 payload
  let icmpChecksum := checksum (span frame 34 (34 + icmpLen))
  let frame := splice frame 36 (be16 icmpChecksum)
  .ok frame

def parseIcmpEcho : Except NetError IcmpEcho := do
  checkEthernet 8 frame
  let sourceMac ← MacAddress.new (← copyArray 6 frame 6)
  let ipLen ← checkIpv4 ipProtocolIcmp 8 frame
  let icmpLen := ipLen - 20
  rejectIf ((byteAt frame 34 ≠ 0 ∧ byteAt frame 34 ≠ 8) ∨ byteAt frame 35 ≠ 0 ∨
    checksum (span frame 34 (34 + icmpLen)) ≠ 0) .checksum
  rejectIf (anyNonzero (frame.drop (14 + ipLen)) = true) .invalid
  let sourceIp ← copyArray 4 frame 26
  let destinationIp ← copyArray 4 frame 30
  let identifier ← readBe16 frame 38
  let sequence ← readBe16 frame 40
  .ok ⟨sourceMac, ⟨sourceIp⟩, ⟨destinationIp⟩, byteAt frame 34, identifier, sequence,
    span frame 42 (34 + icmpLen)⟩

/-! ## TCP -/

/-- A TCP endpoint has a nonzero port. -/
structure TcpEndpoint where
  address : Ipv4Address
  port : UInt16
  port_ne_zero : port ≠ 0

def TcpEndpoint.new (address : Ipv4Address) (port : UInt16) : Except NetError TcpEndpoint :=
  if h : port = 0 then .error .invalid else .ok ⟨address, port, h⟩

/-- `count_ones` -/
def countOnes (bits : UInt8) : ℕ := (List.range 8).countP fun i => bits.toNat.testBit i

/-- The control bits the profile refuses. -/
def FlagsRefused (bits : UInt8) : Prop :=
  bits &&& ~~~ (0x01 ||| 0x02 ||| 0x04 ||| 0x08 ||| 0x10) ≠ 0 ∨
    1 < countOnes (bits &&& (0x01 ||| 0x02 ||| 0x04)) ∨ bits = 0 ∨
    bits &&& 0x08 ≠ 0 ∧ bits &&& 0x10 = 0

instance (bits : UInt8) : Decidable (FlagsRefused bits) := inferInstanceAs (Decidable (_ ∨ _))

/-- Accepted TCP control bits. -/
structure TcpFlags where
  bits : UInt8
  accepted : ¬ FlagsRefused bits

namespace TcpFlags

def fin : TcpFlags := ⟨0x01, by decide⟩
def syn : TcpFlags := ⟨0x02, by decide⟩
def rst : TcpFlags := ⟨0x04, by decide⟩
def ack : TcpFlags := ⟨0x10, by decide⟩

def fromBits (bits : UInt8) : Except NetError TcpFlags :=
  if h : FlagsRefused bits then .error .unsupported else .ok ⟨bits, h⟩

def contains (flags other : TcpFlags) : Bool := flags.bits &&& other.bits = other.bits

end TcpFlags

structure TcpSegment where
  source : TcpEndpoint
  destination : TcpEndpoint
  sequence : UInt32
  acknowledgement : UInt32
  flags : TcpFlags
  window : UInt16
  payload : Bytes

/-- What the builder and the parser refuse about a segment's payload and acknowledgement. -/
def SegmentRefused (flags : TcpFlags) (acknowledgement : UInt32) (payload : Bytes) : Prop :=
  maxTcpPayloadBytes < payload.length ∨ (flags.contains .ack = false ∧ acknowledgement ≠ 0) ∨
    (payload ≠ [] ∧ (flags.contains .syn = true ∨ flags.contains .rst = true))

instance (flags : TcpFlags) (acknowledgement : UInt32) (payload : Bytes) :
    Decidable (SegmentRefused flags acknowledgement payload) :=
  inferInstanceAs (Decidable (_ ∨ _))

def buildTcp (destinationMac : MacAddress) (segment : TcpSegment) : Except NetError Bytes := do
  let flags ← TcpFlags.fromBits segment.flags.bits
  rejectIf (segment.source.port = 0 ∨ segment.destination.port = 0 ∨
    SegmentRefused flags segment.acknowledgement segment.payload) .invalid
  let tcpLen ← okOr (checkedAdd 64 20 segment.payload.length) .invalid
  let frame ← buildIpv4Frame granted sourceMac destinationMac.bytes segment.source.address
    segment.destination.address ipProtocolTcp tcpLen
  let frame := splice frame 34 (be16 segment.source.port)
  let frame := splice frame 36 (be16 segment.destination.port)
  let frame := splice frame 38 (be32 segment.sequence)
  let frame := splice frame 42 (be32 segment.acknowledgement)
  let frame := splice frame 46 [(5 : UInt8) <<< 4]
  let frame := splice frame 47 [flags.bits]
  let frame := splice frame 48 (be16 segment.window)
  let frame := splice frame 54 segment.payload
  let tcpChecksum := tcpChecksum segment.source.address segment.destination.address
    (span frame 34 (34 + tcpLen))
  let frame := splice frame 50 (be16 tcpChecksum)
  .ok frame

/-- The options after the first of them: end of list, padding, and one maximum segment size. -/
def validateOptions (sawMss : Bool) : Bytes → Except NetError Unit
  | [] => .ok ()
  | kind :: rest =>
    if kind = 0 then rejectIf (anyNonzero rest = true) .unsupported
    else if kind = 1 then validateOptions sawMss rest
    else if kind = 2 then
      match rest with
      | length :: hi :: lo :: rest => do
        rejectIf (sawMss = true ∨ length ≠ 4 ∨ beValue [hi, lo] = 0) .unsupported
        validateOptions true rest
      | _ => .error .truncated
    else .error .unsupported

def validateTcpSynOptions (options : Bytes) (flags : TcpFlags) : Except NetError Unit :=
  if options = [] then .ok ()
  else do
    rejectIf (flags.contains .syn = false) .unsupported
    validateOptions false options

def parseTcp : Except NetError TcpSegment := do
  checkEthernet 20 frame
  let ipLen ← checkIpv4 ipProtocolTcp 20 frame
  let sourceIp : Ipv4Address := ⟨← copyArray 4 frame 26⟩
  let destinationIp : Ipv4Address := ⟨← copyArray 4 frame 30⟩
  let tcpLen := ipLen - 20
  let headerWords := (byteAt frame 46 >>> 4).toNat
  let urgent ← readBe16 frame 52
  rejectIf (headerWords < 5 ∨ 15 < headerWords ∨ byteAt frame 46 &&& 0x0f ≠ 0 ∨ urgent ≠ 0)
    .unsupported
  let headerBytes ← okOr (checkedMul 64 headerWords 4) .invalid
  rejectIf (tcpLen < headerBytes) .truncated
  let flags ← TcpFlags.fromBits (byteAt frame 47)
  validateTcpSynOptions (span frame 54 (34 + headerBytes)) flags
  let payload := span frame (34 + headerBytes) (34 + tcpLen)
  let acknowledgement ← readBe32 frame 42
  rejectIf (SegmentRefused flags acknowledgement payload) .invalid
  rejectIf (tcpChecksumValid sourceIp destinationIp (span frame 34 (34 + tcpLen)) = false) .checksum
  rejectIf (anyNonzero (frame.drop (14 + ipLen)) = true) .invalid
  let source ← TcpEndpoint.new sourceIp (← readBe16 frame 34)
  let destination ← TcpEndpoint.new destinationIp (← readBe16 frame 36)
  let sequence ← readBe32 frame 38
  let window ← readBe16 frame 48
  .ok ⟨source, destination, sequence, acknowledgement, flags, window, payload⟩

end Troe.Net
