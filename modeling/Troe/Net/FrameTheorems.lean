import Troe.Net.FrameLayout

/-!
# Frames round trip

For every kind of frame, the builder succeeds exactly on the values it does not refuse, and parsing
what it built gives these values back.
-/

namespace Troe.Net

open Lib

/-! ## Round trips -/

/-- The builder makes a frame of legal length exactly for the values that are not refused, it fails
otherwise only for want of heap, and the parser gives `value` for every frame that it makes. -/
structure RoundTrip {α : Type} (refused : Prop) (build : Bool → Except NetError Bytes)
    (parse : Bytes → Except NetError α) (value : α) : Prop where
  built : ¬ refused → ∃ frame, build true = .ok frame
  refused : refused → ∀ granted, build granted = .error .invalid
  parsed : ∀ granted frame, build granted = .ok frame →
    minFrameBytes ≤ frame.length ∧ frame.length ≤ maxFrameBytes ∧ parse frame = .ok value

variable {α : Type} {refused : Prop} [Decidable refused] {build : Bool → Except NetError Bytes}
  {parse : Bytes → Except NetError α} {value : α}

/-- A builder that writes one layout, which the parser reads back. -/
theorem RoundTrip.of_eq {frame : Bytes} (hbuild : ∀ granted, build granted =
      if refused then .error .invalid else if granted then .ok frame else .error .exhausted)
    (hframe : ¬ refused → minFrameBytes ≤ frame.length ∧ frame.length ≤ maxFrameBytes ∧
      parse frame = .ok value) : RoundTrip refused build parse value := by
  refine ⟨?_, ?_, ?_⟩
  · intro h
    exact ⟨frame, by rw [hbuild, if_neg h, if_pos rfl]⟩
  · intro h granted
    rw [hbuild, if_pos h]
  · intro granted built hbuilt
    rw [hbuild] at hbuilt
    split at hbuilt
    · cases hbuilt
    next haccepted =>
      split at hbuilt
      · cases hbuilt
        exact hframe haccepted
      · cases hbuilt

/-- A builder whose frames carry a segment, which the parser reads back. -/
theorem RoundTrip.of_segment {link : Link} {protocol : UInt8} {segment : Bytes}
    (hbuild : ∀ granted, build granted = if refused then .error .invalid
      else if granted then .ok (ipv4Frame link protocol segment) else .error .exhausted)
    (hmax : ¬ refused → segment.length ≤ 1480)
    (hparse : Carries link protocol (ipv4Frame link protocol segment) segment → ¬ refused →
      parse (ipv4Frame link protocol segment) = .ok value) :
    RoundTrip refused build parse value := by
  refine RoundTrip.of_eq hbuild fun h => ?_
  have hle := hmax h
  have hframe := carries_ipv4Frame link protocol hle
  rw [← and_assoc]
  refine ⟨?_, hparse hframe h⟩
  rw [hframe.length]
  unfold minFrameBytes maxFrameBytes
  omega

/-- UDP datagrams to any station. -/
theorem udp_round_trip (datagram : UdpDatagram) (destination : Octets 6) :
    RoundTrip datagram.Refused
      (fun granted => buildUdpTo granted datagram.sourceMac destination datagram.sourceIp
        datagram.destinationIp datagram.sourcePort datagram.destinationPort datagram.payload)
      parseUdp datagram := by
  refine RoundTrip.of_segment (buildUdpTo_eq destination) (fun h => ?_) (parseUdp_eq destination)
  have hpayload := datagram.payload_le h
  rw [length_udpSegment]
  omega

/-- ICMP echo messages. -/
theorem icmp_round_trip (echo : IcmpEcho) (destination : MacAddress) :
    RoundTrip (IcmpRefused echo.kind echo.payload)
      (fun granted => buildIcmpEcho granted echo.sourceMac destination echo.sourceIp
        echo.destinationIp echo.kind echo.identifier echo.sequence echo.payload) parseIcmpEcho
      echo := by
  refine RoundTrip.of_segment (buildIcmpEcho_eq destination) (fun h => ?_) parseIcmpEcho_eq
  have hpayload := echo.payload_le h
  rw [length_icmpSegment]
  omega

/-- TCP segments. -/
theorem tcp_round_trip (source destination : MacAddress) (segment : TcpSegment) :
    RoundTrip segment.Refused (fun granted => buildTcp granted source destination segment)
      parseTcp segment := by
  refine RoundTrip.of_segment (buildTcp_eq source destination) (fun h => ?_) parseTcp_eq
  have hpayload := segment.payload_le h
  rw [length_tcpBytes]
  omega

/-- ARP packets with an operation that the parser knows. -/
theorem arp_round_trip (packet : ArpPacket)
    (hoperation : packet.operation = 1 ∨ packet.operation = 2) (destination : Octets 6) :
    RoundTrip False (fun granted => buildArp granted packet.senderMac packet.senderIp
      packet.targetMac packet.targetIp packet.operation destination) parseArp packet := by
  -- nothing is refused, so the builder only needs the memory
  refine RoundTrip.of_eq (fun _ => (buildArp_eq ..).trans (if_neg not_false).symm) fun _ => ?_
  rw [parseArp_arpFrame, if_pos hoperation, length_arpFrame]
  exact ⟨by decide, by decide, rfl⟩

/-- In every UDP frame that is built, the checksum field is not zero and the checksum over the
pseudo-header and the datagram verifies. -/
theorem udp_verifies (datagram : UdpDatagram) {destination : Octets 6} {granted : Bool}
    {frame : Bytes}
    (h : buildUdpTo granted datagram.sourceMac destination datagram.sourceIp datagram.destinationIp
      datagram.sourcePort datagram.destinationPort datagram.payload = .ok frame) :
    (∃ stored, readBe16 frame 40 = .ok stored ∧ stored ≠ 0) ∧
      finalizeSum (udpSum datagram.sourceIp datagram.destinationIp
        (span frame 34 (34 + (8 + datagram.payload.length)))) = 0 := by
  rw [buildUdpTo_eq] at h
  split at h
  · cases h
  next haccepted =>
    split at h
    · cases h
      have hpayload := datagram.payload_le haccepted
      have hlength := length_udpSegment datagram
      have hmax : (udpSegment datagram).length ≤ 1480 := by
        omega
      have hframe := carries_ipv4Frame (datagram.link destination) ipProtocolUdp hmax
      obtain ⟨-, -, -, h6⟩ := udpSegment_reads datagram (padding (udpSegment datagram).length)
      have hverifies := udpSegment_verifies haccepted
      have hsegment := hframe.whole
      rw [hlength] at hsegment
      exact ⟨⟨_, (hframe.readBe16 6).trans h6, hverifies.1⟩, by rw [hsegment]; exact hverifies.2⟩
    · cases h

/-- **Every frame that a builder makes is parsed back to the values it was built from.** -/
theorem frames_round_trip (sourceMac destinationMac : MacAddress) (destination target : Octets 6)
    (sourceIp destinationIp : Ipv4Address) (payload : Bytes) :
    (∀ sourcePort destinationPort,
      RoundTrip (UdpRefused sourcePort destinationPort payload)
        (fun granted => buildUdpTo granted sourceMac destination sourceIp destinationIp sourcePort
          destinationPort payload) parseUdp
        ⟨sourceMac, sourceIp, destinationIp, sourcePort, destinationPort, payload⟩ ∧
      ∀ granted frame, buildUdpTo granted sourceMac destination sourceIp destinationIp sourcePort
          destinationPort payload = .ok frame →
        (∃ stored, readBe16 frame 40 = .ok stored ∧ stored ≠ 0) ∧
          finalizeSum (udpSum sourceIp destinationIp
            (span frame 34 (34 + (8 + payload.length)))) = 0) ∧
    (∀ segment, RoundTrip segment.Refused
      (fun granted => buildTcp granted sourceMac destinationMac segment) parseTcp segment) ∧
    (∀ kind identifier sequence, RoundTrip (IcmpRefused kind payload)
      (fun granted => buildIcmpEcho granted sourceMac destinationMac sourceIp destinationIp kind
        identifier sequence payload) parseIcmpEcho
      ⟨sourceMac, sourceIp, destinationIp, kind, identifier, sequence, payload⟩) ∧
    (∀ operation, operation = 1 ∨ operation = 2 → RoundTrip False
      (fun granted => buildArp granted sourceMac sourceIp target destinationIp operation
        destination) parseArp ⟨operation, sourceMac, sourceIp, target, destinationIp⟩) := by
  refine ⟨fun sourcePort destinationPort => ⟨?_, fun granted frame => ?_⟩, ?_, ?_, ?_⟩
  · exact udp_round_trip ⟨sourceMac, sourceIp, destinationIp, sourcePort, destinationPort, payload⟩
      destination
  · exact udp_verifies ⟨sourceMac, sourceIp, destinationIp, sourcePort, destinationPort, payload⟩
  · exact tcp_round_trip sourceMac destinationMac
  · exact fun kind identifier sequence => icmp_round_trip
      ⟨sourceMac, sourceIp, destinationIp, kind, identifier, sequence, payload⟩ destinationMac
  · exact fun operation h =>
      arp_round_trip ⟨operation, sourceMac, sourceIp, target, destinationIp⟩ h destination

/-- A UDP datagram of odd length and an ARP request between two hosts. -/
theorem frames_round_trip_pair :
    let host : MacAddress := ⟨⟨[2, 0, 0, 0, 0, 1], rfl⟩, by decide⟩
    let gateway : MacAddress := ⟨⟨[2, 0, 0, 0, 0, 2], rfl⟩, by decide⟩
    let hostIp : Ipv4Address := ⟨⟨[10, 0, 2, 15], rfl⟩⟩
    let gatewayIp : Ipv4Address := ⟨⟨[10, 0, 2, 2], rfl⟩⟩
    (∃ frame, buildUdpTo true host gateway.bytes hostIp gatewayIp 49152 40123 [1, 2, 3] = .ok frame ∧
      parseUdp frame = .ok ⟨host, hostIp, gatewayIp, 49152, 40123, [1, 2, 3]⟩) ∧
    ∃ frame, buildArp true host hostIp ⟨List.replicate 6 0, rfl⟩ gatewayIp 1 gateway.bytes =
        .ok frame ∧
      parseArp frame = .ok ⟨1, host, hostIp, ⟨List.replicate 6 0, rfl⟩, gatewayIp⟩ := by
  intro host gateway hostIp gatewayIp
  obtain ⟨hudp, -, -, harp⟩ := frames_round_trip host gateway gateway.bytes
    ⟨List.replicate 6 0, rfl⟩ hostIp gatewayIp [1, 2, 3]
  obtain ⟨datagram, hdatagram⟩ := (hudp 49152 40123).1.built (by decide)
  obtain ⟨request, hrequest⟩ := (harp 1 (.inl rfl)).built id
  exact ⟨⟨datagram, hdatagram, ((hudp 49152 40123).1.parsed true datagram hdatagram).2.2⟩,
    ⟨request, hrequest, ((harp 1 (.inl rfl)).parsed true request hrequest).2.2⟩⟩

end Troe.Net
