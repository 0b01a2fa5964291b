import Troe.Net.Frame

/-!
# Checksum fields and field reads

A checksum field verifies because each builder writes the complement of a sum into the zero field
it was taken over. The parsers' reads at an offset skip the fields in front of it.
-/

namespace Troe.Net

open Lib

/-! ## Checksums verify -/

/-- The sum of the words, while it does not wrap. -/
theorem sumWords_eq {sum : ℕ} {bytes : Bytes} (h : sum + wordSum bytes < 2 ^ 32) :
    sumWords sum bytes = sum + wordSum bytes := by
  fun_induction sumWords sum bytes with
  | case1 sum => rfl
  | case2 sum byte => exact Nat.mod_eq_of_lt h
  | case3 sum hi lo rest ih =>
    rw [wordSum] at h ⊢
    rw [Nat.mod_eq_of_lt (by omega)] at ih ⊢
    rw [ih (by omega)]
    omega

/-- The checksum is the complement of the folded sum. -/
theorem toNat_finalizeSum (sum : ℕ) : (finalizeSum sum).toNat = 65535 - foldCarry sum := by
  have h := foldCarry_le sum
  rw [finalizeSum, UInt16.toNat_not, UInt16.toNat_ofNat', Nat.mod_eq_of_lt (by omega)]
  rfl

/-- A checksum verifies when the folded sum is all ones. -/
theorem finalizeSum_eq_zero {sum : ℕ} : finalizeSum sum = 0 ↔ foldCarry sum = 65535 := by
  have h := foldCarry_le sum
  rw [← UInt16.toNat_inj, toNat_finalizeSum, UInt16.toNat_zero]
  omega

@[simp] theorem length_be16 (v : UInt16) : (be16 v).length = 2 := length_beBytes 2 _

@[simp] theorem length_be32 (v : UInt32) : (be32 v).length = 4 := length_beBytes 4 _

@[simp] theorem Octets.length {n : ℕ} (octets : Octets n) : octets.1.length = n := octets.2

section Fill

variable {start : ℕ} {before after : Bytes}

/-- A field at an even offset adds its value to the sum. -/
theorem wordSum_field (heven : before.length % 2 = 0) (v : UInt16) :
    wordSum (before ++ (be16 v ++ after)) = wordSum (before ++ ([0, 0] ++ after)) + v.toNat := by
  have hv : wordSum (be16 v) = v.toNat := wordSum_beBytes v.toNat_lt
  rw [wordSum_append heven, wordSum_append heven, wordSum_append (by simp), wordSum_append rfl]
  simp only [wordSum, UInt8.toNat_zero]
  omega

/-- Bytes whose sum does not wrap, whatever stands in the checksum field between them. -/
structure Fits (start : ℕ) (before after : Bytes) : Prop where
  even : before.length % 2 = 0
  bound : start + 65535 * (before.length + 2 + after.length) < 2 ^ 31

section

variable (h : Fits start before after)
include h

/-- The same for a running sum. -/
theorem sumWords_field (v : UInt16) :
    sumWords start (before ++ (be16 v ++ after)) =
      sumWords start (before ++ ([0, 0] ++ after)) + v.toNat := by
  have hbound := h.bound
  have hsum := wordSum_le (before ++ ([0, 0] ++ after))
  have hv := v.toNat_lt
  simp only [List.length_append, List.length_cons, List.length_nil] at hsum
  have hzero : sumWords start (before ++ ([0, 0] ++ after)) =
      start + wordSum (before ++ ([0, 0] ++ after)) := sumWords_eq (by omega)
  rw [sumWords_eq (by rw [wordSum_field h.even]; omega), wordSum_field h.even]
  omega

/-- The complement of a sum, written into the zero field it was taken over, makes the sum
verify. -/
theorem finalizeSum_fill :
    finalizeSum (sumWords start (before ++ (be16
      (finalizeSum (sumWords start (before ++ ([0, 0] ++ after)))) ++ after))) = 0 := by
  rw [finalizeSum_eq_zero, sumWords_field h, toNat_finalizeSum]
  exact foldCarry_add_complement _

/-- All ones in the place of a zero complement verifies too. -/
theorem finalizeSum_fill_ones
    (hzero : finalizeSum (sumWords start (before ++ ([0, 0] ++ after))) = 0) :
    finalizeSum (sumWords start (before ++ (be16 0xffff ++ after))) = 0 := by
  rw [finalizeSum_eq_zero] at hzero ⊢
  rw [sumWords_field h]
  exact foldCarry_add_ones hzero

end

/-- The part of the pseudo-header sum that only depends on the segment's length. -/
def pseudoStart (protocol : UInt8) (source destination : Ipv4Address) (length : ℕ) : ℕ :=
  wordSum source.bytes.1 + wordSum destination.bytes.1 + protocol.toNat + length

/-- The two addresses and the protocol add little to the sum. -/
theorem pseudoStart_le (protocol : UInt8) (source destination : Ipv4Address) (length : ℕ) :
    pseudoStart protocol source destination length ≤ 2 ^ 20 + length := by
  have hsource := wordSum_le source.bytes.1
  have hdestination := wordSum_le destination.bytes.1
  have hprotocol := protocol.toNat_lt
  rw [Octets.length] at hsource hdestination
  unfold pseudoStart
  omega

/-- The pseudo-header sum of a short segment does not wrap. -/
theorem pseudoSum_eq (protocol : UInt8) (source destination : Ipv4Address) {segment : Bytes}
    (h : segment.length ≤ 1500) :
    pseudoSum protocol source destination segment =
      sumWords (pseudoStart protocol source destination segment.length) segment := by
  have hsource := wordSum_le source.bytes.1
  have hdestination := wordSum_le destination.bytes.1
  have hprotocol := protocol.toNat_lt
  rw [Octets.length] at hsource hdestination
  simp only [pseudoSum, pseudoStart]
  rw [sumWords_eq (by omega : 0 + wordSum source.bytes.1 < 2 ^ 32),
    sumWords_eq (by omega : 0 + wordSum source.bytes.1 + wordSum destination.bytes.1 < 2 ^ 32),
    Nat.mod_eq_of_lt (by omega), Nat.min_eq_left (by omega), Nat.mod_eq_of_lt (by omega),
    Nat.zero_add]

/-- The transport checksum is never sent as zero and always verifies. -/
theorem pseudoChecksum_fill (protocol : UInt8) (source destination : Ipv4Address)
    (heven : before.length % 2 = 0) (hlength : before.length + 2 + after.length ≤ 1500) :
    let c := pseudoChecksum protocol source destination (before ++ ([0, 0] ++ after))
    c ≠ 0 ∧ finalizeSum (pseudoSum protocol source destination
      (before ++ (be16 c ++ after))) = 0 := by
  intro c
  have hzero : (before ++ ([0, 0] ++ after)).length = before.length + 2 + after.length := by
    simp only [List.length_append, List.length_cons, List.length_nil]
    omega
  have hfield : (before ++ (be16 c ++ after)).length = before.length + 2 + after.length := by
    simp only [List.length_append, length_be16]
    omega
  have hstart := pseudoStart_le protocol source destination (before.length + 2 + after.length)
  have hfits : Fits (pseudoStart protocol source destination
      (before.length + 2 + after.length)) before after := ⟨heven, by omega⟩
  have hsum : pseudoSum protocol source destination (before ++ ([0, 0] ++ after)) =
      sumWords (pseudoStart protocol source destination (before.length + 2 + after.length))
        (before ++ ([0, 0] ++ after)) := by
    rw [pseudoSum_eq _ _ _ (by omega), hzero]
  rw [pseudoSum_eq _ _ _ (by omega), hfield]
  simp only [c, pseudoChecksum, hsum]
  split
  next hc => exact ⟨by decide, finalizeSum_fill_ones hfits hc⟩
  next hc => exact ⟨hc, finalizeSum_fill hfits⟩

end Fill

/-! ## Reading fields

One rule to skip a field and one to read it, for each way the parsers look at a frame. -/

section Read

variable {a b : Bytes} {offset : ℕ}

/-- A read behind the first part is a read of the second. -/
theorem readBe16_append_right (h : a.length ≤ offset) (b : Bytes) :
    readBe16 (a ++ b) offset = readBe16 b (offset - a.length) := by
  rw [readBe16, slice_append_right h, readBe16]

/-- A field is read back. -/
theorem readBe16_append_left (v : UInt16) (b : Bytes) : readBe16 (be16 v ++ b) 0 = .ok v := by
  have hvalue : beValue (be16 v) = v.toNat := beValue_beBytes v.toNat_lt
  rw [readBe16, slice_append_left (length_be16 v)]
  simp [okOr, bind, Except.bind, hvalue]

/-- The same for four bytes. -/
theorem readBe32_append_right (h : a.length ≤ offset) (b : Bytes) :
    readBe32 (a ++ b) offset = readBe32 b (offset - a.length) := by
  rw [readBe32, slice_append_right h, readBe32]

theorem readBe32_append_left (v : UInt32) (b : Bytes) : readBe32 (be32 v ++ b) 0 = .ok v := by
  have hvalue : beValue (be32 v) = v.toNat := beValue_beBytes v.toNat_lt
  rw [readBe32, slice_append_left (length_be32 v)]
  simp [okOr, bind, Except.bind, hvalue]

/-- A copy depends on the slice only. -/
theorem copyArray_congr {n i : ℕ} {bytes : Bytes}
    (h : slice bytes offset n = slice b i n) : copyArray n bytes offset = copyArray n b i := by
  unfold copyArray
  split <;> split <;> simp_all

/-- A copy from behind the first part. -/
theorem copyArray_append_right {n : ℕ} (h : a.length ≤ offset) (b : Bytes) :
    copyArray n (a ++ b) offset = copyArray n b (offset - a.length) :=
  copyArray_congr (slice_append_right h b)

/-- An array is copied back. -/
theorem copyArray_append_left {n : ℕ} (octets : Octets n) (b : Bytes) :
    copyArray n (octets.1 ++ b) 0 = .ok octets := by
  have hslice : slice (octets.1 ++ b) 0 n = some octets.1 := slice_append_left octets.2 b
  unfold copyArray
  split <;> simp_all

/-- A byte behind the first part. -/
theorem byteAt_append_right (h : a.length ≤ offset) (b : Bytes) :
    byteAt (a ++ b) offset = byteAt b (offset - a.length) := by
  rw [byteAt, List.getD_eq_getElem?_getD, List.getElem?_append_right h, byteAt,
    List.getD_eq_getElem?_getD]

/-- A single byte is read back. -/
theorem byteAt_append_left (v : UInt8) (b : Bytes) : byteAt ([v] ++ b) 0 = v := rfl

/-- A span that is one part of the frame. -/
theorem span_append {start stop : ℕ} (ha : a.length = start) (hb : stop = start + b.length)
    (c : Bytes) : span (a ++ (b ++ c)) start stop = b :=
  take_drop_append ha (by omega) c

/-- Zeros are accepted as padding. -/
theorem anyNonzero_replicate (n : ℕ) : anyNonzero (List.replicate n 0) = false := by
  simp [anyNonzero]

/-- The bytes of an address make that address. -/
theorem MacAddress.new_bytes (mac : MacAddress) : MacAddress.new mac.bytes = .ok mac :=
  dif_neg mac.unicast

end Read

/-! ## Frame layouts

The layout of each kind of frame. The builders produce exactly these layouts, and the parsers read
the fields of such a frame back. -/

open List (append_assoc append_nil flatten_cons flatten_nil length_append length_cons length_nil
  length_replicate length_singleton map_cons map_nil sum_cons sum_nil)

/-- The fields of a layout as one list of bytes. -/
theorem layout_rules : type_of% @flatten_cons.{0} ∧ type_of% @flatten_nil.{0} ∧
    type_of% @append_nil.{0} ∧ type_of% @append_assoc.{0} ∧ type_of% @Octets.length ∧
    type_of% @length_be16 ∧ type_of% @length_singleton.{0} ∧ type_of% @length_replicate.{0} :=
  ⟨@flatten_cons, @flatten_nil, @append_nil, @append_assoc, @Octets.length, @length_be16,
    @length_singleton, @length_replicate⟩

/-- Writing the fields of a layout. -/
theorem write_rules : type_of% @layout_rules ∧ type_of% @map_cons.{0, 0} ∧
    type_of% @map_nil.{0, 0} ∧ type_of% @splice_append_left ∧ type_of% @splice_append_right :=
  ⟨layout_rules, @map_cons, @map_nil, @splice_append_left, @splice_append_right⟩

/-- Reading the fields of a layout. -/
theorem read_rules : type_of% @layout_rules ∧ type_of% @readBe16_append_right ∧
    type_of% @readBe16_append_left ∧ type_of% @byteAt_append_right ∧
    type_of% @byteAt_append_left ∧ type_of% @copyArray_append_right ∧
    type_of% @copyArray_append_left :=
  ⟨layout_rules, @readBe16_append_right, @readBe16_append_left, @byteAt_append_right,
    @byteAt_append_left, @copyArray_append_right, @copyArray_append_left⟩

/-! ## ARP frames -/

section Arp

variable (packet : ArpPacket) (destination : Octets 6)

/-- An ARP frame and its padding. -/
def arpFrame : Bytes :=
  [destination.1, packet.senderMac.bytes.1, be16 ethertypeArp, be16 1, be16 ethertypeIpv4, [6], [4],
    be16 packet.operation, packet.senderMac.bytes.1, packet.senderIp.bytes.1, packet.targetMac.1,
    packet.targetIp.bytes.1, List.replicate 18 0].flatten

/-- The builder's writes, one after the other, are the layout. -/
theorem buildArp_eq (granted : Bool) :
    buildArp granted packet.senderMac packet.senderIp packet.targetMac packet.targetIp
      packet.operation destination =
        if granted then .ok (arpFrame packet destination) else .error .exhausted := by
  cases granted with
  | false => rfl
  | true =>
    change Except.ok _ = Except.ok _
    rw [replicate_eq_flatten (n := minFrameBytes) [6, 6, 2, 2, 2, 1, 1, 2, 6, 4, 6, 4, 18] rfl]
    simp (disch := simp) only [arpFrame, write_rules, Nat.reduceSub]

/-- The fields as the parser reads them. -/
theorem arpFrame_reads :
    let frame := arpFrame packet destination
    readBe16 frame 12 = .ok ethertypeArp ∧ readBe16 frame 14 = .ok 1 ∧
      readBe16 frame 16 = .ok ethertypeIpv4 ∧ byteAt frame 18 = 6 ∧ byteAt frame 19 = 4 ∧
      readBe16 frame 20 = .ok packet.operation ∧
      copyArray 6 frame 22 = .ok packet.senderMac.bytes ∧
      copyArray 4 frame 28 = .ok packet.senderIp.bytes ∧
      copyArray 6 frame 32 = .ok packet.targetMac ∧
      copyArray 4 frame 38 = .ok packet.targetIp.bytes := by
  simp (disch := simp) only [arpFrame, read_rules, Nat.reduceSub, and_self]

theorem length_arpFrame : (arpFrame packet destination).length = 60 := by
  simp [arpFrame]

/-- The parser gives the packet back, for the two operations it knows. -/
theorem parseArp_arpFrame :
    parseArp (arpFrame packet destination) =
      if packet.operation = 1 ∨ packet.operation = 2 then .ok packet else .error .unsupported := by
  obtain ⟨h12, h14, h16, h18, h19, h20, h22, h28, h32, h38⟩ := arpFrame_reads packet destination
  have hlength := length_arpFrame packet destination
  have hpadding : (arpFrame packet destination).drop 42 = List.replicate 18 0 := by
    simp (disch := simp) only [arpFrame, layout_rules, drop_append_right, Nat.reduceSub,
      List.drop_zero]
  simp only [parseArp, h12, h14, h16, h18, h19, h20, h22, h28, h32, h38, hlength, hpadding,
    anyNonzero_replicate, MacAddress.new_bytes, maxFrameBytes, bind, Except.bind, rejectIf]
  by_cases h : packet.operation = 1 ∨ packet.operation = 2
  · rw [if_neg (by decide), if_neg (by decide), if_neg (fun hne => h.elim hne.1 hne.2), if_pos h]
  · rw [if_neg (by decide), if_neg (by decide), if_pos (not_or.mp h), if_neg h]

end Arp

/-! ## IPv4 frames -/

/-- The addresses of a frame. -/
structure Link where
  sourceMac : MacAddress
  destinationMac : Octets 6
  sourceIp : Ipv4Address
  destinationIp : Ipv4Address

section Ipv4

variable (link : Link) (protocol : UInt8) (length : UInt16)

/-- The IPv4 header up to its checksum. -/
def ipv4Start : Bytes :=
  [[0x45], [0], be16 length, [0, 0], be16 0x4000, [64], [protocol]].flatten

/-- The two addresses at the end of the IPv4 header. -/
def Link.ips : Bytes := link.sourceIp.bytes.1 ++ link.destinationIp.bytes.1

/-- The Ethernet and IPv4 headers of a frame with the given checksum field. -/
def headerWith (field : Bytes) : Bytes :=
  [link.destinationMac.1, link.sourceMac.bytes.1, be16 ethertypeIpv4, ipv4Start protocol length,
    field, link.ips].flatten

def headerChecksum : UInt16 :=
  checksum (ipv4Start protocol length ++ ([0, 0] ++ link.ips))

/-- The Ethernet and IPv4 headers of a frame. -/
def frameHeader : Bytes :=
  headerWith link protocol length (be16 (headerChecksum link protocol length))

@[simp] theorem length_ipv4Start : (ipv4Start protocol length).length = 10 := by
  simp [ipv4Start]

@[simp] theorem Link.length_ips : link.ips.length = 8 := by
  simp [Link.ips]

@[simp] theorem length_frameHeader : (frameHeader link protocol length).length = 34 := by
  simp [frameHeader, headerWith]

/-- The IPv4 header is the span that the checksum covers. -/
theorem span_headerWith {field : Bytes} (h : field.length = 2) (rest : Bytes) :
    span (headerWith link protocol length field ++ rest) 14 34 =
      ipv4Start protocol length ++ (field ++ link.ips) := by
  have hsplit : headerWith link protocol length field ++ rest =
      (link.destinationMac.1 ++ (link.sourceMac.bytes.1 ++ be16 ethertypeIpv4)) ++
        ((ipv4Start protocol length ++ (field ++ link.ips)) ++ rest) := by
    simp only [headerWith, layout_rules]
  rw [hsplit]
  exact span_append (by simp) (by simp [h]) rest

/-- Writing the checksum of the header into its zero field completes the header. -/
theorem splice_headerChecksum {frame rest : Bytes}
    (h : frame = headerWith link protocol length [0, 0] ++ rest) :
    splice frame 24 (be16 (checksum (span frame 14 34))) =
      frameHeader link protocol length ++ rest := by
  rw [h, span_headerWith _ _ _ rfl, frameHeader, headerChecksum]
  simp (disch := simp) only [headerWith, write_rules, length_ipv4Start, Nat.reduceSub]

/-- The checksum of the IPv4 header verifies. -/
theorem checksum_frameHeader (rest : Bytes) :
    checksum (span (frameHeader link protocol length ++ rest) 14 34) = 0 := by
  rw [frameHeader, span_headerWith _ _ _ (length_be16 _), headerChecksum, checksum]
  exact finalizeSum_fill ⟨by simp, by simp⟩

/-- Writing the destination address again changes nothing. -/
theorem splice_destinationMac (rest : Bytes) :
    splice (frameHeader link protocol length ++ rest) 0 link.destinationMac.1 =
      frameHeader link protocol length ++ rest := by
  rw [frameHeader, headerWith, flatten_cons, append_assoc, splice_append_left rfl]

/-- Zeros that bring a short frame to the minimum length. -/
def padding (payloadBytes : ℕ) : Bytes := List.replicate (minFrameBytes - (34 + payloadBytes)) 0

/-- The builder writes the header in front of a zero payload and its padding. -/
theorem buildIpv4Frame_eq (granted : Bool) {payloadBytes : ℕ} (h : payloadBytes ≤ 1480) :
    buildIpv4Frame granted link.sourceMac link.destinationMac link.sourceIp link.destinationIp
      protocol payloadBytes =
        if granted then
          .ok (frameHeader link protocol (.ofNat (20 + payloadBytes)) ++
            (List.replicate payloadBytes 0 ++ padding payloadBytes))
        else .error .exhausted := by
  have hsize : [6, 6, 2, 1, 1, 2, 2, 2, 1, 1, 2, 4, 4, payloadBytes,
      minFrameBytes - (34 + payloadBytes)].sum = max (34 + payloadBytes) minFrameBytes := by
    simp only [sum_cons, sum_nil]
    omega
  have hip : checkedAdd 64 20 payloadBytes = some (20 + payloadBytes) :=
    checkedAdd_eq_some.mpr ⟨by omega, rfl⟩
  have hwire : checkedAdd 64 ethernetHeaderBytes (20 + payloadBytes) = some (34 + payloadBytes) := by
    rw [checkedAdd_eq_some, ethernetHeaderBytes]
    omega
  have hlength : tryU16 (20 + payloadBytes) = some (.ofNat (20 + payloadBytes)) :=
    if_pos (by omega)
  have hmax : ¬ maxFrameBytes < max (34 + payloadBytes) minFrameBytes := by
    unfold maxFrameBytes minFrameBytes
    omega
  simp only [buildIpv4Frame, hip, hwire, hlength, okOr, Option.elim, allocateFrame, rejectIf,
    if_neg hmax, bind, Except.bind]
  cases granted with
  | false => rfl
  | true =>
    refine congrArg Except.ok ?_
    -- All other fields are in place when the checksum is taken.
    apply splice_headerChecksum
    rw [replicate_eq_flatten _ hsize]
    simp (disch := simp) only [write_rules, headerWith, Link.ips, ipv4Start, Nat.reduceSub]
    rfl

/-- A frame that carries the transport segment. -/
def ipv4Frame (segment : Bytes) : Bytes :=
  frameHeader link protocol (.ofNat (20 + segment.length)) ++ (segment ++ padding segment.length)

/-- What the parsers find in a frame that carries the segment. -/
structure Carries (frame segment : Bytes) : Prop where
  length : frame.length = max (34 + segment.length) minFrameBytes
  ethernet : ∀ transport ≤ segment.length, checkEthernet transport frame = .ok ()
  sourceMac : copyArray 6 frame 6 = .ok link.sourceMac.bytes
  ipv4 : ∀ transport ≤ segment.length,
    checkIpv4 protocol transport frame = .ok (20 + segment.length)
  sourceIp : copyArray 4 frame 26 = .ok link.sourceIp.bytes
  destinationIp : copyArray 4 frame 30 = .ok link.destinationIp.bytes
  readBe16 : ∀ k, readBe16 frame (34 + k) = Net.readBe16 (segment ++ padding segment.length) k
  readBe32 : ∀ k, readBe32 frame (34 + k) = Net.readBe32 (segment ++ padding segment.length) k
  byteAt : ∀ k, byteAt frame (34 + k) = Net.byteAt (segment ++ padding segment.length) k
  span : ∀ before after, segment = before ++ after →
    span frame (34 + before.length) (34 + segment.length) = after
  padding : anyNonzero (frame.drop (14 + (20 + segment.length))) = false

/-- The header fields as the parsers read them. -/
theorem frameHeader_reads (rest : Bytes) :
    let frame := frameHeader link protocol length ++ rest
    readBe16 frame 12 = .ok ethertypeIpv4 ∧ copyArray 6 frame 6 = .ok link.sourceMac.bytes ∧
      byteAt frame 14 = 0x45 ∧ byteAt frame 23 = protocol ∧ readBe16 frame 16 = .ok length ∧
      readBe16 frame 20 = .ok 0x4000 ∧ copyArray 4 frame 26 = .ok link.sourceIp.bytes ∧
      copyArray 4 frame 30 = .ok link.destinationIp.bytes := by
  simp (disch := simp) only [frameHeader, headerWith, Link.ips, ipv4Start, read_rules,
    Nat.reduceSub, length_cons, length_nil, Nat.reduceAdd, and_self]

variable {segment : Bytes}

/-- What follows the first bytes of the segment in the frame. -/
theorem span_ipv4Frame (before after : Bytes) (h : segment = before ++ after) :
    span (ipv4Frame link protocol segment) (34 + before.length) (34 + segment.length) = after := by
  have hsplit : ipv4Frame link protocol segment =
      (frameHeader link protocol (.ofNat (20 + segment.length)) ++ before) ++
        (after ++ padding segment.length) := by
    rw [ipv4Frame, append_assoc, ← append_assoc before, ← h]
  rw [hsplit]
  apply span_append
  · rw [length_append, length_frameHeader]
  · rw [h, length_append, Nat.add_assoc]

/-- Behind the segment there are only zeros. -/
theorem padding_ipv4Frame :
    anyNonzero ((ipv4Frame link protocol segment).drop (14 + (20 + segment.length))) = false := by
  rw [ipv4Frame, drop_append_right (by rw [length_frameHeader]; omega), length_frameHeader,
    List.drop_left' (by omega)]
  exact anyNonzero_replicate _

/-- The parsers accept the headers of every frame that is not too long. -/
theorem carries_ipv4Frame (hmax : segment.length ≤ 1480) :
    Carries link protocol (ipv4Frame link protocol segment) segment := by
  have hlength : (ipv4Frame link protocol segment).length =
      max (34 + segment.length) minFrameBytes := by
    simp only [ipv4Frame, padding, length_append, length_frameHeader, length_replicate]
    omega
  have htotal : (UInt16.ofNat (20 + segment.length)).toNat = 20 + segment.length := by
    rw [UInt16.toNat_ofNat', Nat.mod_eq_of_lt (by omega)]
  obtain ⟨h12, h6, h14, h23, h16, h20, h26, h30⟩ := frameHeader_reads link protocol
    (.ofNat (20 + segment.length)) (segment ++ padding segment.length)
  refine ⟨hlength, ?_, h6, ?_, h26, h30, ?_, ?_, ?_, span_ipv4Frame link protocol,
    padding_ipv4Frame link protocol⟩
  · intro transport htransport
    simp only [checkEthernet, ok_rules, hlength]
    refine ⟨(), ?_, ethertypeIpv4, h12, fun h => h rfl⟩
    unfold ethernetHeaderBytes maxFrameBytes minFrameBytes
    omega
  · intro transport htransport
    simp only [checkIpv4, ok_rules, hlength]
    refine ⟨(), fun h => h.elim (absurd h14) (absurd h23), .ofNat (20 + segment.length), h16,
      0x4000, h20, (), ?_, (), ?_, by rw [htotal]⟩
    · rw [htotal]
      rintro (h | h | h)
      · omega
      · omega
      · exact h (by decide)
    · exact fun h => h (checksum_frameHeader _ _ _ _)
  · intro k
    rw [ipv4Frame, readBe16_append_right (by simp), length_frameHeader, Nat.add_sub_cancel_left]
  · intro k
    rw [ipv4Frame, readBe32_append_right (by simp), length_frameHeader, Nat.add_sub_cancel_left]
  · intro k
    rw [ipv4Frame, byteAt_append_right (by simp), length_frameHeader, Nat.add_sub_cancel_left]

/-- The whole segment. -/
theorem Carries.whole {frame : Bytes} (h : Carries link protocol frame segment) :
    Net.span frame 34 (34 + segment.length) = segment :=
  h.span [] segment rfl

/-- Writing a checksum of the segment into its zero field completes the segment. -/
theorem splice_checksum (sum : Bytes → UInt16) {before after frame : Bytes} {offset n : ℕ}
    (hoffset : offset = 34 + before.length) (hn : n = before.length + (2 + after.length))
    (h : frame = frameHeader link protocol (.ofNat (20 + n)) ++
      (before ++ ([0, 0] ++ (after ++ padding n)))) :
    splice frame offset (be16 (sum (Net.span frame 34 (34 + n)))) =
      ipv4Frame link protocol (before ++ (be16 (sum (before ++ ([0, 0] ++ after))) ++ after)) := by
  have hspan : Net.span frame 34 (34 + n) = before ++ ([0, 0] ++ after) := by
    rw [h, ← append_assoc [0, 0], ← append_assoc before]
    exact span_append (length_frameHeader _ _ _) (by simp [hn]; omega) _
  rw [hspan, h, hoffset, splice_append_right (by simp), splice_append_right (by simp),
    length_frameHeader, Nat.add_sub_cancel_left, Nat.sub_self, splice_append_left (by simp)]
  simp only [ipv4Frame, append_assoc, length_append, length_be16, ← hn]

end Ipv4

/-! ## UDP frames -/

section Udp

variable (datagram : UdpDatagram) (destination : Octets 6)

/-- The addresses of a frame with the datagram. -/
abbrev UdpDatagram.link : Link :=
  ⟨datagram.sourceMac, destination, datagram.sourceIp, datagram.destinationIp⟩

/-- What the builder refuses. -/
abbrev UdpDatagram.Refused : Prop :=
  UdpRefused datagram.sourcePort datagram.destinationPort datagram.payload

/-- The UDP header up to its checksum. -/
def udpStart : Bytes :=
  [be16 datagram.sourcePort, be16 datagram.destinationPort,
    be16 (.ofNat (8 + datagram.payload.length))].flatten

/-- The checksum as it is sent. -/
def udpField : UInt16 :=
  udpChecksum datagram.sourceIp datagram.destinationIp
    (udpStart datagram ++ ([0, 0] ++ datagram.payload))

def udpSegment : Bytes :=
  udpStart datagram ++ (be16 (udpField datagram) ++ datagram.payload)

@[simp] theorem length_udpStart : (udpStart datagram).length = 6 := by
  simp [udpStart]

@[simp] theorem length_udpSegment : (udpSegment datagram).length = 8 + datagram.payload.length := by
  simp only [udpSegment, length_append, length_udpStart, length_be16]
  omega

variable {datagram}

/-- A datagram that is not refused fits into a frame. -/
theorem UdpDatagram.payload_le (h : ¬ datagram.Refused) : datagram.payload.length ≤ 1472 :=
  Nat.le_of_not_lt fun hlt => h (.inr (.inr hlt))

/-- The builder makes a frame that carries the datagram, if it does not refuse it. -/
theorem buildUdpTo_eq (granted : Bool) :
    buildUdpTo granted datagram.sourceMac destination datagram.sourceIp datagram.destinationIp
      datagram.sourcePort datagram.destinationPort datagram.payload =
        if datagram.Refused then .error .invalid
        else if granted then
          .ok (ipv4Frame (datagram.link destination) ipProtocolUdp (udpSegment datagram))
        else .error .exhausted := by
  by_cases hrefused : datagram.Refused
  · rw [if_pos hrefused, buildUdpTo, rejectIf, if_pos hrefused]
    rfl
  · have hpayload := datagram.payload_le hrefused
    have hlen : checkedAdd 64 8 datagram.payload.length = some (8 + datagram.payload.length) :=
      checkedAdd_eq_some.mpr ⟨by omega, rfl⟩
    have hfield : tryU16 (8 + datagram.payload.length) =
        some (.ofNat (8 + datagram.payload.length)) := if_pos (by omega)
    rw [if_neg hrefused]
    simp only [buildUdpTo, hlen, hfield, okOr, Option.elim, rejectIf, if_neg hrefused, bind,
      Except.bind, buildIpv4Frame_eq (datagram.link destination) _ _
        (show 8 + datagram.payload.length ≤ 1480 by omega)]
    cases granted with
    | false => rfl
    | true =>
      have hsize : [2, 2, 2, 2, datagram.payload.length].sum = 8 + datagram.payload.length := by
        simp only [sum_cons, sum_nil]
        omega
      refine congrArg Except.ok ?_
      -- The checksum is taken over the segment as it stands, with its field still zero.
      apply splice_checksum _ _ _ (by rw [length_udpStart]) (by rw [length_udpStart]; omega)
      rw [splice_destinationMac, replicate_eq_flatten _ hsize]
      simp (disch := simp) only [write_rules, udpStart, length_frameHeader, Nat.reduceSub]
      rfl

/-- The checksum field is not zero and the checksum verifies. -/
theorem udpSegment_verifies (h : ¬ datagram.Refused) :
    udpField datagram ≠ 0 ∧ finalizeSum (udpSum datagram.sourceIp datagram.destinationIp
      (udpSegment datagram)) = 0 := by
  have hpayload := datagram.payload_le h
  exact pseudoChecksum_fill _ _ _ (by simp) (by simp; omega)

/-- The fields as the parser reads them. -/
theorem udpSegment_reads (datagram : UdpDatagram) (pad : Bytes) :
    let bytes := udpSegment datagram ++ pad
    readBe16 bytes 0 = .ok datagram.sourcePort ∧ readBe16 bytes 2 = .ok datagram.destinationPort ∧
      readBe16 bytes 4 = .ok (.ofNat (8 + datagram.payload.length)) ∧
      readBe16 bytes 6 = .ok (udpField datagram) := by
  simp (disch := simp) only [udpSegment, read_rules, length_udpStart, Nat.reduceSub]
  simp (disch := simp) only [udpStart, read_rules, Nat.reduceSub, and_self]

/-- The parser gives the datagram back. -/
theorem parseUdp_eq {frame : Bytes}
    (hframe : Carries (datagram.link destination) ipProtocolUdp frame (udpSegment datagram))
    (haccepted : ¬ datagram.Refused) : parseUdp frame = .ok datagram := by
  have hlength := length_udpSegment datagram
  have hpayload := datagram.payload_le haccepted
  obtain ⟨h0, h2, h4, h6⟩ := udpSegment_reads datagram (padding (udpSegment datagram).length)
  have hudpLen : (UInt16.ofNat (8 + datagram.payload.length)).toNat =
      8 + datagram.payload.length := by
    rw [UInt16.toNat_ofNat', Nat.mod_eq_of_lt (by omega)]
  have hsegment := hframe.whole
  have hdata := hframe.span (udpStart datagram ++ be16 (udpField datagram)) datagram.payload
    (append_assoc _ _ _).symm
  rw [hlength] at hsegment hdata
  simp only [parseUdp, ok_rules]
  -- One component for each check and each read of the parser, in its order.
  refine ⟨(), hframe.ethernet 8 (by omega), _, hframe.sourceMac, _, MacAddress.new_bytes _, _,
    hframe.ipv4 8 (by omega), _, hframe.sourceIp, _, hframe.destinationIp, _,
    (hframe.readBe16 4).trans h4, (), ?_, _, (hframe.readBe16 0).trans h0, _,
    (hframe.readBe16 2).trans h2, (), ?_, _, (hframe.readBe16 6).trans h6, (), ?_, (), ?_, ?_⟩
  · rw [hlength]
    omega
  · rw [hudpLen, Nat.add_sub_cancel_left]
    exact haccepted
  · rintro ⟨-, h⟩
    rw [hudpLen, hsegment] at h
    exact h (udpSegment_verifies haccepted).2
  · rw [hframe.padding]
    simp
  · rw [hudpLen]
    exact congrArg _ (congrArg _ hdata)

end Udp

/-! ## ICMP echo frames -/

section Icmp

variable (echo : IcmpEcho)

/-- The addresses of a frame with the echo message. -/
abbrev IcmpEcho.link (destination : MacAddress) : Link :=
  ⟨echo.sourceMac, destination.bytes, echo.sourceIp, echo.destinationIp⟩

/-- The ICMP header up to its checksum. -/
def icmpStart (kind : UInt8) : Bytes := [[kind], [0]].flatten

/-- What follows the checksum. -/
def icmpRest : Bytes := [be16 echo.identifier, be16 echo.sequence, echo.payload].flatten

def icmpField : UInt16 := checksum (icmpStart echo.kind ++ ([0, 0] ++ icmpRest echo))

def icmpSegment : Bytes := icmpStart echo.kind ++ (be16 (icmpField echo) ++ icmpRest echo)

@[simp] theorem length_icmpStart (kind : UInt8) : (icmpStart kind).length = 2 := rfl

@[simp] theorem length_icmpRest : (icmpRest echo).length = 4 + echo.payload.length := by
  simp only [icmpRest, layout_rules, length_append]
  omega

@[simp] theorem length_icmpSegment : (icmpSegment echo).length = 8 + echo.payload.length := by
  simp only [icmpSegment, length_append, length_icmpStart, length_icmpRest, length_be16]
  omega

variable {echo}

/-- A message that is not refused fits into a frame. -/
theorem IcmpEcho.payload_le (h : ¬ IcmpRefused echo.kind echo.payload) :
    echo.payload.length ≤ 1472 :=
  Nat.le_of_not_lt fun hlt => h (.inr hlt)

/-- The builder makes a frame that carries the message, if it does not refuse it. -/
theorem buildIcmpEcho_eq (destination : MacAddress) (granted : Bool) :
    buildIcmpEcho granted echo.sourceMac destination echo.sourceIp echo.destinationIp echo.kind
      echo.identifier echo.sequence echo.payload =
        if IcmpRefused echo.kind echo.payload then .error .invalid
        else if granted then
          .ok (ipv4Frame (echo.link destination) ipProtocolIcmp (icmpSegment echo))
        else .error .exhausted := by
  by_cases hrefused : IcmpRefused echo.kind echo.payload
  · rw [if_pos hrefused, buildIcmpEcho, rejectIf, if_pos hrefused]
    rfl
  · have hpayload := echo.payload_le hrefused
    have hlen : checkedAdd 64 8 echo.payload.length = some (8 + echo.payload.length) :=
      checkedAdd_eq_some.mpr ⟨by omega, rfl⟩
    rw [if_neg hrefused]
    simp only [buildIcmpEcho, hlen, okOr, Option.elim, rejectIf, if_neg hrefused, bind,
      Except.bind, buildIpv4Frame_eq (echo.link destination) _ _
        (show 8 + echo.payload.length ≤ 1480 by omega)]
    cases granted with
    | false => rfl
    | true =>
      have hsize : [1, 1, 2, 2, 2, echo.payload.length].sum = 8 + echo.payload.length := by
        simp only [sum_cons, sum_nil]
        omega
      refine congrArg Except.ok ?_
      apply splice_checksum _ _ _ (by rw [length_icmpStart])
        (by rw [length_icmpStart, length_icmpRest]; omega)
      rw [replicate_eq_flatten _ hsize]
      simp (disch := simp) only [write_rules, icmpStart, icmpRest, length_frameHeader,
        Nat.reduceSub]
      rfl

/-- The checksum verifies. -/
theorem icmpSegment_verifies (h : echo.payload.length ≤ 1472) : checksum (icmpSegment echo) = 0 :=
  finalizeSum_fill ⟨by simp, by simp; omega⟩

/-- The fields as the parser reads them. -/
theorem icmpSegment_reads (echo : IcmpEcho) (pad : Bytes) :
    let bytes := icmpSegment echo ++ pad
    byteAt bytes 0 = echo.kind ∧ byteAt bytes 1 = 0 ∧ readBe16 bytes 4 = .ok echo.identifier ∧
      readBe16 bytes 6 = .ok echo.sequence := by
  simp (disch := simp) only [icmpSegment, icmpStart, icmpRest, read_rules, Nat.reduceSub, and_self]

/-- The parser gives the message back. -/
theorem parseIcmpEcho_eq {destination : MacAddress} {frame : Bytes}
    (hframe : Carries (echo.link destination) ipProtocolIcmp frame (icmpSegment echo))
    (haccepted : ¬ IcmpRefused echo.kind echo.payload) : parseIcmpEcho frame = .ok echo := by
  have hlength := length_icmpSegment echo
  have hpayload := echo.payload_le haccepted
  obtain ⟨h0, h1, h4, h6⟩ := icmpSegment_reads echo (padding (icmpSegment echo).length)
  have hkind := (hframe.byteAt 0).trans h0
  have hcode := (hframe.byteAt 1).trans h1
  have hsegment := hframe.whole
  have hdata := hframe.span (icmpStart echo.kind ++ (be16 (icmpField echo) ++
    (be16 echo.identifier ++ be16 echo.sequence))) echo.payload (by simp [icmpSegment, icmpRest])
  simp only [parseIcmpEcho, ok_rules]
  refine ⟨(), hframe.ethernet 8 (by omega), _, hframe.sourceMac, _, MacAddress.new_bytes _, _,
    hframe.ipv4 8 (by omega), (), ?_, (), ?_, _, hframe.sourceIp, _, hframe.destinationIp, _,
    (hframe.readBe16 4).trans h4, _, (hframe.readBe16 6).trans h6, ?_⟩
  · rw [Nat.add_sub_cancel_left]
    rintro (h | h | h)
    · rw [hkind] at h
      exact haccepted (.inl h)
    · exact h hcode
    · rw [hsegment] at h
      exact h (icmpSegment_verifies hpayload)
  · rw [hframe.padding]
    simp
  · rw [Nat.add_sub_cancel_left, hkind]
    exact congrArg _ (congrArg _ hdata)

end Icmp

/-! ## TCP frames -/

section Tcp

variable (segment : TcpSegment)

/-- The addresses of a frame with the segment. -/
abbrev TcpSegment.link (source destination : MacAddress) : Link :=
  ⟨source, destination.bytes, segment.source.address, segment.destination.address⟩

/-- The TCP header up to its checksum. -/
def tcpStart : Bytes :=
  [be16 segment.source.port, be16 segment.destination.port, be32 segment.sequence,
    be32 segment.acknowledgement, [0x50], [segment.flags.bits], be16 segment.window].flatten

def tcpField : UInt16 :=
  tcpChecksum segment.source.address segment.destination.address
    (tcpStart segment ++ ([0, 0] ++ ([0, 0] ++ segment.payload)))

def tcpBytes : Bytes :=
  tcpStart segment ++ (be16 (tcpField segment) ++ ([0, 0] ++ segment.payload))

@[simp] theorem length_tcpStart : (tcpStart segment).length = 16 := by
  simp [tcpStart]

@[simp] theorem length_tcpBytes : (tcpBytes segment).length = 20 + segment.payload.length := by
  simp only [tcpBytes, length_append, length_tcpStart, length_be16, length_cons, length_nil]
  omega

/-- What the builder refuses; ports and flags are valid by construction. -/
def TcpSegment.Refused : Prop :=
  SegmentRefused segment.flags segment.acknowledgement segment.payload

instance : Decidable segment.Refused := inferInstanceAs (Decidable (SegmentRefused _ _ _))

/-- Flags that were accepted once are accepted again. -/
theorem TcpFlags.fromBits_bits (flags : TcpFlags) : TcpFlags.fromBits flags.bits = .ok flags :=
  dif_neg flags.accepted

/-- The port of an endpoint is not zero. -/
theorem TcpEndpoint.new_port (endpoint : TcpEndpoint) :
    TcpEndpoint.new endpoint.address endpoint.port = .ok endpoint :=
  dif_neg endpoint.port_ne_zero

variable {segment}

/-- A segment that is not refused fits into a frame. -/
theorem TcpSegment.payload_le (h : ¬ segment.Refused) : segment.payload.length ≤ 1460 :=
  Nat.le_of_not_lt fun hlt => h (.inl hlt)

/-- The builder makes a frame that carries the segment, if it does not refuse it. -/
theorem buildTcp_eq (source destination : MacAddress) (granted : Bool) :
    buildTcp granted source destination segment =
      if segment.Refused then .error .invalid
      else if granted then
        .ok (ipv4Frame (segment.link source destination) ipProtocolTcp (tcpBytes segment))
      else .error .exhausted := by
  have hports : (segment.source.port = 0 ∨ segment.destination.port = 0 ∨
      SegmentRefused segment.flags segment.acknowledgement segment.payload) ↔ segment.Refused := by
    simp only [segment.source.port_ne_zero, segment.destination.port_ne_zero, false_or]
    rfl
  by_cases hrefused : segment.Refused
  · rw [if_pos hrefused]
    simp only [buildTcp, TcpFlags.fromBits_bits, rejectIf, if_pos (hports.mpr hrefused), bind,
      Except.bind]
  · have hpayload := segment.payload_le hrefused
    have hlen : checkedAdd 64 20 segment.payload.length = some (20 + segment.payload.length) :=
      checkedAdd_eq_some.mpr ⟨by omega, rfl⟩
    rw [if_neg hrefused]
    simp only [buildTcp, TcpFlags.fromBits_bits, hlen, okOr, Option.elim, rejectIf,
      if_neg (hports.not.mpr hrefused), bind, Except.bind,
      buildIpv4Frame_eq (segment.link source destination) _ _
        (show 20 + segment.payload.length ≤ 1480 by omega)]
    cases granted with
    | false => rfl
    | true =>
      have hsize : [2, 2, 4, 4, 1, 1, 2, 2, 2, segment.payload.length].sum =
          20 + segment.payload.length := by
        simp only [sum_cons, sum_nil]
        omega
      refine congrArg Except.ok ?_
      apply splice_checksum _ _ _ (by rw [length_tcpStart])
        (by simp only [length_append, length_tcpStart, length_cons, length_nil]; omega)
      rw [replicate_eq_flatten _ hsize]
      simp (disch := simp) only [write_rules, tcpStart, length_frameHeader, length_be32,
        Nat.reduceSub]
      rfl

/-- The checksum verifies. -/
theorem tcpBytes_verifies (h : segment.payload.length ≤ 1460) :
    finalizeSum (tcpSum segment.source.address segment.destination.address
      (tcpBytes segment)) = 0 :=
  (pseudoChecksum_fill _ _ _ (by simp) (by simp; omega)).2

/-- The fields as the parser reads them. -/
theorem tcpBytes_reads (segment : TcpSegment) (pad : Bytes) :
    let bytes := tcpBytes segment ++ pad
    readBe16 bytes 0 = .ok segment.source.port ∧
      readBe16 bytes 2 = .ok segment.destination.port ∧
      readBe32 bytes 4 = .ok segment.sequence ∧
      readBe32 bytes 8 = .ok segment.acknowledgement ∧ byteAt bytes 12 = 0x50 ∧
      byteAt bytes 13 = segment.flags.bits ∧ readBe16 bytes 14 = .ok segment.window ∧
      readBe16 bytes 18 = .ok 0 := by
  have hurgent : ([0, 0] : Bytes) = be16 0 := rfl
  simp (disch := simp) only [tcpBytes, tcpStart, hurgent, read_rules, readBe32_append_right,
    readBe32_append_left, length_be32, Nat.reduceSub, and_self]

/-- The parser gives the segment back. -/
theorem parseTcp_eq {source destination : MacAddress} {frame : Bytes}
    (hframe : Carries (segment.link source destination) ipProtocolTcp frame (tcpBytes segment))
    (haccepted : ¬ segment.Refused) : parseTcp frame = .ok segment := by
  have hlength := length_tcpBytes segment
  have hpayload := segment.payload_le haccepted
  obtain ⟨h0, h2, h4, h8, h12, h13, h14, h18⟩ := tcpBytes_reads segment
    (padding (tcpBytes segment).length)
  have hoffset := (hframe.byteAt 12).trans h12
  have hflags := (hframe.byteAt 13).trans h13
  have hsegment := hframe.whole
  have hdata := hframe.span (tcpStart segment ++ (be16 (tcpField segment) ++ [0, 0]))
    segment.payload (by simp [tcpBytes])
  have hpayloadSpan : span frame (34 + 20) (34 + (20 + (tcpBytes segment).length - 20)) =
      segment.payload := by
    rw [Nat.add_sub_cancel_left]
    simpa using hdata
  simp only [parseTcp, ok_rules]
  refine ⟨(), hframe.ethernet 20 (by omega), _, hframe.ipv4 20 (by omega), _, hframe.sourceIp, _,
    hframe.destinationIp, _, (hframe.readBe16 18).trans h18, (), ?_, 20, ?_, (), ?_, segment.flags,
    ?_, (), ?_, _, (hframe.readBe32 8).trans h8, (), ?_, (), ?_, (), ?_, _,
    (hframe.readBe16 0).trans h0, segment.source, TcpEndpoint.new_port _, _,
    (hframe.readBe16 2).trans h2, segment.destination, TcpEndpoint.new_port _, _,
    (hframe.readBe32 4).trans h4, _, (hframe.readBe16 14).trans h14, ?_⟩
  · rw [hoffset]
    decide
  · rw [hoffset]
    decide
  · omega
  · rw [hflags]
    exact TcpFlags.fromBits_bits _
  · rw [span]
    simp [validateTcpSynOptions]
  · rw [hpayloadSpan]
    exact haccepted
  · have hvalid := tcpBytes_verifies hpayload
    rw [← hsegment] at hvalid
    rw [Nat.add_sub_cancel_left]
    exact fun h => absurd hvalid (of_decide_eq_false h)
  · rw [hframe.padding]
    simp
  · rw [hpayloadSpan]

end Tcp

end Troe.Net
