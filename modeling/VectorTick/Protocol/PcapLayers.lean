import VectorTick.Protocol.PcapReader

/-! What the layer parsers accept, in terms of the bytes of the packet, and which packets have a
payload exposed.
-/

set_option autoImplicit false

namespace VectorTick.Pcap

open Foundation

def etherTypeAt (data : Bytes) (tags : Nat) : UInt16 := be16Of (slice data (4 * tags + 12) 2)

def vlanTags (data : Bytes) : Nat :=
  if etherTypeAt data 0 = Ethernet.etherTypeVLAN ∨
    etherTypeAt data 0 = Ethernet.etherTypeVLANOuter then
    if etherTypeAt data 1 = Ethernet.etherTypeVLAN then 2 else 1
  else 0

def etherType (data : Bytes) : UInt16 := etherTypeAt data (vlanTags data)

def networkStart (data : Bytes) : Nat := 4 * vlanTags data + Ethernet.headerSize

def ihlAt (data : Bytes) (offset : Nat) : Nat := IPv4Header.ihl (data.getD offset 0)

def totalLengthAt (data : Bytes) (offset : Nat) : UInt16 := be16Of (slice data (offset + 2) 2)

def protocolAt (data : Bytes) (offset : Nat) : UInt8 := data.getD (offset + 9) 0

/-- A well-formed header of an unfragmented IPv4 packet. -/
structure IPv4At (data : Bytes) (offset : Nat) : Prop where
  whole : offset + IPv4Header.minSize ≤ data.length
  version : IPv4Header.version (data.getD offset 0) = 4
  length : IPv4Header.minSize ≤ ihlAt data offset
  options : offset + ihlAt data offset ≤ data.length
  unfragmented : IPv4Header.isFragmented (be16Of (slice data (offset + 6) 2)) = false

/-- The total length of the IPv4 header leaves room for a UDP header. -/
def RoomForUdp (data : Bytes) (offset : Nat) : Prop :=
  ihlAt data offset + UDPHeader.size ≤ (totalLengthAt data offset).toNat

/-- The bytes pass for a UDP header: a length field between the header's size and what is there. -/
structure UdpAt (data : Bytes) (offset : Nat) : Prop where
  whole : offset + UDPHeader.size ≤ data.length
  least : UDPHeader.size ≤ (be16Of (slice data (offset + 4) 2)).toNat
  inside : offset + (be16Of (slice data (offset + 4) 2)).toNat ≤ data.length

instance (data : Bytes) (offset : Nat) : Decidable (IPv4At data offset) :=
  decidable_of_iff (offset + IPv4Header.minSize ≤ data.length ∧
    IPv4Header.version (data.getD offset 0) = 4 ∧
    IPv4Header.minSize ≤ ihlAt data offset ∧ offset + ihlAt data offset ≤ data.length ∧
    IPv4Header.isFragmented (be16Of (slice data (offset + 6) 2)) = false)
    ⟨fun ⟨whole, version, length, options, unfragmented⟩ =>
      ⟨whole, version, length, options, unfragmented⟩,
      fun header =>
        ⟨header.whole, header.version, header.length, header.options, header.unfragmented⟩⟩

instance (data : Bytes) (offset : Nat) : Decidable (RoomForUdp data offset) :=
  inferInstanceAs (Decidable (_ ≤ _))

instance (data : Bytes) (offset : Nat) : Decidable (UdpAt data offset) :=
  decidable_of_iff (offset + UDPHeader.size ≤ data.length ∧
    UDPHeader.size ≤ (be16Of (slice data (offset + 4) 2)).toNat ∧
    offset + (be16Of (slice data (offset + 4) 2)).toNat ≤ data.length)
    ⟨fun ⟨whole, least, inside⟩ => ⟨whole, least, inside⟩,
      fun header => ⟨header.whole, header.least, header.inside⟩⟩

section Layers

variable {data : Bytes} {offset : Nat}

theorem readBeU16_inside (inside : offset + 2 ≤ data.length) :
    readBeU16 data offset = .ok (be16Of (slice data offset 2)) := by
  rw [readBeU16, loadFrom, load_inside _ inside, ok_bind]
  rfl

theorem readByte_inside (inside : offset < data.length) :
    readByte data offset = .ok (data.getD offset 0) := by
  rw [readByte, loadFrom, load_inside _ inside, ok_bind, ← slice_byte inside]
  rfl

theorem parseEthernet_cases (data : Bytes) :
    (networkStart data ≤ data.length ∧
      parseEthernet data 0 = .ok (skipEthernet (etherType data) (4 * vlanTags data))) ∨
    (data.length < networkStart data ∧ ∃ status, parseEthernet data 0 =
      .error (.status status)) := by
  have read (tags : Nat) (inside : 4 * tags + Ethernet.headerSize ≤ data.length) :
      readBeU16 data (4 * tags + 12) = .ok (etherTypeAt data tags) := by
    rw [Ethernet.headerSize] at inside
    exact readBeU16_inside (by omega)
  unfold parseEthernet networkStart etherType
  by_cases short : 0 + Ethernet.headerSize > data.length
  · rw [if_pos short]
    exact .inr ⟨by omega, _, rfl⟩
  rw [if_neg short, show readBeU16 data (0 + 12) = _ from read 0 (by omega), ok_bind]
  by_cases outer : etherTypeAt data 0 = Ethernet.etherTypeVLAN ∨
    etherTypeAt data 0 = Ethernet.etherTypeVLANOuter
  · rw [if_pos outer, vlanTags, if_pos outer]
    by_cases cut : 0 + 4 + Ethernet.headerSize > data.length
    · rw [if_pos cut]
      refine .inr ⟨?_, _, rfl⟩
      split <;> omega
    rw [if_neg cut, show readBeU16 data (0 + 4 + 12) = _ from read 1 (by omega), ok_bind]
    by_cases inner : etherTypeAt data 1 = Ethernet.etherTypeVLAN
    · rw [if_pos inner, if_pos inner]
      by_cases last : 0 + 4 + 4 + Ethernet.headerSize > data.length
      · rw [if_pos last]
        exact .inr ⟨by omega, _, rfl⟩
      rw [if_neg last, show readBeU16 data (0 + 4 + 4 + 12) = _ from read 2 (by omega), ok_bind]
      exact .inl ⟨by omega, rfl⟩
    · rw [if_neg inner, if_neg inner]
      exact .inl ⟨by omega, rfl⟩
  · rw [if_neg outer, vlanTags, if_neg outer]
    exact .inl ⟨by omega, rfl⟩

theorem parseIPv4_cases (data : Bytes) (offset : Nat) :
    (¬ IPv4At data offset ∧ ∃ status, parseIPv4 data offset = .error (.status status)) ∨
    (IPv4At data offset ∧ protocolAt data offset ≠ IPv4Header.protocolUDP ∧
      parseIPv4 data offset = .ok offset) ∨
    (IPv4At data offset ∧ protocolAt data offset = IPv4Header.protocolUDP ∧ RoomForUdp data offset ∧
      parseIPv4 data offset = .ok (offset + ihlAt data offset)) ∨
    (IPv4At data offset ∧ protocolAt data offset = IPv4Header.protocolUDP ∧
      ¬ RoomForUdp data offset ∧
      ∃ status, parseIPv4 data offset = .error (.status status)) := by
  unfold parseIPv4
  by_cases whole : offset + IPv4Header.minSize > data.length
  · rw [if_pos whole]
    exact .inl ⟨fun header => absurd header.whole (by omega), _, rfl⟩
  have room : offset + 20 ≤ data.length := Nat.le_of_not_lt whole
  rw [if_neg whole, readByte_inside (by omega), ok_bind]
  by_cases version : IPv4Header.version (data.getD offset 0) ≠ 4
  · rw [if_pos version]
    exact .inl ⟨fun header => version header.version, _, rfl⟩
  rw [if_neg version]
  by_cases length : IPv4Header.ihl (data.getD offset 0) < IPv4Header.minSize
  · rw [if_pos length]
    exact .inl ⟨fun header => absurd header.length (Nat.not_le_of_lt length), _, rfl⟩
  rw [if_neg length]
  by_cases options : offset + IPv4Header.ihl (data.getD offset 0) > data.length
  · rw [if_pos options]
    exact .inl ⟨fun header => absurd header.options (Nat.not_le_of_lt options), _, rfl⟩
  rw [if_neg options, readBeU16_inside (by omega), ok_bind]
  by_cases fragmented : IPv4Header.isFragmented (be16Of (slice data (offset + 6) 2)) = true
  · rw [if_pos fragmented]
    refine .inl ⟨fun header => ?_, _, rfl⟩
    have unfragmented := header.unfragmented
    rw [fragmented] at unfragmented
    cases unfragmented
  have header : IPv4At data offset :=
    ⟨room, not_not.mp version, Nat.le_of_not_lt length,
      Nat.le_of_not_lt options, by simpa using fragmented⟩
  rw [if_neg fragmented, readByte_inside (by omega), ok_bind]
  by_cases udp : protocolAt data offset ≠ IPv4Header.protocolUDP
  · rw [if_pos (show data.getD (offset + 9) 0 ≠ IPv4Header.protocolUDP from udp)]
    exact .inr (.inl ⟨header, udp, rfl⟩)
  rw [if_neg (show ¬ data.getD (offset + 9) 0 ≠ IPv4Header.protocolUDP from udp),
    readBeU16_inside (by omega), ok_bind]
  by_cases small : (be16Of (slice data (offset + 2) 2)).toNat <
    IPv4Header.ihl (data.getD offset 0) + UDPHeader.size
  · rw [if_pos small]
    exact .inr (.inr (.inr ⟨header, not_not.mp udp, Nat.not_le.mpr small, _, rfl⟩))
  · rw [if_neg small]
    exact .inr (.inr (.inl ⟨header, not_not.mp udp, Nat.le_of_not_lt small, rfl⟩))

theorem parseUdp_cases (data : Bytes) (offset : Nat) :
    (UdpAt data offset ∧ parseUdp data offset = .ok (offset + UDPHeader.size)) ∨
    (¬ UdpAt data offset ∧ ∃ status, parseUdp data offset = .error (.status status)) := by
  unfold parseUdp
  by_cases whole : offset + UDPHeader.size > data.length
  · rw [if_pos whole]
    exact .inr ⟨fun header => absurd header.whole (by omega), _, rfl⟩
  have room : offset + 8 ≤ data.length := Nat.le_of_not_lt whole
  rw [if_neg whole, readBeU16_inside (by omega), ok_bind]
  by_cases least : (be16Of (slice data (offset + 4) 2)).toNat < UDPHeader.size
  · rw [if_pos least]
    exact .inr ⟨fun header => absurd header.least (by omega), _, rfl⟩
  rw [if_neg least]
  by_cases inside : offset + (be16Of (slice data (offset + 4) 2)).toNat > data.length
  · rw [if_pos inside]
    exact .inr ⟨fun header => absurd header.inside (by omega), _, rfl⟩
  rw [if_neg inside]
  exact .inl ⟨⟨room, Nat.le_of_not_lt least, Nat.le_of_not_lt inside⟩, rfl⟩

theorem parseLink_cases (linkType : LinkType) (data : Bytes) :
    (∃ offset ≤ data.length, parseLink linkType data = .ok offset) ∨
    ∃ status, parseLink linkType data = .error (.status status) := by
  unfold parseLink
  by_cases plain : linkType = .null ∨ linkType = .loopback
  · rw [if_pos plain]
    by_cases short : data.length < 4
    · rw [if_pos short]
      exact .inr ⟨_, rfl⟩
    · rw [if_neg short]
      exact .inl ⟨4, by omega, rfl⟩
  · rw [if_neg plain]
    rcases parseEthernet_cases data with ⟨inside, done⟩ | ⟨_, failed⟩
    · refine .inl ⟨_, ?_, done⟩
      rw [skipEthernet]
      rw [networkStart] at inside
      split <;> omega
    · exact .inr failed

theorem payloadStart_cases (linkType : LinkType) (data : Bytes) :
    (∃ offset ≤ data.length, payloadStart linkType data = .ok offset) ∨
    ∃ status, payloadStart linkType data = .error (.status status) := by
  unfold payloadStart
  have udp (offset : Nat) : (∃ after ≤ data.length, parseUdp data offset = .ok after) ∨
      ∃ status, parseUdp data offset = .error (.status status) := by
    rcases parseUdp_cases data offset with ⟨header, done⟩ | ⟨_, failed⟩
    · exact .inl ⟨_, header.whole, done⟩
    · exact .inr failed
  rcases parseLink_cases linkType data with ⟨offset, _, linked⟩ | ⟨status, failed⟩
  · rw [linked, ok_bind]
    rcases parseIPv4_cases data offset with
      ⟨_, status, failed⟩ | ⟨_, _, done⟩ | ⟨_, _, _, done⟩ | ⟨_, _, _, status, failed⟩
    · rw [failed]
      exact .inr ⟨status, rfl⟩
    · rw [done, ok_bind]
      exact udp offset
    · rw [done, ok_bind]
      exact udp _
    · rw [failed]
      exact .inr ⟨status, rfl⟩
  · rw [failed]
    exact .inr ⟨status, rfl⟩

/-- An unfragmented IPv4 packet that carries UDP, under at most two VLAN tags. -/
structure CarriesUdp (data : Bytes) : Prop where
  ethernet : etherType data = Ethernet.etherTypeIPv4
  header : IPv4At data (networkStart data)
  protocol : protocolAt data (networkStart data) = IPv4Header.protocolUDP

/-- From this offset on the bytes pass for an IPv4 header and what the UDP check looks at. -/
def PassesFrom (data : Bytes) (offset : Nat) : Prop :=
  IPv4At data offset ∧
    if protocolAt data offset = IPv4Header.protocolUDP then
      RoomForUdp data offset ∧ UdpAt data (offset + ihlAt data offset)
    else UdpAt data offset

/-- The packet is passed over by a layer and its bytes pass the next ones all the same: not IPv4,
and the bytes from four times the number of tags on pass for an IPv4 header; or IPv4 but not UDP,
and the bytes of the IPv4 header pass for a UDP header. -/
def FallsThrough (data : Bytes) : Prop :=
  (etherType data ≠ Ethernet.etherTypeIPv4 ∧ PassesFrom data (4 * vlanTags data)) ∨
  (etherType data = Ethernet.etherTypeIPv4 ∧ IPv4At data (networkStart data) ∧
    protocolAt data (networkStart data) ≠ IPv4Header.protocolUDP ∧ UdpAt data (networkStart data))

theorem parse_passes_iff (data : Bytes) (offset : Nat) :
    (∃ start, (parseIPv4 data offset >>= parseUdp data) = .ok start) ↔ PassesFrom data offset := by
  have udp (offset : Nat) : (∃ start, parseUdp data offset = .ok start) ↔ UdpAt data offset := by
    rcases parseUdp_cases data offset with ⟨header, done⟩ | ⟨none, status, failed⟩
    · exact ⟨fun _ => header, fun _ => ⟨_, done⟩⟩
    · refine ⟨fun ⟨start, done⟩ => ?_, fun header => absurd header none⟩
      rw [failed] at done
      cases done
  unfold PassesFrom
  rcases parseIPv4_cases data offset with
    ⟨none, status, failed⟩ | ⟨header, other, done⟩ | ⟨header, same, room, done⟩ |
      ⟨header, same, full, status, failed⟩
  · rw [failed, error_bind]
    exact ⟨(fun ⟨_, done⟩ => nomatch done), fun passes => absurd passes.1 none⟩
  · rw [done, ok_bind, udp, if_neg other]
    exact ⟨fun passes => ⟨header, passes⟩, fun passes => passes.2⟩
  · rw [done, ok_bind, udp, if_pos same]
    exact ⟨fun passes => ⟨header, room, passes⟩, fun passes => passes.2.2⟩
  · rw [failed, error_bind, if_pos same]
    exact ⟨(fun ⟨_, done⟩ => nomatch done), fun passes => absurd passes.2.1 full⟩

theorem payloadStart_ethernet (data : Bytes) :
    (∃ start, payloadStart .ethernet data = .ok start) ↔
      PassesFrom data (skipEthernet (etherType data) (4 * vlanTags data)) ∧
        networkStart data ≤ data.length := by
  unfold payloadStart parseLink
  rw [if_neg (by decide)]
  rcases parseEthernet_cases data with ⟨inside, done⟩ | ⟨short, status, failed⟩
  · rw [done, ok_bind]
    exact (parse_passes_iff data _).trans ⟨fun passes => ⟨passes, inside⟩, And.left⟩
  · rw [failed, error_bind]
    exact ⟨(fun ⟨_, done⟩ => nomatch done), fun passes => absurd passes.2 (Nat.not_le_of_lt short)⟩

theorem exposed_carries_iff (data : Bytes) :
    ((∃ start, payloadStart .ethernet data = .ok start) → CarriesUdp data) ↔
      ¬ FallsThrough data := by
  rw [payloadStart_ethernet, skipEthernet]
  by_cases ip : etherType data = Ethernet.etherTypeIPv4
  · rw [if_neg (not_not_intro ip)]
    change (PassesFrom data (networkStart data) ∧ networkStart data ≤ data.length →
      CarriesUdp data) ↔ _
    constructor
    · rintro carries (⟨other, _⟩ | ⟨_, header, other, udp⟩)
      · exact other ip
      · have whole := header.whole
        have passes : PassesFrom data (networkStart data) := ⟨header, by rwa [if_neg other]⟩
        exact other (carries ⟨passes, by omega⟩).protocol
    · rintro stays ⟨⟨header, rest⟩, _⟩
      by_cases udp : protocolAt data (networkStart data) = IPv4Header.protocolUDP
      · exact ⟨ip, header, udp⟩
      · rw [if_neg udp] at rest
        exact absurd (.inr ⟨ip, header, udp, rest⟩) stays
  · rw [if_pos ip]
    constructor
    · rintro carries (⟨_, passes⟩ | ⟨same, _⟩)
      · have whole := passes.1.whole
        refine ip (carries ⟨passes, ?_⟩).ethernet
        rw [networkStart, Ethernet.headerSize]
        rw [IPv4Header.minSize] at whole
        omega
      · exact ip same
    · rintro stays ⟨passes, _⟩
      exact absurd (.inl ⟨ip, passes⟩) stays

end Layers

end VectorTick.Pcap
