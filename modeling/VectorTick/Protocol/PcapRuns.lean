import VectorTick.Protocol.PcapLayers

/-! Runs of `read_next` over a capture file: they end, the records they consume tile the file, and
what they expose lies in the packet.
-/

set_option autoImplicit false

namespace VectorTick.Pcap

open Foundation

/-- What is exposed of a packet. -/
def exposed (linkType : LinkType) (packet : Bytes) : Option Bytes :=
  match payloadStart linkType packet with
  | .ok start => some (packet.drop start)
  | .error _ => none

namespace PcapReader

/-- The reader with the layers of its packet parsed. -/
def parsed (reader : PcapReader) : PcapReader :=
  match exposed reader.linkType reader.packet with
  | some payload => reader.parseVtp1 payload
  | none => { reader with parseErrors := reader.parseErrors + 1 }

def behind (reader : PcapReader) (header : PacketHeader) (packet : Bytes) : PcapReader :=
  (reader.startPacket (timestamp reader.isNanosecondTs header) packet).parsed.finishPacket
    (PacketHeader.size + header.inclLen.toNat)

theorem readPacket_eq (reader : PcapReader) (header : PacketHeader) (packet : Bytes) :
    reader.readPacket header packet =
      (reader.behind header packet, .ok (PacketHeader.size + header.inclLen.toNat)) := by
  unfold readPacket behind
  generalize reader.startPacket (timestamp reader.isNanosecondTs header) packet = started
  unfold parsePacket parsed exposed
  rcases payloadStart_cases started.linkType started.packet with ⟨start, _, done⟩ | ⟨status, failed⟩
  · rw [done]
  · rw [failed]

section Fields

variable (reader : PcapReader) (time : UInt64) (packet : Bytes) (consumed : Nat)

@[simp] theorem startPacket_mapping : (reader.startPacket time packet).mapping = reader.mapping :=
  rfl
@[simp] theorem startPacket_isBigEndian : (reader.startPacket time packet).isBigEndian =
    reader.isBigEndian := rfl
@[simp] theorem startPacket_linkType : (reader.startPacket time packet).linkType =
    reader.linkType := rfl
@[simp] theorem startPacket_offset : (reader.startPacket time packet).offset = reader.offset := rfl
@[simp] theorem startPacket_packet : (reader.startPacket time packet).packet = packet := rfl

@[simp] theorem finishPacket_mapping : (reader.finishPacket consumed).mapping = reader.mapping :=
  rfl
@[simp] theorem finishPacket_isBigEndian : (reader.finishPacket consumed).isBigEndian =
    reader.isBigEndian := rfl
@[simp] theorem finishPacket_linkType : (reader.finishPacket consumed).linkType = reader.linkType :=
  rfl
@[simp] theorem finishPacket_offset : (reader.finishPacket consumed).offset =
    reader.offset + consumed := rfl
@[simp] theorem finishPacket_packet : (reader.finishPacket consumed).packet = reader.packet := rfl
@[simp] theorem finishPacket_vtp1Payload : (reader.finishPacket consumed).vtp1Payload =
    reader.vtp1Payload := rfl

@[simp] theorem parsed_mapping : reader.parsed.mapping = reader.mapping := by
  unfold parsed
  cases exposed reader.linkType reader.packet <;> rfl

@[simp] theorem parsed_isBigEndian : reader.parsed.isBigEndian = reader.isBigEndian := by
  unfold parsed
  cases exposed reader.linkType reader.packet <;> rfl

@[simp] theorem parsed_linkType : reader.parsed.linkType = reader.linkType := by
  unfold parsed
  cases exposed reader.linkType reader.packet <;> rfl

@[simp] theorem parsed_offset : reader.parsed.offset = reader.offset := by
  unfold parsed
  cases exposed reader.linkType reader.packet <;> rfl

@[simp] theorem parsed_packet : reader.parsed.packet = reader.packet := by
  unfold parsed
  cases exposed reader.linkType reader.packet <;> rfl

theorem parsed_vtp1Payload (hidden : reader.vtp1Payload = none) :
    reader.parsed.vtp1Payload = exposed reader.linkType reader.packet := by
  unfold parsed
  cases exposed reader.linkType reader.packet with
  | none => exact hidden
  | some payload => rfl

end Fields

section Behind

variable (reader : PcapReader) (header : PacketHeader) (packet : Bytes)

@[simp] theorem behind_mapping : (reader.behind header packet).mapping = reader.mapping := by
  rw [behind, finishPacket_mapping, parsed_mapping, startPacket_mapping]

@[simp] theorem behind_isBigEndian : (reader.behind header packet).isBigEndian =
    reader.isBigEndian := by
  rw [behind, finishPacket_isBigEndian, parsed_isBigEndian, startPacket_isBigEndian]

@[simp] theorem behind_linkType : (reader.behind header packet).linkType = reader.linkType := by
  rw [behind, finishPacket_linkType, parsed_linkType, startPacket_linkType]

@[simp] theorem behind_offset :
    (reader.behind header packet).offset =
      reader.offset + (PacketHeader.size + header.inclLen.toNat) := by
  rw [behind, finishPacket_offset, parsed_offset, startPacket_offset]

@[simp] theorem behind_packet : (reader.behind header packet).packet = packet := by
  rw [behind, finishPacket_packet, parsed_packet, startPacket_packet]

@[simp] theorem behind_vtp1Payload : (reader.behind header packet).vtp1Payload =
    exposed reader.linkType packet := by
  rw [behind, finishPacket_vtp1Payload, parsed_vtp1Payload _ rfl,
    startPacket_linkType, startPacket_packet]

end Behind

/-- The record at an offset of a file, as the reader takes it. -/
structure RecordAt (reader : PcapReader) (file : Bytes) (header : PacketHeader) : Prop where
  mapped : reader.mapping = some file
  read : header = packetHeader reader.isBigEndian (slice file reader.offset PacketHeader.size)
  some : header.inclLen ≠ 0
  snapped : header.inclLen ≤ reader.snaplen
  inside : reader.offset + (PacketHeader.size + header.inclLen.toNat) ≤ file.length

theorem readNext_cases (reader : PcapReader) :
    (∃ status, reader.readNext = (reader, .error (.status status))) ∨
    (∃ file, reader.mapping = some file ∧ file.length ≤ reader.offset ∧
      reader.readNext = (reader, .ok 0)) ∨
    ∃ file header, RecordAt reader file header ∧
      reader.readNext = (reader.behind header
        (slice file (reader.offset + PacketHeader.size) header.inclLen.toNat),
        .ok (PacketHeader.size + header.inclLen.toNat)) := by
  unfold readNext
  cases mapped : reader.mapping with
  | none => exact .inl ⟨_, rfl⟩
  | some file =>
    dsimp only
    by_cases ended : reader.offset ≥ file.length
    · rw [if_pos ended]
      exact .inr (.inl ⟨file, rfl, ended, rfl⟩)
    rw [if_neg ended]
    by_cases cut : reader.offset + PacketHeader.size > file.length
    · rw [if_pos cut]
      exact .inl ⟨_, rfl⟩
    rw [if_neg cut, loadFrom, load_inside _ (Nat.le_of_not_lt cut)]
    dsimp only
    generalize found : packetHeader reader.isBigEndian
      (slice file reader.offset PacketHeader.size) = header
    by_cases long : header.inclLen > reader.snaplen ∨
        header.inclLen.toNat > file.length - reader.offset - PacketHeader.size
    · rw [if_pos long]
      exact .inl ⟨_, rfl⟩
    rw [if_neg long]
    by_cases none : header.inclLen = 0
    · rw [if_pos none]
      exact .inl ⟨_, rfl⟩
    rw [if_neg none, readPacket_eq]
    rw [not_or] at long
    exact .inr (.inr
      ⟨file, header, ⟨mapped, found.symm, none, UInt32.not_lt.mp long.1, by omega⟩, rfl⟩)

theorem consumed_pos {header : PacketHeader} (some : header.inclLen ≠ 0) :
    0 < header.inclLen.toNat := by
  apply Nat.pos_of_ne_zero
  intro zero
  exact some (UInt32.toNat_inj.mp zero)

theorem readNext_consumed {reader after : PcapReader} {consumed : Nat}
    (read : reader.readNext = (after, .ok consumed))
    (some : consumed ≠ 0) :
    ∃ file header, RecordAt reader file header ∧
      consumed = PacketHeader.size + header.inclLen.toNat ∧
      after = reader.behind header
        (slice file (reader.offset + PacketHeader.size) header.inclLen.toNat) := by
  rcases readNext_cases reader with ⟨status, failed⟩ | ⟨file, _, _, ended⟩ |
    ⟨file, header, record, taken⟩
  · rw [failed] at read
    cases read
  · rw [ended] at read
    cases read
    exact absurd rfl some
  · rw [taken] at read
    cases read
    exact ⟨file, header, record, rfl, rfl⟩

/-- Call `read_next` until it returns zero or an error: what every call before that consumed, with
the reader behind it, and the last outcome. `fuel` bounds the number of calls. -/
def drain : Nat → PcapReader → Option (List (Nat × PcapReader) × Except Stop Nat)
  | 0, _ => none
  | fuel + 1, reader =>
    match reader.readNext with
    | (_, .error stop) => some ([], .error stop)
    | (after, .ok consumed) =>
      if consumed = 0 then some ([], .ok 0)
      else (drain fuel after).map fun (records, last) => ((consumed, after) :: records, last)

/-- The consumed records follow each other in the file without a gap, from an offset on. Each has a
nonempty packet behind its header, and what is exposed of it is a suffix of the packet. -/
def Tiled (file : Bytes) : Nat → List (Nat × PcapReader) → Prop
  | _, [] => True
  | start, (consumed, after) :: rest =>
    PacketHeader.size < consumed ∧ after.offset = start + consumed ∧ after.offset ≤ file.length ∧
      after.packet = slice file (start + PacketHeader.size) (consumed - PacketHeader.size) ∧
      (∀ payload, after.vtp1Payload = some payload → payload <:+ after.packet) ∧
        Tiled file after.offset rest

theorem exposed_suffix {linkType : LinkType} {packet payload : Bytes}
    (found : exposed linkType packet = some payload) :
    payload <:+ packet := by
  unfold exposed at found
  cases parsed : payloadStart linkType packet with
  | error stop =>
    rw [parsed] at found
    cases found
  | ok start =>
    rw [parsed] at found
    cases found
    exact List.drop_suffix start packet

theorem drain_ends (fuel : Nat) {reader : PcapReader} {file : Bytes}
    (mapped : reader.mapping = some file)
    (inside : reader.offset ≤ file.length) (enough : file.length < reader.offset + fuel) :
    ∃ records last, drain fuel reader = some (records, last) ∧ Answers last ∧
      Tiled file reader.offset records := by
  induction fuel generalizing reader with
  | zero => omega
  | succ fuel ih =>
    unfold drain
    rcases readNext_cases reader with ⟨status, failed⟩ | ⟨_, _, _, ended⟩ |
      ⟨found, header, record, taken⟩
    · rw [failed]
      exact ⟨[], _, rfl, .inr ⟨status, rfl⟩, trivial⟩
    · rw [ended]
      exact ⟨[], _, rfl, .inl ⟨0, rfl⟩, trivial⟩
    · have same : found = file := Option.some.inj (record.mapped.symm.trans mapped)
      subst same
      have some := consumed_pos record.some
      have room := record.inside
      have size : PacketHeader.size = 16 := rfl
      obtain ⟨records, last, drained, answers, tiled⟩ :=
        @ih (reader.behind header
          (slice found (reader.offset + PacketHeader.size) header.inclLen.toNat))
          (by rw [behind_mapping, mapped]) (by rwa [behind_offset]) (by rw [behind_offset]; omega)
      rw [taken]
      dsimp only
      rw [if_neg (by omega), drained]
      refine ⟨_, last, rfl,
        answers, by omega, behind_offset .., by rwa [behind_offset], ?_, ?_, tiled⟩
      · rw [behind_packet, Nat.add_sub_cancel_left]
      · intro payload shown
        rw [behind_vtp1Payload] at shown
        rw [behind_packet]
        exact exposed_suffix shown

theorem openFile_answers (reader : PcapReader) (found : Option Bytes) :
    Answers (reader.openFile found).2 := by
  unfold openFile
  cases found with
  | none => exact answers_failWith _ _
  | some file =>
    dsimp only
    split
    · exact answers_failWith _ _
    unfold parseGlobalHeader
    split
    · exact answers_failWith _ _
    rw [loadFrom, load_inside _ (by omega)]
    dsimp only
    split
    · exact answers_failWith _ _
    split
    · exact answers_failWith _ _
    split
    · exact answers_failWith _ _
    · exact answers_ok ()

theorem openFile_ok {old reader : PcapReader} {found : Option Bytes}
    (opened : old.openFile found = (reader, .ok ())) :
    ∃ file, found = some file ∧ reader.mapping = some file ∧ reader.offset = GlobalHeader.size ∧
      GlobalHeader.size ≤ file.length := by
  unfold openFile at opened
  cases found with
  | none => cases opened
  | some file =>
    dsimp only at opened
    by_cases empty : file = []
    · rw [if_pos empty] at opened
      cases opened
    rw [if_neg empty] at opened
    unfold parseGlobalHeader at opened
    by_cases short : file.length < GlobalHeader.size
    · rw [if_pos short] at opened
      cases opened
    rw [if_neg short, loadFrom, load_inside _ (by omega)] at opened
    dsimp only at opened
    cases order : byMagic (u32Of (slice (slice file 0 GlobalHeader.size) 0 4)) with
    | none =>
      rw [order] at opened
      cases opened
    | some kind =>
      rw [order] at opened
      dsimp only at opened
      split at opened
      · cases opened
      · split at opened
        · cases opened
        · cases opened
          exact ⟨file, rfl, rfl, rfl, by omega⟩

/-- From any file that opens, the calls end after fewer than one for each byte, no
call reads outside the file or its packet, and the records tile the file from the
end of the global header on. -/
theorem drain_bounded {old reader : PcapReader} {file : Bytes}
    (opened : old.openFile (some file) = (reader, .ok ())) :
    ∃ records last, drain file.length reader = some (records, last) ∧ Answers last ∧
      Tiled file GlobalHeader.size records := by
  obtain ⟨found, same, mapped, start, enough⟩ := openFile_ok opened
  cases same
  have size : GlobalHeader.size = 24 := rfl
  rw [← start]
  exact drain_ends file.length mapped (by omega) (by omega)

/-- A little-endian microsecond capture of one Ethernet packet. -/
def captureOf (packet : Bytes) : Bytes :=
  [0xD4, 0xC3, 0xB2, 0xA1, 2, 0, 4, 0, 0, 0, 0, 0, 0, 0, 0, 0, 0xFF, 0xFF, 0, 0, 1, 0, 0, 0] ++
    ([1, 0, 0, 0, 0, 0, 0, 0] ++
      (u32 (UInt32.ofNat packet.length) ++ (u32 (UInt32.ofNat packet.length) ++ packet)))

/-- A TCP packet whose identification field is 20. -/
def tcpPacket : Bytes :=
  [0, 0, 0, 0, 0, 0, 0, 0, 0, 0, 0, 0, 0x08, 0x00] ++
    [0x45, 0, 0, 20, 0, 20, 0, 0, 64, 6, 0, 0, 10, 0, 0, 1, 10, 0, 0, 2]

def udpPacket : Bytes :=
  [0, 0, 0, 0, 0, 0, 0, 0, 0, 0, 0, 0, 0x08, 0x00] ++
    ([0x45, 0, 0, 28, 0, 20, 0, 0, 64, 17, 0, 0, 10, 0, 0, 1, 10, 0, 0, 2] ++
      [0, 1, 0, 2, 0, 8, 0, 0])

theorem drain_bounded_tcp :
    ∃ reader, openFile {} (some (captureOf tcpPacket)) = (reader, .ok ()) ∧
      ∃ records last, drain (captureOf tcpPacket).length reader = some (records, last) ∧
        Answers last ∧
        Tiled (captureOf tcpPacket) GlobalHeader.size records := by
  obtain ⟨reader, opened⟩ : ∃ reader, openFile {} (some (captureOf tcpPacket)) = (reader, .ok ()) :=
    ⟨(openFile {} (some (captureOf tcpPacket))).1, Prod.ext rfl (by decide)⟩
  exact ⟨reader, opened, drain_bounded opened⟩

def afterCalls (calls : Nat) (reader : PcapReader) : PcapReader :=
  (fun reader => reader.readNext.1)^[calls] reader

theorem readNext_linkType (reader : PcapReader) : reader.readNext.1.linkType = reader.linkType := by
  rcases readNext_cases reader with ⟨_, failed⟩ | ⟨_, _, _, ended⟩ | ⟨_, header, _, taken⟩
  · rw [failed]
  · rw [ended]
  · rw [taken, behind_linkType]

theorem afterCalls_linkType (calls : Nat) (reader : PcapReader) :
    (afterCalls calls reader).linkType = reader.linkType := by
  induction calls generalizing reader with
  | zero => rfl
  | succ calls ih => exact (ih reader.readNext.1).trans (readNext_linkType reader)

theorem exposed_ne_none {linkType : LinkType} {packet : Bytes} :
    exposed linkType packet ≠ none ↔ ∃ start, payloadStart linkType packet = .ok start := by
  unfold exposed
  cases payloadStart linkType packet <;> simp

theorem read_carries_iff {reader after : PcapReader} {consumed : Nat}
    (ethernet : reader.linkType = .ethernet)
    (read : reader.readNext = (after, .ok consumed)) (some : consumed ≠ 0) :
    (after.vtp1Payload ≠ none → CarriesUdp after.packet) ↔ ¬ FallsThrough after.packet := by
  obtain ⟨file, header, _, _, rfl⟩ := readNext_consumed read some
  rw [behind_vtp1Payload, behind_packet, ethernet, exposed_ne_none]
  exact exposed_carries_iff _

/-- In every run of an Ethernet reader, whatever is exposed of a packet is UDP over IPv4, exactly
where no layer of the packet is passed over. -/
theorem exposed_udp_iff {reader after : PcapReader} {consumed : Nat}
    (ethernet : reader.linkType = .ethernet)
    (calls : Nat) (read : (afterCalls calls reader).readNext = (after, .ok consumed))
    (some : consumed ≠ 0) :
    (after.vtp1Payload ≠ none → CarriesUdp after.packet) ↔ ¬ FallsThrough after.packet :=
  read_carries_iff ((afterCalls_linkType calls reader).trans ethernet) read some

theorem captureOf_read {packet shown : Bytes} {reader : PcapReader}
    (opened : (openFile {} (some (captureOf packet))).1 = reader)
    (read : (openFile {} (some (captureOf packet))).2 = .ok () ∧ reader.linkType = .ethernet ∧
      reader.readNext.2 = .ok (16 + packet.length) ∧ reader.readNext.1.packet = packet ∧
      reader.readNext.1.vtp1Payload = some shown) :
    ∃ after, openFile {} (some (captureOf packet)) = (reader, .ok ()) ∧
      reader.linkType = .ethernet ∧
      (afterCalls 0 reader).readNext = (after, .ok (16 + packet.length)) ∧ after.packet = packet ∧
      after.vtp1Payload = some shown := by
  obtain ⟨done, ethernet, consumed, same, payload⟩ := read
  exact ⟨reader.readNext.1, Prod.ext opened done, ethernet, Prod.ext rfl consumed, same, payload⟩

theorem exposed_udp_empty :
    ∃ reader after, openFile {} (some (captureOf udpPacket)) = (reader, .ok ()) ∧
      (afterCalls 0 reader).readNext = (after, .ok 58) ∧ after.vtp1Payload ≠ none ∧
      ((after.vtp1Payload ≠ none → CarriesUdp after.packet) ↔ ¬ FallsThrough after.packet) := by
  obtain ⟨after, opened, ethernet, read, _, payload⟩ :=
    @captureOf_read udpPacket [] _ rfl (by decide)
  exact ⟨_, after, opened, read, by simp [payload], exposed_udp_iff ethernet 0 read (by decide)⟩

/-- The payload of a TCP packet is exposed: its IP header passes for a UDP header. -/
theorem tcp_exposed :
    ¬ ∀ (old reader after : PcapReader) (file : Bytes) (consumed calls : Nat),
      old.openFile (some file) = (reader, .ok ()) → reader.linkType = .ethernet →
      (afterCalls calls reader).readNext = (after, .ok consumed) → consumed ≠ 0 →
      after.vtp1Payload ≠ none → CarriesUdp after.packet := by
  intro claimed
  obtain ⟨after, opened, ethernet, read, packet, payload⟩ :=
    @captureOf_read tcpPacket [64, 6, 0, 0, 10, 0, 0, 1, 10, 0, 0, 2] _ rfl (by decide)
  have carries := claimed {} _ after _ _ 0 opened ethernet read (by decide) (by simp [payload])
  rw [packet] at carries
  have protocol : protocolAt tcpPacket (networkStart tcpPacket) = 6 := by decide
  rw [carries.protocol] at protocol
  exact absurd protocol (by decide)

/-- Where the IPv4 header begins: behind a four-byte header, or behind Ethernet and its tags. -/
def datagramStart (linkType : LinkType) (data : Bytes) : Nat :=
  if linkType = .null ∨ linkType = .loopback then 4 else networkStart data

def udpStart (linkType : LinkType) (data : Bytes) : Nat :=
  datagramStart linkType data + ihlAt data (datagramStart linkType data)

def udpLength (linkType : LinkType) (data : Bytes) : Nat :=
  (be16Of (slice data (udpStart linkType data + 4) 2)).toNat

/-- The bytes behind the UDP header, as many as its length says. -/
def udpPayload (linkType : LinkType) (data : Bytes) : Bytes :=
  slice data (udpStart linkType data + UDPHeader.size) (udpLength linkType data - UDPHeader.size)

/-- An unfragmented IPv4 packet with a UDP datagram, all of it captured; anything may follow it. -/
structure Datagram (linkType : LinkType) (data : Bytes) : Prop where
  link : linkType = .null ∨ linkType = .loopback ∨ etherType data = Ethernet.etherTypeIPv4
  header : IPv4At data (datagramStart linkType data)
  protocol : protocolAt data (datagramStart linkType data) = IPv4Header.protocolUDP
  room : RoomForUdp data (datagramStart linkType data)
  udp : UdpAt data (udpStart linkType data)

theorem parseLink_datagram {linkType : LinkType} {data : Bytes}
    (datagram : Datagram linkType data) :
    parseLink linkType data = .ok (datagramStart linkType data) := by
  have whole := datagram.header.whole
  have link := datagram.link
  unfold parseLink
  unfold datagramStart at whole ⊢
  by_cases plain : linkType = .null ∨ linkType = .loopback
  · rw [if_pos plain] at whole
    rw [if_pos plain, if_pos plain, if_neg (by omega)]
  · rw [if_neg plain] at whole
    rw [if_neg plain, if_neg plain]
    have ip : etherType data = Ethernet.etherTypeIPv4 := by
      rcases link with null | loopback | ip
      · exact absurd (.inl null) plain
      · exact absurd (.inr loopback) plain
      · exact ip
    rcases parseEthernet_cases data with ⟨_, done⟩ | ⟨short, _⟩
    · rw [done, skipEthernet, if_neg (not_not_intro ip)]
      rfl
    · omega

theorem exposed_datagram {linkType : LinkType} {data : Bytes} (datagram : Datagram linkType data) :
    exposed linkType data = some (data.drop (udpStart linkType data + UDPHeader.size)) := by
  have network : parseIPv4 data (datagramStart linkType data) = .ok (udpStart linkType data) := by
    rcases parseIPv4_cases data (datagramStart linkType data) with
      ⟨none, _⟩ | ⟨_, other, _⟩ | ⟨_, _, _, done⟩ | ⟨_, _, full, _⟩
    · exact absurd datagram.header none
    · exact absurd datagram.protocol other
    · exact done
    · exact absurd datagram.room full
  have transport : parseUdp data (udpStart linkType data) =
      .ok (udpStart linkType data + UDPHeader.size) := by
    rcases parseUdp_cases data (udpStart linkType data) with ⟨_, done⟩ | ⟨none, _⟩
    · exact done
    · exact absurd datagram.udp none
  rw [exposed, payloadStart, parseLink_datagram datagram, ok_bind, network, ok_bind, transport]

theorem drop_eq_slice_iff {data : Bytes} {offset count : Nat}
    (inside : offset + count ≤ data.length) :
    data.drop offset = slice data offset count ↔ data.length = offset + count := by
  constructor
  · intro same
    have sizes := congrArg List.length same
    rw [List.length_drop, length_slice inside] at sizes
    omega
  · intro ends
    rw [slice, List.take_of_length_le (by rw [List.length_drop]; omega)]

/-- In every run, what is exposed of a datagram is its payload exactly if the packet ends with it.
-/
theorem exposed_payload_iff {reader after : PcapReader} {consumed : Nat} (calls : Nat)
    (read : (afterCalls calls reader).readNext = (after, .ok consumed)) (some : consumed ≠ 0)
    (datagram : Datagram reader.linkType after.packet) :
    after.vtp1Payload = Option.some (udpPayload reader.linkType after.packet) ↔
      after.packet.length =
        udpStart reader.linkType after.packet + udpLength reader.linkType after.packet := by
  obtain ⟨file, header, _, _, rfl⟩ := readNext_consumed read some
  rw [behind_packet] at datagram
  rw [behind_vtp1Payload, behind_packet, afterCalls_linkType,
    exposed_datagram datagram, Option.some_inj]
  have least : UDPHeader.size ≤ udpLength reader.linkType _ := datagram.udp.least
  have inside : udpStart reader.linkType _ + udpLength reader.linkType _ ≤ _ := datagram.udp.inside
  rw [udpPayload, drop_eq_slice_iff (by omega)]
  omega

/-- The UDP packet, padded to the least size of an Ethernet frame. -/
def paddedPacket : Bytes := udpPacket ++ List.replicate 18 0

instance (linkType : LinkType) (data : Bytes) : Decidable (Datagram linkType data) :=
  decidable_of_iff
    ((linkType = .null ∨ linkType = .loopback ∨ etherType data = Ethernet.etherTypeIPv4) ∧
    IPv4At data (datagramStart linkType data) ∧
    protocolAt data (datagramStart linkType data) = IPv4Header.protocolUDP ∧
    RoomForUdp data (datagramStart linkType data) ∧ UdpAt data (udpStart linkType data))
    ⟨fun ⟨link, header, protocol, room, udp⟩ => ⟨link, header, protocol, room, udp⟩,
      fun datagram =>
        ⟨datagram.link, datagram.header, datagram.protocol, datagram.room, datagram.udp⟩⟩

theorem exposed_payload_udp :
    ∃ reader after, openFile {} (some (captureOf udpPacket)) = (reader, .ok ()) ∧
      (afterCalls 0 reader).readNext = (after, .ok 58) ∧
      after.vtp1Payload = some (udpPayload reader.linkType after.packet) := by
  obtain ⟨after, opened, ethernet, read, packet, -⟩ :=
    @captureOf_read udpPacket [] _ rfl (by decide)
  have datagram : Datagram .ethernet udpPacket := by decide
  have ends : udpPacket.length =
      udpStart .ethernet udpPacket + udpLength .ethernet udpPacket := by decide
  exact ⟨_, after, opened, read,
    (exposed_payload_iff 0 read (by decide) (by rwa [ethernet, packet])).mpr
    (by rwa [ethernet, packet])⟩

/-- The padding behind an empty datagram is exposed as its payload. -/
theorem padding_exposed :
    ¬ ∀ (old reader after : PcapReader) (file : Bytes) (consumed calls : Nat),
      old.openFile (some file) = (reader, .ok ()) →
        (afterCalls calls reader).readNext = (after, .ok consumed) →
      consumed ≠ 0 → Datagram reader.linkType after.packet →
      after.vtp1Payload = some (udpPayload reader.linkType after.packet) := by
  intro claimed
  obtain ⟨after, opened, ethernet, read, packet, payload⟩ :=
    @captureOf_read paddedPacket (List.replicate 18 0) _ rfl (by decide)
  have datagram : Datagram .ethernet paddedPacket := by decide
  have exact_ := claimed {} _ after _ _ 0 opened read (by decide) (by rwa [ethernet, packet])
  have empty : udpPayload .ethernet paddedPacket = [] := by decide
  rw [ethernet, packet, payload, empty] at exact_
  exact absurd exact_ (by decide)

end PcapReader

end VectorTick.Pcap
