import VectorTick.Protocol.PcapRuns

/-! One capture written in either byte order reads the same.

A capture is what its file says, apart from the byte order of the header fields: the clock, the
fields of the global header, and the packets. The two files have their records at the same offsets,
and a reader at a record takes the same record from either.
-/

set_option autoImplicit false

namespace VectorTick.Pcap

open Foundation

structure Record where
  tsSec : UInt32
  tsUsec : UInt32
  origLen : UInt32
  data : Bytes
  deriving DecidableEq, Repr

structure Capture where
  nanosecond : Bool
  versionMajor : UInt16
  versionMinor : UInt16
  thiszone : UInt32
  sigfigs : UInt32
  snaplen : UInt32
  network : UInt32
  records : List Record
  deriving DecidableEq, Repr

def put32 (big : Bool) (value : UInt32) : Bytes := if big then be32 value else u32 value

def put16 (big : Bool) (value : UInt16) : Bytes := if big then be16 value else u16 value

@[simp] theorem length_put32 (big : Bool) (value : UInt32) : (put32 big value).length = 4 := by
  cases big <;> simp [put32]

@[simp] theorem length_put16 (big : Bool) (value : UInt16) : (put16 big value).length = 2 := by
  cases big <;> simp [put16]

@[simp] theorem word32_put32 (big : Bool) (value : UInt32) :
    word32 big (put32 big value) = value := by
  cases big <;> simp [word32, put32]

@[simp] theorem word16_put16 (big : Bool) (value : UInt16) :
    word16 big (put16 big value) = value := by
  cases big <;> simp [word16, put16]

namespace Record

def header (record : Record) : PacketHeader :=
  ⟨record.tsSec, record.tsUsec, UInt32.ofNat record.data.length, record.origLen⟩

def headerLayout (record : Record) (big : Bool) : Layout :=
  [ (0, put32 big record.tsSec), (4, put32 big record.tsUsec),
    (8, put32 big (UInt32.ofNat record.data.length)),
    (12, put32 big record.origLen) ]

/-- A record in the file: only its header depends on the byte order. -/
def bytes (big : Bool) (record : Record) : Bytes := (record.headerLayout big).bytes ++ record.data

theorem length_headerLayout (record : Record) (big : Bool) :
    (record.headerLayout big).bytes.length = PacketHeader.size := by
  simp [headerLayout, Layout.bytes, PacketHeader.size]

theorem packetHeader_layout (record : Record) (big : Bool) :
    PcapReader.packetHeader big (record.headerLayout big).bytes = record.header := by
  have tiles : (record.headerLayout big).Tiles 0 := by simp [headerLayout, Layout.Tiles]
  have fields := Layout.slices tiles []
  rw [List.append_nil] at fields
  generalize (record.headerLayout big).bytes = memory at fields ⊢
  simp only [headerLayout, List.forall_mem_cons, length_put32] at fields
  obtain ⟨sec, usec, incl, orig, -⟩ := fields
  rw [PcapReader.packetHeader, sec, usec, incl, orig, word32_put32, word32_put32,
    word32_put32, word32_put32]
  rfl

end Record

namespace Capture

def magic (capture : Capture) : UInt32 :=
  if capture.nanosecond then GlobalHeader.magicLENs else GlobalHeader.magicLE

def headerLayout (capture : Capture) (big : Bool) : Layout :=
  [ (0, put32 big capture.magic), (4, put16 big capture.versionMajor),
    (6, put16 big capture.versionMinor),
    (8, put32 big capture.thiszone), (12, put32 big capture.sigfigs),
      (16, put32 big capture.snaplen),
    (20, put32 big capture.network) ]

def fileBytes (capture : Capture) (big : Bool) : Bytes :=
  (capture.headerLayout big).bytes ++ capture.records.flatMap (Record.bytes big)

/-- Every packet has a length that its header can hold. -/
def Representable (capture : Capture) : Prop :=
  ∀ record ∈ capture.records, record.data.length < 2 ^ 32

theorem length_headerLayout (capture : Capture) (big : Bool) :
    (capture.headerLayout big).bytes.length = GlobalHeader.size := by
  simp [headerLayout, Layout.bytes, GlobalHeader.size]

theorem byMagic_put32 (capture : Capture) (big : Bool) :
    PcapReader.byMagic (u32Of (put32 big capture.magic)) = some (big, capture.nanosecond) := by
  unfold magic
  cases capture.nanosecond <;> cases big <;> decide

end Capture

namespace PcapReader

/-- What opening makes of a fresh reader, but for the mapping and the byte order. -/
def opening (capture : Capture) (reader : PcapReader) : PcapReader × Except Stop Unit :=
  let reader := { reader with isNanosecondTs := capture.nanosecond }
  if capture.versionMajor ≠ 2 then (reader, failWith .pcapInvalidHeader "Unsupported PCAP version")
  else
    let linkType : LinkType := ⟨capture.network⟩
    let reader := { reader with snaplen := capture.snaplen, linkType }
    if linkType ≠ .ethernet ∧ linkType ≠ .null ∧ linkType ≠ .loopback then
      (reader, failWith .pcapUnsupportedLinkType "Unsupported link type")
    else ({ reader with offset := GlobalHeader.size }, .ok ())

theorem openFile_capture (old : PcapReader) (capture : Capture) (big : Bool) :
    old.openFile (some (capture.fileBytes big)) =
      opening capture
        { old with mapping := some (capture.fileBytes big), offset := 0, isBigEndian := big } := by
  have length := capture.length_headerLayout big
  have enough : GlobalHeader.size ≤ (capture.fileBytes big).length := by
    rw [Capture.fileBytes, List.length_append, length]
    omega
  have whole : slice (capture.fileBytes big) 0 GlobalHeader.size =
      (capture.headerLayout big).bytes := by
    rw [Capture.fileBytes, slice, List.drop_zero, List.take_left' length]
  have tiles : (capture.headerLayout big).Tiles 0 := by simp [Capture.headerLayout, Layout.Tiles]
  have fields := Layout.slices tiles []
  rw [List.append_nil] at fields
  generalize (capture.headerLayout big).bytes = header at fields whole
  simp only [Capture.headerLayout, List.forall_mem_cons, length_put32, length_put16] at fields
  obtain ⟨magic, major, -, -, -, snaplen, network, -⟩ := fields
  have some : capture.fileBytes big ≠ [] :=
    List.ne_nil_of_length_pos (Nat.lt_of_lt_of_le (by decide) enough)
  unfold openFile parseGlobalHeader opening
  dsimp only
  rw [if_neg some, if_neg (Nat.not_lt.mpr enough), loadFrom, load_inside _ (by omega), whole]
  dsimp only
  rw [magic, capture.byMagic_put32]
  dsimp only
  rw [major, snaplen, network, word16_put16, word32_put32, word32_put32]

/-- A reader at the first of some records, in the byte order of its file. -/
structure AtRecords (reader : PcapReader) (records : List Record) : Prop where
  mapped : ∃ front : Bytes, front.length = reader.offset ∧
    reader.mapping = some (front ++ records.flatMap (Record.bytes reader.isBigEndian))
  sized : ∀ record ∈ records, record.data.length < 2 ^ 32

/-- What a call makes of the first record, if there is one. -/
def readRecord (reader : PcapReader) : List Record → PcapReader × Except Stop Nat
  | [] => (reader, .ok 0)
  | record :: _ =>
    if record.header.inclLen > reader.snaplen then
      (reader, failWith .pcapTruncatedRecord "Packet length exceeds snaplen or file size")
    else if record.header.inclLen = 0 then
      (reader, failWith .pcapTruncatedRecord "Zero-length packet")
    else (reader.behind record.header record.data,
      .ok (PacketHeader.size + record.header.inclLen.toNat))

theorem readNext_records {reader : PcapReader} {records : List Record}
    (at_ : AtRecords reader records) :
    reader.readNext = reader.readRecord records := by
  obtain ⟨front, start, mapped⟩ := at_.mapped
  unfold readNext
  rw [mapped]
  dsimp only
  cases records with
  | nil =>
    rw [List.flatMap_nil, List.append_nil, if_pos (by omega)]
    rfl
  | cons record rest =>
    have size := at_.sized record List.mem_cons_self
    have header := record.length_headerLayout reader.isBigEndian
    have length : record.header.inclLen.toNat = record.data.length := by
      change (UInt32.ofNat record.data.length).toNat = _
      rw [UInt32.toNat_ofNat', Nat.mod_eq_of_lt size]
    have split : front ++ (record :: rest).flatMap (Record.bytes reader.isBigEndian) =
        front ++ ((record.headerLayout reader.isBigEndian).bytes ++
          (record.data ++ rest.flatMap (Record.bytes reader.isBigEndian))) := by
      rw [List.flatMap_cons, Record.bytes, List.append_assoc]
    have total : (front ++ (record :: rest).flatMap (Record.bytes reader.isBigEndian)).length =
        reader.offset + (16 +
          (record.data.length + (rest.flatMap (Record.bytes reader.isBigEndian)).length)) := by
      rw [split]
      simp only [List.length_append, header, start, PacketHeader.size]
    have first : slice
        (front ++ (record :: rest).flatMap (Record.bytes reader.isBigEndian)) reader.offset
        PacketHeader.size = (record.headerLayout reader.isBigEndian).bytes := by
      rw [split]
      exact slice_append front _ _ start.symm header.symm
    have packet : slice (front ++ (record :: rest).flatMap (Record.bytes reader.isBigEndian))
        (reader.offset + PacketHeader.size) record.header.inclLen.toNat = record.data := by
      rw [split, ← List.append_assoc, length]
      exact slice_append _ _ _ (by rw [List.length_append, start, header]) rfl
    have sixteen : PacketHeader.size = 16 := rfl
    rw [if_neg (by omega), if_neg (by omega), loadFrom, load_inside _ (by omega), first]
    dsimp only
    rw [record.packetHeader_layout, total, length]
    unfold readRecord
    dsimp only
    by_cases long : record.header.inclLen > reader.snaplen
    · rw [if_pos (.inl long), if_pos long]
    rw [if_neg (not_or.mpr ⟨long, by omega⟩), if_neg long]
    by_cases none : record.header.inclLen = 0
    · rw [if_pos none, if_pos none]
    rw [if_neg none, if_neg none, readPacket_eq, ← length, packet]

/-- What a reader holds that does not depend on the byte order. -/
def blind (reader : PcapReader) : PcapReader :=
  { reader with mapping := none, isBigEndian := false }

theorem parsed_blind (reader : PcapReader) : reader.blind.parsed = reader.parsed.blind := by
  have same : exposed reader.blind.linkType reader.blind.packet =
      exposed reader.linkType reader.packet := rfl
  unfold parsed
  rw [same]
  cases exposed reader.linkType reader.packet <;> rfl

theorem startPacket_blind (reader : PcapReader) (time : UInt64) (packet : Bytes) :
    reader.blind.startPacket time packet = (reader.startPacket time packet).blind := rfl

theorem finishPacket_blind (reader : PcapReader) (consumed : Nat) :
    reader.blind.finishPacket consumed = (reader.finishPacket consumed).blind := rfl

theorem isNanosecondTs_blind (reader : PcapReader) :
    reader.blind.isNanosecondTs = reader.isNanosecondTs := rfl

theorem behind_blind (reader : PcapReader) (header : PacketHeader) (packet : Bytes) :
    reader.blind.behind header packet = (reader.behind header packet).blind := by
  rw [behind, behind, isNanosecondTs_blind, startPacket_blind, parsed_blind, finishPacket_blind]

/-- Readers of the two files of one capture, at the same record. -/
structure Twins (little big : PcapReader) : Prop where
  same : little.blind = big.blind
  records : ∃ records, AtRecords little records ∧ AtRecords big records

theorem atRecords_behind {reader : PcapReader} {record : Record} {rest : List Record}
    (at_ : AtRecords reader (record :: rest)) :
    AtRecords (reader.behind record.header record.data) rest := by
  obtain ⟨front, start, mapped⟩ := at_.mapped
  have length : record.header.inclLen.toNat = record.data.length := by
    change (UInt32.ofNat record.data.length).toNat = _
    rw [UInt32.toNat_ofNat', Nat.mod_eq_of_lt (at_.sized record List.mem_cons_self)]
  refine ⟨⟨front ++ record.bytes reader.isBigEndian, ?_, ?_⟩, fun other listed =>
    at_.sized other (.tail _ listed)⟩
  · rw [behind_offset, length, List.length_append, Record.bytes, List.length_append,
      record.length_headerLayout, start]
  · rw [behind_mapping, mapped, behind_isBigEndian, List.flatMap_cons, List.append_assoc]

theorem readRecord_twins {little big : PcapReader} {records : List Record}
    (same : little.blind = big.blind)
    (atLittle : AtRecords little records) (atBig : AtRecords big records) :
    (little.readRecord records).2 = (big.readRecord records).2 ∧
      Twins (little.readRecord records).1 (big.readRecord records).1 := by
  have stays : Twins little big := ⟨same, records, atLittle, atBig⟩
  cases records with
  | nil => exact ⟨rfl, stays⟩
  | cons record rest =>
    have snaplen : little.blind.snaplen = big.blind.snaplen := by rw [same]
    change little.snaplen = big.snaplen at snaplen
    unfold readRecord
    dsimp only
    rw [snaplen]
    by_cases long : record.header.inclLen > big.snaplen
    · rw [if_pos long, if_pos long]
      exact ⟨rfl, stays⟩
    rw [if_neg long, if_neg long]
    by_cases none : record.header.inclLen = 0
    · rw [if_pos none, if_pos none]
      exact ⟨rfl, stays⟩
    rw [if_neg none, if_neg none]
    refine ⟨rfl, ?_, rest, atRecords_behind atLittle, atRecords_behind atBig⟩
    rw [← behind_blind, ← behind_blind, same]

theorem readNext_twins {little big : PcapReader} (twins : Twins little big) :
    little.readNext.2 = big.readNext.2 ∧ Twins little.readNext.1 big.readNext.1 := by
  obtain ⟨records, atLittle, atBig⟩ := twins.records
  rw [readNext_records atLittle, readNext_records atBig]
  exact readRecord_twins twins.same atLittle atBig

/-- What a caller sees after a call. -/
structure Observation where
  outcome : Except Stop Nat
  packetTsNs : UInt64
  packet : Bytes
  vtp1Payload : Option Bytes
  packetsRead : UInt64
  vtp1FramesFound : UInt64
  parseErrors : UInt64

def observe (reader : PcapReader) (outcome : Except Stop Nat) : Observation where
  outcome
  packetTsNs := reader.packetTsNs
  packet := reader.packet
  vtp1Payload := reader.vtp1Payload
  packetsRead := reader.packetsRead
  vtp1FramesFound := reader.vtp1FramesFound
  parseErrors := reader.parseErrors

def session : Nat → PcapReader → List Observation
  | 0, _ => []
  | calls + 1, reader =>
    observe reader.readNext.1 reader.readNext.2 :: session calls reader.readNext.1

theorem observe_blind (reader : PcapReader) (outcome : Except Stop Nat) :
    reader.blind.observe outcome = reader.observe outcome := rfl

theorem session_twins (calls : Nat) {little big : PcapReader} (twins : Twins little big) :
    session calls little = session calls big := by
  induction calls generalizing little big with
  | zero => rfl
  | succ calls ih =>
    obtain ⟨outcome, next⟩ := readNext_twins twins
    rw [session, session, ih next, ← observe_blind, next.same, observe_blind, outcome]

theorem opening_ok {capture : Capture} {start reader : PcapReader}
    (opened : opening capture start = (reader, .ok ())) :
    reader = { start with
      isNanosecondTs := capture.nanosecond
      snaplen := capture.snaplen
      linkType := ⟨capture.network⟩
      offset := GlobalHeader.size } := by
  unfold opening at opened
  dsimp only at opened
  split at opened
  · cases opened
  · split at opened
    · cases opened
    · cases opened
      rfl

theorem opened_records {old reader : PcapReader} {capture : Capture}
    {big : Bool} (sized : capture.Representable)
    (opened : old.openFile (some (capture.fileBytes big)) = (reader, .ok ())) :
    AtRecords reader capture.records ∧ reader.blind = { old with
      mapping := none
      isBigEndian := false
      isNanosecondTs := capture.nanosecond
      snaplen := capture.snaplen
      linkType := ⟨capture.network⟩
      offset := GlobalHeader.size } := by
  rw [openFile_capture] at opened
  rw [opening_ok opened]
  exact ⟨⟨⟨(capture.headerLayout big).bytes, capture.length_headerLayout big, rfl⟩, sized⟩, rfl⟩

theorem opening_status (capture : Capture) (first second : PcapReader) :
    (opening capture first).2 = (opening capture second).2 := by
  unfold opening
  dsimp only
  split
  · rfl
  · split <;> rfl

/-- A capture opens with the same status from a file in either byte order, and if it opens, every
number of calls shows the same results, timestamps, packets, payloads and counters. -/
theorem byte_order_unseen (old : PcapReader) {capture : Capture}
    (sized : capture.Representable) (calls : Nat) :
    (old.openFile (some (capture.fileBytes false))).2 =
      (old.openFile (some (capture.fileBytes true))).2 ∧
    ((old.openFile (some (capture.fileBytes false))).2 = .ok () →
      session calls (old.openFile (some (capture.fileBytes false))).1 =
        session calls (old.openFile (some (capture.fileBytes true))).1) := by
  have status : (old.openFile (some (capture.fileBytes false))).2 =
      (old.openFile (some (capture.fileBytes true))).2 := by
    rw [openFile_capture, openFile_capture]
    exact opening_status capture _ _
  refine ⟨status, fun opened => session_twins calls ?_⟩
  obtain ⟨atLittle, little⟩ := opened_records sized (Prod.ext rfl opened)
  obtain ⟨atBig, big⟩ := opened_records sized (Prod.ext rfl (status ▸ opened))
  exact ⟨little.trans big.symm, capture.records, atLittle, atBig⟩

/-- Two packets of which the second is longer than the snapshot length. -/
def shortCapture : Capture where
  nanosecond := true
  versionMajor := 2
  versionMinor := 4
  thiszone := 0
  sigfigs := 0
  snaplen := 64
  network := 1
  records := [⟨1, 500, 42, udpPacket⟩, ⟨2, 7, 100, List.replicate 100 0⟩]

theorem byte_order_unseen_short :
    (openFile {} (some (shortCapture.fileBytes false))).2 =
      (openFile {} (some (shortCapture.fileBytes true))).2 ∧
    ((openFile {} (some (shortCapture.fileBytes false))).2 = .ok () →
      session 3 (openFile {} (some (shortCapture.fileBytes false))).1 =
        session 3 (openFile {} (some (shortCapture.fileBytes true))).1) :=
  byte_order_unseen {} (by unfold Capture.Representable; decide) 3

/-- A capture of a link type that is refused, with a header that passes for a packet record. -/
def refusedCapture : Capture where
  nanosecond := true
  versionMajor := 2
  versionMinor := 4
  thiszone := 8
  sigfigs := 0
  snaplen := 64
  network := 113
  records := []

/-- The reader keeps its mapping, and a call takes the global header for a packet: the version
fields are read as one word, whose value depends on the byte order. -/
theorem byte_order_seen :
    refusedCapture.Representable ∧
      (openFile {} (some (refusedCapture.fileBytes false))).2 ≠ .ok () ∧
      session 1 (openFile {} (some (refusedCapture.fileBytes false))).1 ≠
        session 1 (openFile {} (some (refusedCapture.fileBytes true))).1 := by
  refine ⟨?_, ?_, ?_⟩
  · unfold Capture.Representable
    decide
  · decide
  · intro same
    have stamps := congrArg (fun seen => seen.map (·.packetTsNs)) same
    exact absurd stamps (by decide)

end PcapReader

end VectorTick.Pcap
