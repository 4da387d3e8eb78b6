import VectorTick.Protocol.Ingest
import VectorTick.Protocol.PcapByteOrder
import VectorTick.Storage.SegmentRoundTrip

/-! The ingest application: the packets of a capture file are read one after another, the frames
of each payload are decoded, and the events become one segment.

Every error ends `main` with 1. The event variable of a frame is not initialised, so what its
storage holds is given by packet and frame. -/

set_option autoImplicit false

namespace VectorTick

open Foundation Pcap PcapReader Vtp1 Vtp1.Decoder SegmentWriter

def SegmentConfig.defaultRowsPerSegment : Nat := 65536

namespace IngestApp

/-- The variables of `main` at the head of its loop. -/
structure Session where
  reader : PcapReader
  decoder : Decoder
  writer : SegmentWriter
  packetCount : UInt64
  byteCount : UInt64
  eventCount : UInt64

/-- The session as a packet has been read. -/
def Session.behind (session : Session) (reader : PcapReader) (consumed : Nat) : Session :=
  { session with
    reader
    packetCount := session.packetCount + 1
    byteCount := session.byteCount + UInt64.ofNat consumed }

/-- What is done with the packet the reader is behind. -/
def takePacket (slots : Nat → CanonicalEvent) (session : Session) : Except Stop Session :=
  match session.reader.vtp1Payload with
  | none => .ok session
  | some data =>
    match ingestPayload session.reader.packetTsNs slots data session.decoder session.writer with
    | (_, .error stop) => .error stop
    | (calls, .ok (decoder, writer)) =>
      .ok { session with
        decoder, writer, eventCount := session.eventCount + UInt64.ofNat calls.length }

/-- The loop from a packet on. `fuel` bounds the number of packets; without
any left there is no result. -/
def takePackets (slots : Nat → Nat → CanonicalEvent) : Nat → Nat → Session →
    Option (Except Stop Session)
  | 0, _, _ => none
  | fuel + 1, packet, session =>
    if session.reader.mapping.isNone then some (.ok session)
    else
      match session.reader.readNext with
      | (_, .error stop) => some (.error stop)
      | (reader, .ok consumed) =>
        if consumed = 0 then some (.ok { session with reader })
        else
          match takePacket (slots packet) (session.behind reader consumed) with
          | .error stop => some (.error stop)
          | .ok session => takePackets slots fuel (packet + 1) session

/-- The totals that are printed, and the segment file if one is written. -/
structure Report where
  packets : UInt64
  bytes : UInt64
  events : UInt64
  output : Option Bytes
  deriving DecidableEq, Repr

/-- Without a row no file is written, which is no error. -/
def finish (memory : Allocator) (session : Session) : Except Stop Report :=
  if session.writer.rowCount > 0 then
    match session.writer.writeToFile memory with
    | .error stop => .error stop
    | .ok file => .ok ⟨session.packetCount, session.byteCount, session.eventCount, some file⟩
  else .ok ⟨session.packetCount, session.byteCount, session.eventCount, none⟩

/-- `main` behind its arguments: `found` is the file at the input path, if any. -/
def main (found : Option Bytes) (slots : Nat → Nat → CanonicalEvent) (memory : Allocator) :
    Option (Except Stop Report) :=
  match PcapReader.openFile {} found with
  | (_, .error stop) => some (.error stop)
  | (reader, .ok ()) =>
    match SegmentWriter.new 1 SegmentConfig.defaultRowsPerSegment with
    | .error stop => some (.error stop)
    | .ok writer =>
      match takePackets slots (found.getD []).length 0 ⟨reader, {}, writer, 0, 0, 0⟩ with
      | none => none
      | some (.error stop) => some (.error stop)
      | some (.ok session) => some (finish memory session)

section Rows

variable {receiveTsNs : UInt64} {slots : Nat → CanonicalEvent} {data : Bytes}
  {decoder after : Decoder}
  {writer grown : SegmentWriter} {calls : List (Nat × CanonicalEvent)}

theorem addEvents_append (writer : SegmentWriter) (front rest : List CanonicalEvent) :
    writer.addEvents (front ++ rest) = writer.addEvents front >>= fun grown =>
      grown.addEvents rest := by
  induction front generalizing writer with
  | nil => rfl
  | cons event front ih =>
    rw [List.cons_append, addEvents, addEvents]
    cases writer.addEvent event with
    | error stop => rfl
    | ok grown => exact ih grown

theorem addEvents_maxRows {events : List CanonicalEvent}
    (added : writer.addEvents events = .ok grown) :
    grown.maxRows = writer.maxRows := by
  induction events generalizing writer with
  | nil =>
    cases added
    rfl
  | cons event rest ih =>
    rw [addEvents] at added
    cases first : writer.addEvent event with
    | error stop =>
      rw [first] at added
      cases added
    | ok next =>
      rw [first] at added
      obtain ⟨-, -, same⟩ := addEvent_ok first
      have kept : next.maxRows = writer.maxRows := (congrArg SegmentWriter.maxRows same).trans rfl
      exact (ih added).trans kept

theorem ingestFrames_adds {fuel iteration offset : Nat}
    (ended : ingestFrames receiveTsNs slots data fuel iteration offset decoder writer =
      (calls, .ok (after, grown))) :
    writer.addEvents (calls.map (·.2)) = .ok grown := by
  induction fuel generalizing iteration offset decoder writer calls with
  | zero =>
    cases ended
    rfl
  | succ fuel ih =>
    unfold ingestFrames at ended
    by_cases inside : offset < data.length
    · rw [if_pos inside] at ended
      generalize decoder.decodeFrame (data.drop offset)
        (slots iteration) receiveTsNs = decoded at ended
      obtain ⟨decoder, event, outcome⟩ := decoded
      cases outcome with
      | error stop =>
        cases ended
        rfl
      | ok consumed =>
        dsimp only at ended
        by_cases market : isMarketEvent event = true
        · rw [if_pos market] at ended
          cases added : writer.addEvent event with
          | error stop =>
            rw [added] at ended
            cases ended
          | ok next =>
            rw [added] at ended
            dsimp only at ended
            generalize rest : ingestFrames receiveTsNs slots data fuel (iteration + 1)
              (offset + consumed) decoder next =
              outcome at ended
            obtain ⟨later, result⟩ := outcome
            cases ended
            rw [List.map_cons, addEvents, added]
            exact ih rest
        · rw [if_neg market] at ended
          exact ih ended
    · rw [if_neg inside] at ended
      cases ended
      rfl

theorem ingestFrames_answers (fuel iteration offset : Nat) (decoder : Decoder)
    (writer : SegmentWriter) :
    Answers (ingestFrames receiveTsNs slots data fuel iteration offset decoder writer).2 := by
  induction fuel generalizing iteration offset decoder writer with
  | zero => exact answers_ok _
  | succ fuel ih =>
    unfold ingestFrames
    by_cases inside : offset < data.length
    · rw [if_pos inside]
      generalize decoder.decodeFrame (data.drop offset) (slots iteration) receiveTsNs = decoded
      obtain ⟨decoder, event, outcome⟩ := decoded
      cases outcome with
      | error stop => exact answers_ok _
      | ok consumed =>
        dsimp only
        by_cases market : isMarketEvent event = true
        · rw [if_pos market]
          rcases addEvent_answers writer event with ⟨next, added⟩ | ⟨status, refused⟩
          · rw [added]
            exact ih _ _ _ _
          · rw [refused]
            exact .inr ⟨status, rfl⟩
        · rw [if_neg market]
          exact ih _ _ _ _
    · rw [if_neg inside]
      exact answers_ok _

theorem ingestPayload_answers (decoder : Decoder) (writer : SegmentWriter) :
    Answers (ingestPayload receiveTsNs slots data decoder writer).2 := by
  unfold ingestPayload
  split
  · exact ingestFrames_answers _ _ _ _ _
  · exact answers_ok _

theorem ingestPayload_adds
    (ended : ingestPayload receiveTsNs slots data decoder writer = (calls, .ok (after, grown))) :
    writer.addEvents (calls.map (·.2)) = .ok grown := by
  unfold ingestPayload at ended
  by_cases long : FrameHeader.size ≤ data.length
  · rw [if_pos long] at ended
    exact ingestFrames_adds ended
  · rw [if_neg long] at ended
    cases ended
    rfl

end Rows

section Runs

variable {slots : Nat → Nat → CanonicalEvent} {session after : Session} {file : Bytes}

/-- The packets that were read and the events that were added while one session became another. -/
structure Progress (session after : Session) (packets bytes : Nat)
    (rows : List CanonicalEvent) : Prop where
  added : session.writer.addEvents rows = .ok after.writer
  packetCount : after.packetCount = session.packetCount + UInt64.ofNat packets
  byteCount : after.byteCount = session.byteCount + UInt64.ofNat bytes
  eventCount : after.eventCount = session.eventCount + UInt64.ofNat rows.length

theorem Progress.none (session : Session) (reader : PcapReader) :
    Progress session { session with reader } 0 0 [] where
  added := rfl
  packetCount := by simp
  byteCount := by simp
  eventCount := by simp

theorem Progress.trans {middle : Session} {packets more bytes further : Nat}
    {rows others : List CanonicalEvent}
    (first : Progress session middle packets bytes rows)
    (second : Progress middle after more further others) :
    Progress session after (packets + more) (bytes + further) (rows ++ others) where
  added := by
    rw [addEvents_append, first.added]
    exact second.added
  packetCount := by rw [second.packetCount, first.packetCount, UInt64.add_assoc, UInt64.ofNat_add]
  byteCount := by rw [second.byteCount, first.byteCount, UInt64.add_assoc, UInt64.ofNat_add]
  eventCount := by rw [second.eventCount, first.eventCount,
    UInt64.add_assoc, List.length_append, UInt64.ofNat_add]

theorem takePacket_progress {reader : PcapReader} {consumed : Nat} {held : Nat → CanonicalEvent}
    (taken : takePacket held (session.behind reader consumed) = .ok after) :
    after.reader = reader ∧ ∃ rows, Progress session after 1 consumed rows := by
  unfold takePacket at taken
  cases payload : (session.behind reader consumed).reader.vtp1Payload with
  | none =>
    rw [payload] at taken
    cases taken
    exact ⟨rfl, [], rfl, rfl, rfl, by simp [Session.behind]⟩
  | some data =>
    rw [payload] at taken
    dsimp only at taken
    generalize ran : ingestPayload _ held data _ _ = outcome at taken
    obtain ⟨calls, _ | ⟨decoder, writer⟩⟩ := outcome
    · cases taken
    · cases taken
      refine ⟨rfl, calls.map (·.2), ?_, rfl, rfl, ?_⟩
      · exact ingestPayload_adds ran
      · rw [List.length_map]
        rfl

theorem takePacket_answers (held : Nat → CanonicalEvent) (session : Session) :
    Answers (takePacket held session) := by
  unfold takePacket
  cases session.reader.vtp1Payload with
  | none => exact answers_ok _
  | some data =>
    dsimp only
    have answers :=
      @ingestPayload_answers session.reader.packetTsNs held data session.decoder session.writer
    generalize ingestPayload _ held data _ _ = outcome at answers
    obtain ⟨calls, result⟩ := outcome
    rcases answers with ⟨⟨decoder, writer⟩, rfl⟩ | ⟨status, rfl⟩
    · exact answers_ok _
    · exact .inr ⟨status, rfl⟩

theorem takePackets_whole {fuel packet : Nat} (mapped : session.reader.mapping = some file)
    (inside : session.reader.offset ≤ file.length)
    (enough : file.length < session.reader.offset + fuel) :
    (∃ status, takePackets slots fuel packet session = some (.error (.status status))) ∨
      ∃ after records rows, takePackets slots fuel packet session = some (.ok after) ∧
        drain fuel session.reader = some (records, .ok 0) ∧
        Progress session after records.length (file.length - session.reader.offset) rows := by
  induction fuel generalizing session packet with
  | zero => omega
  | succ fuel ih =>
    unfold takePackets drain
    rw [mapped, if_neg (by simp)]
    rcases readNext_cases session.reader with ⟨status, failed⟩ | ⟨found, same, past, ended⟩ |
      ⟨found, header, record, taken⟩
    · rw [failed]
      exact .inl ⟨status, rfl⟩
    · -- At the end of the file nothing is left to read.
      cases same.symm.trans mapped
      rw [ended, show file.length - session.reader.offset = 0 by omega]
      exact .inr ⟨_, [], [], rfl, rfl, .none session _⟩
    · cases record.mapped.symm.trans mapped
      have some := consumed_pos record.some
      have room := record.inside
      rw [taken]
      dsimp only
      generalize next : session.reader.behind header _ = reader
      have mappedNext : reader.mapping = .some file := by rw [← next, behind_mapping, mapped]
      have offset : reader.offset =
          session.reader.offset + (PacketHeader.size + header.inclLen.toNat) := by
        rw [← next, behind_offset]
      rw [if_neg (by omega), if_neg (by omega)]
      rcases takePacket_answers (slots packet)
        (session.behind reader (PacketHeader.size + header.inclLen.toNat)) with
        ⟨middle, processed⟩ | ⟨status, refused⟩
      · obtain ⟨rfl, rows, first⟩ := takePacket_progress processed
        rw [processed]
        rcases @ih middle (packet + 1) mappedNext (by omega) (by omega) with
          ⟨status, run⟩ | ⟨after, records, others, run, drained, second⟩
        · exact .inl ⟨status, run⟩
        · rw [drained]
          refine .inr ⟨after, _, rows ++ others, run, rfl, ?_⟩
          have whole := first.trans second
          rw [List.length_cons, Nat.add_comm records.length]
          rwa [show file.length - session.reader.offset =
            PacketHeader.size + header.inclLen.toNat +
              (file.length - middle.reader.offset) by omega]
      · rw [refused]
        exact .inl ⟨status, rfl⟩

/-- What a report without an error says of the capture and of the segment: every packet
was read to the end of the file, and the segment, which is there unless no event was
found, reads back the rows. -/
structure Report.Accounts (report : Report) (file : Bytes) (packets : Nat)
    (rows : List CanonicalEvent) : Prop where
  packets : report.packets = UInt64.ofNat packets
  bytes : report.bytes = UInt64.ofNat (file.length - GlobalHeader.size)
  events : report.events = UInt64.ofNat rows.length
  written : report.output.isSome ↔ rows ≠ []
  reads : ∀ segment, report.output = some segment → SegmentReader.Reads segment rows

theorem finish_accounts {memory : Allocator} {writer : SegmentWriter} {packets : Nat}
    {rows : List CanonicalEvent}
    (created : SegmentWriter.new 1 SegmentConfig.defaultRowsPerSegment = .ok writer)
    {reader : PcapReader}
    (progress : Progress ⟨reader, {}, writer, 0, 0, 0⟩ after packets
      (file.length - GlobalHeader.size) rows) :
    rows.length ≤ SegmentConfig.defaultRowsPerSegment ∧ (∀ event ∈ rows, Event.Valid event) ∧
      ((∃ status, finish memory after = .error (.status status)) ∨
        (∃ report, finish memory after = .ok report ∧ report.Accounts file packets rows) ∨
        (finish memory after = .error .fault ∧ eventsColumnsEnd rows ≤ bufferSize rows ∧
          blockSize rows < eventsLayoutEnd rows)) := by
  obtain ⟨empty, bounds, -, most⟩ := new_holds created
  obtain ⟨holds, -, valid⟩ := addEvents_run empty bounds progress.added
  rw [List.nil_append] at holds
  have count := holds.rowCount
  have packetCount := progress.packetCount.trans (UInt64.zero_add _)
  have byteCount := progress.byteCount.trans (UInt64.zero_add _)
  have eventCount := progress.eventCount.trans (UInt64.zero_add _)
  have limit : rows.length ≤ SegmentConfig.defaultRowsPerSegment := by
    rw [← most, ← addEvents_maxRows progress.added, ← count]
    exact holds.limit
  refine ⟨limit, valid, ?_⟩
  unfold finish
  by_cases some : after.writer.rowCount > 0
  · rw [if_pos some]
    have nonempty : rows ≠ [] := List.ne_nil_of_length_pos (count ▸ some)
    rcases writeToFile_cases holds nonempty memory with
      ⟨-, status, failed⟩ | ⟨columns, overrun, faulted⟩ | ⟨-, segment, wrote, -⟩
    · rw [failed]
      exact .inl ⟨status, rfl⟩
    · rw [faulted]
      exact .inr (.inr ⟨rfl, columns, overrun⟩)
    · rw [wrote]
      refine .inr (.inl ⟨_, rfl, packetCount, byteCount,
        eventCount, by simp [nonempty], fun found same => ?_⟩)
      cases same
      apply SegmentReader.writeToFile_reads holds nonempty _ wrote
      exact limit.trans (by decide)
  · rw [if_neg some]
    have none : rows = [] := List.eq_nil_of_length_eq_zero (by omega)
    exact .inr (.inl ⟨_, rfl, packetCount, byteCount,
      eventCount, by simp [none], fun found same => (by cases same)⟩)

end Runs

section Sent

variable {receiveTsNs : UInt64}

theorem isMarketEvent_carried {event : CanonicalEvent} {sent : Encoder.Message}
    (found : Encoder.message event = some sent) :
    isMarketEvent (carried receiveTsNs event) = true := by
  have kept : (carried receiveTsNs event).eventType = event.eventType := by
    unfold carried
    dsimp only
    split_ifs <;> rfl
  unfold isMarketEvent
  rw [kept]
  rcases Encoder.message_cases found with ⟨type, -⟩ | ⟨type, -⟩ | ⟨type, -⟩ | ⟨type, -⟩ |
    ⟨type, -⟩ <;> rw [type] <;> rfl

theorem ingestFrames_sent (bounded : receiveTsNs ≤ Limits.maxTimestamp) (sessionId : UInt32)
    (slots : Nat → CanonicalEvent)
    {calls : List (CanonicalEvent × Bytes)} (sendable : ∀ call ∈ calls, Sendable call)
    (increasing : (calls.map (·.1.sequence)).Pairwise (· < ·)) {encoder : Encoder} {frames : Bytes}
    (encoded : (encoder.encodeStream sessionId calls).2 = .ok frames) {decoder : Decoder}
    {writer grown : SegmentWriter}
    (later : ∀ call ∈ calls, decoder.lastSequence < call.1.sequence)
    (added : writer.addEvents (calls.map fun call => carried receiveTsNs call.1) = .ok grown)
    {fuel : Nat}
    (enough : frames.length ≤ fuel) (front : Bytes) (iteration : Nat) :
    ∃ listed after,
      ingestFrames receiveTsNs slots (front ++ frames) fuel iteration front.length decoder writer =
        (listed, .ok (after, grown)) ∧
          listed.map (·.2) = (calls.map fun call => carried receiveTsNs call.1) ∧
      after.lastSequence = (calls.map (·.1.sequence)).getLastD decoder.lastSequence := by
  induction calls generalizing encoder frames decoder writer fuel front iteration with
  | nil =>
    cases encoded
    cases added
    refine ⟨[], decoder, ?_, rfl, rfl⟩
    cases fuel with
    | zero => rfl
    | succ fuel => simp [ingestFrames]
  | cons call rest ih =>
    obtain ⟨event, buffer⟩ := call
    have here := sendable (event, buffer) (by simp)
    obtain ⟨sent, found⟩ := Encoder.message_of_valid (Event.valid_of_validate here.valid)
    obtain ⟨after, payload, done, length, contents, framed⟩ :=
      encoder.encodeEvent_frame found (here.room sent found) sessionId
    rw [List.map_cons, List.pairwise_cons] at increasing
    unfold Encoder.encodeStream at encoded
    rw [done] at encoded
    dsimp only at encoded
    generalize others : encoder.counted.encodeStream sessionId rest = outcome at encoded
    obtain ⟨last, _ | frames'⟩ := outcome
    · cases encoded
    cases encoded
    rw [framed] at enough ⊢
    generalize header : sentHeader sent.type 0 sessionId event.sequence event.exchangeTsNs payload =
      head at enough ⊢
    have size : (head.layout.bytes ++ payload).length = FrameHeader.size + payload.length := by
      rw [List.length_append, FrameHeader.length_layout]
    have positive : FrameHeader.size = 40 := rfl
    rw [List.length_append, size] at enough
    obtain ⟨fuel, rfl⟩ := Nat.exists_eq_add_of_le' (show 1 ≤ fuel by omega)
    have first :=
      decodeFrame_sent bounded (Event.valid_of_validate here.valid) here.sided found length contents
      (later (event, buffer) (by simp)) sessionId (slots iteration) frames'
    rw [header] at first
    have more : front.length < (front ++ (head.layout.bytes ++ (payload ++ frames'))).length := by
      rw [List.length_append, List.length_append, FrameHeader.length_layout]
      omega
    rw [List.map_cons, addEvents] at added
    cases one : writer.addEvent (carried receiveTsNs event) with
    | error stop =>
      rw [one] at added
      cases added
    | ok next =>
      rw [one] at added
      -- The frames behind this one meet a decoder that has seen its sequence number.
      have behind : ∀ call ∈ rest, ({ decoder with
          lastSessionId := sessionId
          lastSequence := event.sequence } : Decoder).counted.lastSequence < call.1.sequence :=
        fun call listed => increasing.1 _ (List.mem_map_of_mem listed)
      obtain ⟨listed, last, run, rows, bound⟩ :=
        ih (fun call listed => sendable call (by simp [listed])) increasing.2
        (congrArg Prod.snd others) behind added
        (show frames'.length ≤ fuel by omega)
          (front ++ (head.layout.bytes ++ payload)) (iteration + 1)
      refine ⟨(iteration, carried receiveTsNs event) :: listed, last,
        ?_, by rw [List.map_cons, rows, List.map_cons], ?_⟩
      · rw [List.append_assoc, List.length_append, size] at run
        unfold ingestFrames
        rw [List.append_assoc head.layout.bytes, if_pos more, List.drop_left, first]
        dsimp only
        rw [if_pos (isMarketEvent_carried found), one]
        dsimp only
        rw [List.append_assoc head.layout.bytes] at run
        rw [run]
      · rw [bound, List.map_cons, List.getLastD_cons]
        rfl

theorem size_le_encodeStream {sessionId : UInt32} {calls : List (CanonicalEvent × Bytes)}
    (sendable : ∀ call ∈ calls, Sendable call) {encoder : Encoder} {frames : Bytes}
    (encoded : (encoder.encodeStream sessionId calls).2 = .ok frames) :
    calls = [] ∨ FrameHeader.size ≤ frames.length := by
  cases calls with
  | nil => exact .inl rfl
  | cons call rest =>
    obtain ⟨event, buffer⟩ := call
    have here := sendable (event, buffer) (by simp)
    obtain ⟨sent, found⟩ := Encoder.message_of_valid (Event.valid_of_validate here.valid)
    obtain ⟨after, payload, done, -, -, framed⟩ :=
      encoder.encodeEvent_frame found (here.room sent found) sessionId
    unfold Encoder.encodeStream at encoded
    rw [done] at encoded
    dsimp only at encoded
    generalize encoder.counted.encodeStream sessionId rest = outcome at encoded
    obtain ⟨last, _ | frames'⟩ := outcome
    · cases encoded
    · cases encoded
      right
      rw [framed, List.length_append, List.length_append, FrameHeader.length_layout]
      omega

/-- A packet of a capture that carries the frames of some events and nothing else. -/
structure Carries (capture : Capture) (record : Record)
    (calls : List (CanonicalEvent × Bytes)) : Prop where
  snapped : record.data.length ≤ capture.snaplen.toNat
  datagram : Datagram ⟨capture.network⟩ record.data
  ends : record.data.length =
    udpStart ⟨capture.network⟩ record.data + udpLength ⟨capture.network⟩ record.data
  received : timestamp capture.nanosecond record.header ≤ Limits.maxTimestamp
  sendable : ∀ call ∈ calls, Sendable call
  encoded : ∃ (encoder : Encoder) (sessionId : UInt32),
    (encoder.encodeStream sessionId calls).2 = .ok (udpPayload ⟨capture.network⟩ record.data)

/-- The events of a packet as they are stored: received when the packet was captured. -/
def storedRows (capture : Capture) (sent : Record × List (CanonicalEvent × Bytes)) :
    List CanonicalEvent :=
  sent.2.map fun call => carried (timestamp capture.nanosecond sent.1.header) call.1

section Behind

variable (reader : PcapReader) (header : PacketHeader) (packet : Bytes)

theorem parsed_snaplen : reader.parsed.snaplen = reader.snaplen := by
  unfold parsed
  cases exposed reader.linkType reader.packet <;> rfl

theorem parsed_isNanosecondTs : reader.parsed.isNanosecondTs = reader.isNanosecondTs := by
  unfold parsed
  cases exposed reader.linkType reader.packet <;> rfl

theorem parsed_packetTsNs : reader.parsed.packetTsNs = reader.packetTsNs := by
  unfold parsed
  cases exposed reader.linkType reader.packet <;> rfl

theorem startPacket_kept (time : UInt64) :
    (reader.startPacket time packet).snaplen = reader.snaplen ∧
    (reader.startPacket time packet).isNanosecondTs = reader.isNanosecondTs ∧
    (reader.startPacket time packet).packetTsNs = time := ⟨rfl, rfl, rfl⟩

theorem finishPacket_kept (consumed : Nat) :
    (reader.finishPacket consumed).snaplen = reader.snaplen ∧
    (reader.finishPacket consumed).isNanosecondTs = reader.isNanosecondTs ∧
    (reader.finishPacket consumed).packetTsNs = reader.packetTsNs := ⟨rfl, rfl, rfl⟩

theorem behind_snaplen : (reader.behind header packet).snaplen = reader.snaplen := by
  rw [PcapReader.behind, (finishPacket_kept _ _).1, parsed_snaplen, (startPacket_kept _ _ _).1]

theorem behind_isNanosecondTs : (reader.behind header packet).isNanosecondTs =
    reader.isNanosecondTs := by
  rw [PcapReader.behind, (finishPacket_kept _ _).2.1, parsed_isNanosecondTs,
    (startPacket_kept _ _ _).2.1]

theorem behind_packetTsNs : (reader.behind header packet).packetTsNs =
    timestamp reader.isNanosecondTs header := by
  rw [PcapReader.behind, (finishPacket_kept _ _).2.2, parsed_packetTsNs,
    (startPacket_kept _ _ _).2.2]

end Behind

section Capture

variable {capture : Capture} {record : Record}
  {calls : List (CanonicalEvent × Bytes)} {session : Session}
  {reader : PcapReader}

/-- A reader of a capture's file, as far as the global header settles it. -/
structure Settled (capture : Capture) (reader : PcapReader) : Prop where
  linkType : reader.linkType = ⟨capture.network⟩
  clock : reader.isNanosecondTs = capture.nanosecond
  snaplen : reader.snaplen = capture.snaplen

theorem Settled.behind (settled : Settled capture reader) (header : PacketHeader) (packet : Bytes) :
    Settled capture (reader.behind header packet) where
  linkType := (behind_linkType reader header packet).trans settled.linkType
  clock := (behind_isNanosecondTs reader header packet).trans settled.clock
  snaplen := (behind_snaplen reader header packet).trans settled.snaplen

theorem exposed_carries (carries : Carries capture record calls) :
    exposed ⟨capture.network⟩ record.data = some (udpPayload ⟨capture.network⟩ record.data) := by
  have least := carries.datagram.udp.least
  have ends := carries.ends
  change UDPHeader.size ≤ udpLength _ _ at least
  have inside : udpStart ⟨capture.network⟩ record.data + UDPHeader.size +
      (udpLength ⟨capture.network⟩ record.data - UDPHeader.size) ≤ record.data.length := by omega
  rw [exposed_datagram carries.datagram, udpPayload, (drop_eq_slice_iff inside).mpr (by omega)]

theorem takePacket_none {held : Nat → CanonicalEvent}
    (payload : session.reader.vtp1Payload = none) :
    takePacket held session = .ok session := by
  unfold takePacket
  rw [payload]

theorem takePacket_payload {held : Nat → CanonicalEvent} {data : Bytes}
    {listed : List (Nat × CanonicalEvent)}
    {decoder : Decoder} {writer : SegmentWriter} (payload : session.reader.vtp1Payload = some data)
    (run : ingestPayload session.reader.packetTsNs held data session.decoder session.writer =
      (listed, .ok (decoder, writer))) :
    takePacket held session =
      .ok { session with
        decoder, writer, eventCount := session.eventCount + UInt64.ofNat listed.length } := by
  unfold takePacket
  rw [payload]
  dsimp only
  rw [run]

theorem takePacket_sent (carries : Carries capture record calls) (settled : Settled capture reader)
    (increasing : (calls.map (·.1.sequence)).Pairwise (· < ·))
    (later : ∀ call ∈ calls, session.decoder.lastSequence < call.1.sequence) {grown : SegmentWriter}
    (added : session.writer.addEvents (storedRows capture (record, calls)) = .ok grown)
    (held : Nat → CanonicalEvent)
    (consumed : Nat) :
    ∃ after, takePacket held
      (session.behind (reader.behind record.header record.data) consumed) = .ok after ∧
      after.reader = reader.behind record.header record.data ∧ after.writer = grown ∧
      Progress session after 1 consumed (storedRows capture (record, calls)) ∧
      after.decoder.lastSequence =
        (calls.map (·.1.sequence)).getLastD session.decoder.lastSequence := by
  obtain ⟨encoder, sessionId, encoded⟩ := carries.encoded
  have payload : (reader.behind record.header record.data).vtp1Payload =
      some (udpPayload ⟨capture.network⟩ record.data) := by
    rw [behind_vtp1Payload, settled.linkType, exposed_carries carries]
  have time : (reader.behind record.header record.data).packetTsNs =
      timestamp capture.nanosecond record.header := by
    rw [behind_packetTsNs, settled.clock]
  have ran : ∃ listed last, ingestPayload (timestamp capture.nanosecond record.header) held
      (udpPayload ⟨capture.network⟩ record.data) session.decoder session.writer =
        (listed, .ok (last, grown)) ∧
      listed.map (·.2) = storedRows capture (record, calls) ∧
      last.lastSequence = (calls.map (·.1.sequence)).getLastD session.decoder.lastSequence := by
    have run :=
      ingestFrames_sent carries.received sessionId held carries.sendable
      increasing encoded later added
      (Nat.le_refl _) [] 0
    unfold ingestPayload
    rcases size_le_encodeStream carries.sendable encoded with rfl | long
    · cases added
      by_cases long : FrameHeader.size ≤ (udpPayload ⟨capture.network⟩ record.data).length
      · rw [if_pos long]
        exact run
      · rw [if_neg long]
        exact ⟨[], _, rfl, rfl, rfl⟩
    · rw [if_pos long]
      exact run
  obtain ⟨listed, last, run, rows, bound⟩ := ran
  rw [← time] at run
  have taken := @takePacket_payload (session.behind
    (reader.behind record.header record.data) consumed) held _ _ _ _
    payload run
  refine ⟨_, taken, rfl, rfl, ⟨added, rfl, rfl, ?_⟩, bound⟩
  rw [← rows, List.length_map]
  rfl

theorem inclLen_record (sized : record.data.length < 2 ^ 32) :
    record.header.inclLen.toNat = record.data.length := by
  change (UInt32.ofNat record.data.length).toNat = _
  rw [UInt32.toNat_ofNat', Nat.mod_eq_of_lt sized]

theorem readRecord_taken (settled : Settled capture reader) (sized : record.data.length < 2 ^ 32)
    (snapped : record.data.length ≤ capture.snaplen.toNat)
    (nonempty : record.data ≠ []) (rest : List Record) :
    reader.readRecord (record :: rest) = (reader.behind record.header record.data,
      .ok (PacketHeader.size + record.header.inclLen.toNat)) := by
  have length := inclLen_record sized
  have short : ¬ record.header.inclLen > reader.snaplen := by
    rw [settled.snaplen]
    apply UInt32.not_lt.mpr
    rw [UInt32.le_iff_toNat_le]
    omega
  have some : record.header.inclLen ≠ 0 := by
    intro zero
    rw [zero, UInt32.toNat_zero] at length
    exact nonempty (List.eq_nil_of_length_eq_zero length.symm)
  unfold readRecord
  dsimp only
  rw [if_neg short, if_neg some]

theorem Carries.nonempty (carries : Carries capture record calls) : record.data ≠ [] := by
  have whole := carries.datagram.header.whole
  intro empty
  rw [empty] at whole
  simp [IPv4Header.minSize] at whole

theorem takePackets_next {slots : Nat → Nat → CanonicalEvent}
    {fuel packet count : Nat} {rest : List Record}
    {next after : Session} {rows others : List CanonicalEvent}
    (at_ : AtRecords session.reader (record :: rest))
    (settled : Settled capture session.reader)
    (snapped : record.data.length ≤ capture.snaplen.toNat)
    (nonempty : record.data ≠ [])
    (taken : takePacket (slots packet)
      (session.behind (session.reader.behind record.header record.data)
      (PacketHeader.size + record.header.inclLen.toNat)) = .ok next)
    (same : next.reader = session.reader.behind record.header record.data)
    (progress : Progress session next 1 (PacketHeader.size + record.header.inclLen.toNat) rows)
    (run : takePackets slots fuel (packet + 1) next = some (.ok after))
    (further : Progress next after count
      (rest.flatMap (Record.bytes next.reader.isBigEndian)).length others) :
    takePackets slots (fuel + 1) packet session = some (.ok after) ∧
      Progress session after (count + 1)
      ((record :: rest).flatMap (Record.bytes session.reader.isBigEndian)).length
        (rows ++ others) := by
  obtain ⟨front, -, mapped⟩ := at_.mapped
  have sized := at_.sized record (by simp)
  constructor
  · unfold takePackets
    rw [mapped, if_neg (by simp), readNext_records at_,
      readRecord_taken settled sized snapped nonempty]
    dsimp only
    rw [if_neg (by rw [PacketHeader.size]; omega), taken]
    exact run
  · have whole := progress.trans further
    rw [same, behind_isBigEndian] at whole
    rw [List.flatMap_cons, List.length_append, Nat.add_comm count, Record.bytes, List.length_append,
      record.length_headerLayout, ← inclLen_record sized]
    exact whole

theorem takePackets_sent {slots : Nat → Nat → CanonicalEvent}
    {sent : List (Record × List (CanonicalEvent × Bytes))}
    (carries : ∀ packet ∈ sent, Carries capture packet.1 packet.2)
    (settled : Settled capture session.reader)
    (at_ : AtRecords session.reader (sent.map (·.1)))
    (increasing : ((sent.flatMap (·.2)).map (·.1.sequence)).Pairwise (· < ·))
    (later : ∀ call ∈ sent.flatMap (·.2), session.decoder.lastSequence < call.1.sequence)
    {grown : SegmentWriter}
    (added : session.writer.addEvents (sent.flatMap (storedRows capture)) = .ok grown) {fuel : Nat}
    (enough : sent.length < fuel) (packet : Nat) :
    ∃ after, takePackets slots fuel packet session = some (.ok after) ∧ after.writer = grown ∧
      Progress session after sent.length
        ((sent.map (·.1)).flatMap (Record.bytes session.reader.isBigEndian)).length
        (sent.flatMap (storedRows capture)) := by
  induction sent generalizing session fuel packet with
  | nil =>
    obtain ⟨fuel, rfl⟩ := Nat.exists_eq_add_of_le' enough
    obtain ⟨front, -, mapped⟩ := at_.mapped
    unfold takePackets
    rw [mapped, if_neg (by simp), readNext_records at_]
    cases added
    exact ⟨_, rfl, rfl, .none session _⟩
  | cons first rest ih =>
    obtain ⟨record, calls⟩ := first
    obtain ⟨fuel, rfl⟩ := Nat.exists_eq_add_of_le' (Nat.lt_of_le_of_lt (Nat.zero_le _) enough)
    obtain ⟨here, others⟩ := List.forall_mem_cons.mp carries
    simp only [List.flatMap_cons, List.map_append, List.pairwise_append,
      List.forall_mem_append] at increasing later
    rw [List.flatMap_cons, addEvents_append] at added
    cases one : session.writer.addEvents (storedRows capture (record, calls)) with
    | error stop =>
      rw [one] at added
      cases added
    | ok middle =>
      rw [one] at added
      obtain ⟨next, taken, sameReader, sameWriter, progress, bound⟩ :=
        takePacket_sent here settled increasing.1 later.1
        one (slots packet) (PacketHeader.size + record.header.inclLen.toNat)
      obtain ⟨after, run, same, further⟩ := @ih next others (sameReader ▸ settled.behind _ _)
        (sameReader ▸ atRecords_behind at_) increasing.2.1
        (fun call listed => by
          rcases List.mem_cons.mp (bound ▸ List.getLastD_mem_cons ..) with last | last
          · rw [last]
            exact later.2 call listed
          · exact increasing.2.2 _ last _ (List.mem_map_of_mem listed))
        (sameWriter ▸ added) fuel (by simpa using enough) (packet + 1)
      obtain ⟨whole, all⟩ :=
        takePackets_next at_ settled here.snapped here.nonempty taken
        sameReader progress run further
      exact ⟨after, whole, same, all⟩

/-- A capture that the reader opens. -/
structure Opens (capture : Capture) : Prop where
  version : capture.versionMajor = 2
  link : LinkType.mk capture.network = .ethernet ∨ LinkType.mk capture.network = .null ∨
    LinkType.mk capture.network = .loopback
  sized : capture.Representable

theorem openFile_opens (opens : Opens capture) (big : Bool) : ∃ reader,
    openFile {} (some (capture.fileBytes big)) = (reader, .ok ()) ∧ Settled capture reader ∧
      reader.isBigEndian = big ∧ AtRecords reader capture.records := by
  have supported : ¬ (LinkType.mk capture.network ≠ .ethernet ∧
      LinkType.mk capture.network ≠ .null ∧
      LinkType.mk capture.network ≠ .loopback) := by
    have link := opens.link
    tauto
  have opened := openFile_capture {} capture big
  unfold opening at opened
  dsimp only at opened
  rw [if_neg (not_not_intro opens.version), if_neg supported] at opened
  exact ⟨_, opened, ⟨rfl, rfl, rfl⟩, rfl, (opened_records opens.sized opened).1⟩

end Capture

theorem length_le_records (big : Bool) (records : List Record) :
    records.length ≤ (records.flatMap (Record.bytes big)).length := by
  induction records with
  | nil => simp
  | cons record rest ih =>
    have header := record.length_headerLayout big
    rw [PacketHeader.size] at header
    simp only [List.flatMap_cons, List.length_append, List.length_cons, Record.bytes, header]
    omega

theorem storedRows_valid {capture : Capture} {record : Record}
    {calls : List (CanonicalEvent × Bytes)}
    (carries : Carries capture record calls) :
    ∀ event ∈ storedRows capture (record, calls), Event.validate event = .ok () := by
  intro event listed
  obtain ⟨call, made, rfl⟩ := List.mem_map.mp listed
  have sendable := carries.sendable call made
  exact Event.validate_of_valid
    (carried_valid carries.received (Event.valid_of_validate sendable.valid) sendable.sided)

theorem main_reports {capture : Capture} {big : Bool} {reader : PcapReader}
    (opened : openFile {} (some (capture.fileBytes big)) = (reader, .ok ()))
    {slots : Nat → Nat → CanonicalEvent}
    {rows : List CanonicalEvent} {packets : Nat} (nonempty : rows ≠ [])
    (valid : ∀ event ∈ rows, Event.validate event = .ok ())
    (few : rows.length ≤ SegmentConfig.defaultRowsPerSegment)
    (room : eventsLayoutEnd rows ≤ blockSize rows) {memory : Allocator}
    (allocates : (memory.alignedAlloc (blockSize rows)).isSome)
    (loop : ∀ writer grown, SegmentWriter.addEvents writer rows = .ok grown → ∃ after,
      takePackets slots (capture.fileBytes big).length 0 ⟨reader, {}, writer, 0, 0, 0⟩ =
        some (.ok after) ∧
        after.writer = grown ∧ Progress ⟨reader, {}, writer, 0, 0, 0⟩ after packets
          (capture.records.flatMap (Record.bytes big)).length rows) :
    ∃ report segment, main (some (capture.fileBytes big)) slots memory = some (.ok report) ∧
      report.output = some segment ∧ report.Accounts (capture.fileBytes big) packets rows ∧
      SegmentReader.Reads segment rows := by
  obtain ⟨writer, created⟩ : ∃ writer, SegmentWriter.new 1 SegmentConfig.defaultRowsPerSegment =
    .ok writer := ⟨_, rfl⟩
  obtain ⟨empty, bounds, -, most⟩ := new_holds created
  obtain ⟨grown, added⟩ :=
    addEvents_accepts writer rows valid (by rw [empty.rowCount, most]; simpa using few)
  obtain ⟨after, run, last, progress⟩ := loop writer grown added
  have length : (capture.records.flatMap (Record.bytes big)).length =
      (capture.fileBytes big).length - GlobalHeader.size := by
    rw [Capture.fileBytes, List.length_append, capture.length_headerLayout, Nat.add_sub_cancel_left]
  rw [length] at progress
  obtain ⟨holds, -, -⟩ := addEvents_run empty bounds added
  rw [List.nil_append] at holds
  have ran : main (some (capture.fileBytes big)) slots memory = some (finish memory after) := by
    unfold main
    rw [opened]
    dsimp only
    rw [created]
    dsimp only [Option.getD_some]
    rw [run]
  have columns := columns_of_room room
  rcases writeToFile_cases holds nonempty memory with ⟨none | tight, -⟩ |
    ⟨-, overrun, -⟩ | ⟨-, segment, wrote, -⟩
  · rw [none] at allocates
    cases allocates
  · omega
  · omega
  · have finished : finish memory after =
        .ok ⟨after.packetCount, after.byteCount, after.eventCount, some segment⟩ := by
      have positive : grown.rowCount > 0 := by
        rw [holds.rowCount]
        exact List.length_pos_iff.mpr nonempty
      unfold finish
      rw [last, if_pos positive, wrote]
    obtain ⟨-, -, ends⟩ := @finish_accounts _ _ memory _ _ _ created _ progress
    rw [finished] at ends ran
    rcases ends with ⟨_, ⟨⟩⟩ | ⟨report, same, accounts⟩ | ⟨⟨⟩, -⟩
    cases same
    exact ⟨_, segment, ran, rfl, accounts, accounts.reads segment rfl⟩

theorem length_lt_fileBytes (capture : Capture) (big : Bool) :
    capture.records.length < (capture.fileBytes big).length := by
  have count := length_le_records big capture.records
  have size : GlobalHeader.size = 24 := rfl
  rw [Capture.fileBytes, List.length_append, capture.length_headerLayout]
  omega

/-- A UDP datagram in an Ethernet packet, with its lengths as a sender fills them in. -/
def datagramOf (payload : Bytes) : Bytes :=
  [0, 0, 0, 0, 0, 0, 0, 0, 0, 0, 0, 0, 0x08, 0x00, 0x45, 0] ++
    (be16 (UInt16.ofNat (28 + payload.length)) ++
    ([0, 20, 0, 0, 64, 17, 0, 0, 10, 0, 0, 1, 10, 0, 0, 2, 0, 1, 0, 2] ++
      (be16 (UInt16.ofNat (8 + payload.length)) ++ ([0, 0] ++ payload))))

theorem datagramOf_datagram {payload : Bytes} (short : 28 + payload.length < 2 ^ 16) :
    Datagram .ethernet (datagramOf payload) ∧ (datagramOf payload).length = 42 + payload.length ∧
      udpStart .ethernet (datagramOf payload) = 34 ∧
      udpLength .ethernet (datagramOf payload) = 8 + payload.length := by
  have whole : (datagramOf payload).length = 42 + payload.length := by
    simp [datagramOf]
    omega
  have total : be16Of (slice (datagramOf payload) 16 2) = UInt16.ofNat (28 + payload.length) := by
    rw [datagramOf, @slice_append _ (be16 _) _ 16 2 rfl (by simp), be16Of_be16]
  have length : be16Of (slice (datagramOf payload) 38 2) = UInt16.ofNat (8 + payload.length) := by
    rw [datagramOf, ← List.append_assoc, ← List.append_assoc,
      @slice_append _ (be16 _) _ 38 2 (by simp) (by simp), be16Of_be16]
  obtain ⟨high, low, first⟩ :=
    List.length_eq_two.mp (length_be16 (UInt16.ofNat (28 + payload.length)))
  have fields : etherTypeAt (datagramOf payload) 0 = 0x0800 ∧
      (datagramOf payload).getD 14 0 = 0x45 ∧
      slice (datagramOf payload) 20 2 = [0, 0] ∧ (datagramOf payload).getD 23 0 = 17 := by
    rw [datagramOf, first]
    exact ⟨rfl, rfl, rfl, rfl⟩
  obtain ⟨kind, version, fragment, protocol⟩ := fields
  have tags : vlanTags (datagramOf payload) = 0 := by
    rw [vlanTags, kind]
    rfl
  have network : datagramStart .ethernet (datagramOf payload) = 14 := by
    rw [datagramStart, if_neg (by decide), networkStart, tags]
    rfl
  have ihl : ihlAt (datagramOf payload) 14 = 20 := by
    rw [ihlAt, version]
    rfl
  have transport : udpStart .ethernet (datagramOf payload) = 34 := by rw [udpStart, network, ihl]
  have counted : (UInt16.ofNat (8 + payload.length)).toNat = 8 + payload.length := by
    rw [UInt16.toNat_ofNat', Nat.mod_eq_of_lt (by omega)]
  have wide : (UInt16.ofNat (28 + payload.length)).toNat = 28 + payload.length := by
    rw [UInt16.toNat_ofNat', Nat.mod_eq_of_lt short]
  refine ⟨⟨.inr (.inr ?_), ?_, ?_, ?_, ?_⟩, whole, transport, ?_⟩
  · rw [etherType, tags, kind]
    rfl
  · rw [network]
    refine ⟨?_, ?_, ?_, ?_, ?_⟩
    · rw [whole, IPv4Header.minSize]
      omega
    · rw [version]
      rfl
    · rw [ihl, IPv4Header.minSize]
    · rw [ihl, whole]
      omega
    · rw [fragment]
      rfl
  · rw [network, protocolAt, protocol]
    rfl
  · rw [network, RoomForUdp, ihl, totalLengthAt, total, wide, UDPHeader.size]
    omega
  · rw [transport]
    refine ⟨?_, ?_, ?_⟩
    · rw [whole, UDPHeader.size]
      omega
    · rw [length, counted, UDPHeader.size]
      omega
    · rw [length, counted, whole]
      omega
  · rw [udpLength, transport, length, counted]

theorem udpPayload_datagramOf {payload : Bytes} (short : 28 + payload.length < 2 ^ 16) :
    udpPayload .ethernet (datagramOf payload) = payload := by
  obtain ⟨-, -, start, length⟩ := datagramOf_datagram short
  rw [udpPayload, start, length]
  have behind (front : Bytes)
      (size : 42 = front.length) : slice (front ++ payload) 42 payload.length = payload := by
    have last := @slice_append front payload [] 42 payload.length size rfl
    rwa [List.append_nil] at last
  rw [show 34 + UDPHeader.size = 42 from rfl,
    show 8 + payload.length - UDPHeader.size = payload.length by
    rw [UDPHeader.size]
    omega]
  unfold datagramOf
  rw [← List.append_assoc, ← List.append_assoc, ← List.append_assoc, ← List.append_assoc]
  exact behind _ (by simp)

def quoteCapture (frames : Bytes) : Capture where
  nanosecond := false
  versionMajor := 2
  versionMinor := 4
  thiszone := 0
  sigfigs := 0
  snaplen := 65535
  network := 1
  records := [⟨0, 5, 0, datagramOf frames⟩]

theorem quote_sendable : Sendable (quoteEvent, List.replicate 128 0) := by
  refine ⟨by decide, .inl rfl, fun sent found => ?_⟩
  rw [List.length_replicate]
  cases found
  decide

theorem quote_encoded : ∃ frames,
    ((Encoder.mk 0 0).encodeStream 1 [(quoteEvent, List.replicate 128 0)]).2 = .ok frames ∧
    frames.length ≤ 128 := by
  obtain ⟨sent, found⟩ := Encoder.message_of_valid (Event.valid_of_validate quote_sendable.valid)
  have room := quote_sendable.room sent found
  obtain ⟨after, payload, done, length, -, framed⟩ := Encoder.encodeEvent_frame ⟨0, 0⟩ found room 1
  refine ⟨after.take (FrameHeader.size + payload.length) ++ [], ?_, ?_⟩
  · unfold Encoder.encodeStream
    rw [done]
    rfl
  · rw [List.length_replicate] at room
    rw [framed, List.append_nil, List.length_append, FrameHeader.length_layout, length]
    exact room

theorem quote_time (tsUsec : UInt32) (data : Bytes) :
    timestamp false (Record.header ⟨0, tsUsec, 0, data⟩) = tsUsec.toUInt64 * 1000 := by
  simp [timestamp, Record.header]

theorem quote_stored (frames data buffer : Bytes) (records : List Record) (tsUsec : UInt32) :
    storedRows { quoteCapture frames with records } (⟨0, tsUsec, 0, data⟩, [(quoteEvent, buffer)]) =
      [carried (tsUsec.toUInt64 * 1000) quoteEvent] := by
  simp only [storedRows, quoteCapture, quote_time, List.map_cons, List.map_nil]

theorem quote_carries {frames : Bytes}
    (encoded : ((Encoder.mk 0 0).encodeStream 1 [(quoteEvent, List.replicate 128 0)]).2 =
      .ok frames)
    (length : frames.length ≤ 128) (records : List Record) {tsUsec : UInt32}
    (received : tsUsec.toUInt64 * 1000 ≤ Limits.maxTimestamp) :
    Carries { quoteCapture frames with records } ⟨0, tsUsec, 0, datagramOf frames⟩
      [(quoteEvent, List.replicate 128 0)] := by
  have short : 28 + frames.length < 2 ^ 16 := by omega
  obtain ⟨datagram, whole, start, counted⟩ := datagramOf_datagram short
  refine ⟨?_, datagram, ?_, ?_, fun call listed => List.mem_singleton.mp listed ▸ quote_sendable,
    ⟨0, 0⟩, 1, ?_⟩
  · change (datagramOf frames).length ≤ 65535
    omega
  · change (datagramOf frames).length =
      udpStart .ethernet (datagramOf frames) + udpLength .ethernet (datagramOf frames)
    omega
  · change timestamp false _ ≤ _
    rwa [quote_time]
  · rw [encoded]
    exact congrArg _ (udpPayload_datagramOf short).symm

theorem quote_opens (frames : Bytes) {records : List Record}
    (sized : ∀ record ∈ records, record.data.length < 2 ^ 32) :
    Opens { quoteCapture frames with records } := ⟨rfl, .inl rfl, sized⟩

end Sent

end IngestApp

end VectorTick
