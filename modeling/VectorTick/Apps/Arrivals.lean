import VectorTick.Apps.Ingest
import VectorTick.Foundation.Ratchet

/-! Ingestion of packets that came over a network: in any order, more than once or not at all, and
with packets of others in between.

A packet of the stream is taken whole or not at all: its frames are newer than everything decoded
before, or its first frame is not and ends the loop over the packet. -/

set_option autoImplicit false

namespace VectorTick.IngestApp

open Foundation Pcap PcapReader Vtp1 Vtp1.Decoder SegmentWriter

/-- The packets of a stream in the order they are sent, with the encode calls of each. -/
structure Stream (packets : List (List (CanonicalEvent × Bytes))) : Prop where
  nonempty : ∀ calls ∈ packets, calls ≠ []
  positive : ∀ call ∈ packets.flatten, 0 < call.1.sequence
  increasing : (packets.flatten.map (·.1.sequence)).Pairwise (· < ·)

/-- A packet that was captured: one of the stream, or one of somebody else. -/
structure Arrival (packets : List (List (CanonicalEvent × Bytes))) where
  record : Record
  packet : Option (Fin packets.length)

section Arrivals

variable {packets : List (List (CanonicalEvent × Bytes))} {capture : Capture}

/-- One more than the place of the packet in the stream. -/
def Arrival.position (arrival : Arrival packets) : Nat :=
  match arrival.packet with
  | none => 0
  | some place => place.val + 1

/-- The events of the packet as they are stored. -/
def Arrival.rows (capture : Capture) (arrival : Arrival packets) : List CanonicalEvent :=
  match arrival.packet with
  | none => []
  | some place => storedRows capture (arrival.record, packets[place])

/-- A packet with nothing in it, or with something in it that is no frame. -/
structure Foreign (capture : Capture) (record : Record) : Prop where
  nonempty : record.data ≠ []
  snapped : record.data.length ≤ capture.snaplen.toNat
  refused : ∀ payload, exposed ⟨capture.network⟩ record.data = some payload → ¬ Intact payload

def Arrives (capture : Capture) (arrival : Arrival packets) : Prop :=
  match arrival.packet with
  | none => Foreign capture arrival.record
  | some place => Carries capture arrival.record packets[place]

/-- What has been decoded last lies between the packets up to a place and those from there on. -/
structure Reached (packets : List (List (CanonicalEvent × Bytes))) (mark : Nat)
    (last : UInt64) : Prop where
  behind : ∀ place (inside : place < packets.length), place < mark →
    ∀ call ∈ packets[place], call.1.sequence ≤ last
  ahead : ∀ place (inside : place < packets.length), mark ≤ place →
    ∀ call ∈ packets[place], last < call.1.sequence

namespace Stream

variable (stream : Stream packets)
include stream

theorem ordered {first second : Nat} (inside : second < packets.length) (before : first < second) :
    ∀ one ∈ packets[first], ∀ other ∈ packets[second], one.1.sequence < other.1.sequence := by
  have flat := List.pairwise_flatten.mp (List.pairwise_map.mp stream.increasing)
  exact List.pairwise_iff_getElem.mp flat.2 first second (by omega) inside before

theorem within {calls : List (CanonicalEvent × Bytes)} (listed : calls ∈ packets) :
    (calls.map (·.1.sequence)).Pairwise (· < ·) :=
  List.pairwise_map.mpr
    ((List.pairwise_flatten.mp (List.pairwise_map.mp stream.increasing)).1 calls listed)

theorem reached_start : Reached packets 0 0 where
  behind _ _ none := absurd none (Nat.not_lt_zero _)
  ahead _ inside _ call listed :=
    stream.positive call (List.mem_flatten.mpr ⟨_, List.getElem_mem inside, listed⟩)

end Stream

theorem le_getLastD {numbers : List UInt64}
    (increasing : numbers.Pairwise (· < ·)) (start : UInt64) :
    ∀ number ∈ numbers, number ≤ numbers.getLastD start := by
  induction numbers generalizing start with
  | nil => simp
  | cons first rest ih =>
    obtain ⟨least, increasing⟩ := List.pairwise_cons.mp increasing
    rw [List.getLastD_cons]
    intro number listed
    rcases List.mem_cons.mp listed with rfl | later
    · rcases List.mem_cons.mp (@List.getLastD_mem_cons _ rest number) with same | among
      · exact UInt64.le_of_eq same.symm
      · exact UInt64.le_of_lt (least _ among)
    · exact ih increasing first number later

theorem Stream.reached_packet (stream : Stream packets) {place : Nat}
    (inside : place < packets.length) (start : UInt64) :
    Reached packets (place + 1) ((packets[place].map (·.1.sequence)).getLastD start) := by
  have listed := List.getElem_mem inside
  have member : ∃ call ∈ packets[place], call.1.sequence =
      (packets[place].map (·.1.sequence)).getLastD start := by
    have some := stream.nonempty _ listed
    generalize packets[place] = calls at some
    cases calls with
    | nil => exact absurd rfl some
    | cons first rest =>
      rw [List.map_cons, List.getLastD_cons]
      exact List.mem_map.mp (@List.getLastD_mem_cons _ (rest.map (·.1.sequence)) first.1.sequence)
  obtain ⟨last, among, number⟩ := member
  constructor
  · intro other here low call made
    rcases Nat.lt_succ_iff_lt_or_eq.mp low with earlier | rfl
    · rw [← number]
      exact UInt64.le_of_lt (stream.ordered inside earlier call made last among)
    · exact le_getLastD (stream.within listed) start _ (List.mem_map_of_mem made)
  · intro other here high call made
    rw [← number]
    exact stream.ordered here high last among call made

end Arrivals

section Refused

variable {receiveTsNs : UInt64} {slots : Nat → CanonicalEvent} {data : Bytes} {decoder : Decoder}
  {writer : SegmentWriter}

theorem ingestPayload_refused
    (refused : ¬ (Intact data ∧
      (decoder.lastSequence < frameSequence data ∨ isControl (messageType data) = true))) :
    ∃ after, ingestPayload receiveTsNs slots data decoder writer = ([], .ok (after, writer)) ∧
      after.lastSequence = decoder.lastSequence := by
  obtain ⟨kept, stop, failed⟩ := @decodeFrame_refused decoder data (slots 0) receiveTsNs refused
  unfold ingestPayload
  by_cases long : FrameHeader.size ≤ data.length
  · rw [if_pos long]
    obtain ⟨fuel, length⟩ :=
      Nat.exists_eq_add_of_le' (show 1 ≤ data.length by rw [FrameHeader.size] at long; omega)
    rw [length]
    unfold ingestFrames
    rw [if_pos (by omega), List.drop_zero]
    generalize decoder.decodeFrame data (slots 0) receiveTsNs = decoded at kept failed ⊢
    obtain ⟨after, event, outcome⟩ := decoded
    cases failed
    exact ⟨after, rfl, kept⟩
  · rw [if_neg long]
    exact ⟨decoder, rfl, rfl⟩

theorem encodeStream_front {sessionId : UInt32} {encoder : Encoder} {call : CanonicalEvent × Bytes}
    {rest : List (CanonicalEvent × Bytes)} (sendable : Sendable call) {frames : Bytes}
    (encoded : (encoder.encodeStream sessionId (call :: rest)).2 = .ok frames) :
    frameSequence frames = call.1.sequence ∧ isControl (messageType frames) = false := by
  obtain ⟨event, buffer⟩ := call
  obtain ⟨sent, found⟩ := Encoder.message_of_valid (Event.valid_of_validate sendable.valid)
  obtain ⟨after, payload, done, -, -, framed⟩ :=
    encoder.encodeEvent_frame found (sendable.room sent found) sessionId
  unfold Encoder.encodeStream at encoded
  rw [done] at encoded
  dsimp only at encoded
  generalize encoder.counted.encodeStream sessionId rest = outcome at encoded
  obtain ⟨last, _ | others⟩ := outcome
  · cases encoded
  · cases encoded
    have head :=
      Frame.readHeader_layout
      (sentHeader sent.type 0 sessionId event.sequence event.exchangeTsNs payload)
      (payload ++ others)
    rw [framed, List.append_assoc]
    exact ⟨congrArg FrameHeader.sequence head,
      (congrArg (isControl ·.messageType) head).trans (not_control found)⟩

variable {packets : List (List (CanonicalEvent × Bytes))} {capture : Capture}
  {arrival : Arrival packets}
  {session : Session} {reader : PcapReader} {mark : Nat}

theorem Arrives.snapped (arrives : Arrives capture arrival) :
    arrival.record.data.length ≤ capture.snaplen.toNat ∧ arrival.record.data ≠ [] := by
  unfold Arrives at arrives
  cases found : arrival.packet with
  | none =>
    rw [found] at arrives
    exact ⟨arrives.snapped, arrives.nonempty⟩
  | some place =>
    rw [found] at arrives
    exact ⟨arrives.snapped, arrives.nonempty⟩

theorem exposed_refused (stream : Stream packets)
    (arrives : Arrives capture arrival) {last : UInt64}
    (reached : Reached packets mark last) (old : arrival.position ≤ mark) {payload : Bytes}
    (shown : exposed ⟨capture.network⟩ arrival.record.data = some payload) :
    ¬ (Intact payload ∧
      (last < frameSequence payload ∨ isControl (messageType payload) = true)) := by
  unfold Arrives at arrives
  unfold Arrival.position at old
  cases found : arrival.packet with
  | none =>
    rw [found] at arrives
    exact fun both => arrives.refused payload shown both.1
  | some place =>
    rw [found] at arrives old
    dsimp only at arrives old
    rw [exposed_carries arrives, Option.some_inj] at shown
    obtain ⟨encoder, sessionId, encoded⟩ := arrives.encoded
    rw [shown] at encoded
    have some := stream.nonempty _ (List.getElem_mem place.isLt)
    have behind := reached.behind place place.isLt old
    have sendable := arrives.sendable
    change packets[place.val] ≠ [] at some
    change (encoder.encodeStream sessionId packets[place.val]).2 = _ at encoded
    change ∀ call ∈ packets[place.val], _ at sendable
    generalize packets[place.val] = calls at encoded some behind sendable
    cases calls with
    | nil => exact absurd rfl some
    | cons call rest =>
      obtain ⟨number, market⟩ := encodeStream_front (sendable call (by simp)) encoded
      rintro ⟨-, newer | control⟩
      · rw [number] at newer
        exact absurd (UInt64.lt_of_lt_of_le newer (behind call (by simp))) (UInt64.lt_irrefl _)
      · rw [market] at control
        cases control

theorem takePacket_refused {header : PacketHeader} {packet : Bytes}
    (linkType : reader.linkType = ⟨capture.network⟩)
    (refused : ∀ payload, exposed ⟨capture.network⟩ packet = some payload → ¬ (Intact payload ∧
      (session.decoder.lastSequence < frameSequence payload ∨
        isControl (messageType payload) = true)))
    (held : Nat → CanonicalEvent) (consumed : Nat) :
    ∃ after, takePacket held (session.behind (reader.behind header packet) consumed) = .ok after ∧
      after.reader = reader.behind header packet ∧ Progress session after 1 consumed [] ∧
      after.decoder.lastSequence = session.decoder.lastSequence := by
  have shown := behind_vtp1Payload reader header packet
  rw [linkType] at shown
  cases payload : exposed ⟨capture.network⟩ packet with
  | none =>
    rw [payload] at shown
    refine ⟨session.behind (reader.behind header packet) consumed, takePacket_none shown, rfl,
      ⟨rfl, rfl, rfl, ?_⟩, rfl⟩
    simp [Session.behind]
  | some data =>
    rw [payload] at shown
    obtain ⟨last, run, kept⟩ :=
      @ingestPayload_refused (reader.behind header packet).packetTsNs held data session.decoder
      session.writer (refused data payload)
    have taken :=
      @takePacket_payload
      (session.behind (reader.behind header packet) consumed) held _ _ _ _ shown run
    refine ⟨_, taken, rfl, ⟨rfl, rfl, rfl, ?_⟩, kept⟩
    rfl

end Refused

section Runs

variable {packets : List (List (CanonicalEvent × Bytes))} {capture : Capture}
  {arrivals : List (Arrival packets)}
  {session : Session}

def fresh (arrivals : List (Arrival packets)) : List (Arrival packets) :=
  ratchet Arrival.position 0 arrivals

theorem takePacket_ahead {arrival : Arrival packets} {reader : PcapReader} {mark : Nat}
    (stream : Stream packets)
    (arrives : Arrives capture arrival) (settled : Settled capture reader)
    (reached : Reached packets mark session.decoder.lastSequence) (above : mark < arrival.position)
    {middle : SegmentWriter} (added : session.writer.addEvents (arrival.rows capture) = .ok middle)
    (held : Nat → CanonicalEvent) (consumed : Nat) :
    ∃ next, takePacket held (session.behind
      (reader.behind arrival.record.header arrival.record.data) consumed) = .ok next ∧
      next.reader = reader.behind arrival.record.header arrival.record.data ∧ next.writer = middle ∧
      Progress session next 1 consumed (arrival.rows capture) ∧
      Reached packets arrival.position next.decoder.lastSequence := by
  unfold Arrives at arrives
  unfold Arrival.position at above ⊢
  unfold Arrival.rows at added ⊢
  cases found : arrival.packet with
  | none =>
    rw [found] at above
    exact absurd above (Nat.not_lt_zero _)
  | some place =>
    rw [found] at arrives above added
    dsimp only at arrives above added ⊢
    obtain ⟨next, taken, sameReader, sameWriter, progress, last⟩ := takePacket_sent arrives settled
      (stream.within (List.getElem_mem place.isLt))
        (reached.ahead place place.isLt (by omega)) added held consumed
    exact ⟨next, taken, sameReader, sameWriter, progress, last ▸ stream.reached_packet place.isLt _⟩

theorem takePackets_arrived (stream : Stream packets) {slots : Nat → Nat → CanonicalEvent}
    (arrive : ∀ arrival ∈ arrivals, Arrives capture arrival)
    (settled : Settled capture session.reader)
    (at_ : AtRecords session.reader (arrivals.map (·.record))) {mark : Nat}
    (reached : Reached packets mark session.decoder.lastSequence) {grown : SegmentWriter}
    (added : session.writer.addEvents
      ((ratchet Arrival.position mark arrivals).flatMap (Arrival.rows capture)) = .ok grown)
    {fuel : Nat} (enough : arrivals.length < fuel) (packet : Nat) :
    ∃ after, takePackets slots fuel packet session = some (.ok after) ∧ after.writer = grown ∧
      Progress session after arrivals.length
        ((arrivals.map (·.record)).flatMap (Record.bytes session.reader.isBigEndian)).length
        ((ratchet Arrival.position mark arrivals).flatMap (Arrival.rows capture)) := by
  induction arrivals generalizing session mark fuel packet with
  | nil =>
    obtain ⟨fuel, rfl⟩ := Nat.exists_eq_add_of_le' enough
    obtain ⟨front, -, mapped⟩ := at_.mapped
    unfold takePackets
    rw [mapped, if_neg (by simp), readNext_records at_]
    cases added
    exact ⟨_, rfl, rfl, .none session _⟩
  | cons arrival rest ih =>
    obtain ⟨fuel, rfl⟩ := Nat.exists_eq_add_of_le' (Nat.lt_of_le_of_lt (Nat.zero_le _) enough)
    obtain ⟨here, others⟩ := List.forall_mem_cons.mp arrive
    have snapped := here.snapped
    have run (next : Session) := @ih next others
    by_cases above : mark < arrival.position
    · rw [ratchet_kept above, List.flatMap_cons] at added ⊢
      rw [addEvents_append] at added
      cases one : session.writer.addEvents (arrival.rows capture) with
      | error stop =>
        rw [one] at added
        cases added
      | ok middle =>
        rw [one] at added
        obtain ⟨next, taken, sameReader, sameWriter, progress, moved⟩ :=
          takePacket_ahead stream here settled reached above
          one (slots packet) (PacketHeader.size + arrival.record.header.inclLen.toNat)
        obtain ⟨after, ran, same, further⟩ := run next (sameReader ▸ settled.behind _ _)
          (sameReader ▸ atRecords_behind at_) moved (sameWriter ▸ added)
            (by simpa using enough) (packet + 1)
        obtain ⟨whole, all⟩ :=
          takePackets_next at_ settled snapped.1 snapped.2 taken sameReader progress ran further
        exact ⟨after, whole, same, all⟩
    · have old := Nat.le_of_not_lt above
      rw [ratchet_dropped old] at added ⊢
      obtain ⟨next, taken, sameReader, progress, kept⟩ :=
        @takePacket_refused capture session session.reader
        arrival.record.header arrival.record.data settled.linkType
        (fun payload shown => exposed_refused stream here reached old shown) (slots packet)
        (PacketHeader.size + arrival.record.header.inclLen.toNat)
      obtain ⟨after, ran, same, further⟩ := run next (sameReader ▸ settled.behind _ _)
        (sameReader ▸ atRecords_behind at_) (kept ▸ reached) (Except.ok.inj progress.added ▸ added)
        (by simpa using enough) (packet + 1)
      obtain ⟨whole, all⟩ :=
        takePackets_next at_ settled snapped.1 snapped.2 taken sameReader progress ran further
      exact ⟨after, whole, same, all⟩

theorem sequence_carried (receiveTsNs : UInt64) (event : CanonicalEvent) :
    (carried receiveTsNs event).sequence = event.sequence := by
  unfold carried
  dsimp only
  split_ifs <;> rfl

theorem fresh_increasing (stream : Stream packets) (arrivals : List (Arrival packets)) :
    ((fresh arrivals).flatMap (Arrival.rows capture)).Pairwise fun first second =>
      first.sequence < second.sequence := by
  have sequences {arrival : Arrival packets} {place : Fin packets.length}
      (found : arrival.packet = some place)
      {event : CanonicalEvent} (listed : event ∈ arrival.rows capture) :
      ∃ call ∈ packets[place.val], event.sequence = call.1.sequence := by
    unfold Arrival.rows at listed
    rw [found] at listed
    obtain ⟨call, made, rfl⟩ := List.mem_map.mp listed
    exact ⟨call, made, sequence_carried _ _⟩
  refine List.pairwise_flatMap.mpr ⟨fun arrival _ => ?_, (ratchet_increasing 0 arrivals).imp ?_⟩
  · unfold Arrival.rows
    cases arrival.packet with
    | none => exact .nil
    | some place =>
      have within := List.pairwise_map.mp (stream.within (List.getElem_mem place.isLt))
      refine List.pairwise_map.mpr (within.imp fun less => ?_)
      rwa [sequence_carried, sequence_carried]
  · intro one other before first among second listed
    unfold Arrival.position at before
    cases here : one.packet with
    | none =>
      unfold Arrival.rows at among
      rw [here] at among
      cases among
    | some place =>
      cases there : other.packet with
      | none =>
        rw [there] at before
        exact absurd before (Nat.not_lt_zero _)
      | some later =>
        rw [here, there] at before
        obtain ⟨call, made, same⟩ := sequences here among
        obtain ⟨call', made', same'⟩ := sequences there listed
        rw [same, same']
        exact stream.ordered later.isLt (Nat.lt_of_succ_lt_succ before) call made call' made'

theorem fresh_valid (arrive : ∀ arrival ∈ arrivals, Arrives capture arrival) :
    ∀ event ∈ (fresh arrivals).flatMap (Arrival.rows capture), Event.validate event = .ok () := by
  intro event listed
  obtain ⟨arrival, kept, listed⟩ := List.mem_flatMap.mp listed
  have arrives := arrive arrival ((ratchet_sublist 0 arrivals).subset kept)
  unfold Arrives at arrives
  unfold Arrival.rows at listed
  cases found : arrival.packet with
  | none =>
    rw [found] at listed
    cases listed
  | some place =>
    rw [found] at arrives listed
    exact storedRows_valid arrives event listed

end Runs

-- A quote that arrives twice, with a packet of one byte in between.

def repeatedQuote (frames : Bytes) : List (Arrival [[(quoteEvent, List.replicate 128 0)]]) :=
  [⟨⟨0, 5, 0, datagramOf frames⟩, some 0⟩, ⟨⟨0, 6, 0, [0]⟩, none⟩,
    ⟨⟨0, 7, 0, datagramOf frames⟩, some 0⟩]

theorem quote_stream : Stream [[(quoteEvent, List.replicate 128 0)]] where
  nonempty := by simp
  positive := by
    intro call listed
    simp only [List.flatten_cons, List.flatten_nil, List.append_nil, List.mem_singleton] at listed
    rw [listed]
    decide
  increasing := by simp

def repeatedCapture (frames : Bytes) : Capture :=
  { quoteCapture frames with records := (repeatedQuote frames).map (·.record) }

end VectorTick.IngestApp
