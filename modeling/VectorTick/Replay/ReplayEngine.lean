import VectorTick.Foundation.Blocks
import VectorTick.Storage.Isolation

/-! The replay of a catalog, and the sequence check that runs over it.

The pauses for a rate limit or for relative timing, the receive timestamps they are computed from
and the measured throughput are outside the model.
-/

set_option autoImplicit false

namespace VectorTick

open Foundation

structure ReplayOptions where
  verifySequence : Bool := true
  deriving DecidableEq, Repr

structure ReplayStatistics where
  totalEvents : UInt64 := 0
  sequenceBreaks : UInt64 := 0
  outOfOrderEvents : UInt64 := 0
  minSequence : UInt64 := 0
  maxSequence : UInt64 := 0
  deriving DecidableEq, Repr

structure ReplayEngine where
  options : ReplayOptions
  stats : ReplayStatistics
  lastSequence : UInt64
  firstEvent : Bool
  deriving DecidableEq, Repr

/-- A callback that updates what its owner keeps; there may be none. -/
abbrev EventCallback (σ : Type) : Type := Option (σ → CanonicalEvent → σ)

/-- The engine, and what the callback's owner has seen. -/
structure Session (σ : Type) where
  engine : ReplayEngine
  seen : σ

namespace ReplayEngine

def resetStats (engine : ReplayEngine) : ReplayEngine :=
  { engine with stats := {}, lastSequence := 0, firstEvent := true }

def new (options : ReplayOptions) : ReplayEngine :=
  resetStats { options, stats := {}, lastSequence := 0, firstEvent := true }

def verify (engine : ReplayEngine) (ev : CanonicalEvent) (stats : ReplayStatistics) :
    ReplayStatistics :=
  if !engine.options.verifySequence then stats
  else if ev.sequence < engine.lastSequence then
    { stats with outOfOrderEvents := stats.outOfOrderEvents + 1 }
  else if ev.sequence > engine.lastSequence + 1 then
    { stats with sequenceBreaks := stats.sequenceBreaks + 1 }
  else stats

/-- The part of `process_event` before the callback. -/
def observe (engine : ReplayEngine) (ev : CanonicalEvent) : ReplayEngine :=
  let stats :=
    if engine.firstEvent then
      { engine.stats with minSequence := ev.sequence, maxSequence := ev.sequence }
    else
      let stats := engine.stats
      let stats :=
        if ev.sequence < stats.minSequence then { stats with minSequence := ev.sequence } else stats
      let stats :=
        if ev.sequence > stats.maxSequence then { stats with maxSequence := ev.sequence } else stats
      engine.verify ev stats
  { engine with
    stats := { stats with totalEvents := stats.totalEvents + 1 }, lastSequence :=
      ev.sequence, firstEvent := false }

end ReplayEngine

namespace Session
variable {σ : Type}

def processEvent (callback : EventCallback σ) (session : Session σ) (ev : CanonicalEvent) :
    Session σ where
  engine := session.engine.observe ev
  seen :=
    match callback with
    | some call => call session.seen ev
    | none => session.seen

def replayEvents (callback : EventCallback σ) (session : Session σ)
    (events : List CanonicalEvent) : Session σ :=
  events.foldl (processEvent callback) session

end Session

/-- The events of a segment of the catalog, as the reader returns them. -/
def readSegment (disk : Disk Path) (seg : SegmentMeta) : Except Stop (List CanonicalEvent) := do
  let reader ← SegmentReader.openFile (disk (.root seg.filename))
  reader.readAllEvents

def segmentLess (a b : SegmentMeta) : Bool :=
  if a.minSeq ≠ b.minSeq then a.minSeq < b.minSeq else a.minExchangeTs < b.minExchangeTs

/-- `std::sort` under that order, which leaves the order of equal keys open. -/
structure SegmentSort where
  sort : List SegmentMeta → List SegmentMeta
  perm : ∀ segments, (sort segments).Perm segments
  sorted : ∀ segments, (sort segments).Pairwise fun a b => segmentLess b a = false

namespace Session
variable {σ : Type}

/-- `replay_segment`; a segment that cannot be read leaves the session as it is. -/
def replaySegment (disk : Disk Path) (callback : EventCallback σ)
    (session : Session σ) (seg : SegmentMeta) :
    Session σ × Except Stop Unit :=
  match readSegment disk seg with
  | .error stop => (session, .error stop)
  | .ok events => (session.replayEvents callback events, .ok ())

/-- The loop of `replay_catalog`, which ends at the first segment that cannot be replayed. -/
def replaySegments (disk : Disk Path) (callback : EventCallback σ) (session : Session σ) :
    List SegmentMeta → Session σ × Except Stop Unit
  | [] => (session, .ok ())
  | seg :: rest =>
    match session.replaySegment disk callback seg with
    | (session, .ok ()) => replaySegments disk callback session rest
    | stopped => stopped

def replayCatalog (order : SegmentSort) (disk : Disk Path) (catalog : Catalog)
    (callback : EventCallback σ)
    (session : Session σ) : Session σ × Except Stop Unit :=
  session.replaySegments disk callback (order.sort catalog.activeSegments)

end Session

section Delivery
variable {σ : Type} {disk : Disk Path}

def storedEvents (disk : Disk Path) (seg : SegmentMeta) : List CanonicalEvent :=
  match readSegment disk seg with
  | .ok events => events
  | .error _ => []

def Readable (disk : Disk Path) (seg : SegmentMeta) : Prop :=
  ∃ events, readSegment disk seg = .ok events

theorem Readable.stored {seg : SegmentMeta} (readable : Readable disk seg) :
    readSegment disk seg = .ok (storedEvents disk seg) := by
  obtain ⟨events, read⟩ := readable
  rw [storedEvents, read]

namespace Session

theorem replayEvents_seen (call : σ → CanonicalEvent → σ) (session : Session σ)
    (events : List CanonicalEvent) :
    (session.replayEvents (some call) events).seen = events.foldl call session.seen := by
  induction events generalizing session with
  | nil => rfl
  | cons ev rest ih => exact ih (session.processEvent (some call) ev)

theorem replayEvents_engine (callback : EventCallback σ) (session : Session σ)
    (events : List CanonicalEvent) :
    (session.replayEvents callback events).engine =
      events.foldl ReplayEngine.observe session.engine := by
  induction events generalizing session with
  | nil => rfl
  | cons ev rest ih => exact ih (session.processEvent callback ev)

theorem replaySegments_readable (callback : EventCallback σ) (session : Session σ)
    (segments : List SegmentMeta)
    (readable : ∀ seg ∈ segments, Readable disk seg) :
    session.replaySegments disk callback segments =
      (session.replayEvents callback (segments.flatMap (storedEvents disk)), .ok ()) := by
  induction segments generalizing session with
  | nil => rfl
  | cons seg rest ih =>
    have read := (readable seg List.mem_cons_self).stored
    have others := ih (session.replayEvents callback (storedEvents disk seg)) fun other member =>
      readable other (List.mem_cons_of_mem _ member)
    rw [replaySegments, replaySegment, read]
    dsimp only
    rw [others, List.flatMap_cons]
    simp only [replayEvents, List.foldl_append]

end Session

end Delivery

/-- The order in which segments are replayed: by least sequence, then by least exchange time. -/
def SegmentMeta.NotAfter (a b : SegmentMeta) : Prop :=
  a.minSeq < b.minSeq ∨ (a.minSeq = b.minSeq ∧ a.minExchangeTs ≤ b.minExchangeTs)

theorem SegmentMeta.notAfter_of_not_less {a b : SegmentMeta} (less : segmentLess b a = false) :
    a.NotAfter b := by
  unfold segmentLess at less
  unfold SegmentMeta.NotAfter
  by_cases same : b.minSeq = a.minSeq
  · rw [if_neg (not_not_intro same)] at less
    exact .inr ⟨same.symm, UInt64.not_lt.mp (of_decide_eq_false less)⟩
  · rw [if_pos same] at less
    have le := UInt64.not_lt.mp (of_decide_eq_false less)
    exact .inl (UInt64.lt_of_le_of_ne le fun equal => same equal.symm)

theorem SegmentMeta.NotAfter.minSeq_le {a b : SegmentMeta} (ordered : a.NotAfter b) :
    a.minSeq.toNat ≤ b.minSeq.toNat := by
  rcases ordered with less | ⟨same, -⟩
  · exact le_of_lt (UInt64.lt_iff_toNat_lt.mp less)
  · rw [same]

namespace ReplayEngine

/-- The engine has nothing before it, or nothing later than an event of this sequence. -/
def Behind (engine : ReplayEngine) (ev : CanonicalEvent) : Prop :=
  engine.firstEvent = true ∨ engine.lastSequence ≤ ev.sequence

theorem observe_inOrder {engine : ReplayEngine} {ev : CanonicalEvent} (behind : engine.Behind ev) :
    (engine.observe ev).stats.outOfOrderEvents = engine.stats.outOfOrderEvents := by
  unfold observe
  by_cases first : engine.firstEvent
  · simp only [first, if_true]
  · have le : ¬ ev.sequence < engine.lastSequence :=
      UInt64.not_lt.mpr (behind.resolve_left first)
    simp only [first, verify, le, if_false, Bool.false_eq_true]
    split_ifs <;> rfl

theorem observe_behind (engine : ReplayEngine) {ev next : CanonicalEvent}
    (le : ev.sequence ≤ next.sequence) :
    (engine.observe ev).Behind next :=
  .inr le

theorem observe_run_inOrder (engine : ReplayEngine) (events : List CanonicalEvent)
    (behind : ∀ ev ∈ events, engine.Behind ev)
    (ordered : events.Pairwise fun a b => a.sequence ≤ b.sequence) :
    (events.foldl observe engine).stats.outOfOrderEvents = engine.stats.outOfOrderEvents := by
  induction events generalizing engine with
  | nil => rfl
  | cons ev rest ih =>
    obtain ⟨first, others⟩ := List.pairwise_cons.mp ordered
    have run :=
      ih (engine.observe ev) (fun next member => engine.observe_behind (first next member)) others
    rw [List.foldl_cons, run, observe_inOrder (behind ev List.mem_cons_self)]

end ReplayEngine

/-- The least sequence of the metadata is the least of the stored events. -/
structure ExactMinimum (disk : Disk Path) (seg : SegmentMeta) : Prop where
  attained : storedEvents disk seg ≠ [] → ∃ ev ∈ storedEvents disk seg, ev.sequence = seg.minSeq
  bounded : ∀ ev ∈ storedEvents disk seg, seg.minSeq ≤ ev.sequence

/-- The segments hold increasing sequences in ranges that do not meet, and say where they start. -/
structure Ranged (disk : Disk Path) (segments : List SegmentMeta) : Prop where
  exactMinimum : ∀ seg ∈ segments, ExactMinimum disk seg
  disjoint : segments.Pairwise fun a b =>
    Apart (fun ev : CanonicalEvent => ev.sequence.toNat) (storedEvents disk a) (storedEvents disk b)
  increasing : ∀ seg ∈ segments, (storedEvents disk seg).Pairwise fun a b => a.sequence < b.sequence

theorem Ranged.perm {disk : Disk Path} {segments others : List SegmentMeta}
    (ranged : Ranged disk segments)
    (same : others.Perm segments) : Ranged disk others where
  exactMinimum seg member := ranged.exactMinimum seg (same.mem_iff.mp member)
  disjoint := (same.pairwise_iff fun apart => apart.symm).mpr ranged.disjoint
  increasing seg member := ranged.increasing seg (same.mem_iff.mp member)

theorem Ranged.ordered {disk : Disk Path} {segments : List SegmentMeta}
    (ranged : Ranged disk segments)
    (sorted : segments.Pairwise SegmentMeta.NotAfter) :
    (segments.flatMap (storedEvents disk)).Pairwise fun a b => a.sequence ≤ b.sequence := by
  have increasing : (segments.flatMap (storedEvents disk)).Pairwise fun a b =>
      a.sequence.toNat < b.sequence.toNat :=
    increasing_flatMap (sorted.imp fun ordered => ordered.minSeq_le)
      (fun seg member some => by
        obtain ⟨ev, stored, same⟩ := (ranged.exactMinimum seg member).attained some
        exact ⟨ev, stored, congrArg UInt64.toNat same⟩)
      (fun seg member ev stored =>
        UInt64.le_iff_toNat_le.mp ((ranged.exactMinimum seg member).bounded ev stored))
      ranged.disjoint
      (fun seg member => (ranged.increasing seg member).imp fun less =>
        UInt64.lt_iff_toNat_lt.mp less)
  exact increasing.imp fun less => UInt64.le_iff_toNat_le.mpr (le_of_lt less)

open SegmentWriter (quoteEvent holds_of_addEvents)

theorem not_segmentLess_trans {a b c : SegmentMeta} (first : segmentLess b a = false)
    (second : segmentLess c b = false) :
    segmentLess c a = false := by
  unfold segmentLess at *
  grind

theorem not_segmentLess_total (a b : SegmentMeta) :
    segmentLess b a = false ∨ segmentLess a b = false := by
  unfold segmentLess
  grind

def segmentOrder : SegmentSort where
  sort := fun segments => segments.mergeSort fun a b => !segmentLess b a
  perm := fun segments => List.mergeSort_perm segments _
  sorted := fun segments => by
    have sorted := @List.pairwise_mergeSort _ (fun a b => !segmentLess b a)
      (fun a b c first second => by simpa using not_segmentLess_trans (by simpa using first) (by
        simpa using second))
      (fun a b => by simpa using not_segmentLess_total a b) segments
    exact sorted.imp fun {a b} le => by simpa using le

def laterQuote : CanonicalEvent := { quoteEvent with sequence := 7 }

def laterSegment : SegmentMeta := { filename := [50], minSeq := 7 }
def earlierSegment : SegmentMeta := { filename := [49], minSeq := 1 }

def twoSegments : Catalog := { manifest := { segments := [laterSegment, earlierSegment] } }

def twoFiles (earlier later : Bytes) : Disk Path := fun path =>
  if path = .root [49] then some earlier else if path = .root [50] then some later else none

theorem laterQuote_readable : ∃ file, SegmentReader.Reads file [laterQuote] := by
  obtain ⟨fresh, writer, file, created, added, written⟩ :=
    @SegmentReader.events_written_as [laterQuote] 2 16
    (by decide) (by decide) (by decide) (by decide) (by decide)
  exact ⟨file, SegmentReader.writeToFile_reads (holds_of_addEvents created added)
    (by decide) (by decide) written⟩

theorem readSegment_of_reads {disk : Disk Path} {seg : SegmentMeta} {file : Bytes}
    {events : List CanonicalEvent}
    (there : disk (.root seg.filename) = some file) (reads : SegmentReader.Reads file events) :
    readSegment disk seg = .ok events := by
  obtain ⟨reader, opened, -, read⟩ := reads
  rw [readSegment, there, opened, ok_bind, read]

theorem exactMinimum_single {disk : Disk Path} {seg : SegmentMeta} {ev : CanonicalEvent}
    (stored : storedEvents disk seg = [ev]) (same : ev.sequence = seg.minSeq) :
    ExactMinimum disk seg := by
  constructor
  · intro _
    rw [stored]
    exact ⟨ev, List.mem_singleton_self ev, same⟩
  · intro other member
    rw [stored] at member
    rw [List.mem_singleton.mp member, same]
    exact UInt64.le_refl _

end VectorTick
