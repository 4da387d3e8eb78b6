import VectorTick.Foundation.Transitions
import VectorTick.Storage.Compaction

/-! Whether a search by sequence or by time finds every segment that has an event in its range.

A commit takes its ranges from the writer of its file, which keeps the least and the
greatest value of each. A compaction takes them from the first and the last event in the
order of time and sequence. -/

set_option autoImplicit false

namespace VectorTick

open Foundation Catalog Manifest SegmentWriter

/-- The ranges of an entry hold the sequence and the time of every event. -/
def InRanges (seg : SegmentMeta) (events : List CanonicalEvent) : Prop :=
  ∀ event ∈ events, (seg.minSeq ≤ event.sequence ∧ event.sequence ≤ seg.maxSeq) ∧
    seg.minExchangeTs ≤ event.exchangeTsNs ∧ event.exchangeTsNs ≤ seg.maxExchangeTs

/-- The events that come first in the order of compaction have the least sequence,
the last ones the greatest. -/
def InStep (events : List CanonicalEvent) : Prop :=
  ∀ event ∈ events,
    ((∀ other ∈ events, eventLess other event = false) →
      ∀ other ∈ events, event.sequence ≤ other.sequence) ∧
    ((∀ other ∈ events, eventLess event other = false) →
      ∀ other ∈ events, other.sequence ≤ event.sequence)

instance (events : List CanonicalEvent) : Decidable (InStep events) :=
  inferInstanceAs (Decidable (∀ event ∈ events, (_ → _) ∧ (_ → _)))

theorem notLess_ts {a b : CanonicalEvent} (notLess : eventLess b a = false) :
    a.exchangeTsNs ≤ b.exchangeTsNs := by
  unfold eventLess at notLess
  grind

theorem notLess_refl (event : CanonicalEvent) : eventLess event event = false := by
  unfold eventLess
  simp

section Sorted

variable {events : List CanonicalEvent} (sorted : events.Pairwise fun a b => eventLess b a = false)
include sorted

theorem notLess_head {first : CanonicalEvent} (head : events.head? = some first) :
    ∀ other ∈ events, eventLess other first = false := by
  obtain ⟨rest, rfl⟩ := List.head?_eq_some_iff.mp head
  intro other listed
  rcases List.mem_cons.mp listed with rfl | behind
  · exact notLess_refl other
  · exact (List.pairwise_cons.mp sorted).1 other behind

theorem notLess_last {last : CanonicalEvent} (end' : events.getLast? = some last) :
    ∀ other ∈ events, eventLess last other = false := by
  obtain ⟨front, rfl⟩ := List.getLast?_eq_some_iff.mp end'
  intro other listed
  rcases List.mem_append.mp listed with before | same
  · exact (List.pairwise_append.mp sorted).2.2 other before last (List.mem_singleton_self last)
  · rw [List.mem_singleton.mp same]
    exact notLess_refl last

end Sorted

theorem compactedMeta_inRanges (order : EventSort)
    {events : List CanonicalEvent} (some : events ≠ [])
    (inStep : InStep events) (segmentId : UInt64) (size : Nat) (schemaHash : UInt32) :
    InRanges (compactedMeta segmentId (order.sort events) size schemaHash) (order.sort events) := by
  have same := order.perm events
  have sorted := order.sorted events
  have listed : order.sort events ≠ [] := fun none => some (List.perm_nil.mp (none ▸ same.symm))
  generalize order.sort events = merged at same sorted listed
  have head := List.head?_eq_some_head listed
  have last := List.getLast?_eq_some_getLast listed
  have among : ∀ other, other ∈ events ↔ other ∈ merged := fun other => same.mem_iff.symm
  have low := notLess_head sorted head
  have high := notLess_last sorted last
  have first := (inStep _ ((among _).mpr (List.head_mem listed))).1 fun other member =>
    low other ((among other).mp member)
  have final := (inStep _ ((among _).mpr (List.getLast_mem listed))).2 fun other member =>
    high other ((among other).mp member)
  intro event member
  unfold compactedMeta
  dsimp only
  rw [head, last]
  exact ⟨⟨first event ((among event).mpr member), final event ((among event).mpr member)⟩,
    notLess_ts (low event member),
    notLess_ts (high event member)⟩

/-- The world, and the events that went into the file of each segment. -/
structure Ledger where
  world : World
  contents : UInt64 → List CanonicalEvent

inductive LedgerOp where
  | stage (path : Path) (file : Bytes)
  -- The file at `tempPath` was made of `events`.
  | commit (tempPath : Path) (entry : SegmentMeta) (events : List CanonicalEvent)
  | compact (host : Host) (ids : List UInt64)

namespace LedgerOp

def op : LedgerOp → CatalogOp
  | .stage path file => .stage path file
  | .commit tempPath entry _ => .commit tempPath entry none
  | .compact host ids => .compact host ids none

end LedgerOp

namespace Ledger

/-- The events behind the next segment id, where the operation uses it up. -/
def added (disk : Disk Path) (catalog : Catalog) : LedgerOp → List CanonicalEvent
  | .stage _ _ => []
  | .commit _ _ events => events
  | .compact host ids => (collectEvents disk catalog.manifest ids).toOption.elim [] host.order.sort

def step (ledger : Ledger) (action : LedgerOp) : Option Ledger :=
  some { world := ledger.world.step action.op
         contents := ledger.world.session.elim ledger.contents fun catalog =>
           Function.update ledger.contents catalog.manifest.nextSegmentId
             (added ledger.world.disk catalog action) }

/-- A file that is committed was made by a segment writer, and its ranges are those of the writer.
-/
def Genuine (ledger : Ledger) : LedgerOp → Prop
  | .stage path _ => Foreign path
  | .commit tempPath entry events =>
    Foreign tempPath ∧ ∃ segmentId maxRows fresh writer memory file,
    SegmentWriter.new segmentId maxRows = .ok fresh ∧ fresh.addEvents events = .ok writer ∧
      writer.writeToFile memory = .ok file ∧ ledger.world.disk tempPath = some file ∧
      entry.minSeq = writer.minSequence ∧ entry.maxSeq = writer.maxSequence ∧
      entry.minExchangeTs = writer.minTimestamp ∧ entry.maxExchangeTs = writer.maxTimestamp
  | .compact _ _ => True

theorem Genuine.inRanges {ledger : Ledger} {tempPath : Path} {entry : SegmentMeta}
    {events : List CanonicalEvent}
    (genuine : ledger.Genuine (.commit tempPath entry events)) : InRanges entry events := by
  obtain ⟨-, segmentId, maxRows, fresh, writer, memory, file, created, added, -, -, minSeq, maxSeq,
    minTs, maxTs⟩ := genuine
  have bounds := bounds_of_addEvents created added
  intro event listed
  rw [minSeq, maxSeq, minTs, maxTs]
  exact ⟨bounds.sequences event listed, bounds.timestamps event listed⟩

/-- A compaction that gets as far as its transaction merges events in step. -/
def MergesInStep (ledger : Ledger) : LedgerOp → Prop
  | .compact host ids => ∀ catalog events file entry, ledger.world.session = some catalog →
    Compacts host ledger.world.disk catalog.manifest ids events file entry → InStep events
  | _ => True

/-- Every active segment is found by every range that holds the sequence or
the time of one of its events. -/
def Findable (ledger : Ledger) : Prop :=
  ∀ catalog, ledger.world.session = some catalog → ∀ seg ∈ catalog.activeSegments,
    ∀ event ∈ ledger.contents seg.segmentId,
      (∀ low high, low ≤ event.sequence → event.sequence ≤ high →
        seg ∈ catalog.findSegmentsBySequence low high) ∧
      ∀ low high, low ≤ event.exchangeTsNs → event.exchangeTsNs ≤ high →
        seg ∈ catalog.findSegmentsByTime low high

end Ledger

section Runs

variable {disk : Disk Path} {catalog : Catalog} {limit : Nat}
  {contents : UInt64 → List CanonicalEvent}

/-- The ranges of every active segment hold the events of its file. -/
def RangesHold (manifest : Manifest) (contents : UInt64 → List CanonicalEvent) : Prop :=
  ∀ seg ∈ manifest.activeSegments, InRanges seg (contents seg.segmentId)

theorem RangesHold.update {manifest : Manifest} (sound : manifest.Sound)
    (ranged : RangesHold manifest contents)
    (events : List CanonicalEvent) :
    RangesHold manifest (Function.update contents manifest.nextSegmentId events) := by
  intro seg listed
  have below := sound.below seg (mem_activeSegments.mp listed).1
  rw [Function.update_of_ne fun same => absurd (same ▸ below) (lt_irrefl _)]
  exact ranged seg listed

theorem RangesHold.install {manifest : Manifest} (sound : manifest.Sound)
    (ranged : RangesHold manifest contents)
    (room : manifest.nextSegmentId.toNat + 1 < 2 ^ 64) {entry : SegmentMeta}
    (id : entry.segmentId = manifest.nextSegmentId)
    (active : entry.active = true) (ids : List UInt64) {events : List CanonicalEvent}
    (new : InRanges entry events) :
    RangesHold (installManifest manifest ids entry)
    (Function.update contents manifest.nextSegmentId events) := by
  intro seg listed
  rcases (mem_active_installManifest sound room id active).mp listed with ⟨old, -⟩ | rfl
  · exact ranged.update sound events seg old
  · rw [id, Function.update_self]
    exact new

theorem ranged_commit (opened : Opened disk limit catalog)
    (ranged : RangesHold catalog.manifest contents)
    {tempPath : Path} (foreign : Foreign tempPath) {entry : SegmentMeta}
    {events : List CanonicalEvent}
    (new : InRanges entry events) (room : limit + 1 < 2 ^ 64) {left : Catalog}
    (survives : survivor ((commitSegment tempPath entry).exec [] disk catalog) = some left) :
    RangesHold left.manifest (Function.update contents catalog.manifest.nextSegmentId events) := by
  have next := opened.next
  by_cases there : (disk tempPath).isSome
  · rw [commitSegment_exec opened.opened foreign.journal there] at survives
    cases survives
    exact ranged.install opened.sound (by omega) rfl rfl [] new
  · rw [commitSegment_absent opened.opened foreign.journal
      (Option.not_isSome_iff_eq_none.mp there)] at survives
    cases survives
    exact ranged.update opened.sound events

theorem ranged_compact (opened : Opened disk limit catalog)
    (ranged : RangesHold catalog.manifest contents) (host : Host)
    (ids : List UInt64)
    (inStep : ∀ events file entry, Compacts host disk catalog.manifest ids events file entry →
      InStep events)
    (room : limit + 1 < 2 ^ 64) {left : Catalog}
    (survives : survivor ((compactSegments host ids).exec [] disk catalog) = some left) :
    RangesHold left.manifest (Function.update contents catalog.manifest.nextSegmentId
      (Ledger.added disk catalog (.compact host ids))) := by
  have next := opened.next
  rcases compactSegments_cases host disk ids opened.opened with
    ⟨events, file, entry, compacts⟩ | quiet
  · rw [compactSegments_exec opened.opened compacts] at survives
    cases survives
    obtain ⟨reader, -, same⟩ := compacts.opened
    have merged : Ledger.added disk catalog (.compact host ids) = host.order.sort events := by
      rw [Ledger.added, compacts.collected]
      rfl
    rw [merged]
    refine ranged.install opened.sound (by omega) (by rw [same]; rfl) (by rw [same]; rfl) ids ?_
    rw [same]
    exact compactedMeta_inRanges host.order compacts.nonempty
      (inStep events file entry compacts) _ _ _
  · rw [survivor_state survives]
    rcases quiet.state with same | same
    · rw [same]
      exact ranged.update opened.sound _
    · rw [same]
      exact ranged.update opened.sound _

namespace Ledger

/-- What holds between two calls. -/
structure Held (limit : Nat) (ledger : Ledger) : Prop where
  opened : ∀ catalog, ledger.world.session = some catalog → Opened ledger.world.disk limit catalog
  ranged : ∀ catalog, ledger.world.session = some catalog →
    RangesHold catalog.manifest ledger.contents

variable {ledger next : Ledger}

theorem Held.step (held : ledger.Held limit) {action : LedgerOp} (genuine : ledger.Genuine action)
    (inStep : ledger.MergesInStep action) (room : limit + 1 < 2 ^ 64)
    (stepped : ledger.step action = some next) :
    next.Held (limit + 1) := by
  cases stepped
  have calm : action.op.Calm := by
    cases action with
    | stage path file => exact genuine
    | commit tempPath entry events => exact genuine.1
    | compact host ids => trivial
  refine ⟨fun left found => opened_step calm room held.opened found, fun left found => ?_⟩
  cases session : ledger.world.session with
  | none =>
    cases action with
    | stage path file =>
      change ledger.world.session = some left at found
      rw [session] at found
      cases found
    | commit tempPath entry events =>
      unfold LedgerOp.op World.step at found
      rw [session] at found
      dsimp only at found
      rw [session] at found
      cases found
    | compact host ids =>
      unfold LedgerOp.op World.step at found
      rw [session] at found
      dsimp only at found
      rw [session] at found
      cases found
  | some catalog =>
    have opened := held.opened catalog session
    have ranged := held.ranged catalog session
    cases action with
    | stage path file =>
      change ledger.world.session = some left at found
      rw [session] at found
      cases found
      exact ranged.update opened.sound []
    | commit tempPath entry events =>
      unfold LedgerOp.op World.step at found
      rw [session] at found
      exact ranged_commit opened ranged genuine.1 genuine.inRanges room found
    | compact host ids =>
      unfold LedgerOp.op World.step at found
      rw [session] at found
      exact ranged_compact opened ranged host ids (inStep catalog · · · session) room found

theorem Held.runs (held : ledger.Held limit) {actions : List LedgerOp}
    (meets : Meets Ledger.step (fun ledger action => ledger.Genuine action ∧
      ledger.MergesInStep action) actions ledger)
    (room : limit + actions.length < 2 ^ 64) {final : Ledger}
    (done : runs Ledger.step actions ledger = some final) :
    final.Held (limit + actions.length) := by
  induction actions generalizing ledger limit with
  | nil =>
    cases done
    exact held
  | cons action rest ih =>
    rw [List.length_cons] at room ⊢
    obtain ⟨next, stepped, others⟩ := runs_cons done
    have after :=
      ih (held.step meets.1.1 meets.1.2 (by omega) stepped) (meets.2 next stepped) (by omega) others
    rwa [Nat.add_assoc, Nat.add_comm 1] at after

theorem Held.findable (held : ledger.Held limit) : ledger.Findable := by
  intro catalog found seg listed event stored
  obtain ⟨inside, active⟩ := mem_activeSegments.mp listed
  obtain ⟨⟨minSeq, maxSeq⟩, minTs, maxTs⟩ := held.ranged catalog found seg listed event stored
  constructor
  · intro low high above below
    refine List.mem_filter.mpr ⟨inside, ?_⟩
    rw [active, Bool.true_and, Bool.and_eq_true, decide_eq_true_eq, decide_eq_true_eq]
    exact ⟨UInt64.le_trans above maxSeq, UInt64.le_trans minSeq below⟩
  · intro low high above below
    refine List.mem_filter.mpr ⟨inside, ?_⟩
    rw [active, Bool.true_and, Bool.and_eq_true, decide_eq_true_eq, decide_eq_true_eq]
    exact ⟨UInt64.le_trans above maxTs, UInt64.le_trans minTs below⟩

end Ledger

/-- A new catalog, and nothing in it. -/
def Ledger.Fresh (ledger : Ledger) : Prop :=
  ∃ (start : World) (now : UInt64), start.Blank ∧ ledger.world = start.step (.openCatalog now none)

theorem Ledger.Fresh.held {ledger : Ledger} (fresh : ledger.Fresh) : ledger.Held 1 := by
  obtain ⟨start, now, blank, opened⟩ := fresh
  obtain ⟨saved, history, reached, grows, -⟩ := (blank_reached blank).step
    (show (CatalogOp.openCatalog now none).Careful from fun _ impossible => by cases impossible)
      (by decide)
  rw [← opened] at reached
  have nothing : history = [] := by
    rcases grows with same | ⟨added, -, made, -⟩
    · exact same
    · exact made.elim
  subst nothing
  refine ⟨fun catalog found => (reached.invariant.session catalog found).isOpened,
    fun catalog found seg listed => ?_⟩
  obtain ⟨attempt, owner, -⟩ := (reached.invariant.session catalog found).live (by simp) seg listed
  cases (Recorded.mem_of_owner owner).1

/-- In a run whose compactions merge events in step, every search finds
what it should in every state. -/
theorem ranges_findable {start final : Ledger} (fresh : start.Fresh) {actions : List LedgerOp}
    (few : actions.length + 1 < 2 ^ 64)
    (meets : Meets Ledger.step (fun ledger action => ledger.Genuine action ∧
      ledger.MergesInStep action) actions start)
    (done : runs Ledger.step actions start = some final) : final.Findable :=
  (fresh.held.runs meets (by omega) done).findable

end Runs

-- Two quotes, of which the later one has the smaller sequence, are committed and compacted.

def crossedQuotes : List CanonicalEvent :=
  [{ quoteEvent with sequence := 5 }, { quoteEvent with exchangeTsNs := 2000, sequence := 3 }]

theorem crossed_written (segmentId : UInt64) {maxRows : Nat} (two : 2 ≤ maxRows)
    (few : rowBytes * maxRows < 2 ^ 63) :
    ∃ fresh writer file, SegmentWriter.new segmentId maxRows = .ok fresh ∧
      fresh.addEvents crossedQuotes = .ok writer ∧
      writer.writeToFile zeroed = .ok file ∧ SegmentReader.Reads file crossedQuotes := by
  obtain ⟨fresh, writer, file, created, added, written⟩ := SegmentReader.events_written_as segmentId
    (show crossedQuotes ≠ [] by decide) (by decide) two few (by decide)
  exact ⟨fresh, writer, file, created, added, written,
    SegmentReader.writeToFile_reads (holds_of_addEvents created added)
      (by decide) (by decide) written⟩

theorem sort_crossed : plainHost.order.sort crossedQuotes = crossedQuotes :=
  List.mergeSort_of_pairwise (by decide)

theorem crossed_compacts {disk : Disk Path} {manifest : Manifest} {segmentId : UInt64}
    {seg : SegmentMeta} {file : Bytes}
    (found : manifest.findSegment segmentId = some seg)
    (there : disk (.root seg.filename) = some file)
    (reads : SegmentReader.Reads file crossedQuotes) :
    ∃ compacted size hash, Compacts plainHost disk manifest [segmentId] crossedQuotes compacted
      (compactedMeta manifest.nextSegmentId crossedQuotes size hash) := by
  obtain ⟨reader, opened, -, read⟩ := reads
  have collected : collectEvents disk manifest [segmentId] = .ok crossedQuotes := by
    unfold collectEvents
    rw [found]
    dsimp only
    rw [there, opened, ok_bind, read, ok_bind]
    rfl
  obtain ⟨fresh, writer, compacted, created, added, written, ⟨other, openedAgain, -⟩⟩ :=
    crossed_written manifest.nextSegmentId (le_refl 2) (by decide)
  refine ⟨compacted, compacted.length,
    other.schemaHash, by simp, collected, by decide, ⟨fresh, writer, ?_, ?_, written⟩,
    ⟨other, openedAgain, by rw [sort_crossed]⟩⟩
  · rw [sort_crossed]
    exact created
  · rw [sort_crossed]
    exact added

def emptyLedger : Ledger := ⟨blankWorld.step (.openCatalog 0 none), fun _ => []⟩

theorem emptyLedger_fresh : emptyLedger.Fresh := ⟨blankWorld, 0, blankWorld_blank, rfl⟩

def entryOfWriter (writer : SegmentWriter) : SegmentMeta :=
  { minSeq := writer.minSequence, maxSeq := writer.maxSequence, minExchangeTs := writer.minTimestamp
    maxExchangeTs := writer.maxTimestamp }

section Committed

variable {writer : SegmentWriter} {file : Bytes} {events : List CanonicalEvent}

def committing (writer : SegmentWriter) (file : Bytes) (events : List CanonicalEvent) :
    List LedgerOp :=
  [.stage quotePath file, .commit quotePath (entryOfWriter writer) events]

theorem committing_genuine {segmentId : UInt64} {maxRows : Nat}
    {fresh : SegmentWriter} {memory : Allocator}
    (created : SegmentWriter.new segmentId maxRows = .ok fresh)
    (added : fresh.addEvents events = .ok writer)
    (written : writer.writeToFile memory = .ok file) (rest : List LedgerOp) {final : Ledger}
    (done : runs Ledger.step (committing writer file events) emptyLedger = some final)
    (meets : Meets Ledger.step Ledger.Genuine rest final) :
    Meets Ledger.step Ledger.Genuine (committing writer file events ++ rest) emptyLedger := by
  cases done
  refine ⟨quotePath_foreign, fun next stepped => ?_⟩
  cases stepped
  refine ⟨⟨quotePath_foreign, segmentId, maxRows, fresh, writer, memory, file,
    created, added, written,
    quoteStaged_file file, rfl, rfl, rfl, rfl⟩, fun next stepped => ?_⟩
  cases stepped
  exact meets

theorem runs_committing (writer : SegmentWriter) (file : Bytes) (events : List CanonicalEvent) :
    ∃ contents, runs Ledger.step (committing writer file events) emptyLedger =
      some ⟨(quoteStaged file).step (.commit quotePath (entryOfWriter writer) none), contents⟩ :=
  ⟨_, rfl⟩

theorem compact_session {world : World} {catalog : Catalog} {host : Host} {ids : List UInt64}
    {events : List CanonicalEvent} {compacted : Bytes} {entry : SegmentMeta}
    (found : world.session = some catalog)
    (opened : catalog.journal = ⟨some journalPath⟩)
    (compacts : Compacts host world.disk catalog.manifest ids events compacted entry) :
    (world.step (.compact host ids none)).session =
      some { catalog with manifest := installManifest catalog.manifest ids entry } := by
  unfold World.step
  rw [found]
  dsimp only
  rw [compactSegments_exec opened compacts]
  rfl

theorem committed_session (file : Bytes) (entry : SegmentMeta) :
    ((quoteStaged file).step (.commit quotePath entry none)).session =
    some ⟨commitManifest {} entry, ⟨some journalPath⟩⟩ := by
  unfold World.step
  rw [quoteStaged_session]
  dsimp only
  rw [commitSegment_exec rfl quotePath_foreign.journal (by rw [quoteStaged_file]; rfl)]
  rfl

theorem committed_file (file : Bytes) (entry : SegmentMeta) :
    ((quoteStaged file).step (.commit quotePath entry none)).disk (segmentPath 1) = some file := by
  obtain ⟨saved, reached⟩ := quoteStaged_reached file
  rw [commit_segments (reached.invariant.session _ (quoteStaged_session file))
    (quoteStaged_session file)
    quotePath_foreign (quoteStaged_file file)]
  exact if_pos rfl

end Committed

theorem ranges_findable_quote : ∃ file writer final,
    runs Ledger.step (committing writer file [quoteEvent] ++ [.compact plainHost [1]])
      emptyLedger = some final ∧
      final.Findable := by
  obtain ⟨fresh, writer, file, created, added, written⟩ := SegmentReader.quote_written
  have readable := SegmentReader.writeToFile_reads (holds_of_addEvents created added)
    (by decide) (by decide) written
  have session := committed_session file (entryOfWriter writer)
  have there := committed_file file (entryOfWriter writer)
  obtain ⟨compacted, entry, compacts⟩ :=
    @quote_compacts _ (commitManifest {} (entryOfWriter writer)) 1
    (commitEntry {} (entryOfWriter writer)) file rfl there readable
  refine ⟨file, writer, _, rfl, ?_⟩
  refine @ranges_findable _ _ emptyLedger_fresh
    (committing writer file [quoteEvent] ++ [.compact plainHost [1]])
    (by simp [committing]) ?_ rfl
  refine ⟨⟨quotePath_foreign, trivial⟩, fun next stepped => ?_⟩
  cases stepped
  refine ⟨⟨⟨quotePath_foreign, 1, 16, fresh, writer, zeroed, file, created, added, written,
    quoteStaged_file file, rfl, rfl, rfl,
    rfl⟩, trivial⟩, fun next stepped => ?_⟩
  cases stepped
  refine ⟨⟨trivial, fun catalog events merged segment found merges => ?_⟩, fun next _ => trivial⟩
  obtain rfl := Option.some.inj (session.symm.trans found)
  obtain rfl := Except.ok.inj (compacts.collected.symm.trans merges.collected)
  decide

/-- The sequences of the compacted quotes begin with 5 and end with 3, and
a search for 3 misses them. -/
theorem not_ranges_findable : ¬ ∀ start : Ledger, start.Fresh →
    ∀ actions, actions.length + 1 < 2 ^ 64 →
    Meets Ledger.step Ledger.Genuine actions start →
      ∀ final, runs Ledger.step actions start = some final →
      final.Findable := by
  intro claimed
  obtain ⟨fresh, writer, file, created, added, written, reads⟩ :=
    crossed_written 1 (le_refl 2) (by decide)
  have session := committed_session file (entryOfWriter writer)
  have there := committed_file file (entryOfWriter writer)
  obtain ⟨compacted, size, hash, compacts⟩ :=
    @crossed_compacts _ (commitManifest {} (entryOfWriter writer)) 1
    (commitEntry {} (entryOfWriter writer)) file rfl there reads
  have later := compact_session session rfl compacts
  obtain ⟨contents, done⟩ := runs_committing writer file crossedQuotes
  have meets :=
    committing_genuine created added written [.compact plainHost [1]] done
    ⟨trivial, fun next _ => trivial⟩
  have final : runs Ledger.step
      (committing writer file crossedQuotes ++ [.compact plainHost [1]]) emptyLedger = some
      ⟨((quoteStaged file).step (.commit quotePath (entryOfWriter writer) none)).step
        (.compact plainHost [1] none),
        Function.update contents 2 crossedQuotes⟩ := by
    have merged : Ledger.added
        ((quoteStaged file).step (.commit quotePath (entryOfWriter writer) none)).disk
        ⟨commitManifest {} (entryOfWriter writer), ⟨some journalPath⟩⟩ (.compact plainHost [1]) =
          crossedQuotes := by
      rw [Ledger.added, compacts.collected]
      exact sort_crossed
    rw [runs_append, done, Option.bind_some, runs, Ledger.step, Option.bind_some, runs]
    dsimp only
    rw [session, Option.elim_some, merged]
    rfl
  have named : Named (commitEntry {} (entryOfWriter writer)) := rfl
  have sound : (commitManifest {} (entryOfWriter writer)).Sound :=
    installManifest_sound sound_empty (by decide) named rfl []
  have listed :=
    (@mem_active_installManifest (compactedMeta 2 crossedQuotes size hash) _ sound
    (show 2 + 1 < 2 ^ 64 by decide)
    rfl rfl [1] _).mpr (.inr rfl)
  have stored : { quoteEvent with exchangeTsNs := 2000, sequence := 3 } ∈
    Function.update contents 2 crossedQuotes 2 := by
    rw [Function.update_self]
    decide
  have findable :=
    claimed emptyLedger emptyLedger_fresh _ (by simp [committing]) meets _ final _ later
    (compactedMeta 2 crossedQuotes size hash) listed _ stored
  have found := (List.mem_filter.mp (findable.1 3 3 (by decide) (by decide))).2
  rw [Bool.and_eq_true, Bool.and_eq_true, decide_eq_true_eq, decide_eq_true_eq] at found
  exact absurd found.2.2 (show ¬ (5 : UInt64) ≤ 3 by decide)

end VectorTick
