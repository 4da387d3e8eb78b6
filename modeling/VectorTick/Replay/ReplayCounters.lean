import VectorTick.Replay.ReplayEngine

/-! What the counters of a replay say about the events replayed, over any succession of calls.

A break is looked for above the last sequence plus one, and that sum wraps
around at the top of the range. -/

set_option autoImplicit false

namespace VectorTick

open SegmentWriter (quoteEvent)

/-- Each item with the one behind it. -/
def adjacent {T : Type} : List T → List (T × T)
  | first :: second :: rest => (first, second) :: adjacent (second :: rest)
  | _ => []

theorem length_adjacent {T : Type} (first : T) (rest : List T) :
    (adjacent (first :: rest)).length = rest.length := by
  induction rest generalizing first with
  | nil => rfl
  | cons second rest ih => rw [adjacent, List.length_cons, ih, List.length_cons]

theorem countP_or {T : Type} {one two : T → Bool}
    (apart : ∀ item, ¬ (one item = true ∧ two item = true)) (items : List T) :
    items.countP (fun item => one item || two item) = items.countP one + items.countP two := by
  induction items with
  | nil => rfl
  | cons item rest ih =>
    have not_both := apart item
    rw [List.countP_cons, List.countP_cons, List.countP_cons, ih]
    cases first : one item <;> cases second : two item
    · simp
    · simp; omega
    · simp; omega
    · exact absurd ⟨first, second⟩ not_both

namespace ReplayEngine

def decreases (pair : CanonicalEvent × CanonicalEvent) : Bool := pair.2.sequence < pair.1.sequence

/-- The sequence goes up by more than one. -/
def breaks (pair : CanonicalEvent × CanonicalEvent) : Bool :=
  pair.1.sequence.toNat + 1 < pair.2.sequence.toNat

def bothGreatest (pair : CanonicalEvent × CanonicalEvent) : Bool :=
  pair.1.sequence.toNat = 2 ^ 64 - 1 ∧ pair.2.sequence.toNat = 2 ^ 64 - 1

def takenForBreak (pair : CanonicalEvent × CanonicalEvent) : Bool :=
  !decreases pair && pair.2.sequence > pair.1.sequence + 1

theorem takenForBreak_eq (pair : CanonicalEvent × CanonicalEvent) :
    takenForBreak pair = (breaks pair || bothGreatest pair) := by
  have first := pair.1.sequence.toNat_lt
  have second := pair.2.sequence.toNat_lt
  rw [Bool.eq_iff_iff, takenForBreak, Bool.and_eq_true, Bool.not_eq_true', decreases,
    decide_eq_false_iff_not, decide_eq_true_iff, Bool.or_eq_true, breaks, decide_eq_true_iff,
    bothGreatest, decide_eq_true_iff, gt_iff_lt, UInt64.lt_iff_toNat_lt, UInt64.lt_iff_toNat_lt,
    UInt64.toNat_add, show (1 : UInt64).toNat = 1 from rfl]
  by_cases top : pair.1.sequence.toNat = 2 ^ 64 - 1
  · rw [top]
    omega
  · rw [Nat.mod_eq_of_lt (by omega)]
    omega

theorem breaks_apart (pair : CanonicalEvent × CanonicalEvent) :
    ¬ (breaks pair = true ∧ bothGreatest pair = true) := by
  rintro ⟨above, greatest⟩
  rw [breaks, decide_eq_true_iff] at above
  rw [bothGreatest, decide_eq_true_iff] at greatest
  omega

/-- The counters behind events that come after another one. -/
structure Counts (previous : CanonicalEvent) (events : List CanonicalEvent)
    (engine after : ReplayEngine) : Prop where
  options : after.options = engine.options
  total : after.stats.totalEvents = engine.stats.totalEvents + UInt64.ofNat events.length
  least : after.stats.minSequence ∈ engine.stats.minSequence :: events.map (·.sequence)
  least_le : ∀ sequence ∈ engine.stats.minSequence :: events.map (·.sequence),
    after.stats.minSequence ≤ sequence
  greatest : after.stats.maxSequence ∈ engine.stats.maxSequence :: events.map (·.sequence)
  le_greatest : ∀ sequence ∈ engine.stats.maxSequence :: events.map (·.sequence),
    sequence ≤ after.stats.maxSequence
  outOfOrder : after.stats.outOfOrderEvents =
    engine.stats.outOfOrderEvents + UInt64.ofNat ((adjacent (previous :: events)).countP decreases)
  sequenceBreaks : after.stats.sequenceBreaks =
    engine.stats.sequenceBreaks + UInt64.ofNat
      ((adjacent (previous :: events)).countP takenForBreak)

def tally (counted : Bool) : UInt64 := if counted then 1 else 0

theorem countP_tally {T : Type} (test : T → Bool) (item : T) (rest : List T) :
    UInt64.ofNat ((item :: rest).countP test) =
      tally (test item) + UInt64.ofNat (rest.countP test) := by
  rw [List.countP_cons]
  cases counted : test item with
  | false =>
    rw [tally, if_neg Bool.false_ne_true, if_neg Bool.false_ne_true, Nat.add_zero, UInt64.zero_add]
  | true => rw [tally, if_pos rfl, if_pos rfl, UInt64.ofNat_add, UInt64.add_comm]; rfl

section Observed

variable {engine : ReplayEngine} {previous : CanonicalEvent}
  (verified : engine.options.verifySequence = true)
  (last : engine.lastSequence = previous.sequence) (ev : CanonicalEvent)

include verified last

theorem verify_tallies (stats : ReplayStatistics) : engine.verify ev stats =
    { stats with
      outOfOrderEvents := stats.outOfOrderEvents + tally (decreases (previous, ev))
      sequenceBreaks := stats.sequenceBreaks + tally (takenForBreak (previous, ev)) } := by
  unfold verify
  rw [verified, last, Bool.not_true, if_neg Bool.false_ne_true]
  by_cases less : ev.sequence < previous.sequence
  · have counted : decreases (previous, ev) = true := decide_eq_true less
    rw [if_pos less, takenForBreak, counted]
    simp [tally]
  · have counted : decreases (previous, ev) = false := decide_eq_false less
    rw [if_neg less, takenForBreak, counted]
    by_cases above : ev.sequence > previous.sequence + 1
    · rw [if_pos above, decide_eq_true above]
      simp [tally]
    · rw [if_neg above, decide_eq_false above]
      simp [tally]

variable (started : engine.firstEvent = false)

include started

theorem observe_next : engine.observe ev =
    { engine with
      stats :=
        { totalEvents := engine.stats.totalEvents + 1
          sequenceBreaks := engine.stats.sequenceBreaks + tally (takenForBreak (previous, ev))
          outOfOrderEvents := engine.stats.outOfOrderEvents + tally (decreases (previous, ev))
          minSequence :=
            if ev.sequence < engine.stats.minSequence then ev.sequence else engine.stats.minSequence
          maxSequence := if ev.sequence > engine.stats.maxSequence then
            ev.sequence else engine.stats.maxSequence }
      lastSequence := ev.sequence
      firstEvent := false } := by
  unfold observe
  rw [started, if_neg Bool.false_ne_true]
  dsimp only
  rw [verify_tallies verified last]
  by_cases lower : ev.sequence < engine.stats.minSequence <;> by_cases higher : ev.sequence >
    engine.stats.maxSequence <;>
    simp [lower, higher]

theorem observe_counts : Counts previous [ev] engine (engine.observe ev) := by
  have one (test : CanonicalEvent × CanonicalEvent → Bool) :
      UInt64.ofNat ((adjacent [previous, ev]).countP test) = tally (test (previous, ev)) := by
    rw [adjacent, countP_tally]
    exact UInt64.add_zero _
  rw [observe_next verified last ev started]
  refine ⟨rfl, rfl, ?_, ?_, ?_, ?_, by rw [one], by rw [one]⟩
  · dsimp only
    split
    · exact List.mem_cons_of_mem _ List.mem_cons_self
    · exact List.mem_cons_self
  · intro sequence listed
    rw [List.map_singleton, List.mem_pair] at listed
    dsimp only
    split <;> rcases listed with rfl | rfl
    · exact UInt64.le_of_lt ‹_›
    · exact UInt64.le_refl _
    · exact UInt64.le_refl _
    · exact UInt64.not_lt.mp ‹_›
  · dsimp only
    split
    · exact List.mem_cons_of_mem _ List.mem_cons_self
    · exact List.mem_cons_self
  · intro sequence listed
    rw [List.map_singleton, List.mem_pair] at listed
    dsimp only
    split <;> rcases listed with rfl | rfl
    · exact UInt64.le_of_lt ‹_›
    · exact UInt64.le_refl _
    · exact UInt64.le_refl _
    · exact UInt64.not_lt.mp ‹_›

end Observed

theorem Counts.cons {previous ev : CanonicalEvent} {rest : List CanonicalEvent}
    {engine middle after : ReplayEngine}
    (one : Counts previous [ev] engine middle) (others : Counts ev rest middle after) :
    Counts previous (ev :: rest) engine after := by
  have counted (test : CanonicalEvent × CanonicalEvent → Bool) (start : UInt64) :
      start + UInt64.ofNat ((adjacent [previous, ev]).countP test) + UInt64.ofNat
        ((adjacent (ev :: rest)).countP test) =
        start + UInt64.ofNat ((adjacent (previous :: ev :: rest)).countP test) := by
    have first : UInt64.ofNat ((adjacent [previous, ev]).countP test) =
        tally (test (previous, ev)) := by
      rw [adjacent, countP_tally]
      exact UInt64.add_zero _
    rw [first, adjacent, countP_tally, UInt64.add_assoc]
  have member {start : UInt64} {found : UInt64} (first : found ∈ start :: [ev].map (·.sequence))
      {reached : UInt64}
      (later : reached ∈ found :: rest.map (·.sequence)) : reached ∈
        start :: (ev :: rest).map (·.sequence) := by
    simp only [List.map_cons, List.map_nil, List.mem_cons, List.not_mem_nil,
      or_false] at first later ⊢
    rcases later with rfl | later
    · exact first.imp_right .inl
    · exact .inr (.inr later)
  refine ⟨others.options.trans one.options, ?_, member one.least others.least, ?_,
    member one.greatest others.greatest, ?_,
    ?_, ?_⟩
  · rw [others.total, one.total, UInt64.add_assoc, ← UInt64.ofNat_add, List.length_singleton,
      List.length_cons, Nat.add_comm rest.length]
  · intro sequence listed
    rw [List.map_cons] at listed
    have reached := others.least_le _ List.mem_cons_self
    rcases List.mem_cons.mp listed with rfl | later
    · exact UInt64.le_trans reached (one.least_le _ List.mem_cons_self)
    rcases List.mem_cons.mp later with rfl | behind
    · exact UInt64.le_trans reached (one.least_le _ (by simp))
    · exact others.least_le _ (List.mem_cons_of_mem _ behind)
  · intro sequence listed
    rw [List.map_cons] at listed
    have reached := others.le_greatest _ List.mem_cons_self
    rcases List.mem_cons.mp listed with rfl | later
    · exact UInt64.le_trans (one.le_greatest _ List.mem_cons_self) reached
    rcases List.mem_cons.mp later with rfl | behind
    · exact UInt64.le_trans (one.le_greatest _ (by simp)) reached
    · exact others.le_greatest _ (List.mem_cons_of_mem _ behind)
  · rw [others.outOfOrder, one.outOfOrder, counted]
  · rw [others.sequenceBreaks, one.sequenceBreaks, counted]

theorem run_counts {engine : ReplayEngine} {previous : CanonicalEvent}
    (verified : engine.options.verifySequence = true)
    (started : engine.firstEvent = false) (last : engine.lastSequence = previous.sequence)
    (events : List CanonicalEvent) :
    Counts previous events engine (events.foldl observe engine) := by
  induction events generalizing engine previous with
  | nil =>
    refine ⟨rfl, (UInt64.add_zero _).symm, List.mem_cons_self, ?_, List.mem_cons_self, ?_,
      (UInt64.add_zero _).symm,
      (UInt64.add_zero _).symm⟩
    · intro sequence listed
      rw [List.mem_singleton.mp listed]
      exact UInt64.le_refl _
    · intro sequence listed
      rw [List.mem_singleton.mp listed]
      exact UInt64.le_refl _
  | cons ev rest ih =>
    have one := observe_counts verified last ev started
    have next := observe_next verified last ev started
    exact one.cons (@ih (engine.observe ev) ev (by rw [next]; exact verified)
      (by rw [next]) (by rw [next]))

/-- The statistics are those of the events replayed. -/
structure Describes (stats : ReplayStatistics) (events : List CanonicalEvent) : Prop where
  total : stats.totalEvents.toNat = events.length
  least : stats.minSequence ∈ events.map (·.sequence)
  least_le : ∀ ev ∈ events, stats.minSequence ≤ ev.sequence
  greatest : stats.maxSequence ∈ events.map (·.sequence)
  le_greatest : ∀ ev ∈ events, ev.sequence ≤ stats.maxSequence
  outOfOrder : stats.outOfOrderEvents.toNat = (adjacent events).countP decreases
  sequenceBreaks : stats.sequenceBreaks.toNat = (adjacent events).countP breaks

theorem reset_counts {engine : ReplayEngine} (verified : engine.options.verifySequence = true)
    (first : CanonicalEvent)
    (rest : List CanonicalEvent) :
    Counts first rest (engine.resetStats.observe first)
    ((first :: rest).foldl observe engine.resetStats) :=
  @run_counts (engine.resetStats.observe first) first verified rfl rfl rest

theorem reset_stats_counts {engine : ReplayEngine} (verified : engine.options.verifySequence = true)
    (first : CanonicalEvent)
    (rest : List CanonicalEvent) {stats : ReplayStatistics}
    (reached : ((first :: rest).foldl observe engine.resetStats).stats = stats) :
    stats.totalEvents = UInt64.ofNat (first :: rest).length ∧
      stats.outOfOrderEvents = UInt64.ofNat ((adjacent (first :: rest)).countP decreases) ∧
      stats.sequenceBreaks = UInt64.ofNat ((adjacent (first :: rest)).countP takenForBreak) := by
  have counts := reset_counts verified first rest
  rw [← reached]
  refine ⟨?_, ?_, ?_⟩
  · rw [counts.total, List.length_cons, UInt64.ofNat_add, UInt64.add_comm]
    rfl
  · rw [counts.outOfOrder]
    exact UInt64.zero_add _
  · rw [counts.sequenceBreaks]
    exact UInt64.zero_add _

theorem describes_iff {engine : ReplayEngine} (verified : engine.options.verifySequence = true)
    {events : List CanonicalEvent} (present : events ≠ []) :
    Describes (events.foldl observe engine.resetStats).stats events ↔
      events.length < 2 ^ 64 ∧ ∀ pair ∈ adjacent events, bothGreatest pair = false := by
  obtain ⟨first, rest, rfl⟩ := List.exists_cons_of_ne_nil present
  have counts := reset_counts verified first rest
  obtain ⟨total, outOfOrder, sequenceBreaks⟩ := reset_stats_counts verified first rest rfl
  have pairs := length_adjacent first rest
  have split : (adjacent (first :: rest)).countP takenForBreak =
      (adjacent (first :: rest)).countP breaks +
        (adjacent (first :: rest)).countP bothGreatest := by
    rw [← countP_or breaks_apart, funext takenForBreak_eq]
  have none_iff : (adjacent (first :: rest)).countP bothGreatest = 0 ↔
      ∀ pair ∈ adjacent (first :: rest), bothGreatest pair = false := by
    rw [List.countP_eq_zero]
    exact forall₂_congr fun pair _ => by rw [Bool.not_eq_true]
  have fit (test : CanonicalEvent × CanonicalEvent → Bool) (few : (first :: rest).length < 2 ^ 64) :
      (UInt64.ofNat ((adjacent (first :: rest)).countP test)).toNat =
        (adjacent (first :: rest)).countP test := by
    have fewer := List.countP_le_length (p := test) (l := adjacent (first :: rest))
    rw [List.length_cons] at few
    exact UInt64.toNat_ofNat_of_lt' (Nat.lt_of_le_of_lt fewer (by change _ < 2 ^ 64; omega))
  rw [← none_iff]
  constructor
  · intro describes
    have few : (first :: rest).length < 2 ^ 64 := by
      rw [← describes.total]
      exact UInt64.toNat_lt _
    have wrong := describes.sequenceBreaks
    rw [sequenceBreaks, fit _ few, split] at wrong
    exact ⟨few, by omega⟩
  · rintro ⟨few, none⟩
    refine ⟨?_, ?_, ?_, ?_, ?_, ?_, ?_⟩
    · rw [total, UInt64.toNat_ofNat_of_lt' few]
    · exact counts.least
    · exact fun ev listed => counts.least_le _ (List.mem_map_of_mem listed)
    · exact counts.greatest
    · exact fun ev listed => counts.le_greatest _ (List.mem_map_of_mem listed)
    · rw [outOfOrder, fit _ few]
    · rw [sequenceBreaks, fit _ few, split, none, Nat.add_zero]

end ReplayEngine

namespace Session
variable {σ : Type}

/-- Calls of `replay_events`, each with its callback and its events. -/
def replayCalls (session : Session σ)
    (calls : List (EventCallback σ × List CanonicalEvent)) : Session σ :=
  calls.foldl (fun session call => session.replayEvents call.1 call.2) session

theorem replayCalls_engine (session : Session σ)
    (calls : List (EventCallback σ × List CanonicalEvent)) :
    (session.replayCalls calls).engine =
      (calls.flatMap (·.2)).foldl ReplayEngine.observe session.engine := by
  induction calls generalizing session with
  | nil => rfl
  | cons call rest ih =>
    rw [List.flatMap_cons, List.foldl_append, ← replayEvents_engine call.1 session call.2]
    exact ih (session.replayEvents call.1 call.2)

/-- However the events are split into calls, the statistics since the reset describe all of them,
exactly if a word can count them and no two in a row have the greatest sequence. -/
theorem replay_statistics_iff (engine : ReplayEngine) (seen : σ)
    (calls : List (EventCallback σ × List CanonicalEvent))
    (verified : engine.options.verifySequence = true) (present : calls.flatMap (·.2) ≠ []) :
    ReplayEngine.Describes ((Session.mk engine.resetStats seen).replayCalls calls).engine.stats
      (calls.flatMap (·.2)) ↔
      (calls.flatMap (·.2)).length < 2 ^ 64 ∧
        ∀ pair ∈ adjacent (calls.flatMap (·.2)), ReplayEngine.bothGreatest pair = false := by
  rw [replayCalls_engine]
  exact ReplayEngine.describes_iff verified present

theorem replay_statistics_two :
    ReplayEngine.Describes ((Session.mk (ReplayEngine.new {}).resetStats ()).replayCalls
      [(none, [quoteEvent]), (none, [laterQuote])]).engine.stats [quoteEvent, laterQuote] ↔
      [quoteEvent, laterQuote].length < 2 ^ 64 ∧
        ∀ pair ∈ adjacent [quoteEvent, laterQuote], ReplayEngine.bothGreatest pair = false :=
  replay_statistics_iff (ReplayEngine.new {}) ()
    [(none, [quoteEvent]), (none, [laterQuote])] rfl (List.cons_ne_nil _ _)

def lastQuote : CanonicalEvent := { quoteEvent with sequence := 0xFFFFFFFFFFFFFFFF }

/-- The greatest sequence twice in a row counts as a break. -/
theorem greatest_twice_breaks :
    ((Session.mk (ReplayEngine.new {})
      ()).replayCalls [(none, [lastQuote, lastQuote])]).engine.stats.sequenceBreaks = 1 ∧
      (adjacent [lastQuote, lastQuote]).countP ReplayEngine.breaks = 0 := by
  decide

end Session

end VectorTick
