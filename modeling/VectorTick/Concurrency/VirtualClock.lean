import Mathlib.Tactic
import VectorTick.Foundation.Transitions

/-! The virtual clock, advanced by several threads at once.

A call of `advance_by` loads the clock, adds its duration, and leaves the rest to `advance_to`,
which loads the clock again and exchanges it in a loop. The steps of the calls come in any order.
Loads and exchanges of the one atomic word see its latest value. -/

set_option autoImplicit false

namespace VectorTick

open Foundation

/-- Where a call of `advance_by` is. -/
inductive AdvanceBy where
  | called
  -- `current` has been loaded, and `advance_to` is called with the sum.
  | loaded (current : UInt64)
  -- In the loop of `advance_to`, with its own `current`.
  | advancing (timeNs current : UInt64)
  | returned
  deriving DecidableEq, Repr

/-- The clock and the calls on it. -/
structure VirtualClock (ι : Type) where
  currentTimeNs : UInt64
  calls : ι → AdvanceBy

/-- A call takes its next atomic step; a weak exchange may fail although it finds what it expects.
-/
structure Turn (ι : Type) where
  call : ι
  spurious : Bool := false

namespace VirtualClock

variable {ι : Type} [DecidableEq ι]

def start (startTimeNs : UInt64) : VirtualClock ι := ⟨startTimeNs, fun _ => .called⟩

def setCall (clock : VirtualClock ι) (i : ι) (call : AdvanceBy) : VirtualClock ι :=
  { clock with calls := Function.update clock.calls i call }

/-- One turn of the loop: it is left if the time was reached; else the exchange takes place,
or `current` is loaded again. -/
def exchange (clock : VirtualClock ι) (i : ι) (spurious : Bool) (timeNs current : UInt64) :
    VirtualClock ι :=
  if ¬ timeNs > current then clock.setCall i .returned
  else if clock.currentTimeNs = current ∧ spurious = false then
    { clock with currentTimeNs := timeNs }.setCall i .returned
  else clock.setCall i (.advancing timeNs clock.currentTimeNs)

def step (durations : ι → UInt64) (clock : VirtualClock ι) (turn : Turn ι) :
    Option (VirtualClock ι) :=
  match clock.calls turn.call with
  | .called => some (clock.setCall turn.call (.loaded clock.currentTimeNs))
  | .loaded current =>
    some (clock.setCall turn.call (.advancing (current + durations turn.call) clock.currentTimeNs))
  | .advancing timeNs current => some (clock.exchange turn.call turn.spurious timeNs current)
  | .returned => none

/-- The step ends its call. -/
def Ends (clock : VirtualClock ι) (spurious : Bool) (timeNs current : UInt64) : Prop :=
  ¬ timeNs > current ∨ (clock.currentTimeNs = current ∧ spurious = false)

instance (clock : VirtualClock ι) (spurious : Bool) (timeNs current : UInt64) :
    Decidable (clock.Ends spurious timeNs current) := inferInstanceAs (Decidable (_ ∨ _))

/-- If the step ends a call with a duration, the loop has the value that `advance_by` loaded
first. -/
def Undisturbed (durations : ι → UInt64) (clock : VirtualClock ι) (turn : Turn ι) : Prop :=
  match clock.calls turn.call with
  | .advancing timeNs current =>
    durations turn.call ≠ 0 → clock.Ends turn.spurious timeNs current →
      current + durations turn.call = timeNs
  | _ => True

variable {durations : ι → UInt64} {clock next : VirtualClock ι} {turn : Turn ι}

theorem exchange_cases (clock : VirtualClock ι) (i : ι) (spurious : Bool)
    (timeNs current : UInt64) :
    (timeNs ≤ current ∧ clock.exchange i spurious timeNs current = clock.setCall i .returned) ∨
    (current < timeNs ∧ clock.currentTimeNs = current ∧ spurious = false ∧
      clock.exchange i spurious timeNs current =
        { clock with currentTimeNs := timeNs }.setCall i .returned) ∨
    (current < timeNs ∧ ¬ (clock.currentTimeNs = current ∧ spurious = false) ∧
      clock.exchange i spurious timeNs current =
        clock.setCall i (.advancing timeNs clock.currentTimeNs)) := by
  unfold exchange
  by_cases reached : timeNs > current
  · rw [if_neg (not_not_intro reached)]
    by_cases found : clock.currentTimeNs = current ∧ spurious = false
    · rw [if_pos found]
      exact .inr (.inl ⟨reached, found.1, found.2, rfl⟩)
    · rw [if_neg found]
      exact .inr (.inr ⟨reached, found, rfl⟩)
  · rw [if_pos reached]
    exact .inl ⟨UInt64.not_lt.mp reached, rfl⟩

theorem step_le (stepped : step durations clock turn = some next) :
    clock.currentTimeNs ≤ next.currentTimeNs := by
  unfold step at stepped
  cases call : clock.calls turn.call with
  | called =>
    rw [call] at stepped
    cases stepped
    exact UInt64.le_refl _
  | loaded current =>
    rw [call] at stepped
    cases stepped
    exact UInt64.le_refl _
  | advancing timeNs current =>
    rw [call] at stepped
    cases stepped
    rcases clock.exchange_cases turn.call turn.spurious timeNs current with
      ⟨-, same⟩ | ⟨above, found, -, same⟩ | ⟨-, -, same⟩
    · rw [same]
      exact UInt64.le_refl _
    · rw [same, found]
      exact UInt64.le_of_lt above
    · rw [same]
      exact UInt64.le_refl _
  | returned =>
    rw [call] at stepped
    cases stepped

theorem runs_le {turns : List (Turn ι)} {clock final : VirtualClock ι}
    (run : runs (step durations) turns clock = some final) :
    clock.currentTimeNs ≤ final.currentTimeNs := by
  have kept : ∀ {reached : VirtualClock ι} {turn : Turn ι} {next : VirtualClock ι},
      clock.currentTimeNs ≤ reached.currentTimeNs → step durations reached turn = some next →
        clock.currentTimeNs ≤ next.currentTimeNs :=
          fun before stepped => UInt64.le_trans before (step_le stepped)
  exact runs_invariant kept (UInt64.le_refl _) run

section Earned

variable [Fintype ι]

def earned (durations : ι → UInt64) (clock : VirtualClock ι) : Nat :=
  ∑ i with clock.calls i = .returned, (durations i).toNat

/-- Every call has loaded what the clock was at some time, and the clock is no further than the
calls that have returned could bring it. -/
structure Behind (durations : ι → UInt64) (startTimeNs : UInt64)
    (clock : VirtualClock ι) : Prop where
  loaded : ∀ i current, clock.calls i = .loaded current → current ≤ clock.currentTimeNs
  advancing : ∀ i timeNs current, clock.calls i = .advancing timeNs current →
    ∃ base, timeNs = base + durations i ∧ base ≤ current ∧ current ≤ clock.currentTimeNs
  bound : clock.currentTimeNs.toNat ≤ startTimeNs.toNat + earned durations clock

def lost (durations : ι → UInt64) (startTimeNs : UInt64) (clock : VirtualClock ι) : Nat :=
  startTimeNs.toNat + earned durations clock - clock.currentTimeNs.toNat

theorem earned_setCall {i : ι} {call : AdvanceBy} (open_ : clock.calls i ≠ .returned)
    (goesOn : call ≠ .returned) :
    earned durations (clock.setCall i call) = earned durations clock := by
  unfold earned setCall
  congr 1
  ext j
  by_cases same : j = i
  · subst same
    simp [open_, goesOn]
  · simp [Function.update_of_ne same]

theorem earned_returned {i : ι} (open_ : clock.calls i ≠ .returned) :
    earned durations (clock.setCall i .returned) =
      earned durations clock + (durations i).toNat := by
  have returned : (Finset.univ.filter fun j => (clock.setCall i .returned).calls j = .returned) =
      insert i (Finset.univ.filter fun j => clock.calls j = .returned) := by
    ext j
    rw [Finset.mem_insert, Finset.mem_filter, Finset.mem_filter]
    by_cases same : j = i
    · subst same
      simp [setCall]
    · simp [setCall, same]
  rw [earned, returned, Finset.sum_insert (by simpa using open_), earned, Nat.add_comm]

theorem earned_le (i : ι) (open_ : clock.calls i ≠ .returned) :
    earned durations clock + (durations i).toNat ≤ ∑ j, (durations j).toNat := by
  rw [← earned_returned open_, earned]
  exact Finset.sum_le_sum_of_subset (Finset.filter_subset _ _)

theorem Behind.fits {startTimeNs base : UInt64} (behind : Behind durations startTimeNs clock)
    (total : startTimeNs.toNat + ∑ i, (durations i).toNat < 2 ^ 64) {i : ι}
    (open_ : clock.calls i ≠ .returned)
    (before : base ≤ clock.currentTimeNs) :
    (base + durations i).toNat = base.toNat + (durations i).toNat := by
  have room := @earned_le _ _ durations clock _ i open_
  have bound := behind.bound
  rw [UInt64.le_iff_toNat_le] at before
  rw [UInt64.toNat_add, Nat.mod_eq_of_lt (by omega)]

theorem Behind.setCall {startTimeNs : UInt64} (behind : Behind durations startTimeNs clock)
    {i : ι} {call : AdvanceBy}
    (open_ : clock.calls i ≠ .returned) (goesOn : call ≠ .returned)
    (loaded : ∀ current, call = .loaded current → current ≤ clock.currentTimeNs)
    (advancing : ∀ timeNs current, call = .advancing timeNs current →
      ∃ base, timeNs = base + durations i ∧ base ≤ current ∧ current ≤ clock.currentTimeNs) :
    Behind durations startTimeNs (clock.setCall i call) where
  loaded := by
    intro j current at_
    by_cases same : j = i
    · subst same
      exact loaded current (by simpa [VirtualClock.setCall] using at_)
    · exact behind.loaded j current
        (by simpa [VirtualClock.setCall, Function.update_of_ne same] using at_)
  advancing := by
    intro j timeNs current at_
    by_cases same : j = i
    · subst same
      exact advancing timeNs current (by simpa [VirtualClock.setCall] using at_)
    · exact behind.advancing j timeNs current
        (by simpa [VirtualClock.setCall, Function.update_of_ne same] using at_)
  bound := by
    rw [earned_setCall open_ goesOn]
    exact behind.bound

theorem Behind.returned {startTimeNs reached : UInt64}
    (behind : Behind durations startTimeNs clock) {i : ι}
    (open_ : clock.calls i ≠ .returned) (forward : clock.currentTimeNs ≤ reached)
    (within : reached.toNat ≤ startTimeNs.toNat + earned durations clock + (durations i).toNat) :
    Behind durations startTimeNs ({ clock with currentTimeNs := reached }.setCall i .returned) where
  loaded := by
    intro j current at_
    by_cases same : j = i
    · subst same
      simp [VirtualClock.setCall] at at_
    · exact UInt64.le_trans (behind.loaded j current
        (by simpa [VirtualClock.setCall, Function.update_of_ne same] using at_))
        forward
  advancing := by
    intro j timeNs current at_
    by_cases same : j = i
    · subst same
      simp [VirtualClock.setCall] at at_
    · obtain ⟨base, sum, before, after⟩ := behind.advancing j timeNs current
        (by simpa [VirtualClock.setCall, Function.update_of_ne same] using at_)
      exact ⟨base, sum, before, UInt64.le_trans after forward⟩
  bound := by
    have more := @earned_returned _ _ durations { clock with currentTimeNs := reached } _ i open_
    have same : earned durations { clock with currentTimeNs := reached } = earned durations clock :=
      rfl
    rw [more, same, ← Nat.add_assoc]
    exact within

theorem step_lost {startTimeNs : UInt64}
    (total : startTimeNs.toNat + ∑ i, (durations i).toNat < 2 ^ 64)
    (behind : Behind durations startTimeNs clock)
    (stepped : step durations clock turn = some next) :
    Behind durations startTimeNs next ∧ lost durations startTimeNs clock ≤
      lost durations startTimeNs next ∧
      (lost durations startTimeNs next = lost durations startTimeNs clock ↔
        Undisturbed durations clock turn) := by
  unfold step at stepped
  unfold Undisturbed
  cases call : clock.calls turn.call with
  | called =>
    have open_ : clock.calls turn.call ≠ .returned := by rw [call]; exact AdvanceBy.noConfusion
    rw [call] at stepped
    cases stepped
    refine ⟨behind.setCall open_ (by exact AdvanceBy.noConfusion) ?_
      (fun _ _ is => AdvanceBy.noConfusion is), ?_⟩
    · rintro _ ⟨⟩
      exact UInt64.le_refl _
    · unfold lost
      rw [earned_setCall open_ (by exact AdvanceBy.noConfusion)]
      exact ⟨Nat.le_refl _, iff_of_true rfl trivial⟩
  | loaded current =>
    have open_ : clock.calls turn.call ≠ .returned := by rw [call]; exact AdvanceBy.noConfusion
    rw [call] at stepped
    cases stepped
    refine ⟨behind.setCall open_ (by exact AdvanceBy.noConfusion)
      (fun _ is => AdvanceBy.noConfusion is) ?_, ?_⟩
    · rintro _ _ ⟨⟩
      exact ⟨current, rfl, behind.loaded _ _ call, UInt64.le_refl _⟩
    · unfold lost
      rw [earned_setCall open_ (by exact AdvanceBy.noConfusion)]
      exact ⟨Nat.le_refl _, iff_of_true rfl trivial⟩
  | advancing timeNs current =>
    have open_ : clock.calls turn.call ≠ .returned := by rw [call]; exact AdvanceBy.noConfusion
    obtain ⟨base, sum, before, after⟩ := behind.advancing _ _ _ call
    have fits := behind.fits total open_ (UInt64.le_trans before after)
    rw [call] at stepped
    cases stepped
    have fitsNow := behind.fits total open_ after
    have reads : (durations turn.call ≠ 0 → clock.Ends turn.spurious timeNs current →
        current + durations turn.call = timeNs) ↔ ((durations turn.call).toNat ≠ 0 →
          clock.Ends turn.spurious timeNs current →
            current.toNat + (durations turn.call).toNat = timeNs.toNat) := by
      rw [← UInt64.toNat_inj, fitsNow, ne_eq, ne_eq, ← UInt64.toNat_inj]
      rfl
    have time : timeNs.toNat = base.toNat + (durations turn.call).toNat := by rw [sum, fits]
    have bound := behind.bound
    rw [UInt64.le_iff_toNat_le] at before after
    dsimp only
    rw [reads]
    rcases clock.exchange_cases turn.call turn.spurious timeNs current with
      ⟨reached, same⟩ | ⟨above, found, fine, same⟩ | ⟨above, missed, same⟩
    · -- The time was reached by others, and the duration is lost.
      have ends : clock.Ends turn.spurious timeNs current := .inl (UInt64.not_lt.mpr reached)
      rw [UInt64.le_iff_toNat_le] at reached
      rw [same]
      refine ⟨behind.returned open_ (UInt64.le_refl _) (by omega), ?_⟩
      unfold lost
      rw [earned_returned open_]
      change _ ≤ _ - clock.currentTimeNs.toNat ∧ (_ - clock.currentTimeNs.toNat = _ ↔ _)
      refine ⟨by omega, fun kept _ _ => by omega, fun undisturbed => ?_⟩
      by_cases zero : (durations turn.call).toNat = 0
      · omega
      · have equal := undisturbed zero ends
        omega
    · -- The exchange: what others added since the first load is lost.
      have ends : clock.Ends turn.spurious timeNs current := .inr ⟨found, fine⟩
      have forward : clock.currentTimeNs ≤ timeNs := by
        rw [found]
        exact UInt64.le_of_lt above
      have now := congrArg UInt64.toNat found
      rw [UInt64.lt_iff_toNat_lt] at above
      rw [same]
      have more :=
        @earned_returned _ _ durations { clock with currentTimeNs := timeNs } _ turn.call open_
      have kept : earned durations { clock with currentTimeNs := timeNs } =
        earned durations clock := rfl
      refine ⟨behind.returned open_ forward (by omega), ?_⟩
      unfold lost
      rw [more, kept]
      change _ ≤ _ - timeNs.toNat ∧ (_ - timeNs.toNat = _ ↔ _)
      refine ⟨by omega, fun same _ _ => by omega, fun undisturbed => ?_⟩
      have equal := undisturbed (by omega) ends
      omega
    · -- The loop goes on with what it has loaded now.
      have still : ¬ clock.Ends turn.spurious timeNs current :=
        not_or.mpr ⟨not_not_intro above, missed⟩
      rw [same]
      refine ⟨behind.setCall open_ (by exact AdvanceBy.noConfusion)
        (fun _ is => AdvanceBy.noConfusion is) ?_, ?_⟩
      · rintro _ _ ⟨⟩
        refine ⟨base, sum, ?_, UInt64.le_refl _⟩
        rw [UInt64.le_iff_toNat_le]
        omega
      · unfold lost
        rw [earned_setCall open_ (by exact AdvanceBy.noConfusion)]
        exact ⟨Nat.le_refl _, iff_of_true rfl fun _ ends => absurd ends still⟩
  | returned =>
    rw [call] at stepped
    cases stepped

omit [DecidableEq ι] in
theorem start_behind (durations : ι → UInt64) (startTimeNs : UInt64) :
    Behind durations startTimeNs (start startTimeNs) where
  loaded := fun _ _ is => AdvanceBy.noConfusion is
  advancing := fun _ _ _ is => AdvanceBy.noConfusion is
  bound := Nat.le_add_right ..

omit [DecidableEq ι] in
theorem start_lost (durations : ι → UInt64) (startTimeNs : UInt64) :
    lost durations startTimeNs (start startTimeNs) = 0 := by
  have none : earned durations (start startTimeNs) = 0 := by simp [earned, start]
  rw [lost, none, start]
  exact Nat.sub_self _

/-- In any order of the steps the clock never goes back; and when all calls have returned it
stands at the start and all durations exactly if every step was undisturbed. -/
theorem virtual_time_iff (startTimeNs : UInt64) (durations : ι → UInt64) {turns : List (Turn ι)}
    {final : VirtualClock ι}
    (total : startTimeNs.toNat + ∑ i, (durations i).toNat < 2 ^ 64)
    (run : runs (step durations) turns (start startTimeNs) = some final) :
    (∀ before after reached, turns = before ++ after →
      runs (step durations) before (start startTimeNs) = some reached →
      reached.currentTimeNs ≤ final.currentTimeNs) ∧
    ((∀ i, final.calls i = .returned) →
      (final.currentTimeNs.toNat = startTimeNs.toNat + ∑ i, (durations i).toNat ↔
        Meets (step durations) (Undisturbed durations) turns (start startTimeNs))) := by
  constructor
  · rintro before after reached rfl early
    rw [runs_append, early] at run
    exact runs_le run
  · intro all
    have behind := runs_invariant (fun behind stepped => (step_lost total behind stepped).1)
      (start_behind durations startTimeNs) run
    have level := (runs_level_iff (fun behind stepped => (step_lost total behind stepped).1)
      (fun behind stepped => (step_lost total behind stepped).2)
        (start_behind durations startTimeNs) run).2
    have everything : earned durations final = ∑ i, (durations i).toNat := by
      rw [earned, Finset.filter_true_of_mem fun i _ => all i]
    have bound := behind.bound
    rw [everything] at bound
    rw [← level, start_lost, lost, everything]
    omega

end Earned

def tens : Bool → UInt64 := fun _ => 10

def inTurn : List (Turn Bool) :=
  [⟨false, false⟩, ⟨false, false⟩, ⟨false, true⟩, ⟨false, false⟩, ⟨true, false⟩, ⟨true, false⟩,
  ⟨true, false⟩]

theorem virtual_time_in_turn : ∃ final, runs (step tens) inTurn (start 0) = some final ∧
    (∀ i, final.calls i = .returned) ∧
    ((∀ i, final.calls i = .returned) →
      (final.currentTimeNs.toNat = (0 : UInt64).toNat + ∑ i, (tens i).toNat ↔
      Meets (step tens) (Undisturbed tens) inTurn (start 0))) := by
  have ends : (runs (step tens) inTurn (start 0)).isSome = true := by decide
  have all : ∀ i, ((runs (step tens) inTurn (start 0)).get (by decide)).calls i =
      .returned := by decide
  refine ⟨(runs (step tens) inTurn (start 0)).get ends, (Option.some_get ends).symm, all, ?_⟩
  exact (virtual_time_iff 0 tens (by decide) (Option.some_get ends).symm).2

def overlapping : List (Turn Bool) :=
  [⟨false, false⟩, ⟨true, false⟩, ⟨false, false⟩, ⟨false, false⟩, ⟨true, false⟩, ⟨true, false⟩]

theorem overlapping_advances : (runs (step tens) overlapping (start 0)).map
      (fun final => (final.currentTimeNs, final.calls false, final.calls true)) =
        some (10, .returned, .returned) ∧
    (0 : UInt64).toNat + ∑ i, (tens i).toNat = 20 := by
  decide

end VirtualClock

end VectorTick
