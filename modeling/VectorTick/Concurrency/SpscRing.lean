import Mathlib.Tactic
import VectorTick.Foundation.Transitions

/-! The single-producer, single-consumer ring.

Indices are 64-bit words masked to a power of two. A push and a pop take four steps each, one for
every access to an index or a slot, and the steps of the two threads come in any order. -/

set_option autoImplicit false

namespace VectorTick

open Foundation

/-- The buffer is indexed by words; only the slots below the capacity exist. -/
structure SpscRing (T : Type) where
  capacity : UInt64
  mask : UInt64
  buffer : UInt64 → T
  head : UInt64
  tail : UInt64

namespace SpscRing

variable {T : Type}

/-- `while (new_cap < capacity_) new_cap <<= 1;`, with a bound on the number of rounds. -/
def roundUp (capacity : UInt64) : Nat → UInt64 → UInt64
  | 0, newCap => newCap
  | fuel + 1, newCap => if newCap < capacity then roundUp capacity fuel (newCap <<< 1) else newCap

def slotCount (requested : UInt64) : UInt64 :=
  let capacity := requested + 1
  if capacity &&& (capacity - 1) ≠ 0 then roundUp capacity 64 1 else capacity

def create (requested : UInt64) (contents : UInt64 → T) : SpscRing T where
  capacity := slotCount requested
  mask := slotCount requested - 1
  buffer := contents
  head := 0
  tail := 0

def room (ring : SpscRing T) : UInt64 := ring.capacity - 1

def next (ring : SpscRing T) (index : UInt64) : UInt64 := (index + 1) &&& ring.mask

/-- Where the producer is in `try_push`. -/
inductive Producer (T : Type) where
  | idle
  -- `current_tail` has been loaded.
  | loadedTail (value : T) (currentTail : UInt64)
  -- The head has been loaded and there is room.
  | ready (value : T) (currentTail : UInt64)
  -- The slot has been written.
  | stored (value : T) (currentTail : UInt64)

/-- Where the consumer is in `try_pop`. -/
inductive Consumer (T : Type) where
  | idle
  | loadedHead (currentHead : UInt64)
  -- The tail has been loaded and there is something to pop.
  | ready (currentHead : UInt64)
  -- The slot has been read.
  | loaded (currentHead : UInt64) (value : T)

/-- The ring between its threads, with the values pushed and popped so far. -/
structure Exchange (T : Type) where
  ring : SpscRing T
  producer : Producer T
  consumer : Consumer T
  pushed : List T
  popped : List T

inductive Action (T : Type) where
  -- The producer calls `try_push` with a value and loads the tail.
  | push (value : T)
  | producer
  | consumer

def Exchange.initial (requested : UInt64) (contents : UInt64 → T) : Exchange T :=
  ⟨create requested contents, .idle, .idle, [], []⟩

def produce (state : Exchange T) : Option (Exchange T) :=
  match state.producer with
  | .idle => none
  | .loadedTail value currentTail =>
    if state.ring.next currentTail = state.ring.head then some { state with producer := .idle }
    else some { state with producer := .ready value currentTail }
  | .ready value currentTail => some { state with
      ring := { state.ring with buffer := Function.update state.ring.buffer currentTail value }
      producer := .stored value currentTail }
  | .stored value currentTail => some { state with
      ring := { state.ring with tail := state.ring.next currentTail }
      producer := .idle
      pushed := state.pushed ++ [value] }

def consume (state : Exchange T) : Exchange T :=
  match state.consumer with
  | .idle => { state with consumer := .loadedHead state.ring.head }
  | .loadedHead currentHead =>
    if currentHead = state.ring.tail then { state with consumer := .idle }
    else { state with consumer := .ready currentHead }
  | .ready currentHead =>
    { state with consumer := .loaded currentHead (state.ring.buffer currentHead) }
  | .loaded currentHead value => { state with
      ring := { state.ring with head := state.ring.next currentHead }
      consumer := .idle
      popped := state.popped ++ [value] }

def step (state : Exchange T) : Action T → Option (Exchange T)
  | .push value =>
    match state.producer with
    | .idle => some { state with producer := .loadedTail value state.ring.tail }
    | _ => none
  | .producer => produce state
  | .consumer => some (consume state)

theorem roundUp_spec {capacity : UInt64} (bounded : capacity.toNat ≤ 2 ^ 63)
    {fuel power : Nat} {newCap : UInt64}
    (value : newCap.toNat = 2 ^ power) (low : power ≤ 63) (enough : 64 ≤ fuel + power) :
    ∃ exponent ≤ 63, (roundUp capacity fuel newCap).toNat = 2 ^ exponent ∧
      capacity.toNat ≤ (roundUp capacity fuel newCap).toNat := by
  induction fuel generalizing power newCap with
  | zero => omega
  | succ fuel ih =>
    unfold roundUp
    by_cases less : newCap < capacity
    · have below : 2 ^ power < 2 ^ 63 := by
        rw [UInt64.lt_iff_toNat_lt, value] at less
        omega
      have room : power < 63 := (Nat.pow_lt_pow_iff_right (by omega)).mp below
      have doubled : (newCap <<< 1).toNat = 2 ^ (power + 1) := by
        rw [UInt64.toNat_shiftLeft, value]
        change 2 ^ power <<< 1 % 2 ^ 64 = _
        rw [Nat.shiftLeft_eq, Nat.mod_eq_of_lt (by omega), pow_one, ← pow_succ]
      rw [if_pos less]
      exact ih doubled (by omega) (by omega)
    · rw [if_neg less]
      refine ⟨power, low, value, ?_⟩
      rw [UInt64.lt_iff_toNat_lt] at less
      omega

theorem slotCount_spec {requested : UInt64} (bounded : requested.toNat < 2 ^ 63) :
    ∃ exponent ≤ 63, (slotCount requested).toNat = 2 ^ exponent ∧
      requested.toNat + 1 ≤ (slotCount requested).toNat := by
  have more : (requested + 1).toNat = requested.toNat + 1 := by
    rw [UInt64.toNat_add]
    change (requested.toNat + 1) % 2 ^ 64 = _
    omega
  unfold slotCount
  dsimp only
  split
  · obtain ⟨exponent, low, value, enough⟩ :=
      @roundUp_spec (requested + 1) (by omega) 64 0 1 rfl (by omega) (by omega)
    exact ⟨exponent, low, value, by omega⟩
  · rename_i zero
    rw [ne_eq, not_not] at zero
    have power : (requested + 1).toNat.isPowerOfTwo := by
      rw [← Nat.and_sub_one_eq_zero_iff_isPowerOfTwo (by omega)]
      have words := congrArg UInt64.toNat zero
      rw [UInt64.toNat_and, UInt64.toNat_sub_of_le _ _
        (by rw [UInt64.le_iff_toNat_le, more]; exact Nat.le_add_left 1 _)]
        at words
      exact words
    obtain ⟨exponent, value⟩ := power
    refine ⟨exponent, ?_, value, by omega⟩
    have fits : 2 ^ exponent ≤ 2 ^ 63 := by omega
    exact (Nat.pow_le_pow_iff_right (by omega)).mp fits

def slot (ring : SpscRing T) (count : Nat) : UInt64 := UInt64.ofNat (count % ring.capacity.toNat)

/-- What the capacity and the mask of a ring are. -/
structure Sized (ring : SpscRing T) : Prop where
  power : ∃ exponent ≤ 63, ring.capacity.toNat = 2 ^ exponent
  mask : ring.mask = ring.capacity - 1

namespace Sized

variable {ring : SpscRing T} (sized : Sized ring)

include sized

theorem positive : 0 < ring.capacity.toNat := by
  obtain ⟨exponent, _, value⟩ := sized.power
  rw [value]
  exact Nat.two_pow_pos exponent

theorem bounded : ring.capacity.toNat ≤ 2 ^ 63 := by
  obtain ⟨exponent, low, value⟩ := sized.power
  rw [value]
  exact Nat.pow_le_pow_right (by omega) low

theorem toNat_room : ring.room.toNat = ring.capacity.toNat - 1 := by
  have positive := sized.positive
  rw [room, UInt64.toNat_sub_of_le _ _ (by rw [UInt64.le_iff_toNat_le]; exact positive)]
  rfl

theorem toNat_slot (count : Nat) : (ring.slot count).toNat = count % ring.capacity.toNat := by
  have bounded := sized.bounded
  have below := Nat.mod_lt count sized.positive
  rw [slot, UInt64.toNat_ofNat_of_lt' (show count % ring.capacity.toNat < 2 ^ 64 by omega)]

theorem next_slot (count : Nat) : ring.next (ring.slot count) = ring.slot (count + 1) := by
  obtain ⟨exponent, low, value⟩ := sized.power
  have masked := sized.toNat_room
  have below := Nat.mod_lt count sized.positive
  have bounded := sized.bounded
  rw [← UInt64.toNat_inj, sized.toNat_slot, next, sized.mask, UInt64.toNat_and]
  change (ring.slot count + 1).toNat &&& ring.room.toNat = _
  rw [masked, UInt64.toNat_add, sized.toNat_slot]
  change (count % ring.capacity.toNat + 1) % 2 ^ 64 &&& _ = _
  rw [Nat.mod_eq_of_lt (by omega), value, Nat.and_two_pow_sub_one_eq_mod, Nat.mod_add_mod]

theorem slot_inj {first second : Nat} (order : first ≤ second)
    (near : second - first < ring.capacity.toNat)
    (same : ring.slot first = ring.slot second) : first = second := by
  rw [← UInt64.toNat_inj, sized.toNat_slot, sized.toNat_slot] at same
  have divides := (Nat.modEq_iff_dvd' order).mp same
  have zero := Nat.eq_zero_of_dvd_of_lt divides near
  omega

end Sized

/-- What holds of the indices, the slots and the two threads in every reachable state. -/
structure Consistent (state : Exchange T) : Prop where
  sized : Sized state.ring
  head : state.ring.head = state.ring.slot state.popped.length
  tail : state.ring.tail = state.ring.slot state.pushed.length
  order : state.popped.length ≤ state.pushed.length
  room : state.pushed.length - state.popped.length < state.ring.capacity.toNat
  slots : ∀ count value, state.popped.length ≤ count → state.pushed[count]? = some value →
    state.ring.buffer (state.ring.slot count) = value
  front : state.popped <+: state.pushed
  producer : match state.producer with
    | .idle => True
    | .loadedTail _ currentTail => currentTail = state.ring.tail
    -- There stays room: the consumer only makes more of it.
    | .ready _ currentTail => currentTail = state.ring.tail ∧
        state.pushed.length + 1 - state.popped.length < state.ring.capacity.toNat
    | .stored value currentTail => currentTail = state.ring.tail ∧
        state.pushed.length + 1 - state.popped.length < state.ring.capacity.toNat ∧
          state.ring.buffer currentTail = value
  consumer : match state.consumer with
    | .idle => True
    | .loadedHead currentHead => currentHead = state.ring.head
    | .ready currentHead =>
      currentHead = state.ring.head ∧ state.popped.length < state.pushed.length
    | .loaded currentHead value =>
      currentHead = state.ring.head ∧ state.pushed[state.popped.length]? = some value

theorem consistent_initial {requested : UInt64} (bounded : requested.toNat < 2 ^ 63)
    (contents : UInt64 → T) :
    Consistent (Exchange.initial requested contents) := by
  obtain ⟨exponent, low, value, _⟩ := slotCount_spec bounded
  have sized : Sized (create requested contents) := ⟨⟨exponent, low, value⟩, rfl⟩
  have zero : (create requested contents).slot 0 = 0 := by
    rw [slot, Nat.zero_mod]
    rfl
  exact {
    sized
    head := zero.symm
    tail := zero.symm
    order := Nat.le_refl 0
    room := sized.positive
    slots := fun count value _ found => by cases found
    front := List.nil_prefix
    producer := trivial
    consumer := trivial }

theorem Consistent.fresh {state : Exchange T} (held : Consistent state)
    (more : state.pushed.length + 1 - state.popped.length < state.ring.capacity.toNat) {count : Nat}
    (unpopped : state.popped.length ≤ count) (old : count < state.pushed.length) :
    state.ring.slot count ≠ state.ring.tail := by
  intro same
  rw [held.tail] at same
  have order := held.order
  have equal := held.sized.slot_inj (Nat.le_of_lt old) (by omega) same
  omega

theorem consistent_produce {state after : Exchange T} (held : Consistent state)
    (stepped : produce state = some after) :
    Consistent after := by
  have mine := held.producer
  unfold produce at stepped
  cases now : state.producer with
  | idle =>
    rw [now] at stepped
    cases stepped
  | loadedTail value currentTail =>
    rw [now] at stepped mine
    dsimp only at stepped mine
    split at stepped
    · cases stepped
      exact { held with producer := trivial }
    · rename_i different
      cases stepped
      refine { held with producer := ⟨mine, ?_⟩ }
      -- A full ring would have its next tail at the head.
      have near := held.room
      have order := held.order
      by_contra full
      change ¬ state.pushed.length + 1 - state.popped.length < state.ring.capacity.toNat at full
      apply different
      rw [mine, held.tail, held.sized.next_slot, held.head]
      have round : state.pushed.length + 1 =
          state.popped.length + state.ring.capacity.toNat := by omega
      rw [slot, slot, round, Nat.add_mod_right]
  | ready value currentTail =>
    rw [now] at stepped mine
    cases stepped
    obtain ⟨here, more⟩ := mine
    refine { held with
      sized := ⟨held.sized.power, held.sized.mask⟩, slots := ?_, producer := ⟨here, more, ?_⟩ }
    · intro count old unpopped found
      have below : count < state.pushed.length := (List.getElem?_eq_some_iff.mp found).1
      have other := held.fresh more unpopped below
      change Function.update state.ring.buffer currentTail value (state.ring.slot count) = old
      rw [here, Function.update_of_ne other]
      exact held.slots count old unpopped found
    · exact Function.update_self ..
  | stored value currentTail =>
    rw [now] at stepped mine
    cases stepped
    obtain ⟨here, more, written⟩ := mine
    have order := held.order
    have sized : Sized { state.ring with tail := state.ring.next currentTail } :=
      ⟨held.sized.power, held.sized.mask⟩
    have length : (state.pushed ++ [value]).length = state.pushed.length + 1 := List.length_append
    have theirs := held.consumer
    refine {
      sized
      head := held.head
      tail := ?_
      order := ?_
      room := ?_
      slots := ?_
      front := held.front.trans (List.prefix_append _ _)
      producer := trivial
      consumer := ?_ }
    · rw [length, here, held.tail]
      exact held.sized.next_slot _
    · rw [length]
      exact Nat.le_succ_of_le order
    · rw [length]
      exact more
    · intro count old unpopped found
      by_cases last : count = state.pushed.length
      · subst last
        rw [List.getElem?_concat_length] at found
        cases found
        change state.ring.buffer (state.ring.slot state.pushed.length) = value
        rw [← held.tail, ← here]
        exact written
      · have below : count < state.pushed.length := by
          have inside : count < (state.pushed ++ [value]).length :=
            (List.getElem?_eq_some_iff.mp found).1
          omega
        rw [List.getElem?_append_left below] at found
        exact held.slots count old unpopped found
    · -- The consumer saw fewer values than there are now.
      cases waiting : state.consumer with
      | idle => trivial
      | loadedHead currentHead =>
        rw [waiting] at theirs
        exact theirs
      | ready currentHead =>
        rw [waiting] at theirs
        refine ⟨theirs.1, ?_⟩
        rw [length]
        exact Nat.lt_succ_of_lt theirs.2
      | loaded currentHead old =>
        rw [waiting] at theirs
        refine ⟨theirs.1, ?_⟩
        have inside := (List.getElem?_eq_some_iff.mp theirs.2).1
        rw [List.getElem?_append_left inside]
        exact theirs.2

theorem consistent_consume {state : Exchange T} (held : Consistent state) :
    Consistent (consume state) := by
  have mine := held.consumer
  unfold consume
  cases now : state.consumer with
  | idle => exact { held with consumer := rfl }
  | loadedHead currentHead =>
    rw [now] at mine
    dsimp only at mine ⊢
    split
    · exact { held with consumer := trivial }
    · rename_i different
      refine { held with consumer := ⟨mine, ?_⟩ }
      refine Nat.lt_of_le_of_ne held.order fun same => different ?_
      rw [mine, held.head, held.tail, same]
  | ready currentHead =>
    rw [now] at mine
    obtain ⟨here, inside⟩ := mine
    refine { held with consumer := ⟨here, ?_⟩ }
    have found : state.pushed[state.popped.length]? = some (state.pushed.get ⟨_, inside⟩) :=
      List.getElem?_eq_getElem inside
    have read := held.slots _ _ (Nat.le_refl _) found
    rw [← held.head, ← here] at read
    rw [read]
    exact found
  | loaded currentHead value =>
    rw [now] at mine
    obtain ⟨here, found⟩ := mine
    have inside := (List.getElem?_eq_some_iff.mp found).1
    have length : (state.popped ++ [value]).length = state.popped.length + 1 := List.length_append
    have near := held.room
    have theirs := held.producer
    refine {
      sized := ⟨held.sized.power, held.sized.mask⟩
      head := ?_
      tail := held.tail
      order := ?_
      room := ?_
      slots := ?_
      front := ?_
      producer := ?_
      consumer := trivial }
    · rw [length, here, held.head]
      exact held.sized.next_slot _
    · rw [length]
      exact inside
    · rw [length]
      change state.pushed.length - (state.popped.length + 1) < state.ring.capacity.toNat
      omega
    · intro count old unpopped listed
      rw [length] at unpopped
      exact held.slots count old (Nat.le_of_succ_le unpopped) listed
    · obtain ⟨rest, whole⟩ := held.front
      rw [← whole, List.getElem?_append_right (Nat.le_refl _), Nat.sub_self] at found
      cases rest with
      | nil => cases found
      | cons first rest =>
        cases found
        exact ⟨rest, by rw [← whole, List.append_assoc]; rfl⟩
    · -- The producer saw less room than there is now.
      cases waiting : state.producer with
      | idle => trivial
      | loadedTail old currentTail =>
        rw [waiting] at theirs
        exact theirs
      | ready old currentTail =>
        rw [waiting] at theirs
        refine ⟨theirs.1, ?_⟩
        rw [length]
        have more := theirs.2
        change state.pushed.length + 1 - (state.popped.length + 1) < state.ring.capacity.toNat
        omega
      | stored old currentTail =>
        rw [waiting] at theirs
        refine ⟨theirs.1, ?_, theirs.2.2⟩
        rw [length]
        have more := theirs.2.1
        change state.pushed.length + 1 - (state.popped.length + 1) < state.ring.capacity.toNat
        omega

theorem consistent_step {state after : Exchange T} {action : Action T} (held : Consistent state)
    (stepped : step state action = some after) : Consistent after := by
  cases action with
  | push value =>
    unfold step at stepped
    dsimp only at stepped
    split at stepped
    · cases stepped
      exact { held with producer := rfl }
    · cases stepped
  | producer => exact consistent_produce held stepped
  | consumer =>
    cases stepped
    exact consistent_consume held

theorem capacity_step {state after : Exchange T} {action : Action T}
    (stepped : step state action = some after) :
    after.ring.capacity = state.ring.capacity := by
  cases action with
  | push value =>
    unfold step at stepped
    dsimp only at stepped
    split at stepped <;> cases stepped
    rfl
  | producer =>
    change produce state = some after at stepped
    unfold produce at stepped
    split at stepped
    · cases stepped
    · split at stepped <;> cases stepped <;> rfl
    · cases stepped
      rfl
    · cases stepped
      rfl
  | consumer =>
    cases stepped
    unfold consume
    split
    · rfl
    · split <;> rfl
    · rfl
    · rfl

theorem consistent_runs {requested : UInt64}
    (bounded : requested.toNat < 2 ^ 63) {contents : UInt64 → T}
    {actions : List (Action T)} {state : Exchange T}
    (done : runs step actions (Exchange.initial requested contents) = some state) :
    Consistent state ∧ state.ring.capacity = slotCount requested := by
  refine @runs_invariant _ _ _ (fun state => Consistent state ∧
    state.ring.capacity = slotCount requested) ?_ _ _ _
    ⟨consistent_initial bounded contents, rfl⟩ done
  intro before action after held stepped
  exact ⟨consistent_step held.1 stepped, (capacity_step stepped).trans held.2⟩

/-- The ring is a bounded queue: in every reachable state the popped values are the first of the
pushed ones, those not popped yet are in their slots and are not about to be overwritten, and
there are never more of them than the capacity, which is at least the one requested. -/
theorem ring_fifo {requested : UInt64} (bounded : requested.toNat < 2 ^ 63) {contents : UInt64 → T}
    {actions : List (Action T)} {state : Exchange T}
    (done : runs step actions (Exchange.initial requested contents) = some state) :
    state.popped <+: state.pushed ∧
      (∀ count value, state.popped.length ≤ count → state.pushed[count]? = some value →
        state.ring.buffer (state.ring.slot count) = value) ∧
      (∀ value currentTail, state.producer = .ready value currentTail →
        ∀ count, state.popped.length ≤ count → count < state.pushed.length →
          state.ring.slot count ≠ currentTail) ∧
      state.pushed.length - state.popped.length ≤ state.ring.room.toNat ∧
        requested.toNat ≤ state.ring.room.toNat := by
  obtain ⟨held, capacity⟩ := consistent_runs bounded done
  obtain ⟨_, _, _, enough⟩ := slotCount_spec bounded
  have room := held.room
  refine ⟨held.front, held.slots, ?_, ?_, ?_⟩
  · intro value currentTail ready count unpopped old
    have mine := held.producer
    rw [ready] at mine
    rw [mine.1]
    exact held.fresh mine.2 unpopped old
  · rw [held.sized.toNat_room]
    omega
  · rw [held.sized.toNat_room, capacity]
    omega

theorem ring_fifo_pair :
    let actions : List (Action Nat) :=
  [.push 7, .producer, .producer, .consumer, .producer, .consumer, .push 8,
      .consumer, .consumer, .consumer, .producer, .consumer, .producer, .consumer, .producer]
    ∃ state, runs step actions (Exchange.initial 1 fun _ => 0) =
      some state ∧ state.pushed = [7, 8] ∧
      state.popped = [7] ∧ state.popped <+: state.pushed := by
  intro actions
  refine ⟨_, rfl, rfl, rfl, ?_⟩
  exact (@ring_fifo Nat 1 (by decide) (fun _ => 0) actions _ rfl).1

end SpscRing

end VectorTick
