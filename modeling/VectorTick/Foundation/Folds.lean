import Mathlib.Data.UInt
import Mathlib.Tactic

/-! Folds that sum and that keep the least element, over lists cut into pieces or filtered. -/

set_option autoImplicit false

namespace Foundation

section Least

variable {α : Type} [LinearOrder α]

theorem foldl_min_spec {top : α} {values : List α} (some : values ≠ [])
    (below : ∀ value ∈ values, value ≤ top) :
    values.foldl min top ∈ values ∧ ∀ value ∈ values, values.foldl min top ≤ value := by
  induction values generalizing top with
  | nil => exact absurd rfl some
  | cons first rest ih =>
    have start : min top first = first := min_eq_right (below first List.mem_cons_self)
    rw [List.foldl_cons, start]
    cases rest with
    | nil => simp
    | cons second rest =>
      -- The fold from `first` is the smaller of `first` and the fold from a bound of the rest.
      have split : (second :: rest).foldl min first =
          min first ((second :: rest).foldl min top) := by
        have lower : min first top = first := min_eq_left (below first List.mem_cons_self)
        conv_lhs => rw [← lower, List.foldl_assoc]
      obtain ⟨member, least⟩ :=
        @ih top (by simp) fun value listed => below value (List.mem_cons_of_mem _ listed)
      rw [split]
      constructor
      · rcases min_choice first ((second :: rest).foldl min top) with same | same
        · rw [same]
          exact List.mem_cons_self
        · rw [same]
          exact List.mem_cons_of_mem _ member
      · intro value listed
        rcases List.mem_cons.mp listed with rfl | later
        · exact min_le_left _ _
        · exact le_trans (min_le_right _ _) (least value later)

/-- The least value of the elements that pass is the least value of all, where zero stands for the
least value of nothing. -/
def LeastKept {T : Type} (value : T → α) (zero : α) (pass : T → Bool) (items : List T) : Prop :=
  items = [] ∨ (∃ item ∈ items, pass item = true ∧ ∀ other ∈ items, value item ≤ value other) ∨
    ((∀ item ∈ items, pass item = false) ∧ (∃ item ∈ items, value item = zero) ∧
      ∀ item ∈ items, zero ≤ value item)

def leastOr (zero top : α) (values : List α) : α :=
  if values = [] then zero else values.foldl min top

theorem leastOr_filter_iff {T : Type} {value : T → α} {zero top top' : α}
    {pass : T → Bool} {items : List T}
    (below : ∀ item ∈ items, value item ≤ top) (below' : ∀ item ∈ items, value item ≤ top') :
    leastOr zero top ((items.filter pass).map value) = leastOr zero top' (items.map value) ↔
      LeastKept value zero pass items := by
  unfold leastOr LeastKept
  by_cases empty : items = []
  · subst empty
    simp
  have someAll : items.map value ≠ [] := by simpa using empty
  obtain ⟨memberAll, leastAll⟩ := foldl_min_spec someAll (by simpa using below')
  rw [if_neg someAll]
  obtain ⟨best, bestListed, bestValue⟩ := List.mem_map.mp memberAll
  by_cases none : items.filter pass = []
  · have failed : ∀ item ∈ items, pass item = false := by simpa [List.filter_eq_nil_iff] using none
    rw [if_pos (by rw [none]; rfl)]
    constructor
    · intro same
      refine .inr (.inr
        ⟨failed, ⟨best, bestListed, bestValue.trans same.symm⟩, fun item listed => ?_⟩)
      rw [same]
      exact leastAll _ (List.mem_map_of_mem listed)
    · rintro (nothing | ⟨item, listed, passed, _⟩ | ⟨_, ⟨item, listed, isZero⟩, bound⟩)
      · exact absurd nothing empty
      · rw [failed item listed] at passed
        cases passed
      · apply le_antisymm
        · rw [← bestValue]
          exact bound best bestListed
        · rw [← isZero]
          exact leastAll _ (List.mem_map_of_mem listed)
  · have somePass : (items.filter pass).map value ≠ [] := by simpa using none
    have belowPass : ∀ v ∈ (items.filter pass).map value, v ≤ top := by
      intro v listed
      obtain ⟨item, kept, rfl⟩ := List.mem_map.mp listed
      exact below item (List.mem_filter.mp kept).1
    obtain ⟨memberPass, leastPass⟩ := foldl_min_spec somePass belowPass
    rw [if_neg somePass]
    obtain ⟨found, kept, foundValue⟩ := List.mem_map.mp memberPass
    obtain ⟨foundListed, foundPassed⟩ := List.mem_filter.mp kept
    constructor
    · intro same
      refine .inr (.inl ⟨found, foundListed, foundPassed, fun other listed => ?_⟩)
      rw [foundValue, same]
      exact leastAll _ (List.mem_map_of_mem listed)
    · rintro (nothing | ⟨item, listed, passed, least⟩ | ⟨failed, _⟩)
      · exact absurd nothing empty
      · apply le_antisymm
        · rw [← bestValue]
          exact le_trans (leastPass _ (List.mem_map_of_mem (List.mem_filter.mpr ⟨listed, passed⟩)))
            (least best bestListed)
        · rw [← foundValue]
          exact leastAll _ (List.mem_map_of_mem foundListed)
      · rw [failed found foundListed] at foundPassed
        cases foundPassed

theorem key_foldl {T : Type} (key : T → α) (step : T → T → T)
    (keys : ∀ kept value, key (step kept value) = min (key kept) (key value)) (start : T)
    (values : List T) : key (values.foldl step start) = (values.map key).foldl min (key start) := by
  induction values generalizing start with
  | nil => rfl
  | cons value values ih => rw [List.foldl_cons, ih, keys, List.map_cons, List.foldl_cons]

theorem min_foldl_cons (acc first : α) (rest : List α) :
    min acc (rest.foldl min first) = (first :: rest).foldl min acc := by
  rw [List.foldl_cons, List.foldl_assoc]

end Least

theorem foldl_add_word (acc : UInt64) (values : List UInt64) :
    values.foldl (fun total value => total + value) acc = acc + values.sum := by
  induction values generalizing acc with
  | nil => simp
  | cons value values ih => rw [List.foldl_cons, ih, List.sum_cons, UInt64.add_assoc]

theorem sum_filter_word {T : Type} (word : T → UInt64) (pass : T → Bool) (items : List T) :
    (items.map word).sum = ((items.filter pass).map word).sum +
      ((items.filter fun item => !pass item).map word).sum := by
  induction items with
  | nil => simp
  | cons item items ih =>
    rw [List.map_cons, List.sum_cons, ih, List.filter_cons, List.filter_cons]
    by_cases passed : pass item = true
    · simp [passed, UInt64.add_assoc]
    · rw [Bool.not_eq_true] at passed
      simp only [passed, Bool.false_eq_true, if_false, Bool.not_false, if_true,
        List.map_cons, List.sum_cons]
      rw [← UInt64.add_assoc, ← UInt64.add_assoc, UInt64.add_comm (word item)]

theorem sum_filter_word_iff {T : Type} (word : T → UInt64) (pass : T → Bool) (items : List T) :
    ((items.filter pass).map word).sum = (items.map word).sum ↔
      ((items.filter fun item => !pass item).map word).sum = 0 := by
  rw [sum_filter_word word pass items]
  constructor
  · intro same
    have cancelled := congrArg (fun total => total - ((items.filter pass).map word).sum) same
    simp only [UInt64.sub_self] at cancelled
    rw [UInt64.add_comm, UInt64.add_sub_cancel] at cancelled
    exact cancelled.symm
  · intro zero
    rw [zero, UInt64.add_zero]

section Running

variable {α : Type} [LE α]

/-- The least of the values, or the start if there is none. -/
def IsLeastFrom (start : α) (values : List α) (least : α) : Prop :=
  (values = [] ∧ least = start) ∨ (least ∈ values ∧ ∀ value ∈ values, least ≤ value)

/-- The greatest of the values, or the start if there is none. -/
def IsGreatestFrom (start : α) (values : List α) (greatest : α) : Prop :=
  (values = [] ∧ greatest = start) ∨ (greatest ∈ values ∧ ∀ value ∈ values, value ≤ greatest)

theorem IsLeastFrom.le {start least : α} {values : List α}
    (known : IsLeastFrom start values least) {value : α}
    (member : value ∈ values) : least ≤ value := by
  rcases known with ⟨rfl, _⟩ | ⟨_, lower⟩
  · cases member
  · exact lower value member

theorem IsGreatestFrom.le {start greatest : α} {values : List α}
    (known : IsGreatestFrom start values greatest)
    {value : α} (member : value ∈ values) : value ≤ greatest := by
  rcases known with ⟨rfl, _⟩ | ⟨_, upper⟩
  · cases member
  · exact upper value member

variable [LT α] [DecidableLT α] [Std.IsLinearOrder α] [Std.LawfulOrderLT α]

theorem IsLeastFrom.step {start least : α} {values : List α}
    (known : IsLeastFrom start values least)
    (last : ∀ value : α, value ≤ start) (value : α) :
    IsLeastFrom start (values ++ [value]) (if value < least then value else least) := by
  refine .inr ?_
  rcases known with ⟨rfl, rfl⟩ | ⟨member, lower⟩
  · have below := last value
    constructor <;> grind
  · have kept : ∀ other ∈ values ++ [value], (if value < least then value else least) ≤ other := by
      intro other listed
      rcases List.mem_append.mp listed with earlier | single
      · have bound := lower other earlier
        grind
      · rw [List.mem_singleton] at single
        grind
    exact ⟨by grind, kept⟩

theorem IsGreatestFrom.step {start greatest : α} {values : List α}
    (known : IsGreatestFrom start values greatest)
    (first : ∀ value : α, start ≤ value) (value : α) :
    IsGreatestFrom start (values ++ [value]) (if value > greatest then value else greatest) := by
  refine .inr ?_
  rcases known with ⟨rfl, rfl⟩ | ⟨member, upper⟩
  · have above := first value
    constructor <;> grind
  · have kept : ∀ other ∈ values ++ [value], other ≤
        (if value > greatest then value else greatest) := by
      intro other listed
      rcases List.mem_append.mp listed with earlier | single
      · have bound := upper other earlier
        grind
      · rw [List.mem_singleton] at single
        grind
    exact ⟨by grind, kept⟩

end Running

end Foundation
