import VectorTick.Execution.Selection
import VectorTick.Query.TypeChecker
import Mathlib.Tactic

/-! Which filters mean what they say.

A filter that is not `column op literal` selects everything, so connectives agree with the sets of
their operands only where those are everything or nothing. A leaf on one of the four columns with
a branch of its own compares with the literal cast to the column's type.
-/

set_option autoImplicit false

namespace VectorTick.VectorExecutor

open Foundation Vts1 Query

/-- A connective between a bare column and a bare literal is taken for a comparison with an
operator that no branch knows. -/
def connectivePasses (p q : Expression) (event : CanonicalEvent) : Prop :=
  match p, q with
  | .columnRef col _ _, .literal value _ _ =>
    (col ≠ nameBytes "price_ticks" ∧ col ≠ nameBytes "instrument_id" ∧ col ≠ nameBytes "quantity") ∧
      (col = nameBytes "venue_id" → event.venueId = value.toUInt16)
  | _, _ => True

theorem passes_connective {op : TokenType} (connective : op = .and ∨ op = .or)
    (p q : Expression) (line column : Nat)
    (event : CanonicalEvent) :
    passes (some (.binaryOp op p q line column)) event = true ↔ connectivePasses p q event := by
  unfold passes connectivePasses
  split
  · rename_i filter op' col l₁ c₁ value l₂ c₂ l₃ c₃ same
    cases same
    unfold matchesLeaf
    have price (litInt field : Int64) : matchesPrice op litInt field = false := by
      rcases connective with rfl | rfl <;> rfl
    have instrument (target field : UInt32) : matchesInstrument op target field = false := by
      rcases connective with rfl | rfl <;> rfl
    have quantity (target field : UInt32) : matchesQuantity op target field = false := by
      rcases connective with rfl | rfl <;> rfl
    rw [price, instrument, quantity]
    by_cases isPrice : col = nameBytes "price_ticks"
    · rw [if_pos isPrice]
      exact ⟨fun never => absurd never Bool.false_ne_true, fun ⟨other, _⟩ => absurd isPrice other.1⟩
    rw [if_neg isPrice]
    by_cases isInstrument : col = nameBytes "instrument_id"
    · rw [if_pos isInstrument]
      exact ⟨fun never => absurd never Bool.false_ne_true, fun ⟨other, _⟩ =>
        absurd isInstrument other.2.1⟩
    rw [if_neg isInstrument]
    by_cases isQuantity : col = nameBytes "quantity"
    · rw [if_pos isQuantity]
      exact ⟨fun never => absurd never Bool.false_ne_true, fun ⟨other, _⟩ =>
        absurd isQuantity other.2.2⟩
    rw [if_neg isQuantity]
    by_cases isVenue : col = nameBytes "venue_id"
    · rw [if_pos isVenue]
      exact ⟨fun same => ⟨⟨isPrice, isInstrument, isQuantity⟩, fun _ => of_decide_eq_true same⟩,
        fun ⟨_, venue⟩ => decide_eq_true (venue isVenue)⟩
    · rw [if_neg isVenue]
      exact ⟨fun _ =>
        ⟨⟨isPrice, isInstrument, isQuantity⟩, fun venue => absurd venue isVenue⟩, fun _ => rfl⟩
  · rename_i shape
    split
    · exact absurd rfl (shape _ _ _ _ _ _ _ _ _)
    · exact ⟨fun _ => trivial, fun _ => rfl⟩

theorem connectivePasses_or (p q : Expression) (event : CanonicalEvent) :
    connectivePasses p q event ∨ (passes (some p) event = true ∧ passes (some q) event = true) := by
  unfold connectivePasses
  split
  · exact .inr ⟨rfl, rfl⟩
  · exact .inl trivial

theorem forall_rows_iff {events : List CanonicalEvent} {first second : CanonicalEvent → Prop} :
    (∀ row : Nat, (∃ event, events[row]? = some event ∧ first event) ↔
      (∃ event, events[row]? = some event ∧ second event)) ↔
        ∀ event ∈ events, (first event ↔ second event) := by
  constructor
  · intro same event member
    obtain ⟨row, inside, rfl⟩ := List.getElem_of_mem member
    have here := same row
    rw [List.getElem?_eq_getElem inside] at here
    simpa using here
  · intro same row
    constructor
    · rintro ⟨event, found, holds⟩
      exact ⟨event, found, (same event (List.mem_of_getElem? found)).mp holds⟩
    · rintro ⟨event, found, holds⟩
      exact ⟨event, found, (same event (List.mem_of_getElem? found)).mpr holds⟩

/-- `p AND q` selects the intersection. -/
def AndLaw (p q : Expression) (line column : Nat) (events : List CanonicalEvent) : Prop :=
  ∀ row, row ∈ selectedRows (some (.binaryOp .and p q line column)) events ↔
    row ∈ selectedRows (some p) events ∧ row ∈ selectedRows (some q) events

/-- `p OR q` selects the union. -/
def OrLaw (p q : Expression) (line column : Nat) (events : List CanonicalEvent) : Prop :=
  ∀ row, row ∈ selectedRows (some (.binaryOp .or p q line column)) events ↔
    row ∈ selectedRows (some p) events ∨ row ∈ selectedRows (some q) events

/-- `!p` selects the complement. -/
def NotLaw (p : Expression) (line column : Nat) (events : List CanonicalEvent) : Prop :=
  ∀ row, row ∈ selectedRows (some (.unaryOp .bang p line column)) events ↔
    row < events.length ∧ row ∉ selectedRows (some p) events

section Laws

variable (p q : Expression) (line column : Nat) (events : List CanonicalEvent)

theorem andLaw_iff : AndLaw p q line column events ↔
    ∀ event ∈ events, connectivePasses p q event ∧ passes (some p) event = true ∧
      passes (some q) event = true := by
  have law : AndLaw p q line column events ↔ ∀ event ∈ events,
      (connectivePasses p q event ↔
        passes (some p) event = true ∧ passes (some q) event = true) := by
    rw [← forall_rows_iff]
    refine forall_congr' fun row => ?_
    simp only [mem_selectedRows, passes_connective (.inl rfl)]
    cases events[row]? <;> simp
  rw [law]
  refine forall₂_congr fun event _ => ?_
  rcases connectivePasses_or p q event with passed | ⟨left, right⟩
  · simp only [passed, true_and, true_iff]
  · simp only [left, right, and_self, and_true, iff_true]

theorem orLaw_iff : OrLaw p q line column events ↔
    ∀ event ∈ events, connectivePasses p q event ∧
      (passes (some p) event = true ∨ passes (some q) event = true) := by
  have law : OrLaw p q line column events ↔ ∀ event ∈ events,
      (connectivePasses p q event ↔
        passes (some p) event = true ∨ passes (some q) event = true) := by
    rw [← forall_rows_iff]
    refine forall_congr' fun row => ?_
    simp only [mem_selectedRows, passes_connective (.inr rfl)]
    cases events[row]? <;> simp
  rw [law]
  refine forall₂_congr fun event _ => ?_
  rcases connectivePasses_or p q event with passed | ⟨left, right⟩
  · simp only [passed, true_and, true_iff]
  · simp only [left, right, or_self, and_true, iff_true]

theorem notLaw_iff : NotLaw p line column events ↔
    ∀ event ∈ events, passes (some p) event = false := by
  have law : NotLaw p line column events ↔
      ∀ event ∈ events, (True ↔ passes (some p) event = false) := by
    rw [← forall_rows_iff]
    refine forall_congr' fun row => ?_
    have every (event : CanonicalEvent) : passes
        (some (.unaryOp .bang p line column)) event = true := rfl
    simp only [mem_selectedRows, every]
    by_cases inside : row < events.length
    · rw [List.getElem?_eq_getElem inside]
      simp [inside]
    · rw [List.getElem?_eq_none (by omega)]
      simp [inside]
  rw [law]
  simp only [true_iff]

/-- The connectives compose sets of rows exactly where ignoring them makes no difference: a
conjunction where both operands select every row, a disjunction where one of them selects each
row, a negation where its operand selects none. All three at once hold for no events only. -/
theorem filter_composition_iff :
    (AndLaw p q line column events ↔ ∀ event ∈ events,
      connectivePasses p q event ∧ passes (some p) event = true ∧ passes (some q) event = true) ∧
    (OrLaw p q line column events ↔ ∀ event ∈ events,
      connectivePasses p q event ∧ (passes (some p) event = true ∨ passes (some q) event = true)) ∧
    (NotLaw p line column events ↔ ∀ event ∈ events, passes (some p) event = false) ∧
    (AndLaw p q line column events ∧ OrLaw p q line column events ∧ NotLaw p line column events ↔
      events = []) := by
  refine ⟨andLaw_iff p q line column events, orLaw_iff p q line column events,
    notLaw_iff p line column events, ?_⟩
  rw [andLaw_iff, orLaw_iff, notLaw_iff]
  constructor
  · rintro ⟨all, _, none⟩
    cases events with
    | nil => rfl
    | cons event rest =>
      have passed := (all event List.mem_cons_self).2.1
      rw [none event List.mem_cons_self] at passed
      cases passed
  · rintro rfl
    simp

end Laws

def sampleQuote : CanonicalEvent where
  exchangeTsNs := 1000
  receiveTsNs := 1001
  sequence := 1
  instrumentId := 7
  eventType := .quote
  side := .bid
  flags := 0
  priceTicks := 100
  quantity := 10
  venueId := 1
  sourceId := 1
  tradeOrOrderId := 42

def dearFilter : Expression :=
  .binaryOp .greater (.columnRef (nameBytes "price_ticks") 1 17) (.literal 200 1 31) 1 29

def largeFilter : Expression :=
  .binaryOp .greater (.columnRef (nameBytes "quantity") 1 39) (.literal 5 1 50) 1 48

/-- `price_ticks > 200 AND quantity > 5` returns a quote at 100. -/
theorem conjunction_ignored :
    TypeChecker.checkExpression dearFilter = .ok boolType ∧
      TypeChecker.checkExpression largeFilter = .ok boolType ∧
      selectedRows (some dearFilter) [sampleQuote] = [] ∧
      selectedRows (some (.binaryOp .and dearFilter largeFilter 1 35)) [sampleQuote] = [0] ∧
      ¬ AndLaw dearFilter largeFilter 1 35 [sampleQuote] := by
  have fails : passes (some dearFilter) sampleQuote = false := by decide
  refine ⟨by decide, by decide, by decide, by decide, ?_⟩
  intro law
  have both :=
    (andLaw_iff dearFilter largeFilter 1 35 [sampleQuote]).mp law sampleQuote List.mem_cons_self
  rw [fails] at both
  exact Bool.false_ne_true both.2.1

inductive Comparison where
  | equal
  | notEqual
  | less
  | lessEqual
  | greater
  | greaterEqual
  deriving DecidableEq, Repr

namespace Comparison

def token : Comparison → TokenType
  | equal => .equal
  | notEqual => .notEqual
  | less => .less
  | lessEqual => .lessEqual
  | greater => .greater
  | greaterEqual => .greaterEqual

def Holds : Comparison → Int → Int → Prop
  | equal, a, b => a = b
  | notEqual, a, b => a ≠ b
  | less, a, b => a < b
  | lessEqual, a, b => a ≤ b
  | greater, a, b => b < a
  | greaterEqual, a, b => b ≤ a

end Comparison

def columnValue : ColumnID → CanonicalEvent → Int
  | .exchangeTsNs, event => event.exchangeTsNs.toNat
  | .receiveTsNs, event => event.receiveTsNs.toNat
  | .sequence, event => event.sequence.toNat
  | .instrumentId, event => event.instrumentId.toNat
  | .eventType, event => event.eventType.value.toNat
  | .side, event => event.side.value.toNat
  | .flags, event => event.flags.toNat
  | .priceTicks, event => event.priceTicks.toInt
  | .quantity, event => event.quantity.toNat
  | .venueId, event => event.venueId.toNat
  | .sourceId, event => event.sourceId.toNat
  | .tradeOrOrderId, event => event.tradeOrOrderId.toNat

/-- The literal is beyond every value of the column, and the comparison is made with a smaller
number in its place: on which side of that number the value has to be. -/
def WrappedRight (op : Comparison) (field wrapped : Int) : Prop :=
  match op with
  | .equal | .notEqual => field ≠ wrapped
  | .less | .greaterEqual => field < wrapped
  | .lessEqual | .greater => field ≤ wrapped

def VenueRight (op : Comparison) (field literal : Nat) : Prop :=
  if literal < 2 ^ 16 then
    match op with
    | .equal => True
    | .notEqual => False
    | .less => literal < field
    | .lessEqual => literal ≤ field
    | .greater => field < literal
    | .greaterEqual => field ≤ literal
  else
    match op with
    | .equal | .greater | .greaterEqual => field ≠ literal % 2 ^ 16
    | .notEqual | .less | .lessEqual => field = literal % 2 ^ 16

/-- When `column op literal` decides an event as the integers do. -/
def LeafRight (column : ColumnID) (op : Comparison) (literal : UInt64)
    (event : CanonicalEvent) : Prop :=
  match column with
  | .priceTicks =>
    literal.toNat < 2 ^ 63 ∨ WrappedRight op event.priceTicks.toInt (literal.toNat - 2 ^ 64)
  | .quantity =>
    literal.toNat < 2 ^ 32 ∨
      WrappedRight op event.quantity.toNat ((literal.toNat % 2 ^ 32 : Nat) : Int)
  | .instrumentId =>
    match op with
    -- These two operators have no branch, and nothing is selected.
    | .greaterEqual => event.instrumentId.toNat < literal.toNat
    | .lessEqual => literal.toNat < event.instrumentId.toNat
    | _ => literal.toNat < 2 ^ 32 ∨
        WrappedRight op event.instrumentId.toNat ((literal.toNat % 2 ^ 32 : Nat) : Int)
  | .venueId => VenueRight op event.venueId.toNat literal.toNat
  -- The other columns have no branch, and everything is selected.
  | _ => op.Holds (columnValue column event) literal.toNat

theorem toInt_toInt64 (value : UInt64) :
    value.toInt64.toInt = if value.toNat < 2 ^ 63 then (value.toNat : Int)
      else value.toNat - 2 ^ 64 := by
  have bits := BitVec.toInt_eq_toNat_cond value.toBitVec
  change value.toInt64.toInt = _ at bits
  rw [bits]
  change (if 2 * value.toNat < 2 ^ 64 then (value.toNat : Int)
    else value.toNat - (2 ^ 64 : Nat)) = _
  split <;> split <;> first | rfl | omega

theorem matchesPrice_iff (op : Comparison) (litInt value : Int64) :
    matchesPrice op.token litInt value = true ↔ op.Holds value.toInt litInt.toInt := by
  cases op <;> simp [matchesPrice, Comparison.token, Comparison.Holds,
    Int64.lt_iff_toInt_lt, Int64.le_iff_toInt_le,
    ← Int64.toInt_inj]

theorem matchesQuantity_iff (op : Comparison) (target value : UInt32) :
    matchesQuantity op.token target value = true ↔ op.Holds value.toNat target.toNat := by
  cases op <;> simp [matchesQuantity, Comparison.token, Comparison.Holds,
    UInt32.lt_iff_toNat_lt, UInt32.le_iff_toNat_le,
    ← UInt32.toNat_inj]

theorem matchesInstrument_iff (op : Comparison) (target value : UInt32) :
    matchesInstrument op.token target value = true ↔
      (op ≠ .lessEqual ∧ op ≠ .greaterEqual) ∧ op.Holds value.toNat target.toNat := by
  cases op <;> simp [matchesInstrument, Comparison.token, Comparison.Holds,
    UInt32.lt_iff_toNat_lt, ← UInt32.toNat_inj]

theorem nameBytes_price {column : ColumnID} :
    nameBytes (getColumnName column) = nameBytes "price_ticks" ↔ column = .priceTicks := by
  cases column <;> decide

theorem nameBytes_instrument {column : ColumnID} :
    nameBytes (getColumnName column) = nameBytes "instrument_id" ↔ column = .instrumentId := by
  cases column <;> decide

theorem nameBytes_quantity {column : ColumnID} :
    nameBytes (getColumnName column) = nameBytes "quantity" ↔ column = .quantity := by
  cases column <;> decide

theorem nameBytes_venue {column : ColumnID} :
    nameBytes (getColumnName column) = nameBytes "venue_id" ↔ column = .venueId := by
  cases column <;> decide

theorem wrappedRight_iff {op : Comparison} {field wrapped literal : Int}
    (beyond : field < literal) :
    (op.Holds field wrapped ↔ op.Holds field literal) ↔ WrappedRight op field wrapped := by
  cases op <;> simp only [Comparison.Holds, WrappedRight] <;> omega

theorem venueRight_iff {op : Comparison} {field literal : Nat} (half : field < 2 ^ 16) :
    (field = literal % 2 ^ 16 ↔ op.Holds field literal) ↔ VenueRight op field literal := by
  unfold VenueRight
  split
  · rw [Nat.mod_eq_of_lt ‹_›]
    cases op <;> simp only [Comparison.Holds, iff_true, iff_false] <;> omega
  · cases op <;> simp only [Comparison.Holds] <;> omega

theorem leafRight_iff (column : ColumnID) (op : Comparison) (literal : UInt64)
    (event : CanonicalEvent) :
    (matchesLeaf op.token (nameBytes (getColumnName column)) literal event = true ↔
      op.Holds (columnValue column event) literal.toNat) ↔ LeafRight column op literal event := by
  unfold matchesLeaf
  simp only [nameBytes_price, nameBytes_instrument, nameBytes_quantity, nameBytes_venue]
  cases column with
  | priceTicks =>
    have small := event.priceTicks.toInt_lt
    simp only [if_true, matchesPrice_iff, toInt_toInt64, columnValue, LeafRight]
    split
    · rename_i short
      exact ⟨fun _ => .inl short, fun _ => Iff.rfl⟩
    · rename_i long
      simp only [long, false_or]
      exact wrappedRight_iff (by omega)
  | quantity =>
    have small := event.quantity.toNat_lt
    simp only [reduceCtorEq, if_false, if_true, matchesQuantity_iff,
      UInt64.toNat_toUInt32, columnValue, LeafRight]
    by_cases short : literal.toNat < 2 ^ 32
    · rw [Nat.mod_eq_of_lt short]
      exact ⟨fun _ => .inl short, fun _ => Iff.rfl⟩
    · simp only [short, false_or]
      exact wrappedRight_iff (by omega)
  | instrumentId =>
    have small := event.instrumentId.toNat_lt
    simp only [reduceCtorEq, if_false, if_true, matchesInstrument_iff,
      UInt64.toNat_toUInt32, columnValue]
    have known (branch : op ≠ .lessEqual ∧ op ≠ .greaterEqual) :
        ((op ≠ .lessEqual ∧ op ≠ .greaterEqual) ∧
          op.Holds event.instrumentId.toNat ((literal.toNat % 2 ^ 32 : Nat) : Int) ↔
          op.Holds event.instrumentId.toNat literal.toNat) ↔
          (literal.toNat < 2 ^ 32 ∨
            WrappedRight op event.instrumentId.toNat ((literal.toNat % 2 ^ 32 : Nat) : Int)) := by
      by_cases short : literal.toNat < 2 ^ 32
      · rw [Nat.mod_eq_of_lt short]
        exact ⟨fun _ => .inl short, fun _ => and_iff_right branch⟩
      · simp only [short, branch, false_or, ne_eq, not_false_eq_true, and_self, true_and]
        exact wrappedRight_iff (by omega)
    cases op with
    | greaterEqual => simp [Comparison.Holds, LeafRight]
    | lessEqual => simp [Comparison.Holds, LeafRight]
    | equal => exact known (by decide)
    | notEqual => exact known (by decide)
    | less => exact known (by decide)
    | greater => exact known (by decide)
  | venueId =>
    simp only [reduceCtorEq, if_false, if_true, columnValue, LeafRight, decide_eq_true_eq]
    rw [← UInt16.toNat_inj, UInt64.toNat_toUInt16]
    exact venueRight_iff event.venueId.toNat_lt
  | _ => simp [LeafRight]

def leaf (column : ColumnID) (op : Comparison) (literal : UInt64)
    (l₁ c₁ l₂ c₂ l₃ c₃ : Nat) : Expression :=
  .binaryOp op.token (.columnRef (nameBytes (getColumnName column)) l₁ c₁)
    (.literal literal l₂ c₂) l₃ c₃

/-- The rows a leaf selects are those whose value compares as integers do, exactly when each event
is decided as the integers decide it. -/
theorem leaf_selection_iff (column : ColumnID) (op : Comparison) (literal : UInt64)
    (l₁ c₁ l₂ c₂ l₃ c₃ : Nat)
    (events : List CanonicalEvent) :
    (∀ row, row ∈ selectedRows (some (leaf column op literal l₁ c₁ l₂ c₂ l₃ c₃)) events ↔
      ∃ event, events[row]? = some event ∧ op.Holds (columnValue column event) literal.toNat) ↔
      ∀ event ∈ events, LeafRight column op literal event := by
  simp only [mem_selectedRows, forall_rows_iff]
  refine forall₂_congr fun event _ => ?_
  exact leafRight_iff column op literal event

theorem leaf_selection_misses :
    selectedRows (some (leaf .instrumentId .greaterEqual 5 1 17 1 34 1 31)) [sampleQuote] = [] ∧
      Comparison.greaterEqual.Holds (columnValue .instrumentId sampleQuote) (5 : UInt64).toNat ∧
      ¬ (∀ row, row ∈ selectedRows (some (leaf .instrumentId .greaterEqual 5 1 17 1 34 1 31))
        [sampleQuote] ↔
        ∃ event, [sampleQuote][row]? = some event ∧
          Comparison.greaterEqual.Holds (columnValue .instrumentId event) (5 : UInt64).toNat) := by
  have none : selectedRows (some (leaf .instrumentId .greaterEqual 5 1 17 1 34 1 31))
      [sampleQuote] = [] := by
    decide
  have holds : Comparison.greaterEqual.Holds (columnValue .instrumentId sampleQuote)
      (5 : UInt64).toNat := by
    change (5 : Int) ≤ 7
    decide
  refine ⟨none, holds, fun law => ?_⟩
  have selected := (law 0).mpr ⟨sampleQuote, rfl, holds⟩
  rw [none] at selected
  cases selected

end VectorTick.VectorExecutor
