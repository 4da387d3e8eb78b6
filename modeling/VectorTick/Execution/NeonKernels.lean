import VectorTick.Execution.VectorExecutor
import VectorTick.Foundation.StridedLoops

/-! The NEON paths of the kernels, taken when there is no input selection.

An intrinsic works on each lane by itself: a comparison fills a lane with ones or zeros.
-/

set_option autoImplicit false

namespace VectorTick.SimdDispatcher

open Foundation

section Intrinsics

variable {T W : Type} {n : Nat}

def vdupq (n : Nat) (value : T) : Vector T n := Vector.replicate n value

/-- A load of the elements from an index on. -/
def vld1q (n : Nat) (zero : T) (data : List T) (i : Nat) : Vector T n :=
  Vector.ofFn fun lane => data.getD (i + lane.val) zero

def vcompareq (ones zeros : W) (test : T → T → Bool) (first second : Vector T n) : Vector W n :=
  Vector.ofFn fun lane => if test (first.get lane) (second.get lane) then ones else zeros

def vcgtqS64 : Vector Int64 2 → Vector Int64 2 → Vector UInt64 2 :=
  vcompareq 0xFFFFFFFFFFFFFFFF 0 fun value threshold => value > threshold

def vcltqS64 : Vector Int64 2 → Vector Int64 2 → Vector UInt64 2 :=
  vcompareq 0xFFFFFFFFFFFFFFFF 0 fun value threshold => value < threshold

def vceqqU32 : Vector UInt32 4 → Vector UInt32 4 → Vector UInt32 4 :=
  vcompareq 0xFFFFFFFF 0 fun value other => value = other

def vaddqS64 (first second : Vector Int64 2) : Vector Int64 2 :=
  Vector.ofFn fun lane => first.get lane + second.get lane

end Intrinsics

section Kernels

variable {T W : Type} [DecidableEq W]

/-- `if (vgetq_lane(vcmp, lane) != 0) out_sel[out_count++] = i + lane`,
for one lane after the other. -/
def pushLanes {n : Nat} (zeros : W) (vcmp : Vector W n) (i : Nat) (outSel : List UInt16) :
    List UInt16 :=
  (List.finRange n).foldl (fun outSel lane =>
    if vcmp.get lane ≠ zeros then outSel ++ [UInt16.ofNat (i + lane.val)] else outSel) outSel

/-- What the filter kernels do: whole vectors, then the rest one value at a time. -/
def filterLanes (n : Nat) (zeros : W) (vcmp : Nat → Vector W n) (zero : T)
    (test : T → Bool) (data : List T)
    (inCount : Nat) : List UInt16 :=
  unrolled n inCount (fun i outSel => pushLanes zeros (vcmp i) i outSel) id
    (fun i outSel => if test (data.getD i zero) then outSel ++ [UInt16.ofNat i] else outSel) []

end Kernels

def filterGtI64Neon (data : List Int64) (threshold : Int64) : Nat → List UInt16 :=
  filterLanes 2 0 (fun i => vcgtqS64 (vld1q 2 0 data i) (vdupq 2 threshold)) 0
    (fun value => value > threshold) data

def filterLtI64Neon (data : List Int64) (threshold : Int64) : Nat → List UInt16 :=
  filterLanes 2 0 (fun i => vcltqS64 (vld1q 2 0 data i) (vdupq 2 threshold)) 0
    (fun value => value < threshold) data

def filterEqU32Neon (data : List UInt32) (val : UInt32) : Nat → List UInt16 :=
  filterLanes 4 0 (fun i => vceqqU32 (vld1q 4 0 data i) (vdupq 4 val)) 0
    (fun value => value = val) data

/-- Two accumulators of two lanes each; the sums wrap. -/
def sumI64Neon (data : List Int64) (count : Nat) : Int64 :=
  if count = 0 then 0
  else
    unrolled 4 count
      (fun i sums => (vaddqS64 sums.1 (vld1q 2 0 data i), vaddqS64 sums.2 (vld1q 2 0 data (i + 2))))
      (fun sums => (vaddqS64 sums.1 sums.2).get 0 + (vaddqS64 sums.1 sums.2).get 1)
      (fun i total => total + data.getD i 0) (vdupq 2 0, vdupq 2 0)

section Lanes

variable {T : Type} {n : Nat}

theorem get_ofFn (lanes : Fin n → T) (lane : Fin n) : (Vector.ofFn lanes).get lane = lanes lane :=
  Vector.getElem_ofFn lane.isLt

theorem get_vdupq (value : T) (lane : Fin n) : (vdupq n value).get lane = value :=
  Vector.getElem_replicate lane.isLt

theorem get_vld1q (zero : T) (data : List T) (i : Nat) (lane : Fin n) :
    (vld1q n zero data i).get lane = data.getD (i + lane.val) zero := get_ofFn _ lane

theorem get_vaddqS64 (first second : Vector Int64 2) (lane : Fin 2) :
    (vaddqS64 first second).get lane = first.get lane + second.get lane := get_ofFn _ lane

theorem get_vcompareq {W : Type} {ones zeros : W} (differ : ones ≠ zeros)
    (test : T → T → Bool) (zero value : T)
    (data : List T) (i : Nat) (lane : Fin n) :
    (vcompareq ones zeros test (vld1q n zero data i) (vdupq n value)).get lane ≠ zeros ↔
      test (data.getD (i + lane.val) zero) value = true := by
  rw [vcompareq, get_ofFn, get_vld1q, get_vdupq]
  split
  · next kept => exact iff_of_true differ kept
  · next dropped => exact iff_of_false (fun same => same rfl) dropped

end Lanes

section Filters

variable {T W : Type}

/-- The first `count` rows that pass. -/
def passing (pass : Nat → Bool) (count : Nat) : List UInt16 :=
  ((List.range count).filter pass).map UInt16.ofNat

theorem passing_add (pass : Nat → Bool) (i n : Nat) : passing pass (i + n) =
    passing pass i ++ ((List.range n).filter fun lane => pass (i + lane)).map fun lane =>
      UInt16.ofNat (i + lane) := by
  rw [passing, passing, List.range_add, List.filter_append, List.map_append,
    List.filter_map, List.map_map]
  rfl

theorem passing_succ (pass : Nat → Bool) (i : Nat) :
    passing pass (i + 1) = if pass i then passing pass i ++ [UInt16.ofNat i]
      else passing pass i := by
  rw [passing_add]
  cases kept : pass i <;> simp [List.range_one, kept]

theorem pushLanes_eq [DecidableEq W] {n : Nat} {zeros : W} {vcmp : Vector W n}
    {i : Nat} {pass : Nat → Bool}
    (lanes : ∀ lane : Fin n, vcmp.get lane ≠ zeros ↔ pass (i + lane.val) = true) :
    pushLanes zeros vcmp i (passing pass i) = passing pass (i + n) := by
  have pushed : ∀ (some : List (Fin n)) (outSel : List UInt16),
      some.foldl (fun outSel lane =>
        if vcmp.get lane ≠ zeros then outSel ++ [UInt16.ofNat (i + lane.val)] else outSel) outSel =
      outSel ++ ((some.map Fin.val).filter fun lane => pass (i + lane)).map fun lane =>
        UInt16.ofNat (i + lane) := by
    intro some outSel
    induction some generalizing outSel with
    | nil => simp
    | cons lane rest ih =>
      rw [List.foldl_cons, ih, List.map_cons, List.filter_cons]
      by_cases kept : pass (i + lane.val) = true
      · rw [if_pos ((lanes lane).mpr kept), if_pos kept, List.map_cons,
          List.append_assoc, List.singleton_append]
      · rw [if_neg (fun differs => kept ((lanes lane).mp differs)), if_neg kept]
  rw [pushLanes, pushed, passing_add, List.map_coe_finRange_eq_range]

theorem filterLanes_eq [DecidableEq W] {n : Nat} {zeros : W} {vcmp : Nat → Vector W n}
    {zero : T} {test : T → Bool}
    {data : List T} (lanes : ∀ i (lane : Fin n), (vcmp i).get lane ≠ zeros ↔
      test (data.getD (i + lane.val) zero) = true)
    (inCount : Nat) :
    filterLanes n zeros vcmp zero test data inCount =
      passing (fun i => test (data.getD i zero)) inCount := by
  refine @unrolled_invariant _ _ n inCount _ _ _ _
    (fun i outSel => outSel = passing (fun i => test (data.getD i zero)) i)
    (fun i outSel => outSel = passing (fun i => test (data.getD i zero)) i) rfl ?_ ?_ ?_
  · intro i outSel _ same
    rw [same]
    exact pushLanes_eq (lanes i)
  · exact fun i outSel same => same
  · intro i outSel _ same
    rw [same, passing_succ]

theorem filterRows_eq_passing (zero : T) (test : T → Bool) (data : List T) {inCount : Nat}
    (rows : inCount ≤ 65536) :
    filterRows zero test data none inCount =
      passing (fun i => test (data.getD i zero)) inCount := by
  rw [filterRows, visited, List.filter_map, passing]
  congr 1
  refine List.filter_congr fun i member => ?_
  have inside := List.mem_range.mp member
  rw [Function.comp_apply, UInt16.toNat_ofNat', Nat.mod_eq_of_lt (by omega)]

end Filters

/-- The sum of the first values, modulo 2^64. -/
def partialSum (data : List Int64) (count : Nat) : Int64 :=
  ((List.range count).map fun i => data.getD i 0).foldl (fun total value => total + value) 0

theorem partialSum_succ (data : List Int64) (count : Nat) :
    partialSum data (count + 1) = partialSum data count + data.getD count 0 := by
  rw [partialSum, List.range_succ, List.map_append, List.foldl_append]
  rfl

theorem sumI64_eq (data : List Int64) {count : Nat} (rows : count ≤ 65536) :
    sumI64 data none count = partialSum data count := by
  rw [sumI64, visitedValues, visited, List.map_map, partialSum]
  congr 1
  refine List.map_congr_left fun i member => ?_
  have inside := List.mem_range.mp member
  rw [Function.comp_apply, UInt16.toNat_ofNat', Nat.mod_eq_of_lt (by omega)]

theorem sumI64Neon_eq (data : List Int64) (count : Nat) :
    sumI64Neon data count = partialSum data count := by
  rw [sumI64Neon]
  split
  · next none =>
    rw [none]
    rfl
  · refine @unrolled_invariant _ _ 4 count _ _ _ _
      (fun i sums => sums.1.get 0 + sums.2.get 0 + (sums.1.get 1 + sums.2.get 1) =
        partialSum data i)
      (fun i total => total = partialSum data i) rfl ?_ ?_ ?_
    · intro i sums _ sum
      simp only [get_vaddqS64, get_vld1q]
      rw [partialSum_succ, partialSum_succ, partialSum_succ, partialSum_succ, ← sum]
      change sums.1.get 0 + data.getD i 0 + (sums.2.get 0 + data.getD (i + 2) 0) +
        (sums.1.get 1 + data.getD (i + 1) 0 + (sums.2.get 1 + data.getD (i + 2 + 1) 0)) = _
      ac_rfl
    · intro i sums sum
      simp only [get_vaddqS64]
      exact sum
    · intro i total _ same
      rw [same, partialSum_succ]

/-- For every count of rows that a selection can name, the NEON paths and the portable loops
agree. -/
theorem neon_eq_portable {count : Nat} (rows : count ≤ 65536) :
    (∀ data threshold, filterGtI64Neon data threshold count =
      filterGtI64 data threshold none count) ∧
      (∀ data threshold, filterLtI64Neon data threshold count =
        filterLtI64 data threshold none count) ∧
      (∀ data val, filterEqU32Neon data val count = filterEqU32 data val none count) ∧
      ∀ data, sumI64Neon data count = sumI64 data none count := by
  refine ⟨fun data threshold => ?_, fun data threshold => ?_, fun data val => ?_, fun data => ?_⟩
  · rw [filterGtI64Neon, filterGtI64, filterRows_eq_passing _ _ _ rows]
    exact filterLanes_eq (fun i lane => get_vcompareq (by decide) _ 0 threshold data i lane) count
  · rw [filterLtI64Neon, filterLtI64, filterRows_eq_passing _ _ _ rows]
    exact filterLanes_eq (fun i lane => get_vcompareq (by decide) _ 0 threshold data i lane) count
  · rw [filterEqU32Neon, filterEqU32, filterRows_eq_passing _ _ _ rows]
    exact filterLanes_eq (fun i lane => get_vcompareq (by decide) _ 0 val data i lane) count
  · rw [sumI64Neon_eq, sumI64_eq data rows]

theorem neon_eq_portable_seven :
    (∀ data threshold, filterGtI64Neon data threshold 7 = filterGtI64 data threshold none 7) ∧
      (∀ data threshold, filterLtI64Neon data threshold 7 = filterLtI64 data threshold none 7) ∧
      (∀ data val, filterEqU32Neon data val 7 = filterEqU32 data val none 7) ∧
      ∀ data, sumI64Neon data 7 = sumI64 data none 7 :=
  neon_eq_portable (by decide)

end VectorTick.SimdDispatcher
