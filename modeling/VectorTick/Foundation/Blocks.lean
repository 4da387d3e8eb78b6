import Mathlib.Order.Lattice
import Mathlib.Data.List.Basic

/-! Blocks of keyed elements, one after another. -/

set_option autoImplicit false

namespace Foundation

section Blocks
variable {α κ : Type} [LinearOrder κ] (key : α → κ)

/-- A key in the range that a block covers. -/
def Covers (block : List α) (k : κ) : Prop :=
  ∃ low ∈ block, ∃ high ∈ block, key low ≤ k ∧ k ≤ key high

/-- Blocks whose ranges are disjoint. -/
def Apart (first second : List α) : Prop := ∀ k, ¬ (Covers key first k ∧ Covers key second k)

variable {key}

theorem Apart.symm {first second : List α} (apart : Apart key first second) :
    Apart key second first :=
  fun k both => apart k both.symm

theorem Apart.before {first second : List α} (apart : Apart key first second)
    {low : α} (member : low ∈ first)
    (start : ∀ b ∈ second, key low ≤ key b) : ∀ a ∈ first, ∀ b ∈ second, key a < key b := by
  intro a inFirst b inSecond
  by_contra reached
  exact apart (key b) ⟨⟨low, member, a, inFirst, start b inSecond, not_lt.mp reached⟩,
    ⟨b, inSecond, b, inSecond, le_rfl, le_rfl⟩⟩

theorem increasing_flatMap {ι : Type} {block : ι → List α} {least : ι → κ} {blocks : List ι}
    (sorted : blocks.Pairwise fun i j => least i ≤ least j)
    (attained : ∀ i ∈ blocks, block i ≠ [] → ∃ a ∈ block i, key a = least i)
    (bounded : ∀ i ∈ blocks, ∀ a ∈ block i, least i ≤ key a)
    (apart : blocks.Pairwise fun i j => Apart key (block i) (block j))
    (increasing : ∀ i ∈ blocks, (block i).Pairwise fun a b => key a < key b) :
    (blocks.flatMap block).Pairwise fun a b => key a < key b := by
  refine List.pairwise_flatMap.mpr ⟨increasing, ?_⟩
  refine (sorted.and apart).imp_of_mem fun {i j} hereI hereJ both a inFirst b inSecond => ?_
  obtain ⟨le, disjoint⟩ := both
  obtain ⟨low, member, same⟩ := attained i hereI (List.ne_nil_of_mem inFirst)
  have start : ∀ b ∈ block j, key low ≤ key b := by
    intro b inSecond
    calc key low = least i := same
      _ ≤ least j := le
      _ ≤ key b := bounded j hereJ b inSecond
  exact disjoint.before member start a inFirst b inSecond

end Blocks

end Foundation
